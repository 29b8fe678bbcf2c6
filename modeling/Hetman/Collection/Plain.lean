import Hetman.Collection.Dictionary
import Hetman.Tree.Reading

/-!
Plain values put into the heap.
-/

namespace Hetman.Heap

mutual

def store (h : Heap) : Datum → Value × Heap
  | .none => (.none, h)
  | .bool b => (.bool b, h)
  | .int n => (.int n, h)
  | .float x =>
    if x.isNaN then
      let (ident, h) := h.newIdent
      (.nan ident, h)
    else (.float x, h)
  | .text s => (.text s, h)
  | .list items =>
    let (values, h) := storeAll h items
    h.newList values
  | .tuple items =>
    let (values, h) := storeAll h items
    (.tuple values, h)
  | .dict entries =>
    let (entries, h) := storeEntries h entries
    h.newDict (entries.foldl (fun all e => putEntry e.1 e.2 all) [])
  | .record name fields => (.tree (.ofOutline (.record name fields)), h)

def storeAll (h : Heap) : List Datum → List Value × Heap
  | [] => ([], h)
  | item :: rest =>
    let (value, h) := store h item
    let (values, h) := storeAll h rest
    (value :: values, h)

def storeEntries (h : Heap) : List (Datum × Datum) → List (Value × Value) × Heap
  | [] => ([], h)
  | (key, value) :: rest =>
    let (key, h) := store h key
    let (value, h) := store h value
    let (entries, h) := storeEntries h rest
    ((key, value) :: entries, h)

end

end Hetman.Heap
