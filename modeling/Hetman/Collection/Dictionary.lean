import Hetman.Collection.Sequence

/-!
Dictionaries: keys with their values, in the order in which the keys came.

Keys are the same when they are equal as values, so `1` and `True` are one key;
the key that came first stays. A list or dictionary is no key.
-/

namespace Hetman.Heap

/-! ## Entries -/

def checkKey (key : Value) : Except Fault Unit :=
  match key.unhashable? with
  | some typeName => .error (.type (.unhashable typeName))
  | none => .ok ()

/-- The value of a key is replaced, or a new entry stands at the end. -/
def putEntry (key value : Value) : List (Value × Value) → List (Value × Value)
  | [] => [(key, value)]
  | (k, v) :: rest =>
    if Value.sameKey k key then (k, value) :: rest else (k, v) :: putEntry key value rest

def dropEntry (key : Value) : List (Value × Value) → List (Value × Value)
  | [] => []
  | (k, v) :: rest => if Value.sameKey k key then rest else (k, v) :: dropEntry key rest

def lookup? (h : Heap) (ref : Nat) (key : Value) : Except Fault (Option Value) := do
  checkKey key
  return (entryAt? (h.dict ref) key).map (·.2)

def lookup (h : Heap) (ref : Nat) (key : Value) : Except Fault Value := do
  match ← h.lookup? ref key with
  | some v => return v
  | none => throw (.script (.keyMissing (← h.display key)))

def setEntry (h : Heap) (ref : Nat) (key value : Value) : Except Fault Heap := do
  checkKey key
  return h.setDict ref (putEntry key value (h.dict ref))

/-! ## Functions -/

def dictRef (v : Value) (otherwise : ArgumentFault) : Except Fault Nat :=
  match v with
  | .dict ref => .ok ref
  | _ => .error (argumentFault otherwise)

def keys (h : Heap) (dictionary : Value) : Outcome := do
  let ref ← dictRef dictionary .dictionary
  return h.newList ((h.dict ref).map (·.1))

def values (h : Heap) (dictionary : Value) : Outcome := do
  let ref ← dictRef dictionary .dictionary
  return h.newList ((h.dict ref).map (·.2))

def hasKey (h : Heap) (dictionary key : Value) : Outcome := do
  let ref ← dictRef dictionary .firstDictionary
  return (.bool (← h.lookup? ref key).isSome, h)

def removeKey (h : Heap) (dictionary key : Value) : Outcome := do
  let ref ← dictRef dictionary .removeFrom
  match ← h.lookup? ref key with
  | some _ => return (.none, h.setDict ref (dropEntry key (h.dict ref)))
  | none => throw (argumentFault (.removeMissing (← h.display key)))

end Hetman.Heap
