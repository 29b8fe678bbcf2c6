import Hetman.Bindings
import Hetman.Value

/-!
The heap: lists, dictionaries and objects by reference.

References are positions in the three stores; a store only grows, so a
reference stays good. Identities for results that are not numbers, for library
objects and for methods read as values are drawn from one counter.
-/

namespace Hetman

/-- An object: its class, its fields and whether it was destroyed. -/
structure Instance where
  classId : Nat
  fields : Bindings Value := []
  destroyed : Bool := false
  deriving Inhabited

structure Heap where
  lists : Array (List Value) := #[]
  dicts : Array (List (Value × Value)) := #[]
  objects : Array Instance := #[]
  /-- The next identity. The first three are the constant that is not a number
  and the two libraries as a program finds them. -/
  nextIdent : Nat := 3
  deriving Inhabited

namespace Heap

/-! ## Reading -/

def list (h : Heap) (ref : Nat) : List Value :=
  h.lists[ref]?.getD []

def dict (h : Heap) (ref : Nat) : List (Value × Value) :=
  h.dicts[ref]?.getD []

def object (h : Heap) (ref : Nat) : Instance :=
  h.objects[ref]?.getD default

/-- How many containers there are. No path through lists and dictionaries that
meets no container twice is longer. -/
def containers (h : Heap) : Nat :=
  h.lists.size + h.dicts.size

def items? (h : Heap) : Value → Option (List Value)
  | .text s => some (s.toList.map fun c => .text (String.singleton c))
  | .tuple items => some items
  | .list ref => some (h.list ref)
  | .dict ref => some ((h.dict ref).map (·.1))
  | _ => none

/-! ## Writing -/

def newList (h : Heap) (items : List Value) : Value × Heap :=
  (.list h.lists.size, { h with lists := h.lists.push items })

def newDict (h : Heap) (entries : List (Value × Value)) : Value × Heap :=
  (.dict h.dicts.size, { h with dicts := h.dicts.push entries })

def newObject (h : Heap) (instance_ : Instance) : Nat × Heap :=
  (h.objects.size, { h with objects := h.objects.push instance_ })

def newIdent (h : Heap) : Nat × Heap :=
  (h.nextIdent, { h with nextIdent := h.nextIdent + 1 })

def setList (h : Heap) (ref : Nat) (items : List Value) : Heap :=
  { h with lists := h.lists.setIfInBounds ref items }

def setDict (h : Heap) (ref : Nat) (entries : List (Value × Value)) : Heap :=
  { h with dicts := h.dicts.setIfInBounds ref entries }

def setObject (h : Heap) (ref : Nat) (instance_ : Instance) : Heap :=
  { h with objects := h.objects.setIfInBounds ref instance_ }

/-! ## Truth -/

def truthy (h : Heap) : Value → Bool
  | .none => false
  | .bool b => b
  | .int n => n != 0
  | .float x => x != 0
  | .complex re im => re != 0 || im != 0
  | .text s => s != ""
  | .tuple items => !items.isEmpty
  | .list ref => !(h.list ref).isEmpty
  | .dict ref => !(h.dict ref).isEmpty
  | _ => true

end Heap

end Hetman
