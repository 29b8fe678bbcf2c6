import Hetman.Value.Equality

/-!
Lists as the built-in functions change and read them.

Every function checks its arguments before it changes anything, so a call that
fails leaves the heap as it was.
-/

namespace Hetman.Heap

/-- A value and the heap after it was made. -/
abbrev Outcome := Except Fault (Value × Heap)

def argumentFault (cause : ArgumentFault) : Fault :=
  .script (.argument cause)

def listRef (v : Value) (otherwise : ArgumentFault) : Except Fault Nat :=
  match v with
  | .list ref => .ok ref
  | _ => .error (argumentFault otherwise)

def integer (v : Value) (otherwise : ArgumentFault) : Except Fault Int :=
  match v.int? with
  | some n => .ok n
  | none => .error (argumentFault otherwise)

/-- A place among the first `bound`; any other integer is the given fault. -/
def place (n : Int) (bound : Nat) (otherwise : ArgumentFault) : Except Fault Nat :=
  if 0 ≤ n && n < bound then .ok n.toNat else .error (argumentFault otherwise)

/-! ## Changing -/

def append (h : Heap) (array value : Value) : Outcome := do
  let ref ← listRef array (.firstArrayOf .append)
  return (.none, h.setList ref (h.list ref ++ [value]))

/-- Before the element at a place, or at the end. -/
def insert (h : Heap) (array index value : Value) : Outcome := do
  let ref ← listRef array (.firstArrayOf .insert)
  let n ← integer index (.secondInteger .insert)
  let i ← place n ((h.list ref).length + 1) .arrayBounds
  return (.none, h.setList ref ((h.list ref).insertIdx i value))

def remove (h : Heap) (array index : Value) : Outcome := do
  let ref ← listRef array (.firstArrayOf .remove)
  let n ← integer index (.secondInteger .remove)
  let i ← place n (h.list ref).length .arrayBounds
  return (.none, h.setList ref ((h.list ref).eraseIdx i))

def pop (h : Heap) (array : Value) : Outcome := do
  let ref ← listRef array (.arrayOf .pop)
  match (h.list ref).getLast? with
  | some last => return (last, h.setList ref (h.list ref).dropLast)
  | none => throw (argumentFault .popEmpty)

def clear (h : Heap) (array : Value) : Outcome := do
  let ref ← listRef array (.arrayOf .clear)
  return (.none, h.setList ref [])

/-! ## Reading -/

/-- Negative bounds count from the end. -/
def sliceBound (length : Nat) (n : Int) : Nat :=
  let n := if n < 0 then n + length else n
  min n.toNat length

def slice (h : Heap) (array start : Value) (stop : Option Value) : Outcome := do
  let ref ← listRef array (.firstArrayOf .slice)
  let items := h.list ref
  let low ← integer start .sliceBounds
  let high : Int ← match stop with
    | some .none | none => pure (items.length : Int)
    | some v => integer v .sliceBounds
  let i := sliceBound items.length low
  let j := sliceBound items.length high
  return h.newList ((items.take j).drop i)

def contains (h : Heap) (array value : Value) : Outcome := do
  let ref ← listRef array (.firstArrayOf .contains)
  return (.bool (← h.indexOf? value (h.list ref)).isSome, h)

/-- The first place of a value, or minus one. -/
def indexOf (h : Heap) (array value : Value) : Outcome := do
  let ref ← listRef array (.firstArrayOf .indexOf)
  match ← h.indexOf? value (h.list ref) with
  | some i => return (.int i, h)
  | none => return (.int (-1), h)

def length (h : Heap) (v : Value) : Outcome :=
  match v with
  | .list ref => .ok (.int (h.list ref).length, h)
  | .tuple items => .ok (.int items.length, h)
  | .text s => .ok (.int s.length, h)
  | _ => .error (argumentFault .measured)

/-! ## Elements by index -/

def elementAt (h : Heap) (ref : Nat) (index : Value) : Except Fault Value :=
  match index.int? with
  | none => .error (.script .indexType)
  | some n =>
    if n < 0 then .error (.script .indexBounds)
    else match (h.list ref)[n.toNat]? with
      | some v => .ok v
      | none => .error (.script .indexBounds)

def setElement (h : Heap) (ref : Nat) (index value : Value) : Except Fault Heap :=
  match index.int? with
  | none => .error (.script .indexType)
  | some n =>
    if 0 ≤ n && n < (h.list ref).length then
      .ok (h.setList ref ((h.list ref).set n.toNat value))
    else .error (.script .indexBounds)

end Hetman.Heap
