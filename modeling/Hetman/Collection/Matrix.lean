import Hetman.Collection.Dictionary

/-!
Lists of lists as matrices.

A nested list can be as deep as there are lists, and one that is deeper is inside
of itself. The limit that a host sets to nested calls is left out: a list is
flattened to any depth, and only one inside of itself is too deep.
-/

namespace Hetman.Heap

/-! ## Making and measuring -/

def newLists (h : Heap) : List (List Value) → List Value × Heap
  | [] => ([], h)
  | items :: rest =>
    let (row, h) := h.newList items
    let (rows, h) := newLists h rest
    (row :: rows, h)

def newMatrix (h : Heap) (rows : List (List Value)) : Value × Heap :=
  let (refs, h) := h.newLists rows
  h.newList refs

def createMatrix (h : Heap) (rows cols fill : Value) : Outcome :=
  match rows.int?, cols.int? with
  | some r, some c =>
    if r ≤ 0 || c ≤ 0 then .error (argumentFault .matrixPositive)
    else .ok (h.newMatrix (List.replicate r.toNat (List.replicate c.toNat fill)))
  | _, _ => .error (argumentFault .matrixSizes)

def matrixSize (h : Heap) (matrix : Value) : Outcome := do
  let ref ← listRef matrix .array
  let rows := h.list ref
  let columns := match rows with
    | .list first :: _ => (h.list first).length
    | _ => 0
  return h.newList [.int rows.length, .int columns]

/-! ## Rows and columns -/

/-- The rows of a matrix, if every one is a list. -/
def rows? (h : Heap) : List Value → Option (List (List Value))
  | [] => some []
  | .list ref :: rest => (rows? h rest).map (h.list ref :: ·)
  | _ :: _ => none

def transpose (h : Heap) (matrix : Value) : Outcome := do
  let ref ← listRef matrix .nonEmptyArray
  let items := h.list ref
  if items.isEmpty then throw (argumentFault .nonEmptyArray)
  match h.rows? items with
  | none => throw (argumentFault .matrix)
  | some rows =>
    let width := (rows.headD []).length
    if rows.all fun row => row.length == width then
      return h.newMatrix ((List.range width).map fun i => rows.filterMap fun row => row[i]?)
    else throw (argumentFault .raggedRows)

/-- The very list. -/
def getRow (h : Heap) (matrix index : Value) : Outcome := do
  let ref ← listRef matrix .firstArray
  let n ← integer index .rowIndex
  let i ← place n (h.list ref).length .rowBounds
  return ((h.list ref).getD i .none, h)

/-- A new list. The first row says how many columns there are. -/
def getCol (h : Heap) (matrix index : Value) : Outcome := do
  let ref ← listRef matrix .firstNonEmptyArray
  let items := h.list ref
  if items.isEmpty then throw (argumentFault .firstNonEmptyArray)
  let n ← integer index .columnIndex
  match h.rows? items with
  | none => throw (argumentFault .matrix)
  | some rows =>
    let i ← place n (rows.headD []).length .columnBounds
    let column ← rows.mapM fun row => match row[i]? with
      | some v => .ok v
      | none => .error .outOfRange
    return h.newList column

/-! ## Nested lists -/

/-- At most `depth` lists deep. -/
def flattenAt (h : Heap) : (depth : Nat) → List Value → Except Fault (List Value)
  | 0, _ => .error .tooDeep
  | depth + 1, items => do
    let parts ← items.mapM fun item => match item with
      | .list ref => flattenAt h depth (h.list ref)
      | item => .ok [item]
    return parts.flatten

def flatten (h : Heap) (array : Value) : Outcome := do
  let ref ← listRef array .array
  return h.newList (← h.flattenAt (h.lists.size + 1) (h.list ref))

def size (h : Heap) (v : Value) : Except Fault Nat :=
  match v with
  | .list ref => .ok (h.list ref).length
  | .dict ref => .ok (h.dict ref).length
  | .tuple items => .ok items.length
  | .text s => .ok s.length
  | v => .error (.type (.noLength v.typeName))

def part (h : Heap) (v index : Value) (i : Nat) : Except Fault Value :=
  match v with
  | .list ref => .ok ((h.list ref).getD i .none)
  | .tuple items => .ok (items.getD i .none)
  | .text s => .ok (.text (String.ofList ((s.toList.drop i).take 1)))
  | .dict ref => do
    match ← h.lookup? ref index with
    | some part => return part
    | none => throw (.missingKey (← h.quoted index))
  | v => .error (.type (.noLength v.typeName))

/-- `nth` counts the indices from one. -/
def descend (h : Heap) (nth : Nat) (v : Value) : List Value → Except Fault Value
  | [] => .ok v
  | index :: rest => do
    let n ← integer index (.indexType nth)
    let i ← place n (← h.size v) (.indexBounds nth)
    descend h (nth + 1) (← h.part v index i) rest

def setPart (h : Heap) (v index value : Value) : Except Fault Heap := do
  let n ← integer index .lastIndexType
  let i ← place n (← h.size v) .lastIndexBounds
  match v with
  | .list ref => return h.setList ref ((h.list ref).set i value)
  | .dict ref => h.setEntry ref index value
  | v => throw (.type (.itemAssignment v.typeName))

def setAt (h : Heap) (array : Value) (indices : List Value) (value : Value) : Outcome := do
  let container ← h.descend 1 array indices.dropLast
  return (.none, ← h.setPart container (indices.getLastD .none) value)

end Hetman.Heap
