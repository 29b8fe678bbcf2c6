import Hetman.Value.Equality

/-!
Order of values.

Real numbers are ordered by their amount, texts by code points. Lists and
tuples are ordered by the first items that differ, and by length when one goes
on where the other ends. Nothing else is ordered.
-/

namespace Hetman

namespace CompareOp

/-- What is not a number is accepted by none but inequality. -/
def accepts (op : CompareOp) (outcome : Option Ordering) : Bool :=
  match op, outcome with
  | .lt, some o => o == .lt
  | .gt, some o => o == .gt
  | .le, some o => o != .gt
  | .ge, some o => o != .lt
  | .eq, some o => o == .eq
  | .ne, o => o != some .eq
  | _, _ => false

end CompareOp

namespace Heap

def orderFault (op : CompareOp) (a b : Value) : Fault :=
  .type (.order op.symbol a.typeName b.typeName)

def orderPlain (op : CompareOp) (a b : Value) : Except Fault Bool :=
  match a, b with
  | .text s, .text t => .ok (op.accepts (some (compareOfLessAndEq s t)))
  | a, b =>
    if a.isReal && b.isReal then
      match Number.ofValue? a, Number.ofValue? b with
      | some m, some n => .ok (op.accepts (m.compare? n))
      | _, _ => .error (orderFault op a b)
    else .error (orderFault op a b)

/-- Compares sequences by the first items that differ. -/
def orderItems (h : Heap) (order : Value → Value → Except Fault Bool) (op : CompareOp) :
    List Value → List Value → Except Fault Bool
  | x :: xs, y :: ys => do
    if ← h.matching x y then orderItems h order op xs ys else order x y
  | [], [] => .ok (op.accepts (some .eq))
  | [], _ :: _ => .ok (op.accepts (some .lt))
  | _ :: _, [] => .ok (op.accepts (some .gt))

/-- At most `depth` sequences deep. -/
def orderAt (h : Heap) (op : CompareOp) : (depth : Nat) → Value → Value → Except Fault Bool
  | 0, _, _ => .error .tooDeep
  | depth + 1, a, b =>
    match a, b with
    | .list r, .list q => h.orderItems (orderAt h op depth) op (h.list r) (h.list q)
    | .tuple xs, .tuple ys => h.orderItems (orderAt h op depth) op xs ys
    | a, b => orderPlain op a b

/-- How deep tuples and lists can be nested before a comparison gives up. -/
def orderDepth : Nat := 1000

def compare (h : Heap) (op : CompareOp) (a b : Value) : Except Fault Bool :=
  match op with
  | .eq => h.equal a b
  | .ne => do return !(← h.equal a b)
  | op => h.orderAt op orderDepth a b

end Heap

end Hetman
