import Hetman.Value.Template

/-!
Operators on values.

Numbers are computed with, texts are joined by `+`, texts, lists and tuples are
repeated by `*`, and `%` after a text fills it in as a template. A repeated list
is a new one, so the operators return the heap as well.
-/

namespace Hetman

namespace Value

def operandFault (op : String) (a b : Value) : Fault :=
  .type (.operands op a.typeName b.typeName)

def onNumbers (op : String) (f : Number → Number → Except Fault Number) (a b : Value) :
    Except Fault Value :=
  match Number.ofValue? a, Number.ofValue? b with
  | some m, some n => do return (← f m n).toValue
  | _, _ => .error (operandFault op a b)

/-- The sequence that a value is, apart from a list. -/
def isSequence : Value → Bool
  | .text _ | .list _ | .tuple _ => true
  | _ => false

end Value

namespace Heap

def repeatItems {α : Type} (count : Nat) (items : List α) : List α :=
  (List.replicate count items).flatten

/-- The longest sequence that fits into memory. -/
def maxLength : Nat := Nat.pow 2 32

/-- None when it is negative. -/
def repeatCount (length : Nat) (isText : Bool) (n : Int) : Except Fault Nat :=
  if n ≥ Int.pow 2 63 || n < -Int.pow 2 63 then .error (.overflow .indexSize)
  else if n.toNat * length ≥ Nat.pow 2 63 && isText then .error (.overflow .repeatedText)
  else if n.toNat * length > maxLength then .error .memory
  else .ok n.toNat

def repeated (h : Heap) (v : Value) (n : Int) : Except Fault (Value × Heap) :=
  match v with
  | .text s => do
    let count ← repeatCount s.length true n
    let chars := if s.isEmpty then [] else repeatItems count s.toList
    return (.text (String.ofList chars), h)
  | .list ref => do
    let items := h.list ref
    let count ← repeatCount items.length false n
    return h.newList (if items.isEmpty then [] else repeatItems count items)
  | .tuple items => do
    let count ← repeatCount items.length false n
    return (.tuple (if items.isEmpty then [] else repeatItems count items), h)
  | v => .ok (v, h)

def multiply (h : Heap) (a b : Value) : Except Fault (Value × Heap) :=
  match Number.ofValue? a, Number.ofValue? b with
  | some m, some n => do return ((← m.mul n).toValue, h)
  | _, _ =>
    if a.isSequence then
      match b.int? with
      | some n => h.repeated a n
      | none => .error (.type (.repetition b.typeName))
    else if b.isSequence then
      match a.int? with
      | some n => h.repeated b n
      | none => .error (.type (.repetition a.typeName))
    else .error (Value.operandFault "*" a b)

def sum (h : Heap) (a b : Value) : Except Fault Value :=
  if a.isReal && b.isReal then Value.onNumbers "+" Number.add a b
  else
    match a, b with
    | .text s, b => do return .text (s ++ (← h.display b))
    | a, .text t => do return .text ((← h.display a) ++ t)
    | a, b => .error (.script (.addOperands a.typeName b.typeName))

def modulo (h : Heap) (a b : Value) : Except Fault Value :=
  match a with
  | .text s => do return .text (← Template.fill h s b)
  | a =>
    match Number.ofValue? a, Number.ofValue? b with
    | some m, some n =>
      match m.mod? n with
      | some result => do return (← result).toValue
      | none => .error (Value.operandFault "%" a b)
    | _, _ => .error (Value.operandFault "%" a b)

def wholeQuotient (a b : Value) : Except Fault Value :=
  match Number.ofValue? a, Number.ofValue? b with
  | some m, some n =>
    match m.floorDiv? n with
    | some result => do return (← result).toValue
    | none => .error (Value.operandFault "//" a b)
  | _, _ => .error (Value.operandFault "//" a b)

def isZero (v : Value) : Bool :=
  match Number.ofValue? v with
  | some n => n.isZero
  | none => false

def root (a b : Value) : Except Fault Value := do
  let reciprocal ← Value.onNumbers "/" Number.div (.int 1) b
  Value.onNumbers "** or pow()" Number.pow a reciprocal

def operate (h : Heap) (op : BinaryOp) (a b : Value) : Except Fault (Value × Heap) :=
  match op with
  | .add => do return (← h.sum a b, h)
  | .sub => do return (← Value.onNumbers "-" Number.sub a b, h)
  | .mul => h.multiply a b
  | .div =>
    if isZero b then .error (.script .divideByZero)
    else do return (← Value.onNumbers "/" Number.div a b, h)
  | .mod => do return (← h.modulo a b, h)
  | .floorDiv => do return (← wholeQuotient a b, h)
  | .pow => do return (← Value.onNumbers "** or pow()" Number.pow a b, h)
  | .root =>
    if isZero b then .error (.script .zeroRoot)
    else do return (← root a b, h)
  | .and => .ok (if h.truthy a then b else a, h)
  | .or => .ok (if h.truthy a then a else b, h)
  | .other symbol => .error (.script (.unknownOperator symbol))

end Heap

end Hetman
