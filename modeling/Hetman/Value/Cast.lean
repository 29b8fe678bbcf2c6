import Hetman.Decimal.Reading
import Hetman.Value.Display

/-!
Changing the type of a value.

What cannot be read as a number is refused under the name of the type asked
for; a number that is out of range for that type is a fault of its own.
-/

namespace Hetman

namespace Value

inductive CastFault where
  /-- It does not denote one. -/
  | unreadable
  | other (fault : Fault)

def toInt : Value → Except CastFault Int
  | .bool b => .ok (if b then 1 else 0)
  | .int n => .ok n
  | .float x =>
    match Double.truncate? x with
    | some n => .ok n
    | Option.none =>
      .error (if x.isNaN then .unreadable else .other (.overflow .infinityToInt))
  | .text s =>
    match Decimal.readInt? s with
    | some n => .ok n
    | Option.none => .error .unreadable
  | _ => .error .unreadable

/-- A value as a double. What is not a number stays the same one. -/
def toDouble : Value → Except CastFault Value
  | .bool b => .ok (.float (if b then 1 else 0))
  | .int n =>
    match Double.ofInt? n with
    | some x => .ok (.float x)
    | Option.none => .error (.other (.overflow .intToFloat))
  | .float x => .ok (.float x)
  | .nan ident => .ok (.nan ident)
  | .text s =>
    match Decimal.readFloat? s with
    | some x => .ok (.float x)
    | Option.none => .error .unreadable
  | _ => .error .unreadable

end Value

namespace Heap

def castResult {α : Type} (h : Heap) (v : Value) (target : String) :
    Except Value.CastFault α → Except Fault α
  | .ok a => .ok a
  | .error (.other fault) => .error fault
  | .error .unreadable => do throw (.script (.badCast (← h.display v) target))

/-- The words for true and false count as such. -/
def toTruth (h : Heap) (v : Value) : Bool :=
  match v with
  | .text s =>
    let word := String.ofList (s.toList.map Char.toLower)
    if word = "pravda" then true
    else if word = "nepravda" then false
    else h.truthy v
  | v => h.truthy v

def cast (h : Heap) (target : Kind) (v : Value) : Except Fault Value :=
  match target with
  | .keyword .intType => do return .int (← h.castResult v "Int" v.toInt)
  | .keyword .floatType => h.castResult v "Float" v.toDouble
  | .keyword .textType => do return .text (← h.display v)
  | .keyword .boolType => .ok (.bool (h.toTruth v))
  | kind => .error (.script (.unknownCast kind.name))

end Heap

end Hetman
