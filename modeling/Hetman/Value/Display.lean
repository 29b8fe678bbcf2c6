import Hetman.Decimal.Notation
import Hetman.Fault
import Hetman.Heap
import Hetman.Text.Quoted

/-!
Values as text.

A text shows as itself when it stands alone and quoted inside of a container.
A container that is met again inside of itself shows as dots. An integer of
more than `maxDigits` digits has no text.
-/

namespace Hetman

namespace Decimal

def boundedIntText (n : Int) : Except Fault String :=
  -- The shorter test settles all but very long integers.
  if n.natAbs.log2 < 14000 || n.natAbs < Nat.pow 10 maxDigits then .ok (intText n)
  else .error (.value .textDigits)

/-- The real part is left out when it is a positive zero. -/
def complexText (re im : Float) : String :=
  let imaginary := doubleText [] im
  if re == 0 && !Double.signBit re then imaginary ++ "j"
  else
    let joined := if Double.signBit im && !im.isNaN then imaginary else "+" ++ imaginary
    s!"({doubleText [] re}{joined}j)"

end Decimal

def commaList (texts : List String) : String :=
  String.intercalate ", " texts

/-- A single item is followed by a comma. -/
def tupleText (texts : List String) : String :=
  match texts with
  | [only] => s!"({only},)"
  | texts => s!"({commaList texts})"

def dictText (entries : List (String × String)) : String :=
  "\x7b" ++ commaList (entries.map fun e => s!"{e.1}: {e.2}") ++ "\x7d"

/-! ## Trees -/

namespace Datum

mutual

def display : Datum → String
  | .none => "None"
  | .bool b => if b then "True" else "False"
  | .int n => Decimal.intText n
  | .float x => Decimal.floatText x
  | .text s => Text.quoted s
  | .list items => s!"[{commaList (displayAll items)}]"
  | .tuple items => tupleText (displayAll items)
  | .dict entries => dictText (displayEntries entries)
  | .record name fields => s!"{name}({commaList (displayFields fields)})"

def displayAll : List Datum → List String
  | [] => []
  | item :: rest => display item :: displayAll rest

def displayEntries : List (Datum × Datum) → List (String × String)
  | [] => []
  | (key, value) :: rest => (display key, display value) :: displayEntries rest

def displayFields : List (String × Datum) → List String
  | [] => []
  | (label, value) :: rest => s!"{label}={display value}" :: displayFields rest

end

end Datum

/-! ## Values -/

inductive Ref where
  | list (ref : Nat)
  | dict (ref : Nat)
  deriving DecidableEq, Inhabited

namespace Value

mutual

/-- A value in its quoted form, given the form of containers. -/
def quotedWith (container : Ref → Except Fault String) : Value → Except Fault String
  | .none => .ok "None"
  | .bool b => .ok (if b then "True" else "False")
  | .int n => Decimal.boundedIntText n
  | .float x => .ok (Decimal.floatText x)
  | .nan _ => .ok "nan"
  | .complex re im => .ok (Decimal.complexText re im)
  | .text s => .ok (Text.quoted s)
  | .tuple items => do return tupleText (← quotedAll container items)
  | .list ref => container (.list ref)
  | .dict ref => container (.dict ref)
  | .object _ => .ok "<core.oop.Instance object at 0x>"
  | .classRef _ => .ok "<core.oop.ClassDef object at 0x>"
  | .tree node => .ok node.outline.display
  | .library lib _ => .ok lib.display
  | .libraryFunction lib _ name =>
    .ok s!"<bound method {lib.typeName}.{name} of {lib.display}>"
  | .method _ => .ok "<function Instance.get.<locals>.<lambda> at 0x>"

def quotedAll (container : Ref → Except Fault String) : List Value → Except Fault (List String)
  | [] => .ok []
  | item :: rest => do return (← quotedWith container item) :: (← quotedAll container rest)

end

end Value

namespace Heap

/-- Inside of the containers `within`, at most `depth` containers deep. -/
def quotedAt (h : Heap) : (depth : Nat) → (within : List Ref) → Value → Except Fault String
  | 0, _, _ => .error .tooDeep
  | depth + 1, within, v =>
    v.quotedWith fun ref =>
      match ref with
      | .list r =>
        if within.contains ref then .ok "[...]"
        else do
          let items ← (h.list r).mapM (quotedAt h depth (ref :: within))
          return s!"[{commaList items}]"
      | .dict r =>
        if within.contains ref then .ok "\x7b...\x7d"
        else do
          let entries ← (h.dict r).mapM fun e => do
            return (← quotedAt h depth (ref :: within) e.1, ← quotedAt h depth (ref :: within) e.2)
          return dictText entries

def quoted (h : Heap) (v : Value) : Except Fault String :=
  h.quotedAt (h.containers + 1) [] v

def display (h : Heap) : Value → Except Fault String
  | .text s => .ok s
  | v => h.quoted v

end Heap

end Hetman
