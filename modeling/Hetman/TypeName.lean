import Hetman.Collection.Dictionary

/-!
The names of types in declarations.

A declaration names a type in one of the dialects; messages and checks use its
plain name. An integer may stand where a float is expected.
-/

namespace Hetman.TypeName

def normalize (name : String) : String :=
  match name with
  | "Chyslo" => "int"
  | "DroboveChyslo" => "float"
  | "Ryadok" => "str"
  | "Logika" => "bool"
  | name => name

def accepts (expected actual : String) : Bool :=
  expected == actual || (expected == "float" && actual == "int")

/-- What is not a text stands for itself. -/
def normalizeValue (v : Value) : Except Fault Value := do
  Heap.checkKey v
  match v with
  | .text name => return .text (normalize name)
  | v => return v

def acceptsValue (h : Heap) (expected actual : Value) : Except Fault Bool := do
  match expected, actual with
  | .text expected, .text actual => return accepts expected actual
  | expected, actual => h.equal expected actual

end Hetman.TypeName
