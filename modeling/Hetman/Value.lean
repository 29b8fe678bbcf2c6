import Hetman.Tree.Outline

/-!
Values of running programs.

Numbers, texts and tuples are values in themselves; lists, dictionaries and
objects are references into a heap, so that two variables can share them.
A result that is not a number has an identity: a container finds the very one
that was put into it, and no other.
-/

namespace Hetman

inductive Library where
  | math | hash
  deriving DecidableEq, Inhabited

namespace Library

def name : Library → String
  | .math => "math"
  | .hash => "hash"

def typeName : Library → String
  | .math => "MathModule"
  | .hash => "HashModule"

def display : Library → String
  | .math => "<core.modules.math_module.MathModule object at 0x>"
  | .hash => "<core.modules.hash.HashModule object at 0x>"

def ofName? (name : String) : Option Library :=
  match name with
  | "math" => some .math
  | "hash" => some .hash
  | _ => none

end Library

inductive Value where
  | none
  | bool (b : Bool)
  | int (n : Int)
  | float (x : Float)
  /-- Not a number: the one with this identity. -/
  | nan (ident : Nat)
  | complex (re im : Float)
  | text (s : String)
  | tuple (items : List Value)
  | list (ref : Nat)
  | dict (ref : Nat)
  | object (ref : Nat)
  | classRef (id : Nat)
  /-- A piece of program; functions are such values. -/
  | tree (node : Node)
  | library (lib : Library) (ident : Nat)
  | libraryFunction (lib : Library) (ident : Nat) (name : String)
  /-- A method that was read like a field. -/
  | method (ident : Nat)
  deriving Inhabited

namespace Value

def typeName : Value → String
  | .none => "NoneType"
  | .bool _ => "bool"
  | .int _ => "int"
  | .float _ | .nan _ => "float"
  | .complex .. => "complex"
  | .text _ => "str"
  | .tuple _ => "tuple"
  | .list _ => "list"
  | .dict _ => "dict"
  | .object _ => "Instance"
  | .classRef _ => "ClassDef"
  | .tree node => node.outline.typeName
  | .library lib _ => lib.typeName
  | .libraryFunction .. => "method"
  | .method _ => "function"

/-- The value itself, or 0 and 1 for a truth value. -/
def int? : Value → Option Int
  | .bool b => some (if b then 1 else 0)
  | .int n => some n
  | _ => Option.none

def isInt (v : Value) : Bool :=
  v.int?.isSome

def isReal : Value → Bool
  | .bool _ | .int _ | .float _ | .nan _ => true
  | _ => false

def ofNumeral : Numeral → Value
  | .int n => .int n
  | .float x => .float x

end Value

end Hetman
