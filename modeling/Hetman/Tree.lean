import Hetman.Access
import Hetman.Token

/-!
Program trees.

One type `Node` holds statements and expressions alike, because a call is both
and a program may have any node where a statement stands. A node that could not
be read is `missing`. A plain value can stand where a node is meant; such a
`datum` cannot be run, but it can be named in a message.
-/

namespace Hetman

/-- A plain value: what a tree is made of when it is written out. -/
inductive Datum where
  | none
  | bool (b : Bool)
  | int (n : Int)
  | float (x : Float)
  | text (s : String)
  | list (items : List Datum)
  | tuple (items : List Datum)
  | dict (entries : List (Datum × Datum))
  | record (name : String) (fields : List (String × Datum))
  deriving Inhabited

inductive BinaryOp where
  | add | sub | mul | div | mod | floorDiv | pow | root | and | or
  | other (symbol : String)
  deriving DecidableEq, Inhabited

namespace BinaryOp

def symbol : BinaryOp → String
  | .add => "+"
  | .sub => "-"
  | .mul => "*"
  | .div => "/"
  | .mod => "%"
  | .floorDiv => "//"
  | .pow => "^"
  | .root => "^/"
  | .and => "&&"
  | .or => "||"
  | .other symbol => symbol

def ofSymbol (symbol : String) : BinaryOp :=
  match symbol with
  | "+" => .add
  | "-" => .sub
  | "*" => .mul
  | "/" => .div
  | "%" => .mod
  | "//" => .floorDiv
  | "^" => .pow
  | "^/" => .root
  | "&&" => .and
  | "||" => .or
  | _ => .other symbol

end BinaryOp

inductive CompareOp where
  | eq | ne | lt | gt | le | ge
  | other (symbol : String)
  deriving DecidableEq, Inhabited

namespace CompareOp

def symbol : CompareOp → String
  | .eq => "=="
  | .ne => "!="
  | .lt => "<"
  | .gt => ">"
  | .le => "<="
  | .ge => ">="
  | .other symbol => symbol

def ofSymbol (symbol : String) : CompareOp :=
  match symbol with
  | "==" => .eq
  | "!=" => .ne
  | "<" => .lt
  | ">" => .gt
  | "<=" => .le
  | ">=" => .ge
  | _ => .other symbol

end CompareOp

inductive StepOp where
  | increment | decrement
  | other (symbol : String)
  deriving DecidableEq, Inhabited

namespace StepOp

def symbol : StepOp → String
  | .increment => "++"
  | .decrement => "--"
  | .other symbol => symbol

def ofSymbol (symbol : String) : StepOp :=
  match symbol with
  | "++" => .increment
  | "--" => .decrement
  | _ => .other symbol

end StepOp

structure Routine (Stmt : Type) where
  name : String
  parameters : List String
  body : List Stmt
  parameterTypes : List (String × String) := []
  returnType : Option String := none
  access : Access := .publicAccess
  deriving Inhabited

structure ClassDecl (Stmt : Type) where
  name : String
  methods : List (String × Routine Stmt)
  constructor : Option (Routine Stmt) := none
  destructor : Option (List Stmt) := none
  parent : Option String := none
  fieldAccess : List (String × Access) := []
  methodAccess : List (String × Access) := []
  friends : List String := []
  friendClasses : List String := []
  deriving Inhabited

inductive Node where
  | number (value : Numeral)
  | text (value : String)
  | boolean (value : Bool)
  | var (name : String)
  | binary (left : Node) (op : BinaryOp) (right : Node)
  | comparison (left : Node) (op : CompareOp) (right : Node)
  | cast (target : Kind) (operand : Node)
  | input (prompt : Node)
  | array (elements : List Node)
  | dictionary (pairs : List (Node × Node))
  /-- `container[key]`. -/
  | lookup (container key : Node)
  /-- An element of an array by its index, without the parser's help. -/
  | arrayIndex (array index : Node)
  /-- `name(arguments)`; the arguments are absent when they could not be read. -/
  | call (name : String) (arguments : Option (List Node))
  | methodCall (object : Node) (method : String) (arguments : Option (List Node))
  | super (method : String) (arguments : Option (List Node))
  | newObject (className : String) (arguments : Option (List Node))
  | property (object : Node) (name : String)
  | assign (name : String) (value : Node) (typeHint : Option String)
  /-- `object.name := value`. -/
  | assignProperty (object : Node) (name : String) (value : Node)
  /-- `container[key] := value`. -/
  | assignIndex (container key value : Node)
  | step (op : StepOp) (target : Node)
  | print (arguments : List Node)
  | ifElse (condition : Node) (body : List Node) (elseIfs : List (Node × List Node))
      (otherwise : Option (List Node))
  | whileLoop (condition : Node) (body : List Node)
  | forLoop (init condition step : Node) (body : List Node)
  | forEach (name : String) (array : Node) (body : List Node)
  | function (routine : Routine Node)
  | ret (value : Node)
  | classDecl (decl : ClassDecl Node)
  | destructor (body : List Node)
  | tryCatch (body : List Node) (catches : List (Option String × List Node))
      (final : Option (List Node))
  | throw (message : Node)
  | exit (code : Node)
  | importFile (path : Node)
  | program (statements : List Node)
  /-- Nothing: a part that is left out or could not be read. -/
  | missing
  /-- A plain value in the place of a node. -/
  | datum (value : Datum)
  deriving Inhabited

end Hetman
