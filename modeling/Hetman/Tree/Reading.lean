import Hetman.Tree.Outline

/-!
Trees read back from plain values.

`Node.ofOutline` reads the records that `Node.outline` writes. A field that is
not there is read as empty; what is no record at all stands for itself.
-/

namespace Hetman

namespace Datum

mutual

def depth : Datum → Nat
  | .list items => depthAll items + 1
  | .tuple items => depthAll items + 1
  | .dict entries => depthEntries entries + 1
  | .record _ fields => depthFields fields + 1
  | .none | .bool _ | .int _ | .float _ | .text _ => 0

def depthAll : List Datum → Nat
  | [] => 0
  | item :: rest => max (depth item) (depthAll rest)

def depthEntries : List (Datum × Datum) → Nat
  | [] => 0
  | (key, value) :: rest => max (max (depth key) (depth value)) (depthEntries rest)

def depthFields : List (String × Datum) → Nat
  | [] => 0
  | (_, value) :: rest => max (depth value) (depthFields rest)

end

/-! ## Fields -/

def textField (fields : List (String × Datum)) (key : String) : String :=
  match fields.lookup key with
  | some (.text s) => s
  | _ => ""

def textField? (fields : List (String × Datum)) (key : String) : Option String :=
  match fields.lookup key with
  | some (.text s) => .some s
  | _ => Option.none

def items : Datum → List Datum
  | .list items | .tuple items => items
  | _ => []

def itemsField (fields : List (String × Datum)) (key : String) : List Datum :=
  ((fields.lookup key).map items).getD []

def listField? (fields : List (String × Datum)) (key : String) : Option (List Datum) :=
  match fields.lookup key with
  | some (.list items) => .some items
  | _ => Option.none

def textsField (fields : List (String × Datum)) (key : String) : List String :=
  (itemsField fields key).filterMap fun d => match d with
    | .text s => .some s
    | _ => Option.none

def entriesField (fields : List (String × Datum)) (key : String) : List (String × Datum) :=
  match fields.lookup key with
  | some (.dict entries) => entries.filterMap fun e => match e.1 with
    | .text s => .some (s, e.2)
    | _ => Option.none
  | _ => []

def textEntriesField (fields : List (String × Datum)) (key : String) : List (String × String) :=
  (entriesField fields key).filterMap fun e => match e.2 with
    | .text s => .some (e.1, s)
    | _ => Option.none

def accessField (fields : List (String × Datum)) (key : String) : List (String × Access) :=
  (textEntriesField fields key).map fun e => (e.1, Access.ofName e.2)

def numeralField (fields : List (String × Datum)) (key : String) : Numeral :=
  match fields.lookup key with
  | some (.int n) => .int n
  | some (.float x) => .float x
  | some (.bool b) => .int (if b then 1 else 0)
  | _ => .int 0

end Datum

namespace Node

open Datum (textField textField? itemsField listField? textsField entriesField textEntriesField
  accessField numeralField)

def routineOf (read : Datum → Node) (fields : List (String × Datum)) : Routine Node :=
  { name := textField fields "name"
    parameters := textsField fields "parameters"
    body := (itemsField fields "body").map read
    parameterTypes := textEntriesField fields "param_types"
    returnType := textField? fields "return_type"
    access := ((textField? fields "access_modifier").map Access.ofName).getD .publicAccess }

def routineOf? (read : Datum → Node) : Datum → Option (Routine Node)
  | .record _ fields => some (routineOf read fields)
  | _ => none

def classOf (read : Datum → Node) (fields : List (String × Datum)) : ClassDecl Node :=
  { name := textField fields "name"
    methods := (entriesField fields "methods").filterMap fun e =>
      (routineOf? read e.2).map fun r => (e.1, r)
    constructor := (fields.lookup "constructor").bind (routineOf? read)
    destructor := match fields.lookup "destructor" with
      | some (.record _ inner) => some ((itemsField inner "body").map read)
      | _ => none
    parent := textField? fields "parent_name"
    fieldAccess := accessField fields "field_access"
    methodAccess := accessField fields "method_access"
    friends := textsField fields "friends"
    friendClasses := textsField fields "friend_classes" }

def pairOf (d : Datum) : Option (Datum × Datum) :=
  match d.items with
  | [a, b] => some (a, b)
  | _ => none

def ofRecord (read : Datum → Node) (name : String) (fields : List (String × Datum)) : Node :=
  let text := textField fields
  let node (key : String) : Node := ((fields.lookup key).map read).getD .missing
  let nodes (key : String) : List Node := (itemsField fields key).map read
  let nodes? (key : String) : Option (List Node) := (listField? fields key).map (·.map read)
  let arguments : Option (List Node) :=
    if (fields.lookup "arguments").isSome then nodes? "arguments" else some []
  match name with
  | "KozakNumber" => .number (numeralField fields "value")
  | "KozakString" => .text (text "value")
  | "KozakBoolean" => .boolean (match fields.lookup "value" with
      | some (.bool b) => b
      | _ => false)
  | "KozakVariable" => .var (text "name")
  | "KozakBinOp" => .binary (node "left") (.ofSymbol (text "op")) (node "right")
  | "KozakComparisonOp" => .comparison (node "left") (.ofSymbol (text "op")) (node "right")
  | "KozakTypeCast" => .cast (Kind.ofName (text "target_type")) (node "expr")
  | "KozakInput" => .input (node "expr")
  | "KozakArray" => .array (nodes "elements")
  | "KozakDictionary" => .dictionary ((itemsField fields "pairs").filterMap fun d =>
      (pairOf d).map fun p => (read p.1, read p.2))
  | "KozakDictionaryAccess" => .lookup (node "dictionary") (node "key")
  | "KozakArrayIndex" => .arrayIndex (node "array") (node "index")
  | "KozakFunctionCall" => .call (text "name") arguments
  | "KozakMethodCall" => .methodCall (node "instance") (text "method_name") arguments
  | "KozakSuper" => .super (text "method_name") arguments
  | "KozakNewInstance" => .newObject (text "class_name") arguments
  | "KozakPropertyAccess" => .property (node "instance") (text "property_name")
  | "KozakAssign" => .assign (text "name") (node "expr") (textField? fields "type_hint")
  | "KozakPropertyAssign" =>
    match textField? fields "property_name" with
    | some name => .assignProperty (node "instance") name (node "value")
    | none => .assignIndex (node "instance") (node "property_name") (node "value")
  | "KozakUnaryOp" => .step (.ofSymbol (text "op")) (node "target")
  | "KozakEcho" => .print (nodes "expressions")
  | "KozakIf" =>
    .ifElse (node "condition") (nodes "body")
      ((itemsField fields "else_if_parts").filterMap fun d =>
        (pairOf d).map fun p => (read p.1, p.2.items.map read))
      (nodes? "else_part")
  | "KozakWhile" => .whileLoop (node "condition") (nodes "body")
  | "KozakFor" =>
    .forLoop (node "initialization") (node "condition") (node "step") (nodes "body")
  | "KozakForEach" => .forEach (text "var_name") (node "array_expr") (nodes "body")
  | "KozakFunctionDef" => .function (routineOf read fields)
  | "KozakReturn" => .ret (node "value")
  | "KozakClass" => .classDecl (classOf read fields)
  | "KozakDestructor" => .destructor (nodes "body")
  | "KozakTry" =>
    .tryCatch (nodes "try_body")
      ((itemsField fields "catch_clauses").filterMap fun d =>
        (pairOf d).map fun p => (match p.1 with
          | .text name => some name
          | _ => none, p.2.items.map read))
      (nodes? "finally_body")
  | "KozakThrow" => .throw (node "message")
  | "KozakExit" => .exit (node "code")
  | "KozakImport" => .importFile (node "file_path")
  | "KozakProgram" => .program (nodes "statements")
  | _ => .missing

def ofOutlineAt : (fuel : Nat) → Datum → Node
  | fuel + 1, .record name fields => ofRecord (ofOutlineAt fuel) name fields
  | _, .none => .missing
  | _, d => .datum d

def ofOutline (d : Datum) : Node :=
  ofOutlineAt (d.depth + 1) d

end Node

end Hetman
