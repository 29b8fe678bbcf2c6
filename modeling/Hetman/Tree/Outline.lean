import Hetman.Tree

/-!
Trees written out as plain values.

`Node.outline` turns a tree into nested records, each with its name and its
labelled fields in order. Messages show these records, and two functions are
compared by them.
-/

namespace Hetman

namespace Numeral

def outline : Numeral → Datum
  | .int n => .int n
  | .float x => .float x

end Numeral

namespace Datum

def ofText? : Option String → Datum
  | .some s => .text s
  | .none => .none

def ofTexts (texts : List String) : Datum :=
  .list (texts.map .text)

def ofAccess (levels : List (String × Access)) : Datum :=
  .dict (levels.map fun entry => (.text entry.1, .text entry.2.name))

end Datum

namespace Node

mutual

def outline : Node → Datum
  | .number value => .record "KozakNumber" [("value", value.outline)]
  | .text value => .record "KozakString" [("value", .text value)]
  | .boolean value => .record "KozakBoolean" [("value", .bool value)]
  | .var name => .record "KozakVariable" [("name", .text name)]
  | .binary left op right =>
    .record "KozakBinOp"
      [("left", outline left), ("op", .text op.symbol), ("right", outline right)]
  | .comparison left op right =>
    .record "KozakComparisonOp"
      [("left", outline left), ("op", .text op.symbol), ("right", outline right)]
  | .cast target operand =>
    .record "KozakTypeCast" [("target_type", .text target.name), ("expr", outline operand)]
  | .input prompt => .record "KozakInput" [("expr", outline prompt)]
  | .array elements => .record "KozakArray" [("elements", .list (outlineAll elements))]
  | .dictionary pairs => .record "KozakDictionary" [("pairs", .list (outlinePairs pairs))]
  | .lookup container key =>
    .record "KozakDictionaryAccess" [("dictionary", outline container), ("key", outline key)]
  | .arrayIndex container index =>
    .record "KozakArrayIndex" [("array", outline container), ("index", outline index)]
  | .call name arguments =>
    .record "KozakFunctionCall" [("name", .text name), ("arguments", outlineList? arguments)]
  | .methodCall object method arguments =>
    .record "KozakMethodCall"
      [("instance", outline object), ("method_name", .text method),
       ("arguments", outlineList? arguments)]
  | .super method arguments =>
    .record "KozakSuper" [("method_name", .text method), ("arguments", outlineList? arguments)]
  | .newObject className arguments =>
    .record "KozakNewInstance"
      [("class_name", .text className), ("arguments", outlineList? arguments),
       ("class_def", .none), ("properties", .dict [])]
  | .property object name =>
    .record "KozakPropertyAccess" [("instance", outline object), ("property_name", .text name)]
  | .assign name value typeHint =>
    .record "KozakAssign"
      [("name", .text name), ("expr", outline value), ("type_hint", .ofText? typeHint)]
  | .assignProperty object name value =>
    .record "KozakPropertyAssign"
      [("instance", outline object), ("property_name", .text name), ("value", outline value)]
  | .assignIndex container key value =>
    .record "KozakPropertyAssign"
      [("instance", outline container), ("property_name", outline key),
       ("value", outline value)]
  | .step op target =>
    .record "KozakUnaryOp" [("op", .text op.symbol), ("target", outline target)]
  | .print arguments => .record "KozakEcho" [("expressions", .list (outlineAll arguments))]
  | .ifElse condition body elseIfs otherwise =>
    .record "KozakIf"
      [("condition", outline condition), ("body", .list (outlineAll body)),
       ("else_if_parts", .list (outlineBranches elseIfs)),
       ("else_part", outlineList? otherwise)]
  | .whileLoop condition body =>
    .record "KozakWhile" [("condition", outline condition), ("body", .list (outlineAll body))]
  | .forLoop init condition advance body =>
    .record "KozakFor"
      [("initialization", outline init), ("condition", outline condition),
       ("step", outline advance), ("body", .list (outlineAll body))]
  | .forEach name items body =>
    .record "KozakForEach"
      [("var_name", .text name), ("array_expr", outline items),
       ("body", .list (outlineAll body))]
  | .function routine => outlineRoutine routine
  | .ret value => .record "KozakReturn" [("value", outline value)]
  | .classDecl decl => outlineClass decl
  | .destructor body => .record "KozakDestructor" [("body", .list (outlineAll body))]
  | .tryCatch body catches final =>
    .record "KozakTry"
      [("try_body", .list (outlineAll body)),
       ("catch_clauses", .list (outlineCatches catches)),
       ("finally_body", outlineList? final)]
  | .throw message => .record "KozakThrow" [("message", outline message)]
  | .exit code => .record "KozakExit" [("code", outline code)]
  | .importFile path => .record "KozakImport" [("file_path", outline path)]
  | .program statements => .record "KozakProgram" [("statements", .list (outlineAll statements))]
  | .missing => .none
  | .datum value => value

def outlineAll : List Node → List Datum
  | [] => []
  | node :: rest => outline node :: outlineAll rest

def outlineList? : Option (List Node) → Datum
  | none => .none
  | some nodes => .list (outlineAll nodes)

def outlinePairs : List (Node × Node) → List Datum
  | [] => []
  | (key, value) :: rest => .tuple [outline key, outline value] :: outlinePairs rest

def outlineBranches : List (Node × List Node) → List Datum
  | [] => []
  | (condition, body) :: rest =>
    .tuple [outline condition, .list (outlineAll body)] :: outlineBranches rest

def outlineCatches : List (Option String × List Node) → List Datum
  | [] => []
  | (name, body) :: rest =>
    .tuple [.ofText? name, .list (outlineAll body)] :: outlineCatches rest

def outlineRoutine : Routine Node → Datum
  | ⟨name, parameters, body, parameterTypes, returnType, access⟩ =>
    .record "KozakFunctionDef"
      [("name", .text name), ("parameters", .ofTexts parameters),
       ("body", .list (outlineAll body)),
       ("param_types", .dict (parameterTypes.map fun entry => (.text entry.1, .text entry.2))),
       ("return_type", .ofText? returnType), ("access_modifier", .text access.name)]

def outlineRoutine? : Option (Routine Node) → Datum
  | none => .none
  | some routine => outlineRoutine routine

def outlineMethods : List (String × Routine Node) → List (Datum × Datum)
  | [] => []
  | (name, routine) :: rest => (.text name, outlineRoutine routine) :: outlineMethods rest

def outlineClass : ClassDecl Node → Datum
  | ⟨name, methods, builder, finisher, parent, fieldAccess, methodAccess, friends,
      friendClasses⟩ =>
    .record "KozakClass"
      [("name", .text name), ("methods", .dict (outlineMethods methods)),
       ("constructor", outlineRoutine? builder),
       ("destructor", outlineDestructor? finisher),
       ("parent_name", .ofText? parent), ("field_access", .ofAccess fieldAccess),
       ("method_access", .ofAccess methodAccess), ("friends", .ofTexts friends),
       ("friend_classes", .ofTexts friendClasses)]

def outlineDestructor? : Option (List Node) → Datum
  | none => .none
  | some body => .record "KozakDestructor" [("body", .list (outlineAll body))]

end

end Node

namespace Datum

def typeName : Datum → String
  | .none => "NoneType"
  | .bool _ => "bool"
  | .int _ => "int"
  | .float _ => "float"
  | .text _ => "str"
  | .list _ => "list"
  | .tuple _ => "tuple"
  | .dict _ => "dict"
  | .record name _ => name

end Datum

end Hetman
