import Hetman.Builtin
import Hetman.Numeral

/-!
Faults: why an evaluation fails.

A fault is a cause; its wording is `Fault.message`. The causes fall into
families, and a program can tell them apart only by their wording, except that
the language's own faults (`script`) are reported under their own heading.
-/

namespace Hetman

/-! ## The object layer -/

inductive MemberUse where
  | readField | callMethod | writeField
  deriving DecidableEq

inductive Guard where
  | privateMember | protectedMember
  deriving DecidableEq

inductive ObjectFault where
  | destroyed (className : String)
  | denied (use : MemberUse) (guard : Guard) (name className : String)
  | noMember (name className : String)
  | noClass (name : String)
  deriving DecidableEq

namespace ObjectFault

def deniedMessage (use : MemberUse) (guard : Guard) (name className : String) : String :=
  let (verb, member, done) := match use with
    | .readField => ("access", "field", "accessed")
    | .callMethod => ("access", "method", "called")
    | .writeField => ("modify", "field", "modified")
  match guard with
  | .privateMember =>
    s!"Cannot {verb} private {member} '{name}' of class '{className}'. Private {member}s can only be {done} from within the class or by friend functions."
  | .protectedMember =>
    s!"Cannot {verb} protected {member} '{name}' of class '{className}'. Protected {member}s can only be {done} from the class, derived classes, or friend functions."

def message : ObjectFault → String
  | .destroyed className =>
    s!"Cannot access destroyed instance of class '{className}'. This object has been explicitly destroyed and can no longer be used."
  | .denied use guard name className => deniedMessage use guard name className
  | .noMember name className =>
    s!"Property or method '{name}' not found in instance of '{className}'"
  | .noClass name => s!"Class '{name}' is not defined"

end ObjectFault

/-! ## The language's own faults -/

inductive ImportFault where
  | pathType (typeName : String)
  | missing (path : String)
  | extension (file : String)
  | unreadable (path reason : String)
  | problems (path : String) (messages : List String)
  | malformed (path reason : String)
  deriving DecidableEq

namespace ImportFault

def message : ImportFault → String
  | .pathType typeName => s!"Import file path must be a string, got{typeName} kozache."
  | .missing path => s!"Import file '{path}' not found, kozache."
  | .extension file => s!"Can only import .kozak files, got '{file}'."
  | .unreadable path reason => s!"Error reading import file '{path}': {reason}"
  | .problems path messages =>
    s!"Errors in imported file, kozache '{path}':\n" ++ String.intercalate "\n" messages
  | .malformed path reason => s!"Syntax error in imported file '{path}': {reason}"

end ImportFault

/-- What a built-in function says of its arguments. -/
inductive ArgumentFault where
  | count (b : Builtin)
  | notObject
  | matrixSizes | matrixPositive
  | array | nonEmptyArray | matrix | raggedRows
  | firstArray | firstNonEmptyArray
  | rowIndex | rowBounds | columnIndex | columnBounds
  | indexType (place : Nat) | indexBounds (place : Nat)
  | lastIndexType | lastIndexBounds
  | firstArrayOf (b : Builtin) | arrayOf (b : Builtin) | secondInteger (b : Builtin)
  | arrayBounds | sliceBounds | popEmpty
  | removeFrom | removeMissing (key : String)
  | dictionary | firstDictionary
  | writeName | readName
  | measured | randomBounds
  deriving DecidableEq

namespace ArgumentFault

/-- The name of a built-in function in messages about its arguments. -/
def shownName (b : Builtin) : String :=
  b.names.headD ""

def message : ArgumentFault → String
  | .count b => b.usage
  | .notObject => "Can only destroy object instances, kozache."
  | .matrixSizes => "Rows and columns must be integers, kozache."
  | .matrixPositive => "Matrix dimensions must be positive, kozache."
  | .array => "Argument must be an array, kozache."
  | .nonEmptyArray => "Argument must be a non-empty array, kozache."
  | .matrix => "Argument must be a 2D array, kozache."
  | .raggedRows => "All rows must have the same length for transpose, kozache."
  | .firstArray => "First argument must be an array, kozache."
  | .firstNonEmptyArray => "First argument must be a non-empty array, kozache."
  | .rowIndex => "Row index must be an integer, kozache."
  | .rowBounds => "Row index out of bounds, kozache."
  | .columnIndex => "Column index must be an integer, kozache."
  | .columnBounds => "Column index out of bounds, kozache."
  | .indexType place => s!"Index {place} must be an integer, kozache."
  | .indexBounds place => s!"Index {place} out of bounds, kozache."
  | .lastIndexType => "Last index must be an integer, kozache."
  | .lastIndexBounds => "Last index out of bounds, kozache."
  | .firstArrayOf b => s!"First argument of '{shownName b}' must be an array, kozache."
  | .arrayOf b => s!"Argument of '{shownName b}' must be an array, kozache."
  | .secondInteger b => s!"Second argument of '{shownName b}' must be an integer, kozache."
  | .arrayBounds => "Array index out of bounds, kozache."
  | .sliceBounds => "Start and end arguments must be integers, kozache."
  | .popEmpty => "Cannot pop from empty array, kozache."
  | .removeFrom => "remove_key() only works on dictionaries, kozache!"
  | .removeMissing key => s!"Key '{key}' not found in dictionary for removal."
  | .dictionary => "Argument must be a dictionary, kozache."
  | .firstDictionary => "First argument must be a dictionary, kozache."
  | .writeName => "First argument for 'Zapysaty' (file name) must be a string, kozache."
  | .readName => "Argument for 'Chytaty' must be a string, kozache."
  | .measured => "Argument for 'dovzhyna must be an array or a string, kozache."
  | .randomBounds => "Arguments for 'randint' must be integers, kozache."

end ArgumentFault

inductive ScriptFault where
  | unknownNode (typeName : String)
  | typeMismatch (name expected actual : String)
  | typeConstraint (name expected actual : String)
  | undefinedVariable (name : String)
  | addOperands (left right : String)
  | divideByZero
  | zeroRoot
  | unknownOperator (symbol : String)
  | badCast (value target : String)
  | unknownCast (target : String)
  | stepTarget
  | stepUndefined (name : String)
  | notIncrementable (name : String)
  | notDecrementable (name : String)
  | unknownStep (symbol : String)
  | argument (cause : ArgumentFault)
  | writing (reason : String)
  | reading (reason : String)
  | fileMissing (name : String)
  | instanceUndefined (name : String)
  | notAnObject (method name : String)
  | methodMissing (method className : String)
  | methodDenied (guard : Guard) (method className : String)
  | methodArity (method : String) (expected given : Nat)
  | functionUndefined (name : String)
  | functionArity (name : String) (expected given : Nat)
  | onlyArrays | indexType | indexBounds
  | notIterable
  | parentUndefined (parent className : String)
  | moduleMember (name : String)
  | moduleMissing (name : String)
  | propertyOf (name typeName : String)
  | object (cause : ObjectFault)
  | assignTo (key typeName : String)
  | constructorArity (className : String) (expected given : Nat)
  | arrayKey
  | keyMissing (key : String)
  | notIndexable
  | thrown (message : String)
  | exitType (typeName : String)
  | exitRange
  | importing (cause : ImportFault)
  | superOutside
  | noParent (className : String)
  | superMissing (method className : String)
  | superArity (method : String) (expected given : Nat)
  deriving DecidableEq

namespace ScriptFault

def message : ScriptFault → String
  | .unknownNode typeName => s!"Unknown node type: {typeName}"
  | .typeMismatch name expected actual =>
    s!"Type mismatch for '{name}': expected {expected}, got {actual}"
  | .typeConstraint name expected actual =>
    s!"Cannot assign {actual} to {expected} variable '{name}'"
  | .undefinedVariable name => s!"Variable {name} is not defined"
  | .addOperands left right => s!"Unsupported operand types for +: '{left}' and '{right}'"
  | .divideByZero => "Cannot divide by zero, kozache."
  | .zeroRoot => "Root exponent cannot be zero!"
  | .unknownOperator symbol => s!"Unknown operator: {symbol}"
  | .badCast value target => s!"Cannot cast '{value}' to '{target}'."
  | .unknownCast target => s!"Unknown type cast: {target}"
  | .stepTarget => "Unary operators '++'/'--' only supported on simple variables."
  | .stepUndefined name => s!"Variable {name} is not defined for unary operation."
  | .notIncrementable name => s!"Cannot increment non-numeric variable '{name}'."
  | .notDecrementable name => s!"Cannot decrement non-numeric variable '{name}'."
  | .unknownStep symbol => s!"Unknown unary operator: {symbol}"
  | .argument cause => cause.message
  | .writing reason => s!"File writing error: {reason}"
  | .reading reason => s!"File reading error: {reason}"
  | .fileMissing name => s!"File '{name}' not found, kozache."
  | .instanceUndefined name => s!"Instance variable '{name}' is not defined."
  | .notAnObject method name =>
    s!"Cannot call method '{method}' on non-object variable '{name}'."
  | .methodMissing method className => s!"Method '{method}' not found in class '{className}'."
  | .methodDenied .privateMember method className =>
    s!"Cannot access private method '{method}' of class '{className}'"
  | .methodDenied .protectedMember method className =>
    s!"Cannot access protected method '{method}' of class '{className}'"
  | .methodArity method expected given =>
    s!"Method '{method}' expected {expected} arguments, but got {given}."
  | .functionUndefined name => s!"Function '{name}' is not defined."
  | .functionArity name expected given =>
    s!"Function '{name}' expected {expected} arguments, but got {given}."
  | .onlyArrays => "Only arrays can be indexed!"
  | .indexType => "Array index must be an integer!"
  | .indexBounds => "Array index out of bounds!"
  | .notIterable => "Can only iterate over arrays, kozache."
  | .parentUndefined parent className =>
    s!"Parent class '{parent}' not defined for class '{className}'."
  | .moduleMember name => s!"Module has no attribute '{name}'"
  | .moduleMissing name => s!"Module '{name}' not found, kozache!"
  | .propertyOf name typeName =>
    s!"Cannot access property '{name}' on non-object of type {typeName}"
  | .object cause => cause.message
  | .assignTo key typeName => s!"Cannot set property '{key}' on non-object of type {typeName}"
  | .constructorArity className expected given =>
    s!"Constructor for class '{className}' expected {expected} arguments, but got {given}."
  | .arrayKey => "Cannot use array as dictionary key, kozache."
  | .keyMissing key => s!"Key '{key}' not found in dictionary, kozache."
  | .notIndexable => "Can only index arrays and dictionaries, kozache."
  | .thrown message => message
  | .exitType typeName => s!"Exit code must be an integer, got {typeName}"
  | .exitRange => "Exit code must be between 0 and 255, kozache."
  | .importing cause => cause.message
  | .superOutside => "'super' can only be used inside a class method, kozache."
  | .noParent className => s!"Class '{className}' has no parent class, kozache."
  | .superMissing method className =>
    s!"Method '{method}' not found in parent class '{className}', kozache."
  | .superArity method expected given =>
    s!"Method '{method}' expected {expected} arguments, but got {given}, kozache."

end ScriptFault

/-! ## Faults of values -/

inductive TypeFault where
  | operands (op left right : String)
  | order (op left right : String)
  | repetition (typeName : String)
  | unhashable (typeName : String)
  | notCallable (typeName : String)
  | noLength (typeName : String)
  | notIterable (typeName : String)
  | itemAssignment (typeName : String)
  | missingArguments (function : String) (names : List String)
  | surplusArguments (function : String) (least most given : Nat)
  | notReal (typeName : String)
  | notInteger (typeName : String)
  | noMethod (typeName method : String)
  | absolute (typeName : String)
  | indices (container typeName : String)
  | formatSurplus | formatShortage | formatMapping | formatStar | formatChar
  | formatReal (directive typeName : String)
  | formatInteger (directive typeName : String)
  deriving DecidableEq

namespace TypeFault

/-- Names in quotes, the last joined by `and`. -/
def nameList (names : List String) : String :=
  let quoted := names.map fun n => s!"'{n}'"
  match quoted.reverse with
  | [] => ""
  | [only] => only
  | [last, first] => s!"{first} and {last}"
  | last :: rest => String.intercalate ", " rest.reverse ++ s!", and {last}"

def message : TypeFault → String
  | .operands op left right => s!"unsupported operand type(s) for {op}: '{left}' and '{right}'"
  | .order op left right =>
    s!"'{op}' not supported between instances of '{left}' and '{right}'"
  | .repetition typeName => s!"can't multiply sequence by non-int of type '{typeName}'"
  | .unhashable typeName => s!"unhashable type: '{typeName}'"
  | .notCallable typeName => s!"'{typeName}' object is not callable"
  | .noLength typeName => s!"object of type '{typeName}' has no len()"
  | .notIterable typeName => s!"'{typeName}' object is not iterable"
  | .itemAssignment typeName => s!"'{typeName}' object does not support item assignment"
  | .missingArguments function names =>
    let plural := if names.length = 1 then "argument" else "arguments"
    s!"{function}() missing {names.length} required positional {plural}: {nameList names}"
  | .surplusArguments function least most given =>
    let verb := if given = 1 then "was" else "were"
    if least = most then
      let plural := if most = 1 then "argument" else "arguments"
      s!"{function}() takes {most} positional {plural} but {given} {verb} given"
    else
      s!"{function}() takes from {least} to {most} positional arguments but {given} {verb} given"
  | .notReal typeName => s!"must be real number, not {typeName}"
  | .notInteger typeName => s!"'{typeName}' object cannot be interpreted as an integer"
  | .noMethod typeName method => s!"type {typeName} doesn't define {method} method"
  | .absolute typeName => s!"bad operand type for abs(): '{typeName}'"
  | .indices container typeName =>
    s!"{container} indices must be integers or slices, not {typeName}"
  | .formatSurplus => "not all arguments converted during string formatting"
  | .formatShortage => "not enough arguments for format string"
  | .formatMapping => "format requires a mapping"
  | .formatStar => "* wants int"
  | .formatChar => "%c requires int or char"
  | .formatReal directive typeName =>
    s!"%{directive} format: a real number is required, not {typeName}"
  | .formatInteger directive typeName =>
    s!"%{directive} format: an integer is required, not {typeName}"

end TypeFault

inductive ValueFault where
  | textDigits
  | numeralDigits (count : Nat)
  | notNumeral
  | nanToInt
  | domain
  | emptyRange (start stop width : Int)
  | emptySequence (function : String)
  | dimensions
  | negativeCount (name : String)
  | negativeFactorial
  | nullByte
  | formatIncomplete | formatKey
  | formatDirective (shown : Char) (code index : Nat)
  | formatWidth | formatPrecision
  | message (text : String)
  deriving DecidableEq

namespace ValueFault

def hexText (n : Nat) : String :=
  String.ofList (Nat.toDigits 16 n)

def text : ValueFault → String
  | .textDigits =>
    s!"Exceeds the limit ({maxDigits} digits) for integer string conversion; use sys.set_int_max_str_digits() to increase the limit"
  | .numeralDigits count =>
    s!"Exceeds the limit ({maxDigits} digits) for integer string conversion: value has {count} digits; use sys.set_int_max_str_digits() to increase the limit"
  | .notNumeral => "invalid literal"
  | .nanToInt => "cannot convert float NaN to integer"
  | .domain => "math domain error"
  | .emptyRange start stop width => s!"empty range for randrange() ({start}, {stop}, {width})"
  | .emptySequence function => s!"{function}() arg is an empty sequence"
  | .dimensions => "both points must have the same number of dimensions"
  | .negativeCount name => s!"{name} must be a non-negative integer"
  | .negativeFactorial => "factorial() not defined for negative values"
  | .nullByte => "embedded null byte"
  | .formatIncomplete => "incomplete format"
  | .formatKey => "incomplete format key"
  | .formatDirective shown code index =>
    s!"unsupported format character '{shown}' (0x{hexText code}) at index {index}"
  | .formatWidth => "width too big"
  | .formatPrecision => "precision too big"
  | .message text => text

end ValueFault

inductive OverflowFault where
  | intToFloat | quotient | power | indexSize | repeatedText | infinityToInt | range | rounded
  | complexPower | charCode | factorialSize | combinations | permutations
  | fieldWidth | fieldPrecision | absolute
  deriving DecidableEq

namespace OverflowFault

def message : OverflowFault → String
  | .intToFloat => "int too large to convert to float"
  | .quotient => "integer division result too large for a float"
  | .power => "(34, 'Numerical result out of range')"
  | .indexSize => "cannot fit 'int' into an index-sized integer"
  | .repeatedText => "repeated string is too long"
  | .infinityToInt => "cannot convert float infinity to integer"
  | .range => "math range error"
  | .rounded => "rounded value too large to represent"
  | .complexPower => "complex exponentiation"
  | .charCode => "%c arg not in range(0x110000)"
  | .factorialSize => "factorial() argument should not exceed 9223372036854775807"
  | .combinations => "min(n - k, k) must not exceed 9223372036854775807"
  | .permutations => "k must not exceed 9223372036854775807"
  | .fieldWidth => "Python int too large to convert to C ssize_t"
  | .fieldPrecision => "Python int too large to convert to C int"
  | .absolute => "absolute value too large"

end OverflowFault

inductive ZeroFault where
  | intModulo | floatModulo | intDivision | floatDivision | quotient | negativePower | complexPower
  | complexDivision
  deriving DecidableEq

namespace ZeroFault

def message : ZeroFault → String
  | .intModulo => "integer modulo by zero"
  | .floatModulo => "float modulo"
  | .intDivision => "integer division or modulo by zero"
  | .floatDivision => "float floor division by zero"
  | .quotient => "float division by zero"
  | .negativePower => "0.0 cannot be raised to a negative power"
  | .complexPower => "0.0 to a negative or complex power"
  | .complexDivision => "complex division by zero"

end ZeroFault

/-! ## All faults -/

inductive Fault where
  | script (cause : ScriptFault)
  | object (cause : ObjectFault)
  | type (cause : TypeFault)
  | value (cause : ValueFault)
  | overflow (cause : OverflowFault)
  | zeroDivision (cause : ZeroFault)
  /-- A member that a value of that type does not have. -/
  | attribute (typeName name : String)
  /-- As it is quoted. -/
  | missingKey (quoted : String)
  /-- An index beyond the end of a list. -/
  | outOfRange
  | endOfInput
  /-- Bytes that are no text. -/
  | decoding (reason : String)
  /-- The number of a surrogate, which no text can hold. -/
  | encoding (code : Nat)
  /-- A value that does not fit into memory. -/
  | memory
  /-- A nesting that has no end. -/
  | tooDeep
  deriving DecidableEq

namespace Fault

def message : Fault → String
  | .script cause => cause.message
  | .object cause => cause.message
  | .type cause => cause.message
  | .value cause => cause.text
  | .overflow cause => cause.message
  | .zeroDivision cause => cause.message
  | .attribute typeName name => s!"'{typeName}' object has no attribute '{name}'"
  | .missingKey quoted => quoted
  | .outOfRange => "list index out of range"
  | .endOfInput => "EOF when reading a line"
  | .decoding reason => reason
  | .encoding code =>
    s!"'utf-8' codec can't encode character '\\u{ValueFault.hexText code}' in position 0: surrogates not allowed"
  | .memory => ""
  | .tooDeep => "maximum recursion depth exceeded"

end Fault

end Hetman
