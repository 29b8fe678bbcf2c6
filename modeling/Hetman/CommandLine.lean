import Hetman.Text.Digit
import Hetman.Text.Quoted

/-!
The arguments of the command line.

There is one argument, the file to run, and two flags. A flag can be shortened
as long as it stays clear which one is meant, and flags of one letter can be
written together. After `--` nothing is a flag.
-/

namespace Hetman.CommandLine

inductive Flag where
  | help | skipStrict
  deriving DecidableEq, Inhabited

namespace Flag

def name : Flag → String
  | .help => "-h/--help"
  | .skipStrict => "--skip-strict/-s"

/-- The flags by their long names. -/
def long : List (String × Flag) :=
  [("--help", .help), ("--skip-strict", .skipStrict)]

def ofLetter? : Char → Option Flag
  | 'h' => some .help
  | 's' => some .skipStrict
  | _ => none

end Flag

inductive Fault where
  | ambiguous (arg : String) (candidates : List String)
  | unusedValue (flag : Flag) (value : String)
  | noFile
  | unrecognized (args : List String)
  deriving DecidableEq, Inhabited

namespace Fault

def message : Fault → String
  | .ambiguous arg candidates =>
    s!"ambiguous option: {arg} could match " ++ String.intercalate ", " candidates
  | .unusedValue flag value =>
    s!"argument {flag.name}: ignored explicit argument {Text.quoted value}"
  | .noFile => "the following arguments are required: file"
  | .unrecognized args => "unrecognized arguments: " ++ String.intercalate " " args

end Fault

/-! ## Kinds of arguments -/

inductive Arg where
  | plain (text : String)
  /-- Two dashes and nothing else. -/
  | dashes
  /-- A flag by its long name, with a value after `=`, if any. -/
  | longFlag (flag : Flag) (value : Option String)
  /-- The letters after a single dash, of which the first one is a flag. -/
  | letters (flag : Flag) (rest : List Char)
  /-- What looks like a flag and is none. -/
  | unknown (text : String)
  deriving DecidableEq, Inhabited

def splitValue (text : List Char) : List Char × Option String :=
  match text.dropWhile (· ≠ '=') with
  | [] => (text, none)
  | _ :: value => (text.takeWhile (· ≠ '='), some (String.ofList value))

/-- Whether a text is a negative number: digits after a dash, with a point
before some of them or none. A line feed may follow. -/
def isNegativeNumber (text : List Char) : Bool :=
  let body := if text.getLast? = some '\n' then text.dropLast else text
  match body with
  | '-' :: digits =>
    let whole := digits.takeWhile Text.isDigit
    match digits.drop whole.length with
    | [] => !whole.isEmpty
    | '.' :: fraction => !fraction.isEmpty && fraction.all Text.isDigit
    | _ => false
  | _ => false

/-- What an argument is that starts like a flag without being one. -/
def otherwise (text : String) : Arg :=
  if isNegativeNumber text.toList || text.toList.contains ' ' then .plain text else .unknown text

def classify (text : String) : Except Fault Arg :=
  match text.toList with
  | '-' :: '-' :: _ =>
    let (name, value) := splitValue text.toList
    match Flag.long.find? fun e => e.1.toList = name with
    | some (_, flag) => .ok (.longFlag flag value)
    | none =>
      match Flag.long.filter fun e => name.isPrefixOf e.1.toList with
      | [] => .ok (otherwise text)
      | [(_, flag)] => .ok (.longFlag flag value)
      | several => .error (.ambiguous text (several.map (·.1)))
  | '-' :: letter :: rest =>
    match Flag.ofLetter? letter with
    | some flag => .ok (.letters flag rest)
    | none => .ok (otherwise text)
  | _ => .ok (.plain text)

def classifyAll : List String → Except Fault (List Arg)
  | [] => .ok []
  | "--" :: rest => .ok (.dashes :: rest.map .plain)
  | text :: rest => do
    let arg ← classify text
    return arg :: (← classifyAll rest)

/-! ## What is asked for -/

structure Options where
  file : Option String := none
  skipStrict : Bool := false
  /-- What nothing is known about. -/
  extras : List String := []
  deriving DecidableEq, Inhabited

inductive Request where
  | help
  | run (file : String) (skipStrict : Bool)
  deriving DecidableEq, Inhabited

/-- The flags that letters stand for, and the letters from the first that is no flag on. -/
def splitLetters (flag : Flag) : (rest : List Char) → Except Fault (List Flag × List Char)
  | [] => .ok ([flag], [])
  | '=' :: value => .error (.unusedValue flag (String.ofList value))
  | '-' :: rest => .error (.unusedValue flag (String.ofList ('-' :: rest)))
  | letter :: rest =>
    match Flag.ofLetter? letter with
    | some next => do
      let (flags, unknown) ← splitLetters next rest
      return (flag :: flags, unknown)
    | none => .ok ([flag], letter :: rest)

/-- The request for help is granted at once, whatever follows. -/
def collect (o : Options) : List Arg → Except Fault (Option Options)
  | [] => .ok (some o)
  | .plain text :: rest =>
    match o.file with
    | some _ => collect { o with extras := o.extras ++ [text] } rest
    | none =>
      match rest with
      | .dashes :: rest => collect { o with file := some text } rest
      | rest => collect { o with file := some text } rest
  | .dashes :: rest =>
    match o.file, rest with
    | none, .plain text :: rest => collect { o with file := some text } rest
    | _, rest => collect { o with extras := o.extras ++ ["--"] } rest
  | .unknown text :: rest => collect { o with extras := o.extras ++ [text] } rest
  | .longFlag flag (some value) :: _ => .error (.unusedValue flag value)
  | .longFlag .help none :: _ => .ok none
  | .longFlag .skipStrict none :: rest => collect { o with skipStrict := true } rest
  | .letters flag letters :: rest => do
    let (flags, unknown) ← splitLetters flag letters
    if flags.contains .help then return none
    let extras := if unknown.isEmpty then [] else [String.ofList ('-' :: unknown)]
    collect { o with skipStrict := true, extras := o.extras ++ extras } rest

def read (args : List String) : Except Fault Request := do
  match ← collect {} (← classifyAll args) with
  | none => return .help
  | some o =>
    match o.file with
    | none => throw .noFile
    | some file =>
      if o.extras.isEmpty then return .run file o.skipStrict
      else throw (.unrecognized o.extras)

end Hetman.CommandLine
