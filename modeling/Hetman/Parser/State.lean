import Hetman.Decimal.Notation
import Hetman.Dialect
import Hetman.Tree

/-!
The state of the parser and its basic moves.

The parser walks over an array of tokens and only ever moves forward. What it
finds wrong it notes as a `Problem` and goes on at the next place where a
statement may start or end (`synchronize`). It stops early only when it needs a
token and there is none.

In strict mode the words that a program uses are held against its dialect
(`checkDialect`); a foreign word is a problem too, but nothing is skipped.
-/

namespace Hetman

def Token.Payload.display : Token.Payload → String
  | .text s => s
  | .number (.int n) => Decimal.intText n
  | .number (.float x) => Decimal.floatText x

def Token.display (t : Token) : String :=
  t.payload.display

namespace Parser

/-! ## Problems -/

inductive Complaint where
  | expected (kind : Kind)
  | strayStatement
  | strayFactor
  | strayExpression
  | strayBrace
  | strayMember
  | superUsage
  | superWithoutCall
  | stepTarget
  | trailingComma
  | forStart
  | notAssignment
  | note (text : String)
  deriving DecidableEq

inductive Origin where
  /-- Both Slavic dialects use it. -/
  | slavic
  | dialect (d : Dialect)
  deriving DecidableEq

structure Violation where
  token : Token
  origin : Origin
  program : Dialect
  deriving DecidableEq

inductive Problem where
  /-- A complaint about a token, or about the end of the text. -/
  | complaint (token : Option Token) (what : Complaint)
  | foreign (violation : Violation)
  deriving DecidableEq

def placeText (t : Token) : String :=
  s!"line {t.line}, column {t.column}"

def Complaint.message (what : Complaint) (token : Option Token) : String :=
  match what, token with
  | .expected kind, some t =>
    s!"Expected {kind.name}, got {t.kind.name} ('{t.display}') at {placeText t}"
  | .expected kind, none => s!"Expected {kind.name}, but found end of file."
  | .strayStatement, some t => s!"Unexpected token in statement: '{t.display}' at {placeText t}"
  | .strayStatement, none => "Unexpected token in statement"
  | .strayFactor, some t => s!"Unexpected token in factor: '{t.display}' at {placeText t}"
  | .strayFactor, none => "Unexpected token in factor"
  | .strayExpression, some t => s!"Unexpected expression in statement context at {placeText t}"
  | .strayExpression, none => "Unexpected expression in statement context"
  | .strayBrace, _ => "Unexpected '\x7b' in expression"
  | .strayMember, some t => s!"Unexpected token in class body: '{t.display}'"
  | .strayMember, none => "Unexpected token in class body"
  | .superUsage, some t => s!"Unexpected super usage at {placeText t}"
  | .superUsage, none => "Unexpected super usage"
  | .superWithoutCall, _ => "Super must be followed by a method call"
  | .stepTarget, _ =>
    "Increment/decrement only works on simple variables, not on indexed or property access"
  | .trailingComma, some t =>
    s!"Function arguments cannot have a trailing comma, kozache. ({placeText t})"
  | .trailingComma, none => "Function arguments cannot have a trailing comma, kozache."
  | .forStart, _ => "Expected ':=' in for loop initialization"
  | .notAssignment, some t => s!"Expected ':=', got {t.display}"
  | .notAssignment, none => "Expected ':='"
  | .note text, _ => text

/-- The word that the program's dialect has for it. -/
def Violation.hint (v : Violation) : String :=
  match translate? v.token.display (some v.program) with
  | some word =>
    if word.isEmpty then "" else s!"\n     Hint: Replace '{v.token.display}' with '{word}'"
  | none => ""

def Violation.message (v : Violation) : String :=
  let origin := match v.origin with
    | .slavic => "Slavic"
    | .dialect d => d.name
  s!"  ⚠ Line {v.token.line}, col {v.token.column}: Using {origin} keyword '{v.token.display}' in {v.program.name} program{v.hint}"

def Problem.message : Problem → String
  | .complaint (some t) what =>
    s!"Error at line {t.line}, col {t.column}: {what.message (some t)}"
  | .complaint none what => s!"Error at unknown location: {what.message none}"
  | .foreign violation => violation.message

def Problem.violation? : Problem → Option Violation
  | .complaint .. => none
  | .foreign violation => some violation

/-! ## States and moves -/

/-- What is read off a token that is not there. -/
inductive TokenPart where
  | kind | value
  deriving DecidableEq

inductive Stop where
  | noStarter
  /-- A token was needed at the end of the text. -/
  | noToken (part : TokenPart)
  /-- A token before the first or after the last was asked for. -/
  | outOfRange
  /-- A production that there is not was called. -/
  | noProduction (name : String)
  /-- The recursion went deeper than there are tokens. -/
  | exhausted
  deriving DecidableEq

def Stop.message : Stop → String
  | .noStarter =>
    "Be respectful to Hetman: you should always declare him at the start! (line 1, column 1)"
  | .noToken .kind => "'NoneType' object has no attribute 'type'"
  | .noToken .value => "'NoneType' object has no attribute 'value'"
  | .outOfRange => "list index out of range"
  | .noProduction name => s!"'Parser' object has no attribute '{name}'"
  | .exhausted => "maximum recursion depth exceeded"

/-- The tokens, the place in them, the problems so far, and the dialect that
strict mode has found. -/
structure State where
  tokens : Array Token
  pos : Nat := 0
  problems : List Problem := []
  strict : Bool := false
  dialect : Option Dialect := none

namespace State

def token? (s : State) : Option Token := s.tokens[s.pos]?

def remaining (s : State) : Nat := s.tokens.size - s.pos

def violations (s : State) : List Violation := s.problems.filterMap Problem.violation?

end State

end Parser

abbrev Parser := EStateM Parser.Stop Parser.State

namespace Parser

def peek : Parser (Option Token) := do
  return (← get).token?

/-- A negative place counts from the last token. -/
def peekAhead (n : Int) : Parser (Option Token) := do
  let s ← get
  let index := (s.pos : Int) + n
  if 0 ≤ index then return s.tokens[index.toNat]?
  else if -(s.tokens.size : Int) ≤ index then return s.tokens[(index + s.tokens.size).toNat]?
  else throw .outOfRange

def previous : Parser (Option Token) := do
  let s ← get
  match s.pos with
  | 0 => return none
  | before + 1 =>
    match s.tokens[before]? with
    | some t => return some t
    | none => throw .outOfRange

def isAtEnd : Parser Bool := do
  let s ← get
  return s.tokens.size ≤ s.pos

def advance : Parser Unit :=
  modify fun s => { s with pos := s.pos + 1 }

def report (problem : Problem) : Parser Unit :=
  modify fun s => { s with problems := s.problems ++ [problem] }

def nextIs (p : Token → Bool) : Parser Bool := do
  return match (← get).token? with
    | some t => p t
    | none => false

def nextHas (kind : Kind) : Parser Bool :=
  nextIs fun t => t.kind = kind

def nextKind : Parser Kind := do
  match ← peek with
  | some t => return t.kind
  | none => throw (.noToken .kind)

/-- At most `fuel` times. -/
def repeatWhile {α : Type} (again : α → Parser Bool) (body : α → Parser α) :
    Nat → α → Parser α
  | 0, _ => throw .exhausted
  | fuel + 1, a => do
    if ← again a then repeatWhile again body fuel (← body a) else return a

/-- The step uses up a token each time. -/
def loop {α : Type} (again : α → Parser Bool) (body : α → Parser α) (a : α) : Parser α := do
  repeatWhile again body ((← get).remaining + 1) a

/-! ## Recovery -/

def isRecoveryPoint (t : Token) : Bool :=
  match t.kind with
  | .keyword .function | .keyword .ifBranch | .keyword .whileLoop | .keyword .forLoop
  | .keyword .classDef | .rbrace | .semicolon => true
  | _ => false

/-- Skips the current token and all up to the next recovery point. -/
def synchronize : Parser Unit := do
  unless ← isAtEnd do advance
  loop (fun _ => nextIs fun t => !isRecoveryPoint t) (fun _ => advance) ()

def complain (token : Option Token) (what : Complaint) : Parser Unit := do
  report (.complaint token what)
  synchronize

def failNode (token : Option Token) (what : Complaint) : Parser Node := do
  complain token what
  return .missing

def expect (kind : Kind) : Parser (Option Token) := do
  match ← peek with
  | some t =>
    if t.kind = kind then
      advance
      return some t
    else
      complain (some t) (.expected kind)
      return none
  | none =>
    complain none (.expected kind)
    return none

def expectText (kind : Kind) : Parser String := do
  match ← expect kind with
  | some t => return t.display
  | none => throw (.noToken .value)

def expectName : Parser String :=
  expectText .ident

/-- Takes a token if it is there; otherwise complains and goes on. -/
def demand (kind : Kind) : Parser Unit := do
  let _ ← expect kind

/-! ## Dialects -/

/-- The first word of a dialect decides which one it is. -/
def checkDialect (t : Token) : Parser Unit := do
  let s ← get
  if s.strict then
    match t.payload with
    | .number _ => return
    | .text word =>
      if sharedSlavic.contains word then
        match s.dialect with
        | none => return
        | some d => unless d.isSlavic do report (.foreign ⟨t, .slavic, d⟩)
      else
        match Dialect.ofWord? word with
        | none => return
        | some origin =>
          match s.dialect with
          | none => set { s with dialect := some origin }
          | some d => unless d = origin do report (.foreign ⟨t, .dialect origin, d⟩)

def expectChecked (kind : Kind) : Parser (Option Token) := do
  match ← peek with
  | some t =>
    if t.kind = kind then checkDialect t
    expect kind
  | none => expect kind

end Parser

end Hetman
