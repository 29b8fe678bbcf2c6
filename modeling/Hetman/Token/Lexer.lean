import Hetman.Text.Digit
import Hetman.Text.Quoted
import Hetman.Token.Lexicon

/-!
Reading a source text into tokens.

At every place the first rule of `Lexer.rules` that fits says how far the next
lexeme reaches. Blanks, line ends and comments give no token. A character that
no rule fits ends the reading, and so does a whole number with more digits than
`maxDigits`; the tokens before it are kept.
-/

namespace Hetman

/-- A place in a text: line and column, both from one. -/
structure Position where
  line : Nat := 1
  column : Nat := 1
  deriving DecidableEq, Inhabited

namespace Position

def step (p : Position) (c : Char) : Position :=
  if c = '\n' then ⟨p.line + 1, 1⟩ else ⟨p.line, p.column + 1⟩

def after (p : Position) (cs : List Char) : Position :=
  cs.foldl step p

end Position

namespace Lexer

inductive Fault where
  /-- A character that starts no lexeme. -/
  | stray (c : Char) (place : Position)
  /-- A whole number of that many digits. -/
  | digits (count : Nat)
  deriving DecidableEq

def Fault.message : Fault → String
  | .stray c p =>
    s!"Unexpected character, kozache: {Text.quoted (String.singleton c)} at line {p.line}, column {p.column}"
  | .digits count =>
    s!"Exceeds the limit ({maxDigits} digits) for integer string conversion: value has {count} digits; use sys.set_int_max_str_digits() to increase the limit"

/-! ## Lexemes -/

inductive Shape where
  | symbol | number | string | comment | op | word
  | mark (kind : Kind)
  | blank | newline | stray
  deriving DecidableEq

/-- The symbols of the symbolic dialect; of two that fit, the earlier counts. -/
def symbols : List (List Char) :=
  [">>>", "<<<", "<->", "<=>", "##>", "++>", "-->", "^>", "1!", "0!", "!!>", "!!", "i`**",
   "f`**", "s`**", "b`**", "+@", "@=", "@~", "~`", "~~", "??", "?!", "<!", "-<!", "___",
   "[..]", "->", "::", "<<", ">>", "<>", "=<", "=>", "+<", "+:", "?^", "-<", "--<", "?:",
   "k\x7b\x7d", "v\x7b\x7d", "?k", "-k", "@[]", "#[]", "[]>", "[]^", "[]->", "[]|",
   "[]:="].map String.toList

/-- The operators that are tried before a run of operator characters. -/
def operators : List (List Char) :=
  ["++", "%", "--", "&&", "||", ":=", "==", "!=", ">=", "<=", "//", "^/", "^"].map String.toList

/-- The characters of which a run is one operator. -/
def isOperatorChar (c : Char) : Bool :=
  ['+', '-', '*', '/', '=', '<', '>'].contains c

def isNameStart (c : Char) : Bool :=
  ('a' ≤ c && c ≤ 'z') || ('A' ≤ c && c ≤ 'Z') || c = '_'

def isNameChar (c : Char) : Bool :=
  isNameStart c || ('0' ≤ c && c ≤ '9')

/-- The length of the first word that fits, or zero. -/
def wordLength (words : List (List Char)) (cs : List Char) : Nat :=
  match words.find? fun w => w.isPrefixOf cs with
  | some w => w.length
  | none => 0

/-- The length of the longest run of such characters at the start. -/
def runLength (p : Char → Bool) (cs : List Char) : Nat :=
  (cs.takeWhile p).length

/-- Digits, then perhaps a point and more digits. -/
def numberLength (cs : List Char) : Nat :=
  match runLength Text.isDigit cs with
  | 0 => 0
  | n =>
    match cs.drop n with
    | '.' :: fraction => n + 1 + runLength Text.isDigit fraction
    | _ => n

def stringLength : List Char → Nat
  | [] => 0
  | quote :: cs =>
    if quote = '"' || quote = '\'' then
      match cs.drop (runLength (· ≠ quote) cs) with
      | [] => 0
      | _ :: _ => runLength (· ≠ quote) cs + 2
    else 0

/-- The distance to the end of the first `*/`. -/
def closeLength : List Char → Option Nat
  | '*' :: '/' :: _ => some 2
  | _ :: cs => (closeLength cs).map (· + 1)
  | [] => none

def commentLength : List Char → Nat
  | '/' :: '*' :: cs =>
    match closeLength cs with
    | some n => n + 2
    | none => 0
  | '/' :: '/' :: cs => 2 + runLength (· ≠ '\n') cs
  | _ => 0

def opLength (cs : List Char) : Nat :=
  match wordLength operators cs with
  | 0 => runLength isOperatorChar cs
  | n => n

/-- A name: a letter or underscore, then letters, underscores and ASCII digits. -/
def nameLength : List Char → Nat
  | [] => 0
  | c :: cs => if isNameStart c then 1 + runLength isNameChar cs else 0

def charLength (expected : Char) : List Char → Nat
  | [] => 0
  | c :: _ => if c = expected then 1 else 0

/-- The first rule that fits counts. A rule gives the length of its lexeme at the start of a text,
zero when it does not fit. -/
def rules : List (Shape × (List Char → Nat)) :=
  [(.symbol, wordLength symbols),
   (.number, numberLength),
   (.string, stringLength),
   (.comment, commentLength),
   (.op, opLength),
   (.symbol, wordLength (["!", "?", "$", "@", "#"].map String.toList)),
   (.word, nameLength),
   (.mark .dot, charLength '.'),
   (.mark .lparen, charLength '('),
   (.mark .rparen, charLength ')'),
   (.mark .lbrace, charLength '\x7b'),
   (.mark .rbrace, charLength '\x7d'),
   (.mark .lbracket, charLength '['),
   (.mark .rbracket, charLength ']'),
   (.mark .semicolon, charLength ';'),
   (.mark .comma, charLength ','),
   (.mark .colon, charLength ':'),
   (.blank, runLength fun c => c = ' ' || c = '\t'),
   (.newline, charLength '\n')]

def lexeme (cs : List Char) : Shape × Nat :=
  let fits := rules.findSome? fun rule =>
    match rule.2 cs with
    | 0 => none
    | n => some (rule.1, n)
  fits.getD (.stray, 1)

/-! ## Tokens -/

def numeral (text : List Char) : Except Fault Numeral :=
  let whole := text.takeWhile (· ≠ '.')
  if whole.length = text.length then
    if text.length ≤ maxDigits then .ok (.int (Text.digitsToNat text)) else .error (.digits text.length)
  else
    let fraction := text.drop (whole.length + 1)
    .ok (.float (Float.ofScientific (Text.digitsToNat (whole ++ fraction)) true fraction.length))

def token? (shape : Shape) (text : List Char) (p : Position) : Except Fault (Option Token) :=
  match shape with
  | .comment | .blank | .newline => .ok none
  | .number => do
    let n ← numeral text
    .ok (some ⟨.number, .number n, p.line, p.column⟩)
  | .symbol | .word =>
    let (kind, name) := Token.classify (String.ofList text)
    .ok (some ⟨kind, .text name, p.line, p.column⟩)
  | .string => .ok (some ⟨.string, .text (String.ofList text), p.line, p.column⟩)
  | .op => .ok (some ⟨.op, .text (String.ofList text), p.line, p.column⟩)
  | .mark kind => .ok (some ⟨kind, .text (String.ofList text), p.line, p.column⟩)
  | .stray => .error (.stray (text.headD ' ') p)

/-- The tokens of a text, and the fault that ended the reading, if any. -/
structure Result where
  tokens : List Token
  fault : Option Fault

def lexFrom (p : Position) (text : List Char) : Result :=
  match text with
  | [] => ⟨[], none⟩
  | c :: rest =>
    let (shape, length) := lexeme (c :: rest)
    let lexemeText := c :: rest.take (length - 1)
    match token? shape lexemeText p with
    | .error fault => ⟨[], some fault⟩
    | .ok found =>
      let later := lexFrom (p.after lexemeText) (rest.drop (length - 1))
      match found with
      | none => later
      | some token => ⟨token :: later.tokens, later.fault⟩
termination_by text.length
decreasing_by
  simp only [List.length_drop, List.length_cons]
  omega

end Lexer

def lex (source : String) : Lexer.Result :=
  Lexer.lexFrom {} source.toList

end Hetman
