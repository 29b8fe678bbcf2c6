import Hetman.Bindings
import Hetman.Decimal.Reading
import Hetman.Tree

/-!
Reading JSON text as a plain value.

A number without point and exponent is an integer. Of two entries of an object
with the same key the last one counts, in the place of the first. A text that
is not JSON is reported with the place where reading stopped.
-/

namespace Hetman.Json

inductive Problem where
  | value | property | colon | comma | unterminated | control | escape | hexEscape | extra
  | byteOrderMark
  deriving DecidableEq, Inhabited

namespace Problem

def text : Problem → String
  | .value => "Expecting value"
  | .property => "Expecting property name enclosed in double quotes"
  | .colon => "Expecting ':' delimiter"
  | .comma => "Expecting ',' delimiter"
  | .unterminated => "Unterminated string starting at"
  | .control => "Invalid control character at"
  | .escape => "Invalid \\escape"
  | .hexEscape => "Invalid \\uXXXX escape"
  | .extra => "Extra data"
  | .byteOrderMark => "Unexpected UTF-8 BOM (decode using utf-8-sig)"

end Problem

/-- A problem with so many characters left, or an integer of too many digits. -/
inductive Stop where
  | problem (what : Problem) (left : Nat)
  | digits (count : Nat)
  deriving DecidableEq, Inhabited

def stopAt {α : Type} (what : Problem) (rest : List Char) : Except Stop (α × List Char) :=
  .error (.problem what rest.length)

def isBlank (c : Char) : Bool :=
  c == ' ' || c == '\t' || c == '\n' || c == '\r'

def skipBlanks (text : List Char) : List Char :=
  text.dropWhile isBlank

/-! ## Strings -/

def hexValue? (c : Char) : Option Nat :=
  if '0' ≤ c && c ≤ '9' then some (c.toNat - '0'.toNat)
  else if 'a' ≤ c && c ≤ 'f' then some (c.toNat - 'a'.toNat + 10)
  else if 'A' ≤ c && c ≤ 'F' then some (c.toNat - 'A'.toNat + 10)
  else none

def hexUnit? (a b c d : Char) : Option Nat := do
  return 4096 * (← hexValue? a) + 256 * (← hexValue? b) + 16 * (← hexValue? c) + (← hexValue? d)

def escaped? : Char → Option Char
  | '"' => some '"'
  | '\\' => some '\\'
  | '/' => some '/'
  | 'b' => some '\x08'
  | 'f' => some '\x0c'
  | 'n' => some '\n'
  | 'r' => some '\r'
  | 't' => some '\t'
  | _ => none

/-- At the opening quote `start` characters were left. -/
def readUnits (start : Nat) : List Char → Except Stop (List Nat × List Char)
  | [] => .error (.problem .unterminated start)
  | '"' :: rest => .ok ([], rest)
  | '\\' :: 'u' :: a :: b :: c :: d :: e :: rest =>
    match hexUnit? a b c d with
    | some unit => do
      let (units, rest) ← readUnits start (e :: rest)
      return (unit :: units, rest)
    | none => stopAt .hexEscape ('u' :: a :: b :: c :: d :: e :: rest)
  | '\\' :: 'u' :: rest => stopAt .hexEscape ('u' :: rest)
  | ['\\'] => .error (.problem .unterminated start)
  | '\\' :: c :: rest =>
    match escaped? c with
    | some c => do
      let (units, rest) ← readUnits start rest
      return (c.toNat :: units, rest)
    | none => stopAt .escape ('\\' :: c :: rest)
  | c :: rest =>
    if c.toNat < 0x20 then stopAt .control (c :: rest)
    else do
      let (units, rest) ← readUnits start rest
      return (c.toNat :: units, rest)

/-- Code units as characters: a high and a low surrogate make one character,
and U+FFFD stands for one that is alone. -/
def joinUnits : List Nat → List Char
  | [] => []
  | high :: low :: rest =>
    if 0xd800 ≤ high && high < 0xdc00 && 0xdc00 ≤ low && low < 0xe000 then
      Char.ofNat (0x10000 + (high - 0xd800) * 0x400 + (low - 0xdc00)) :: joinUnits rest
    else single high :: joinUnits (low :: rest)
  | [unit] => [single unit]
where
  single (unit : Nat) : Char :=
    if 0xd800 ≤ unit && unit < 0xe000 then Char.ofNat 0xfffd else Char.ofNat unit

/-- After the opening quote. -/
def readText (rest : List Char) : Except Stop (String × List Char) := do
  let (units, rest) ← readUnits (rest.length + 1) rest
  return (String.ofList (joinUnits units), rest)

/-! ## Numbers -/

def takeDigits (text : List Char) : List Char × List Char :=
  (text.takeWhile Decimal.isAsciiDigit, text.dropWhile Decimal.isAsciiDigit)

/-- The whole part of a number: a zero, or digits that do not begin with one. -/
def takeWhole : List Char → List Char × List Char
  | '0' :: rest => (['0'], rest)
  | text => takeDigits text

def takeFraction (text : List Char) : List Char × List Char :=
  match text with
  | '.' :: rest =>
    let (digits, after) := takeDigits rest
    if digits.isEmpty then ([], text) else ('.' :: digits, after)
  | text => ([], text)

def takeExponent (text : List Char) : List Char × List Char :=
  match text with
  | e :: rest =>
    if e = 'e' || e = 'E' then
      let (sign, rest) := match rest with
        | '+' :: rest => (['+'], rest)
        | '-' :: rest => (['-'], rest)
        | rest => ([], rest)
      let (digits, after) := takeDigits rest
      if digits.isEmpty then ([], text) else (e :: sign ++ digits, after)
    else ([], text)
  | text => ([], text)

def readNumber (text : List Char) : Except Stop (Datum × List Char) :=
  let (sign, rest) := match text with
    | '-' :: rest => (['-'], rest)
    | text => ([], text)
  let (whole, rest) := takeWhole rest
  let (fraction, rest) := takeFraction rest
  let (exponent, rest) := takeExponent rest
  if whole.isEmpty then stopAt .value text
  else if fraction.isEmpty && exponent.isEmpty then
    if whole.length ≤ maxDigits then
      let n : Int := Text.digitsToNat whole
      .ok (.int (if sign.isEmpty then n else -n), rest)
    else .error (.digits whole.length)
  else
    let written := String.ofList (sign ++ whole ++ fraction ++ exponent)
    .ok (.float ((Decimal.readFloat? written).getD 0), rest)

/-! ## Values -/

def words : List (String × Datum) :=
  [("null", .none), ("true", .bool true), ("false", .bool false), ("NaN", .float Double.nan),
   ("Infinity", .float Double.infinity), ("-Infinity", .float (-Double.infinity))]

def readWord? (text : List Char) : Option (Datum × List Char) :=
  (words.find? fun w => w.1.toList.isPrefixOf text).map fun w => (w.2, text.drop w.1.length)

def readItems (value : List Char → Except Stop (Datum × List Char)) :
    (fuel : Nat) → List Char → Except Stop (List Datum × List Char)
  | 0, text => stopAt .value text
  | fuel + 1, text => do
    let (item, rest) ← value text
    match skipBlanks rest with
    | ']' :: rest => return ([item], rest)
    | ',' :: rest =>
      let (items, rest) ← readItems value fuel (skipBlanks rest)
      return (item :: items, rest)
    | rest => stopAt .comma rest

def readEntries (value : List Char → Except Stop (Datum × List Char)) :
    (fuel : Nat) → List Char → Except Stop (List (String × Datum) × List Char)
  | 0, text => stopAt .property text
  | fuel + 1, '"' :: text => do
    let (key, rest) ← readText text
    match skipBlanks rest with
    | ':' :: rest =>
      let (item, rest) ← value (skipBlanks rest)
      match skipBlanks rest with
      | '}' :: rest => return ([(key, item)], rest)
      | ',' :: rest =>
        let (entries, rest) ← readEntries value fuel (skipBlanks rest)
        return ((key, item) :: entries, rest)
      | rest => stopAt .comma rest
    | rest => stopAt .colon rest
  | _ + 1, text => stopAt .property text

def unify (entries : List (String × Datum)) : List (Datum × Datum) :=
  (Bindings.insertAll [] entries).map fun e => (.text e.1, e.2)

/-- Nested at most `fuel` deep. -/
def readValue : (fuel : Nat) → List Char → Except Stop (Datum × List Char)
  | 0, text => stopAt .value text
  | fuel + 1, text =>
    match text with
    | '"' :: rest => do
      let (s, rest) ← readText rest
      return (.text s, rest)
    | '[' :: rest =>
      match skipBlanks rest with
      | ']' :: rest => .ok (.list [], rest)
      | rest => do
        let (items, rest) ← readItems (readValue fuel) (rest.length + 1) rest
        return (.list items, rest)
    | '{' :: rest =>
      match skipBlanks rest with
      | '}' :: rest => .ok (.dict [], rest)
      | rest => do
        let (entries, rest) ← readEntries (readValue fuel) (rest.length + 1) rest
        return (.dict (unify entries), rest)
    | text =>
      match readWord? text with
      | some result => .ok result
      | none => readNumber text

def readAll (text : List Char) : Except Stop Datum :=
  match text with
  | '\ufeff' :: _ => .error (.problem .byteOrderMark text.length)
  | text => do
    let (value, rest) ← readValue (text.length + 1) (skipBlanks text)
    match skipBlanks rest with
    | [] => return value
    | rest => .error (.problem .extra rest.length)

/-! ## Faults -/

structure Fault where
  text : List Char
  stop : Stop
  deriving Inhabited

def Fault.message (f : Fault) : String :=
  match f.stop with
  | .problem what left =>
    let before := f.text.take (f.text.length - left)
    let line := before.count '\n' + 1
    let column := (before.reverse.takeWhile (· ≠ '\n')).length + 1
    s!"{what.text}: line {line} column {column} (char {before.length})"
  | .digits count =>
    s!"Exceeds the limit ({maxDigits} digits) for integer string conversion: value has {count} digits; use sys.set_int_max_str_digits() to increase the limit"

def read (text : String) : Except Fault Datum :=
  match readAll text.toList with
  | .ok value => .ok value
  | .error stop => .error ⟨text.toList, stop⟩

end Hetman.Json
