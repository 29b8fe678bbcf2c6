import Hetman.Double
import Hetman.Numeral
import Hetman.Text.Blank
import Hetman.Text.Digit

/-!
Reading numbers from text.

Blanks around a number are passed over, single underscores may stand between
digits, and the digits may be of any script.
-/

namespace Hetman.Decimal

/-- A text without the blanks around it, its digits brought to ASCII. -/
def normalize (s : String) : List Char :=
  (Text.strip Text.isBlank s.toList).map fun c => match Text.digitValue? c with
    | some d => Char.ofNat (0x30 + d)
    | none => c

/-- Splits a sign off: whether it is a minus, and the rest. -/
def takeSign : List Char → Bool × List Char
  | '-' :: rest => (true, rest)
  | '+' :: rest => (false, rest)
  | rest => (false, rest)

def isAsciiDigit (c : Char) : Bool :=
  c.toNat < 128 && c.isDigit

/-- Digits with single underscores between them. `after` says whether a digit stands right before.
-/
def joinDigits? (after : Bool) : List Char → Option (List Char)
  | [] => if after then some [] else none
  | '_' :: rest => if after then joinDigits? false rest else none
  | c :: rest => if isAsciiDigit c then (joinDigits? true rest).map (c :: ·) else none

def readInt? (s : String) : Option Int :=
  let (negative, body) := takeSign (normalize s)
  match joinDigits? false body with
  | none => none
  | some digits =>
    if digits.length ≤ maxDigits then
      let n : Int := Text.digitsToNat digits
      some (if negative then -n else n)
    else none

def scaledToFloat (negative : Bool) (digits : List Char) (exponent : Int) : Float :=
  let significand := digits.dropWhile (· = '0')
  let lead := exponent + significand.length
  if significand.isEmpty then Double.ofMagnitude negative 0
  else if lead > 400 then Double.ofRatio negative (Nat.pow 10 400) 1
  else if lead < -400 then Double.ofMagnitude negative 0
  else
    Double.ofRatio negative (Text.digitsToNat significand * Nat.pow 10 exponent.toNat)
      (Nat.pow 10 (-exponent).toNat)

/-- Underscores are taken out between digits; nothing if one stands elsewhere. -/
def dropUnderscores? (after : Bool) : List Char → Option (List Char)
  | [] => some []
  | '_' :: c :: rest =>
    if after && isAsciiDigit c then (dropUnderscores? true rest).map (c :: ·) else none
  | c :: rest => if c = '_' then none else (dropUnderscores? (isAsciiDigit c) rest).map (c :: ·)

def readExponent? (s : List Char) : Option Int :=
  let (negative, digits) := takeSign s
  if digits.isEmpty || !digits.all isAsciiDigit then none
  else
    let n : Int := Text.digitsToNat digits
    some (if negative then -n else n)

def readMagnitude? (negative : Bool) (s : List Char) : Option Float :=
  let lower := s.map Char.toLower
  if lower = "inf".toList || lower = "infinity".toList then
    some (if negative then -Double.infinity else Double.infinity)
  else if lower = "nan".toList then some Double.nan
  else
    let whole := s.takeWhile isAsciiDigit
    let rest := s.drop whole.length
    let (fraction, rest) := match rest with
      | '.' :: rest => (rest.takeWhile isAsciiDigit, rest.dropWhile isAsciiDigit)
      | rest => ([], rest)
    if whole.isEmpty && fraction.isEmpty then none
    else
      let exponent? : Option Int := match rest with
        | [] => some 0
        | mark :: rest => if mark = 'e' || mark = 'E' then readExponent? rest else none
      exponent?.map fun exponent =>
        scaledToFloat negative (whole ++ fraction) (exponent - fraction.length)

def readFloat? (s : String) : Option Float :=
  match dropUnderscores? false (normalize s) with
  | none => none
  | some chars =>
    let (negative, body) := takeSign chars
    readMagnitude? negative body

end Hetman.Decimal
