import Hetman.Decimal.Notation

/-!
Doubles written with a set number of digits.

Three forms: `fixed` with so many places after the point, `scientific` with so
many places after the first digit, and `general` with so many significant
digits in whichever of the two is shorter. The exact value is rounded, a tie
going to the even neighbour. With `keepPoint` a point is written even when no
digit follows, and `general` keeps its trailing zeros.
-/

namespace Hetman.Decimal

/-- The magnitude of a finite double as a quotient. -/
def quotientOf (m : Nat) (e : Int) : Nat × Nat :=
  (m * Nat.pow 2 e.toNat, Nat.pow 2 (-e).toNat)

/-- A fraction after a point; the point alone only if it is kept. -/
def pointed (keepPoint : Bool) (fraction : List Char) : List Char :=
  if fraction.isEmpty && !keepPoint then [] else '.' :: fraction

def padZeros (width : Nat) (digits : List Char) : List Char :=
  List.replicate (width - digits.length) '0' ++ digits

/-- So many places after the point. -/
def fixed (keepPoint : Bool) (count : Nat) (m : Nat) (e : Int) : List Char :=
  let (num, den) := quotientOf m e
  let digits := padZeros (count + 1) (natDigits (places num den count))
  let whole := digits.take (digits.length - count)
  whole ++ pointed keepPoint (digits.drop whole.length)

/-- The digits and the exponent of the first one, rounded to a count. -/
def leading (count : Nat) (m : Nat) (e : Int) : List Char × Int :=
  if m = 0 then (List.replicate count '0', 0)
  else
    let (num, den) := quotientOf m e
    let d := significant num den count
    let digits := natDigits d.digits
    (digits, d.exponent + digits.length - 1)

/-- One digit before the point and so many after it, with an exponent. -/
def scientific (keepPoint : Bool) (count : Nat) (m : Nat) (e : Int) : List Char :=
  let (digits, lead) := leading (count + 1) m e
  digits.take 1 ++ pointed keepPoint (digits.drop 1) ++ 'e' :: exponentText lead

def dropTrailingZeros (digits : List Char) : List Char :=
  (digits.reverse.dropWhile (· = '0')).reverse

/-- So many significant digits, with an exponent when the first digit stands
below `10^-4` or beyond the count. -/
def general (keepPoint : Bool) (count : Nat) (m : Nat) (e : Int) : List Char :=
  let count := max count 1
  let (digits, lead) := leading count m e
  let trim (fraction : List Char) := if keepPoint then fraction else dropTrailingZeros fraction
  if lead < -4 || lead ≥ count then
    digits.take 1 ++ pointed keepPoint (trim (digits.drop 1)) ++ 'e' :: exponentText lead
  else if lead < 0 then
    '0' :: pointed keepPoint (trim (List.replicate (-lead - 1).toNat '0' ++ digits))
  else
    digits.take (lead.toNat + 1) ++ pointed keepPoint (trim (digits.drop (lead.toNat + 1)))

inductive Form where
  | fixed | scientific | general
  deriving DecidableEq, Inhabited

def formatted (form : Form) (keepPoint : Bool) (count : Nat) (x : Float) : List Char :=
  match Double.decode x with
  | .nan => "nan".toList
  | .infinite negative => if negative then "-inf".toList else "inf".toList
  | .finite negative m e =>
    let body := match form with
      | .fixed => fixed keepPoint count m e
      | .scientific => scientific keepPoint count m e
      | .general => general keepPoint count m e
    if negative then '-' :: body else body

end Hetman.Decimal
