import Hetman.Decimal.Digits

/-!
How numbers are written.

Whole numbers are written in full, up to `maxDigits` digits. A double is
written with the fewest digits that identify it: positionally while its leading
digit stands for `10^-4` up to `10^15`, always with a point and a digit after
it, and otherwise with a signed exponent of at least two digits.
-/

namespace Hetman.Decimal

def natDigits (n : Nat) : List Char :=
  Nat.toDigits 10 n

def intText (n : Int) : String :=
  match n with
  | .ofNat k => String.ofList (natDigits k)
  | .negSucc k => String.ofList ('-' :: natDigits (k + 1))

def exponentText (e : Int) : List Char :=
  let digits := natDigits e.natAbs
  (if e < 0 then '-' else '+') :: (if digits.length < 2 then '0' :: digits else digits)

/-- `wholeMark` is written after a value without fraction. -/
def layout (wholeMark : List Char) (d : Scaled) : List Char :=
  let digits := natDigits d.digits
  let lead := d.exponent + digits.length - 1
  if -4 ≤ lead && lead < 16 then
    if 0 ≤ d.exponent then
      digits ++ List.replicate d.exponent.toNat '0' ++ wholeMark
    else if 0 ≤ lead then
      digits.take (lead.toNat + 1) ++ '.' :: digits.drop (lead.toNat + 1)
    else
      '0' :: '.' :: List.replicate (-lead - 1).toNat '0' ++ digits
  else
    match digits with
    | [] => []
    | [only] => only :: 'e' :: exponentText lead
    | first :: rest => first :: '.' :: rest ++ 'e' :: exponentText lead

def doubleText (wholeMark : List Char) (x : Float) : String :=
  match Double.decode x with
  | .nan => "nan"
  | .infinite negative => if negative then "-inf" else "inf"
  | .finite negative m e =>
    let body := if m = 0 then '0' :: wholeMark else layout wholeMark (shortest m e)
    String.ofList (if negative then '-' :: body else body)

def floatText (x : Float) : String :=
  doubleText ['.', '0'] x

end Hetman.Decimal
