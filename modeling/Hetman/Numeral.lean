/-!
Numerals: the numbers that can be written in a program, whole or with a
decimal point.
-/

namespace Hetman

inductive Numeral where
  | int (n : Int)
  | float (x : Float)
  deriving DecidableEq, Inhabited

/-- The most digits that a whole number is read from or written with. -/
def maxDigits : Nat := 4300

end Hetman
