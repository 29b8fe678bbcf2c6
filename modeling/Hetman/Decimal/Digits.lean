import Hetman.Double

/-!
Which digits a double is written with.

`Decimal.shortest` picks the fewest digits that read back as the same double;
of two candidates the nearer, on a tie the even one. `Decimal.significant` and
`Decimal.places` round the exact value to a set number of digits, a tie going
to the even neighbour.
-/

namespace Hetman.Decimal

/-- The number `digits · 10^exponent`. -/
structure Scaled where
  digits : Nat
  exponent : Int
  deriving DecidableEq, Inhabited

/-- Compares `a · 10^i` with `b · 2^j`. -/
def compareScaled (a : Nat) (i : Int) (b : Nat) (j : Int) : Ordering :=
  compare (a * Nat.pow 10 i.toNat * Nat.pow 2 (-j).toNat)
    (b * Nat.pow 2 j.toNat * Nat.pow 10 (-i).toNat)

/-- Whether a decimal lies among the reals that round to the double `m · 2^e`. -/
def readsBack (m : Nat) (e : Int) (d : Scaled) : Bool :=
  let narrow := m == Nat.pow 2 52 && e > -1074
  let low := compareScaled d.digits d.exponent (if narrow then 4 * m - 1 else 4 * m - 2) (e - 2)
  let high := compareScaled d.digits d.exponent (4 * m + 2) (e - 2)
  let even := m % 2 == 0
  (low == .gt || (even && low == .eq)) && (high == .lt || (even && high == .eq))

/-- The least `k` with `num / den < 10^k`, for positive `num` and `den`. -/
def scaleOf (num den : Nat) : Int :=
  let estimate : Int := (Double.log2Ratio num den + 1) * 30103 / 100000 - 1
  let below (k : Int) : Bool := num * Nat.pow 10 (-k).toNat < den * Nat.pow 10 k.toNat
  ((List.range 4).map fun (step : Nat) => estimate + step).find? below |>.getD (estimate + 4)

/-- The quotient `num / (den · 10^k)`, rounded down. -/
def gridFloor (num den : Nat) (k : Int) : Nat :=
  num * Nat.pow 10 (-k).toNat / (den * Nat.pow 10 k.toNat)

/-- Rounded to the nearest, a tie going to the even neighbour. -/
def gridRound (num den : Nat) (k : Int) : Nat :=
  Double.roundDiv (num * Nat.pow 10 (-k).toNat) (den * Nat.pow 10 k.toNat)

/-- The neighbour of `m · 2^e` on the grid `10^k` that reads back, if any. -/
def onGrid? (m : Nat) (e k : Int) : Option Scaled :=
  let num := m * Nat.pow 2 e.toNat
  let den := Nat.pow 2 (-e).toNat
  let lower := gridFloor num den k
  let nearest := gridRound num den k
  let other := if nearest = lower then lower + 1 else lower
  if readsBack m e ⟨nearest, k⟩ then some ⟨nearest, k⟩
  else if readsBack m e ⟨other, k⟩ then some ⟨other, k⟩
  else none

def stripZeros (fuel : Nat) (d : Scaled) : Scaled :=
  match fuel with
  | 0 => d
  | fuel + 1 =>
    if d.digits ≠ 0 && d.digits % 10 = 0 then stripZeros fuel ⟨d.digits / 10, d.exponent + 1⟩ else d

/-- The fewest digits that read back as the double `m · 2^e`, for positive `m`. -/
def shortest (m : Nat) (e : Int) : Scaled :=
  let num := m * Nat.pow 2 e.toNat
  let den := Nat.pow 2 (-e).toNat
  let scale := scaleOf num den
  let found := (List.range 17).findSome? fun (n : Nat) => onGrid? m e (scale - (n + 1))
  stripZeros 20 (found.getD ⟨gridRound num den (scale - 17), scale - 17⟩)

/-- Exactly `count` significant digits of `num / den`, for positive `num` and `den`. -/
def significant (num den count : Nat) : Scaled :=
  let k := scaleOf num den - count
  let digits := gridRound num den k
  if digits = Nat.pow 10 count then ⟨Nat.pow 10 (count - 1), k + 1⟩ else ⟨digits, k⟩

/-- `num / den` in units of `10^-places`, rounded to the nearest. -/
def places (num den places : Nat) : Nat :=
  gridRound num den (-places)

end Hetman.Decimal
