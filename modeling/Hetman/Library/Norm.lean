import Hetman.Double

/-!
The length of a vector of doubles.

The parts are scaled by a power of two so that no square is out of range, each
square is summed with the rounding errors kept apart, and the root is improved
by one step with the remaining error.
-/

namespace Hetman.Norm

/-- A running sum with the errors that it has made, by kind. -/
structure Sum where
  total : Float := 1
  first : Float := 0
  second : Float := 0
  third : Float := 0

/-- A double as the sum of two with half of the bits each. -/
def split (x : Float) : Float × Float :=
  let t := x * 134217729
  let high := t - (t - x)
  (high, x - high)

def addSquare (s : Sum) (x : Float) : Sum :=
  let (high, low) := split x
  let square := high * high
  let total := s.total + square
  let first := s.first + ((s.total - total) + square)
  let cross := 2 * high * low
  let total' := total + cross
  let second := s.second + ((total - total') + cross)
  ⟨total', first, second, s.third + low * low⟩

/-- Takes the square of the root away again: what remains is its error. -/
def remaining (s : Sum) (root : Float) : Float :=
  let (high, low) := split root
  let square := -high * high
  let total := s.total + square
  let first := s.first + ((s.total - total) + square)
  let cross := -2 * high * low
  let total' := total + cross
  let second := s.second + ((total - total') + cross)
  let rest := -low * low
  let total'' := total' + rest
  let third := s.third + ((total' - total'') + rest)
  total'' - 1 + (first + second + third)

/-- The exponent `e` with `2^(e-1) ≤ x < 2^e`, for a positive double. -/
def exponentOf (x : Float) : Int :=
  match Double.decode x with
  | .finite _ m e => (m.log2 : Int) + 1 + e
  | _ => 0

/-- From parts that are finite and not negative. -/
def scaled (parts : List Float) (largest : Float) : Float :=
  let e := exponentOf largest
  if e ≥ -1023 then
    let scale := Double.ofScaled false 1 (-e)
    let s := parts.foldl (fun s x => addSquare s (x * scale)) {}
    let root := (s.total - 1 + (s.first + s.second + s.third)).sqrt
    (root + remaining s root / (2 * root)) / scale
  else
    let (total, error) := parts.foldl (fun (total, error) x =>
      let square := (x / largest) * (x / largest)
      let total' := total + square
      (total', error + ((total - total') + square))) ((1 : Float), (0 : Float))
    largest * (total - 1 + error).sqrt

def length (parts : List Float) : Float :=
  let parts := parts.map Float.abs
  let largest := parts.foldl (fun m x => if x > m then x else m) 0
  if Double.isInfinite largest then largest
  else if parts.any Float.isNaN then Double.nan
  else if largest == 0 || parts.length ≤ 1 then largest
  else scaled parts largest

end Hetman.Norm
