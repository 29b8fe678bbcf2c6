/-!
Doubles taken apart and put together.

A finite double is `±m · 2^e` with natural `m`; `Double.decode` finds these
parts and `Double.ofRatio` goes back, from any quotient of naturals to the
nearest double, a tie going to the even neighbour. Everything that has to be
exact about doubles is computed on the parts.
-/

namespace Hetman.Double

inductive Parts where
  | nan
  | infinite (negative : Bool)
  /-- The number `±m · 2^e`. -/
  | finite (negative : Bool) (m : Nat) (e : Int)
  deriving DecidableEq, Inhabited

def decode (x : Float) : Parts :=
  let bits := x.toBits.toNat
  let negative := bits / Nat.pow 2 63 == 1
  let biased : Nat := bits / Nat.pow 2 52 % Nat.pow 2 11
  let fraction : Nat := bits % Nat.pow 2 52
  if biased = 2047 then
    if fraction = 0 then .infinite negative else .nan
  else if biased = 0 then .finite negative fraction (-1074)
  else .finite negative (Nat.pow 2 52 + fraction) ((biased : Int) - 1075)

def ofMagnitude (negative : Bool) (bits : Nat) : Float :=
  Float.ofBits ((if negative then bits + Nat.pow 2 63 else bits).toUInt64)

def infinity : Float := ofMagnitude false (2047 * Nat.pow 2 52)

def nan : Float := Float.ofBits 0x7ff8000000000000

/-- A tie goes to the even integer. -/
def roundDiv (num den : Nat) : Nat :=
  let quotient := num / den
  let twice := 2 * (num % den)
  if twice > den || (twice == den && quotient % 2 == 1) then quotient + 1 else quotient

/-- The greatest `k` with `2^k ≤ num / den`, for positive `num` and `den`. -/
def log2Ratio (num den : Nat) : Int :=
  let k : Int := (num.log2 : Int) - den.log2
  if den * Nat.pow 2 k.toNat ≤ num * Nat.pow 2 (-k).toNat then k else k - 1

/-- The nearest double, infinite when it is beyond the largest. -/
def ofRatio (negative : Bool) (num den : Nat) : Float :=
  if num = 0 then ofMagnitude negative 0
  else
    let e := max (log2Ratio num den - 52) (-1074)
    let m := roundDiv (num * Nat.pow 2 (-e).toNat) (den * Nat.pow 2 e.toNat)
    let bits := (e + 1074).toNat * Nat.pow 2 52 + m
    ofMagnitude negative (min bits (2047 * Nat.pow 2 52))

def ofScaled (negative : Bool) (m : Nat) (e : Int) : Float :=
  ofRatio negative (m * Nat.pow 2 e.toNat) (Nat.pow 2 (-e).toNat)

def signBit (x : Float) : Bool :=
  x.toBits.toNat / Nat.pow 2 63 == 1

def isFinite (x : Float) : Bool :=
  match decode x with
  | .finite .. => true
  | _ => false

def isInfinite (x : Float) : Bool :=
  match decode x with
  | .infinite _ => true
  | _ => false

def ofInt? (n : Int) : Option Float :=
  let x := ofRatio (n < 0) n.natAbs 1
  if isFinite x then some x else none

def truncate? (x : Float) : Option Int :=
  match decode x with
  | .finite negative m e =>
    let magnitude : Int := (m * Nat.pow 2 e.toNat / Nat.pow 2 (-e).toNat : Nat)
    some (if negative then -magnitude else magnitude)
  | _ => none

def floor? (x : Float) : Option Int :=
  match decode x with
  | .finite negative m e =>
    let magnitude : Int := (m * Nat.pow 2 e.toNat : Nat)
    some (Int.fdiv (if negative then -magnitude else magnitude) (Nat.pow 2 (-e).toNat : Nat))
  | _ => none

def ceil? (x : Float) : Option Int :=
  match decode x with
  | .finite negative m e =>
    let magnitude : Int := (m * Nat.pow 2 e.toNat : Nat)
    some (-Int.fdiv (if negative then magnitude else -magnitude) (Nat.pow 2 (-e).toNat : Nat))
  | _ => none

def copySign (x sign : Float) : Float :=
  if signBit x == signBit sign then x else -x

/-- Exact, with the sign of the dividend. -/
def remainder (x y : Float) : Float :=
  match decode x, decode y with
  | .finite negative m e, .finite _ n f =>
    if n = 0 then nan
    else
      let base := min e f
      let rest := m * Nat.pow 2 (e - base).toNat % (n * Nat.pow 2 (f - base).toNat)
      ofScaled negative rest base
  | .finite .., .infinite _ => x
  | _, _ => nan

def isOdd (x : Float) : Bool :=
  match floor? x, ceil? x with
  | some lower, some upper => lower == upper && lower % 2 == 1
  | _, _ => false

/-- Nothing for what is not a number. -/
def compareInt (x : Float) (n : Int) : Option Ordering :=
  match decode x with
  | .nan => none
  | .infinite negative => some (if negative then .lt else .gt)
  | .finite negative m e =>
    let magnitude : Int := (m * Nat.pow 2 e.toNat : Nat)
    let value := if negative then -magnitude else magnitude
    some (compare value (n * (Nat.pow 2 (-e).toNat : Nat)))

/-- The double nearest to the square root of `num / 2^(2 * scale)`. -/
def sqrtScaled (num : Nat) (scale : Int) : Float :=
  -- Enough extra bits that the truncated root, with a sticky bit, rounds like
  -- the exact one.
  let root := (num * Nat.pow 2 256).sqrt
  let sticky := if root * root = num * Nat.pow 2 256 then 0 else 1
  ofScaled false (2 * root + sticky) (-scale - 129)

/-- The length of the vector `(x, y)`, rounded once. -/
def hypot (x y : Float) : Float :=
  match decode x, decode y with
  | .infinite _, _ => infinity
  | _, .infinite _ => infinity
  | .finite _ m e, .finite _ n f =>
    let base := min e f
    let a := m * Nat.pow 2 (e - base).toNat
    let b := n * Nat.pow 2 (f - base).toNat
    sqrtScaled (a * a + b * b) (-base)
  | _, _ => nan

end Hetman.Double
