import Hetman.Double
import Hetman.Fault

/-!
Complex numbers with double parts.

A power with a small whole exponent is a product of squares; any other goes
through length and angle.
-/

namespace Hetman

structure Complex where
  re : Float
  im : Float
  deriving DecidableEq, Inhabited

namespace Complex

def one : Complex := ⟨1, 0⟩

def sub (a b : Complex) : Complex := ⟨a.re - b.re, a.im - b.im⟩

def add (a b : Complex) : Complex := ⟨a.re + b.re, a.im + b.im⟩

def mul (a b : Complex) : Complex :=
  ⟨a.re * b.re - a.im * b.im, a.re * b.im + a.im * b.re⟩

def isZero (a : Complex) : Bool :=
  a.re == 0 && a.im == 0

/-- Scaled by the larger part of the divisor; nothing when the divisor is zero. -/
def div? (a b : Complex) : Option Complex :=
  if b.re.abs ≥ b.im.abs then
    if b.re.abs == 0 then none
    else
      let ratio := b.im / b.re
      let denom := b.re + b.im * ratio
      some ⟨(a.re + a.im * ratio) / denom, (a.im - a.re * ratio) / denom⟩
  else if b.im.abs ≥ b.re.abs then
    let ratio := b.re / b.im
    let denom := b.re * ratio + b.im
    some ⟨(a.re * ratio + a.im) / denom, (a.im * ratio - a.re) / denom⟩
  else some ⟨Double.nan, Double.nan⟩

/-- From the squares whose bits are set, the lowest first. -/
def powNat (result square : Complex) : (bits : List Bool) → Complex
  | [] => result
  | bit :: rest =>
    powNat (if bit then result.mul square else result) (square.mul square) rest

def bitsOf (n : Nat) : List Bool :=
  (List.range (if n = 0 then 0 else n.log2 + 1)).map fun i => n.testBit i

def powPolar (a b : Complex) : Except ZeroFault Complex :=
  if b.isZero then .ok one
  else if a.isZero then
    if b.im != 0 || b.re < 0 then .error .complexPower else .ok ⟨0, 0⟩
  else
    let length := Double.hypot a.re a.im
    let angle := Float.atan2 a.im a.re
    let scaled := Float.pow length b.re
    let turned := angle * b.re
    let (scaled, turned) :=
      if b.im != 0 then (scaled / Float.exp (angle * b.im), turned + b.im * Float.log length)
      else (scaled, turned)
    .ok ⟨scaled * Float.cos turned, scaled * Float.sin turned⟩

def pow (a b : Complex) : Except Fault Complex :=
  let small := b.im == 0 && b.re == b.re.floor && b.re.abs ≤ 100
  let result : Except ZeroFault Complex :=
    if small then
      match Double.truncate? b.re with
      | some n =>
        let power := powNat one a (bitsOf n.natAbs)
        if 0 < n then .ok power
        else match div? one power with
          | some quotient => .ok quotient
          | none => .error .complexPower
      | none => powPolar a b
    else powPolar a b
  match result with
  | .error cause => .error (.zeroDivision cause)
  | .ok power =>
    if Double.isInfinite power.re || Double.isInfinite power.im then
      .error (.overflow .complexPower)
    else .ok power

end Complex

end Hetman
