import Hetman.Complex
import Hetman.Value

/-!
Arithmetic on numbers.

Integers have any size; an operation between an integer and a double is done on
doubles, and fails when the integer is too large for one. Comparison is exact.
Remainder and whole quotient go with the floor, so the remainder has the sign
of the divisor.
-/

namespace Hetman

inductive Number where
  | int (n : Int)
  | float (x : Float)
  | complex (z : Complex)
  deriving Inhabited

namespace Number

/-! ## Numbers as values -/

def ofValue? : Value → Option Number
  | .bool b => some (.int (if b then 1 else 0))
  | .int n => some (.int n)
  | .float x => some (.float x)
  | .nan _ => some (.float Double.nan)
  | .complex re im => some (.complex ⟨re, im⟩)
  | _ => none

def toValue : Number → Value
  | .int n => .int n
  | .float x => .float x
  | .complex z => .complex z.re z.im

def intToFloat (n : Int) : Except Fault Float :=
  match Double.ofInt? n with
  | some x => .ok x
  | none => .error (.overflow .intToFloat)

def realOf (v : Value) : Except Fault Float :=
  match v with
  | .bool b => .ok (if b then 1 else 0)
  | .int n => intToFloat n
  | .float x => .ok x
  | .nan _ => .ok Double.nan
  | v => .error (.type (.notReal v.typeName))

def indexOf (v : Value) : Except Fault Int :=
  match v.int? with
  | some n => .ok n
  | none => .error (.type (.notInteger v.typeName))

def toComplex : Number → Except Fault Complex
  | .int n => return ⟨← intToFloat n, 0⟩
  | .float x => return ⟨x, 0⟩
  | .complex z => return z

/-! ## Comparison -/

/-- Nothing when one is not a number or not real. -/
def compare? : Number → Number → Option Ordering
  | .int a, .int b => some (compare a b)
  | .int a, .float y => (Double.compareInt y a).map Ordering.swap
  | .float x, .int b => Double.compareInt x b
  | .float x, .float y =>
    if x < y then some .lt else if x == y then some .eq else if y < x then some .gt else none
  | _, _ => none

def equal : Number → Number → Bool
  | .complex z, .complex w => z.re == w.re && z.im == w.im
  | .complex z, .int b => z.im == 0 && Double.compareInt z.re b == some .eq
  | .complex z, .float y => z.im == 0 && z.re == y
  | .int a, .complex w => w.im == 0 && Double.compareInt w.re a == some .eq
  | .float x, .complex w => w.im == 0 && w.re == x
  | a, b => compare? a b == some .eq

def isZero (a : Number) : Bool :=
  equal a (.int 0)

/-! ## Arithmetic -/

/-- On integers, doubles or complex numbers, whichever both operands can be. -/
def lift (onInts : Int → Int → Int) (onFloats : Float → Float → Float)
    (onComplex : Complex → Complex → Complex) (a b : Number) : Except Fault Number :=
  match a, b with
  | .int m, .int n => .ok (.int (onInts m n))
  | .int m, .float y => return .float (onFloats (← intToFloat m) y)
  | .float x, .int n => return .float (onFloats x (← intToFloat n))
  | .float x, .float y => .ok (.float (onFloats x y))
  | a, b => return .complex (onComplex (← toComplex a) (← toComplex b))

def add (a b : Number) : Except Fault Number :=
  lift (· + ·) (· + ·) Complex.add a b

def sub (a b : Number) : Except Fault Number :=
  lift (· - ·) (· - ·) Complex.sub a b

def mul (a b : Number) : Except Fault Number :=
  lift (· * ·) (· * ·) Complex.mul a b

def divInts (m n : Int) : Except Fault Float :=
  let quotient := Double.ofRatio ((m < 0) != (n < 0)) m.natAbs n.natAbs
  if Double.isFinite quotient then .ok quotient else .error (.overflow .quotient)

def div (a b : Number) : Except Fault Number :=
  match a, b with
  | .int m, .int n => return .float (← divInts m n)
  | .int m, .float y => return .float ((← intToFloat m) / y)
  | .float x, .int n => return .float (x / (← intToFloat n))
  | .float x, .float y => .ok (.float (x / y))
  | a, b => do
    match Complex.div? (← toComplex a) (← toComplex b) with
    | some quotient => return .complex quotient
    | none => throw (.zeroDivision .complexDivision)

def modFloats (x y : Float) : Except Fault Float :=
  if y == 0 then .error (.zeroDivision .floatModulo)
  else
    let rest := Double.remainder x y
    if rest == 0 then .ok (Double.copySign 0 y)
    else if (y < 0) != (rest < 0) then .ok (rest + y)
    else .ok rest

def floorDivFloats (x y : Float) : Except Fault Float :=
  if y == 0 then .error (.zeroDivision .floatDivision)
  else
    let rest := Double.remainder x y
    let quotient := (x - rest) / y
    let quotient := if rest != 0 && (y < 0) != (rest < 0) then quotient - 1 else quotient
    if quotient == 0 then .ok (Double.copySign 0 (x / y))
    else
      let whole := quotient.floor
      .ok (if quotient - whole > 0.5 then whole + 1 else whole)

/-- Nothing for complex numbers. -/
def mod? (a b : Number) : Option (Except Fault Number) :=
  match a, b with
  | .int m, .int n =>
    some (if n = 0 then .error (.zeroDivision .intModulo) else .ok (.int (Int.fmod m n)))
  | .int m, .float y => some do return .float (← modFloats (← intToFloat m) y)
  | .float x, .int n => some do return .float (← modFloats x (← intToFloat n))
  | .float x, .float y => some do return .float (← modFloats x y)
  | _, _ => none

/-- Nothing for complex numbers. -/
def floorDiv? (a b : Number) : Option (Except Fault Number) :=
  match a, b with
  | .int m, .int n =>
    some (if n = 0 then .error (.zeroDivision .intDivision) else .ok (.int (Int.fdiv m n)))
  | .int m, .float y => some do return .float (← floorDivFloats (← intToFloat m) y)
  | .float x, .int n => some do return .float (← floorDivFloats x (← intToFloat n))
  | .float x, .float y => some do return .float (← floorDivFloats x y)
  | _, _ => none

/-- A negative base with a broken exponent has a complex power. -/
def powFloats (x y : Float) : Except Fault Number :=
  if y == 0 then .ok (.float 1)
  else if x.isNaN then .ok (.float x)
  else if y.isNaN then .ok (.float (if x == 1 then 1 else y))
  else if Double.isInfinite y then
    let base := x.abs
    if base == 1 then .ok (.float 1)
    else if (y > 0) == (base > 1) then .ok (.float y.abs)
    else .ok (.float 0)
  else if Double.isInfinite x then
    let odd := Double.isOdd y
    if y > 0 then .ok (.float (if odd then x else x.abs))
    else .ok (.float (if odd then Double.copySign 0 x else 0))
  else if x == 0 then
    if y < 0 then .error (.zeroDivision .negativePower)
    else .ok (.float (if Double.isOdd y then x else 0))
  else if x < 0 && y != y.floor then
    return .complex (← Complex.pow ⟨x, 0⟩ ⟨y, 0⟩)
  else
    let negate := x < 0 && Double.isOdd y
    let power := Float.pow x.abs y
    if Double.isInfinite power then .error (.overflow .power)
    else .ok (.float (if negate then -power else power))

/-- Powers of 0, 1 and -1 are known whatever the exponent. -/
def intPow (m : Int) (n : Nat) : Int :=
  if n = 0 then 1
  else if m.natAbs ≤ 1 then (if n % 2 = 0 then m * m else m)
  else Int.pow m n

def pow (a b : Number) : Except Fault Number :=
  match a, b with
  | .int m, .int n =>
    if 0 ≤ n then .ok (.int (intPow m n.toNat))
    else do powFloats (← intToFloat m) (← intToFloat n)
  | .int m, .float y => do powFloats (← intToFloat m) y
  | .float x, .int n => do powFloats x (← intToFloat n)
  | .float x, .float y => powFloats x y
  | a, b => do return .complex (← Complex.pow (← toComplex a) (← toComplex b))

end Number

end Hetman
