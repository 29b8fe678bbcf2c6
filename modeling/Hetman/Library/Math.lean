import Hetman.Library.Norm
import Hetman.Library.Signature
import Hetman.Value.Order

/-!
The library `math`: constants and functions on numbers.

A function of doubles fails when its argument is outside of its domain, and
when a finite argument has an infinite result. Functions of whole numbers take
nothing else.
-/

namespace Hetman.MathLibrary

/-! ## Constants -/

def pi : Float := 3.141592653589793

def e : Float := 2.718281828459045

def nanIdent : Nat := 0

def constant? (name : String) : Option Value :=
  match name with
  | "pi" => some (.float pi)
  | "e" => some (.float e)
  | "tau" => some (.float (2 * pi))
  | "inf" => some (.float Double.infinity)
  | "nan" => some (.nan nanIdent)
  | _ => none

/-! ## Functions of doubles -/

def domainFault : Fault := .value .domain

/-- The result of a function at an argument. What is not a number comes only
from what is not one; what is infinite only from what is not finite. -/
def checked (overflows : Bool) (x result : Float) : Except Fault Float :=
  if result.isNaN && !x.isNaN then .error domainFault
  else if Double.isInfinite result && Double.isFinite x then
    .error (if overflows then .overflow .range else domainFault)
  else .ok result

def onReal (f : Float → Float) (overflows : Bool) (v : Value) : Except Fault Value := do
  let x ← Number.realOf v
  return .float (← checked overflows x (f x))

def fmod (x y : Float) : Except Fault Float :=
  if Double.isInfinite y && Double.isFinite x then .ok x
  else
    let r := Double.remainder x y
    if r.isNaN && !x.isNaN && !y.isNaN then .error domainFault else .ok r

def pow (x y : Float) : Except Fault Float :=
  if Double.isFinite x && Double.isFinite y then
    let r := Float.pow x y
    if r.isNaN then .error domainFault
    else if Double.isInfinite r then
      .error (if x == 0 then domainFault else .overflow .range)
    else .ok r
  else if x.isNaN then .ok (if y == 0 then 1 else x)
  else if y.isNaN then .ok (if x == 1 then 1 else y)
  else if Double.isInfinite x then
    let odd := Double.isOdd y
    if y > 0 then .ok (if odd then x else x.abs)
    else if y == 0 then .ok 1
    else .ok (if odd then Double.copySign 0 x else 0)
  else if x.abs == 1 then .ok 1
  else if (y > 0) == (x.abs > 1) then .ok y.abs
  else .ok 0

def modf (x : Float) : Float × Float :=
  match Double.decode x with
  | .nan => (x, x)
  | .infinite _ => (Double.copySign 0 x, x)
  | .finite negative m exponent =>
    let unit := Nat.pow 2 (-exponent).toNat
    let whole := m * Nat.pow 2 exponent.toNat / unit
    let broken := m * Nat.pow 2 exponent.toNat % unit
    (Double.ofRatio negative broken unit, Double.ofRatio negative whole 1)

/-! ## Logarithms -/

/-- A large integer as `x · 2^e` with `x` from one half up to one. -/
def scaleDown (n : Nat) : Float × Nat :=
  let bits := n.log2 + 1
  let x := Double.ofRatio false n (Nat.pow 2 bits)
  if x == 1 then (0.5, bits + 1) else (x, bits)

/-- Also for integers too large for a double. -/
def logarithm (log : Float → Float) (v : Value) : Except Fault Float :=
  match v.int? with
  | some n =>
    if n ≤ 0 then .error domainFault
    else match Double.ofInt? n with
      | some x => .ok (log x)
      | none =>
        let (x, bits) := scaleDown n.toNat
        .ok (log x + log 2 * Float.ofNat bits)
  | none => do
    let x ← Number.realOf v
    if Double.isFinite x && !(x > 0) then throw domainFault
    checked false x (log x)

def logBase (v base : Value) : Except Fault Value := do
  let num ← logarithm Float.log v
  let den ← logarithm Float.log base
  if den == 0 then throw (.zeroDivision .quotient)
  return .float (num / den)

/-! ## Rounding -/

def wholeOf (round : Float → Option Int) (x : Float) : Except Fault Value :=
  match round x with
  | some n => .ok (.int n)
  | none => .error (if x.isNaN then .value .nanToInt else .overflow .infinityToInt)

/-- A tie goes to the even integer. -/
def nearest? (x : Float) : Option Int :=
  match Double.decode x with
  | .finite negative m exponent =>
    let n : Int := Double.roundDiv (m * Nat.pow 2 exponent.toNat) (Nat.pow 2 (-exponent).toNat)
    some (if negative then -n else n)
  | _ => none

def toWhole (round : Float → Option Int) (v : Value) : Except Fault Value :=
  match v.int? with
  | some n => .ok (.int n)
  | none => do wholeOf round (← Number.realOf v)

/-- A rounding function that asks the value's type for it. -/
def roundingMethod (method : String) (round : Float → Option Int) (v : Value) :
    Except Fault Value :=
  if v.isReal then toWhole round v else .error (.type (.noMethod v.typeName method))

def roundInt (n : Int) (places : Nat) : Int :=
  -- A unit far beyond the number leaves nothing of it.
  if n.natAbs.log2 + 2 < places then 0
  else
    let r : Int := Double.roundDiv n.natAbs (Nat.pow 10 places) * Nat.pow 10 places
    if n < 0 then -r else r

/-- Fewer places than none are tens and hundreds. -/
def roundFloat (x : Float) (places : Int) : Except Fault Float :=
  match Double.decode x with
  | .finite negative m exponent =>
    if places > 323 then .ok x
    else if places < -308 then .ok (Double.copySign 0 x)
    else
      let digits := Decimal.gridRound (m * Nat.pow 2 exponent.toNat)
        (Nat.pow 2 (-exponent).toNat) (-places)
      let r := Double.ofRatio negative (digits * Nat.pow 10 (-places).toNat)
        (Nat.pow 10 places.toNat)
      if Double.isFinite r then .ok r else .error (.overflow .rounded)
  | _ => .ok x

def roundTo (v places : Value) : Except Fault Value :=
  if !v.isReal then .error (.type (.noMethod v.typeName "__round__"))
  else do
    let k ← Number.indexOf places
    match v.int? with
    | some n => return .int (if k ≥ 0 then n else roundInt n (-k).toNat)
    | none => return .float (← roundFloat (← Number.realOf v) k)

def absolute (v : Value) : Except Fault Value :=
  match Number.ofValue? v with
  | some (.int n) => .ok (.int n.natAbs)
  | some (.float x) => .ok (.float x.abs)
  | some (.complex z) =>
    let r := Double.hypot z.re z.im
    if Double.isInfinite r && Double.isFinite z.re && Double.isFinite z.im then
      .error (.overflow .absolute)
    else .ok (.float r)
  | none => .error (.type (.absolute v.typeName))

/-! ## Whole numbers -/

/-- The largest argument for counting functions. -/
def maxCount : Nat := Nat.pow 2 63 - 1

/-- The product of the numbers from `low + 1` to `low + count`, by halves. -/
def rangeProduct (fuel low count : Nat) : Nat :=
  match fuel with
  | 0 => 1
  | fuel + 1 =>
    if count = 0 then 1
    else if count = 1 then low + 1
    else
      let half := count / 2
      rangeProduct fuel low half * rangeProduct fuel (low + half) (count - half)

def factorial (v : Value) : Except Fault Value := do
  let n ← Number.indexOf v
  if n < 0 then throw (.value .negativeFactorial)
  if n > maxCount then throw (.overflow .factorialSize)
  return .int (rangeProduct (n.toNat.log2 + 2) 0 n.toNat)

def counts (n k : Value) : Except Fault (Nat × Nat) := do
  let n ← Number.indexOf n
  let k ← Number.indexOf k
  if n < 0 then throw (.value (.negativeCount "n"))
  if k < 0 then throw (.value (.negativeCount "k"))
  return (n.toNat, k.toNat)

def permutations (n k : Value) : Except Fault Value := do
  let (n, k) ← counts n k
  if k > n then return .int 0
  if k > maxCount then throw (.overflow .permutations)
  return .int (rangeProduct (k.log2 + 2) (n - k) k)

def combinations (n k : Value) : Except Fault Value := do
  let (n, k) ← counts n k
  if k > n then return .int 0
  let k := min k (n - k)
  if k > maxCount then throw (.overflow .combinations)
  return .int (rangeProduct (k.log2 + 2) (n - k) k / rangeProduct (k.log2 + 2) 0 k)

/-! ## Several values -/

def itemsOf (h : Heap) (v : Value) : Except Fault (List Value) :=
  match h.items? v with
  | some items => .ok items
  | none => .error (.type (.notIterable v.typeName))

/-- The first of the items that no other is beyond. -/
def extreme (h : Heap) (op : CompareOp) : (best : Value) → List Value → Except Fault Value
  | best, [] => .ok best
  | best, item :: rest => do
    if ← h.compare op item best then extreme h op item rest else extreme h op best rest

/-- The least or greatest of the arguments, or of the items of a single list. -/
def extremeOf (function : String) (op : CompareOp) (h : Heap) (args : List Value) :
    Except Fault Value :=
  let items := match args with
    | [.list ref] => h.list ref
    | [.tuple items] => items
    | args => args
  match items with
  | [] => .error (.value (.emptySequence function))
  | first :: rest => extreme h op first rest

def addNumbers (a b : Value) : Except Fault Value :=
  match Number.ofValue? a, Number.ofValue? b with
  | some m, some n => do return (← m.add n).toValue
  | _, _ => .error (.type (.operands "+" a.typeName b.typeName))

def sumFrom (total : Value) : List Value → Except Fault Value
  | [] => .ok total
  | item :: rest => do sumFrom (← addNumbers total item) rest

def distance (h : Heap) (p q : Value) : Except Fault Value := do
  let ps ← itemsOf h p
  let qs ← itemsOf h q
  if ps.length ≠ qs.length then throw (.value .dimensions)
  let parts ← (ps.zip qs).mapM fun (a, b) => do
    let x ← Number.realOf a
    let y ← Number.realOf b
    return (x - y)
  return .float (Norm.length parts)

/-! ## The table of functions -/

abbrev Body := Heap → List Value → Except Fault Value

def unary (f : Value → Except Fault Value) : Signature × Body :=
  (⟨["x"], 0, false⟩, fun _ args => match args with
    | [x] => f x
    | _ => .ok .none)

def binary (first second : String) (f : Heap → Value → Value → Except Fault Value) :
    Signature × Body :=
  (⟨[first, second], 0, false⟩, fun h args => match args with
    | [x, y] => f h x y
    | _ => .ok .none)

def withOption (first : String) (f : Value → Except Fault Value)
    (g : Value → Value → Except Fault Value) : Signature × Body :=
  (⟨[first], 1, false⟩, fun _ args => match args with
    | [x] | [x, .none] => f x
    | [x, y] => g x y
    | _ => .ok .none)

def onReals (f : Float → Float → Except Fault Float) (_ : Heap) (v w : Value) :
    Except Fault Value := do
  let x ← Number.realOf v
  let y ← Number.realOf w
  return .float (← f x y)

def onWholes (f : Int → Int → Int) (_ : Heap) (v w : Value) : Except Fault Value := do
  let m ← Number.indexOf v
  let n ← Number.indexOf w
  return .int (f m n)

def ask (f : Float → Bool) (v : Value) : Except Fault Value := do
  return .bool (f (← Number.realOf v))

def functions : List (String × Signature × Body) :=
  [("sin", unary (onReal Float.sin false)),
   ("cos", unary (onReal Float.cos false)),
   ("tan", unary (onReal Float.tan false)),
   ("asin", unary (onReal Float.asin false)),
   ("acos", unary (onReal Float.acos false)),
   ("atan", unary (onReal Float.atan false)),
   ("atan2", binary "y" "x" (onReals fun y x => .ok (Float.atan2 y x))),
   ("sinh", unary (onReal Float.sinh true)),
   ("cosh", unary (onReal Float.cosh true)),
   ("tanh", unary (onReal Float.tanh false)),
   ("asinh", unary (onReal Float.asinh false)),
   ("acosh", unary (onReal Float.acosh false)),
   ("atanh", unary (onReal Float.atanh false)),
   ("degrees", unary fun v => do return .float ((← Number.realOf v) * (180 / pi))),
   ("radians", unary fun v => do return .float ((← Number.realOf v) * (pi / 180))),
   ("exp", unary (onReal Float.exp true)),
   ("log", withOption "x" (fun v => do return .float (← logarithm Float.log v)) logBase),
   ("log10", unary fun v => do return .float (← logarithm Float.log10 v)),
   ("log2", unary fun v => do return .float (← logarithm Float.log2 v)),
   ("sqrt", unary (onReal Float.sqrt false)),
   ("pow", binary "x" "y" (onReals pow)),
   ("ceil", unary (toWhole Double.ceil?)),
   ("floor", unary (toWhole Double.floor?)),
   ("trunc", unary (roundingMethod "__trunc__" Double.truncate?)),
   ("round", withOption "x" (roundingMethod "__round__" nearest?) roundTo),
   ("abs", unary absolute),
   ("fabs", unary (onReal Float.abs false)),
   ("factorial", unary factorial),
   ("gcd", binary "a" "b" (onWholes fun m n => Int.gcd m n)),
   ("lcm", binary "a" "b" (onWholes fun m n => Int.lcm m n)),
   ("copysign", binary "x" "y" (onReals fun x y => .ok (Double.copySign x y))),
   ("fmod", binary "x" "y" (onReals fmod)),
   ("modf", unary fun v => do
      let (broken, whole) := modf (← Number.realOf v)
      return .tuple [.float broken, .float whole]),
   ("isnan", unary (ask Float.isNaN)),
   ("isinf", unary (ask Double.isInfinite)),
   ("isfinite", unary (ask Double.isFinite)),
   ("hypot", (⟨[], 0, true⟩, fun _ args => do
      return .float (Norm.length (← args.mapM Number.realOf)))),
   ("dist", binary "p" "q" distance),
   ("min", (⟨[], 0, true⟩, extremeOf "min" .lt)),
   ("max", (⟨[], 0, true⟩, extremeOf "max" .gt)),
   ("sum", (⟨["iterable"], 0, false⟩, fun h args => match args with
      | [v] => do sumFrom (.int 0) (← itemsOf h v)
      | _ => .ok .none)),
   ("comb", binary "n" "k" fun _ n k => combinations n k),
   ("perm", withOption "n" (fun n => permutations n n) permutations)]

def hasFunction (name : String) : Bool :=
  functions.any fun f => f.1 == name

def call (h : Heap) (name : String) (args : List Value) : Except Fault Value :=
  match functions.find? fun f => f.1 == name with
  | some (_, signature, body) => do
    match signature.check s!"MathModule.{name}" args.length with
    | .ok () => body h args
    | .error fault => throw (.type fault)
  | none => .error (.attribute "MathModule" name)

end Hetman.MathLibrary
