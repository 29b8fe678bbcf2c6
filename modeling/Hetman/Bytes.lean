/-!
Looking for marks in bytes.
-/

namespace Hetman.Bytes

def find? (mark : List UInt8) : (bytes : List UInt8) → Option Nat
  | [] => if mark.isEmpty then some 0 else none
  | b :: bytes =>
    if mark.isPrefixOf (b :: bytes) then some 0 else (find? mark bytes).map (· + 1)

/-- The bytes before the first place of a mark, and those after the mark. -/
def cut? (mark bytes : List UInt8) : Option (List UInt8 × List UInt8) :=
  (find? mark bytes).map fun n => (bytes.take n, bytes.drop (n + mark.length))

def isBlank (b : UInt8) : Bool :=
  b == 0x20 || (0x09 ≤ b && b ≤ 0x0d)

def strip (bytes : List UInt8) : List UInt8 :=
  ((bytes.dropWhile isBlank).reverse.dropWhile isBlank).reverse

end Hetman.Bytes
