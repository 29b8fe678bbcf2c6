import Hetman.Text.Quoted

/-!
What the digests have in common: 32-bit words, and a message cut into blocks of
sixteen of them.
-/

namespace Hetman.Digest

def rotateLeft (x : UInt32) (n : Nat) : UInt32 :=
  (x <<< n.toUInt32) ||| (x >>> (32 - n).toUInt32)

def rotateRight (x : UInt32) (n : Nat) : UInt32 :=
  (x >>> n.toUInt32) ||| (x <<< (32 - n).toUInt32)

def bigEndian (count n : Nat) : List UInt8 :=
  ((List.range count).map fun i => (n / Nat.pow 256 i % 256).toUInt8).reverse

def littleEndian (count n : Nat) : List UInt8 :=
  (List.range count).map fun i => (n / Nat.pow 256 i % 256).toUInt8

/-- The message with a one bit, zeros and its length in bits, so that it fills
whole blocks of 64 bytes. -/
def padded (lengthBytes : Nat → List UInt8) (message : List UInt8) : List UInt8 :=
  let zeros := (119 - message.length % 64) % 64
  message ++ 0x80 :: List.replicate zeros 0 ++ lengthBytes (8 * message.length % Nat.pow 2 64)

def chunks {α : Type} (size : Nat) : (fuel : Nat) → List α → List (List α)
  | 0, _ => []
  | _, [] => []
  | fuel + 1, items => items.take size :: chunks size fuel (items.drop size)

def wordOf (bytes : List UInt8) : UInt32 :=
  (bytes.foldl (fun (n : Nat) (b : UInt8) => 256 * n + b.toNat) 0).toUInt32

def hexText (bytes : List UInt8) : String :=
  String.ofList (bytes.flatMap fun b => Text.hexDigits 2 b.toNat)

end Hetman.Digest
