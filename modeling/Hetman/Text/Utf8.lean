/-!
Bytes as text.

`Utf8.decode` reads bytes as UTF-8 or names the first place where they are not;
`Utf8.decodeLossy` puts U+FFFD for every stretch that is not. Such a stretch is
the longest start of some character's bytes, or a single byte that starts none.
-/

namespace Hetman.Utf8

/-- Why bytes are not the bytes of a character. -/
inductive Reason where
  | start | continuation | ending
  deriving DecidableEq, Inhabited

/-- The first place where bytes are not text. -/
structure Fault where
  reason : Reason
  offset : Nat
  bytes : List UInt8
  deriving DecidableEq, Inhabited

def Reason.text : Reason → String
  | .start => "invalid start byte"
  | .continuation => "invalid continuation byte"
  | .ending => "unexpected end of data"

def hexByte (b : UInt8) : String :=
  String.ofList [Nat.digitChar (b.toNat / 16), Nat.digitChar (b.toNat % 16)]

def Fault.message (f : Fault) : String :=
  match f.bytes with
  | [b] =>
    s!"'utf-8' codec can't decode byte 0x{hexByte b} in position {f.offset}: {f.reason.text}"
  | bytes =>
    s!"'utf-8' codec can't decode bytes in position {f.offset}-{f.offset + bytes.length - 1}: {f.reason.text}"

/-- Nothing if the byte starts no character. -/
def followers? (b : UInt8) : Option (List (UInt8 × UInt8)) :=
  let n := b.toNat
  let any : UInt8 × UInt8 := (0x80, 0xbf)
  if n < 0x80 then some []
  else if n < 0xc2 then none
  else if n < 0xe0 then some [any]
  else if n = 0xe0 then some [(0xa0, 0xbf), any]
  else if n = 0xed then some [(0x80, 0x9f), any]
  else if n < 0xf0 then some [any, any]
  else if n = 0xf0 then some [(0x90, 0xbf), any, any]
  else if n < 0xf4 then some [any, any, any]
  else if n = 0xf4 then some [(0x80, 0x8f), any, any]
  else none

/-- Those that fit, the rest, and why one is missing. -/
def takeFollowers : List (UInt8 × UInt8) → List UInt8 → List UInt8 × List UInt8 × Option Reason
  | [], rest => ([], rest, none)
  | _ :: _, [] => ([], [], some .ending)
  | (low, high) :: bounds, b :: rest =>
    if low ≤ b && b ≤ high then
      let (taken, rest, reason) := takeFollowers bounds rest
      (b :: taken, rest, reason)
    else ([], b :: rest, some .continuation)

def codePoint (first : UInt8) (more : List UInt8) : Nat :=
  let lead := match more.length with
    | 0 => first.toNat
    | 1 => first.toNat - 0xc0
    | 2 => first.toNat - 0xe0
    | _ => first.toNat - 0xf0
  more.foldl (fun n b => 64 * n + (b.toNat - 0x80)) lead

/-- A character or a stretch that is none, and the rest. -/
def step (first : UInt8) (rest : List UInt8) : Except (Reason × List UInt8) Char × List UInt8 :=
  match followers? first with
  | none => (.error (.start, [first]), rest)
  | some bounds =>
    match takeFollowers bounds rest with
    | (taken, rest, none) => (.ok (Char.ofNat (codePoint first taken)), rest)
    | (taken, rest, some reason) => (.error (reason, first :: taken), rest)

/-- At most `fuel` characters on. -/
def firstFault? (fuel offset : Nat) (bytes : List UInt8) : Option Fault :=
  match fuel, bytes with
  | 0, _ => none
  | _, [] => none
  | fuel + 1, first :: rest =>
    match step first rest with
    | (.ok _, after) => firstFault? fuel (offset + 1 + (rest.length - after.length)) after
    | (.error (reason, stretch), _) => some ⟨reason, offset, stretch⟩

def decode (bytes : ByteArray) : Except Fault String :=
  match String.fromUTF8? bytes with
  | some s => .ok s
  | none =>
    let all := bytes.toList
    .error ((firstFault? (all.length + 1) 0 all).getD ⟨.start, 0, []⟩)

/-- With U+FFFD for what is none. -/
def decodeLossy : (fuel : Nat) → List UInt8 → List Char
  | 0, _ => []
  | _, [] => []
  | fuel + 1, first :: rest =>
    match step first rest with
    | (.ok c, after) => c :: decodeLossy fuel after
    | (.error _, after) => Char.ofNat 0xfffd :: decodeLossy fuel after

end Hetman.Utf8
