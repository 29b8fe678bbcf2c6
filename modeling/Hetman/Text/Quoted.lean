import Hetman.Text.Printable

/-!
Quoted texts.

A text is quoted with `'`, or with `"` when it holds a `'` and no `"`. The quote
in use, the backslash and the characters that are not printable are escaped:
tab, line feed and carriage return by a letter, the others by their code point
in hexadecimal, two digits below U+0100, four below U+10000, else eight.
-/

namespace Hetman.Text

def hexDigit (n : Nat) : Char :=
  if n < 10 then Char.ofNat (0x30 + n) else Char.ofNat (0x57 + n)

def hexDigits (width n : Nat) : List Char :=
  match width with
  | 0 => []
  | width + 1 => hexDigits width (n / 16) ++ [hexDigit (n % 16)]

/-- The quote that a text is written with. -/
def quoteOf (s : List Char) : Char :=
  if s.contains '\'' && !s.contains '"' then '"' else '\''

def escape (quote c : Char) : List Char :=
  if c = quote || c = '\\' then ['\\', c]
  else if c = '\n' then ['\\', 'n']
  else if c = '\r' then ['\\', 'r']
  else if c = '\t' then ['\\', 't']
  else if isPrintable c then [c]
  else if c.toNat < 0x100 then '\\' :: 'x' :: hexDigits 2 c.toNat
  else if c.toNat < 0x10000 then '\\' :: 'u' :: hexDigits 4 c.toNat
  else '\\' :: 'U' :: hexDigits 8 c.toNat

def quoted (s : String) : String :=
  let chars := s.toList
  let quote := quoteOf chars
  String.ofList (quote :: chars.flatMap (escape quote) ++ [quote])

end Hetman.Text
