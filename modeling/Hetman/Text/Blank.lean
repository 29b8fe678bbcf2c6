/-!
Blanks: the characters that count as white space.
-/

namespace Hetman.Text

def isBlank (c : Char) : Bool :=
  let n := c.toNat
  c = ' ' || (9 ≤ n && n ≤ 13) || n = 0x85 || n = 0xa0 || n = 0x1680 ||
    (0x2000 ≤ n && n ≤ 0x200a) || n = 0x2028 || n = 0x2029 || n = 0x202f || n = 0x205f ||
    n = 0x3000

def strip (class_ : Char → Bool) (s : List Char) : List Char :=
  ((s.dropWhile class_).reverse.dropWhile class_).reverse

end Hetman.Text
