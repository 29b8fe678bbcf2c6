/-!
Line ends: a carriage return and line feed, or a carriage return alone, are
read as a line feed.
-/

namespace Hetman.Text

def unifyNewlines : List Char → List Char
  | [] => []
  | '\r' :: '\n' :: rest => '\n' :: unifyNewlines rest
  | c :: rest => (if c = '\r' then '\n' else c) :: unifyNewlines rest

end Hetman.Text
