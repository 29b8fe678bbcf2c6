import Hetman.Value

/-!
The colors that a game knows by name, by their shares of red, green and blue.
-/

namespace Hetman.Game

def colors : List (String × Int × Int × Int) :=
  [("CHORNYY", 0, 0, 0), ("BILYY", 255, 255, 255), ("CHERVONYY", 255, 0, 0),
   ("ZELENYY", 0, 255, 0), ("SYNIY", 0, 0, 255), ("ZHOVTYY", 255, 255, 0),
   ("FIOLYETOVYY", 255, 0, 255), ("BIRYUZOVYY", 0, 255, 255), ("SIRYY", 128, 128, 128),
   ("KORYCHNEVYY", 165, 42, 42), ("POMARANCHEVYY", 255, 165, 0), ("ROZHEVYY", 255, 192, 203),
   ("TEMNOZELENYY", 0, 100, 0), ("TEMNOSYNIY", 0, 0, 139), ("TEMNOFIOLETOVYY", 75, 0, 130),
   ("TEMNOROZHEVYY", 199, 21, 133), ("TEMNOPOMARANCHEVYY", 255, 140, 0),
   ("TEMNOKORYCHNEVYY", 101, 67, 33), ("SVITLOZELENYY", 144, 238, 144),
   ("SVITLOSYNIY", 173, 216, 230), ("SVITLOFIOLETOVYY", 216, 191, 216),
   ("SVITLOROZHEVYY", 255, 182, 193), ("SVITLOPOMARACHEVYY", 255, 200, 124),
   ("SVITLOKORYCHNEVYY", 210, 180, 140), ("SVITLOSIRYY", 192, 192, 192),
   ("TEMNOSIRYY", 64, 64, 64), ("ZOLOTYY", 255, 215, 0), ("SRIBLYY", 192, 192, 192),
   ("BRONZOVYY", 205, 127, 50)]

def color? (name : String) : Option Value :=
  match colors.lookup name with
  | some (red, green, blue) => some (.tuple [.int red, .int green, .int blue])
  | none => none

end Hetman.Game
