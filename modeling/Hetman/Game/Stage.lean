import Hetman.Value

/-!
What a game asks of the screen, and what it is answered.

The screen, the sounds and the input devices are outside. A `Stage` holds their
answers during one call; the requests that a call makes of them are its `Cue`s.
-/

namespace Hetman.Game

inductive Key where
  | up | down | left | right | space | enter | escape | shift | ctrl | alt
  | letter (c : Char)
  deriving DecidableEq, Inhabited

namespace Key

def names : List (String × Key) :=
  [("vverkh", .up), ("up", .up),
   ("vnyz", .down), ("down", .down), ("vniz", .down),
   ("vlivo", .left), ("left", .left), ("nalevo", .left),
   ("vpravo", .right), ("right", .right), ("napravo", .right),
   ("probil", .space), ("space", .space), ("probel", .space),
   ("enter", .enter), ("escape", .escape),
   ("shift", .shift), ("ctrl", .ctrl), ("alt", .alt)]

/-- A letter in lower case. The sign for kelvin counts as a `k`. -/
def lower (c : Char) : Char :=
  if c.toNat = 0x212a then 'k' else c.toLower

def ofName? (name : String) : Option Key :=
  match name.toList.map lower with
  | [c] => if 'a' ≤ c && c ≤ 'z' then some (.letter c) else none
  | chars => (names.find? fun e => e.1.toList = chars).map (·.2)

end Key

/-- Something that happened on the screen. -/
inductive Event where
  | quit
  | other
  deriving DecidableEq, Inhabited

/-- What the outside answers during a call. -/
structure Stage where
  /-- Why the image at a path cannot be loaded. -/
  imageFault : Value → Option String
  /-- Why the sound at a path cannot be loaded. -/
  soundFault : Value → Option String
  windowFault : Option String := none
  /-- Why an open window cannot be given its title. -/
  titleFault : Option String := none
  /-- The events since the last call; none if they cannot be asked for. -/
  events : Option (List Event)
  flips : Bool := true
  isDown : Key → Bool
  mouse : List Value
  buttons : List Value
  /-- Whether the screen is in use. -/
  initialized : Bool

inductive Cue where
  | loadImage (path : Value)
  | loadSound (path : Value)
  | setIcon (path : Value)
  | openWindow (width height : Value)
  | setCaption (title : Value)
  | pollEvents
  | flip
  | tick (fps : Value)
  | fill (color : Value)
  | rect (onScreen : Bool) (color x y width height : Value)
  | circle (onScreen : Bool) (color x y radius : Value)
  | line (onScreen : Bool) (color x1 y1 x2 y2 width : Value)
  | font (size : Value)
  | renderText (text : String) (color : Value)
  | showText (x y : Value)
  | showImage (path x y : Value)
  | playSound (path : Value)
  /-- Which keys are down, where the mouse is, which of its buttons are down. -/
  | askKeys | askMouse | askButtons
  /-- Whether the screen is in use. -/
  | askInitialized
  | quit
  deriving Inhabited

end Hetman.Game
