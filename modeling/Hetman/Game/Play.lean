import Hetman.Collection.Dictionary
import Hetman.Game.Color
import Hetman.Game.Stage
import Hetman.Value.Order

/-!
Playing a game.

A game is running from the opening of its window until it is closed, the player
quits, or the screen fails. Images and sounds are loaded under names; loading
one that cannot be loaded leaves the old one in place.
-/

namespace Hetman

structure Game where
  running : Bool := false
  screen : Bool := false
  /-- The paths of the loaded images by name. -/
  images : List (Value × Value) := []
  /-- The paths of the loaded sounds by name. -/
  sounds : List (Value × Value) := []
  deriving Inhabited

namespace Game

inductive Fault where
  | color
  | imageMissing (name : String)
  | soundMissing (name : String)
  | icon (path reason : String)
  /-- The window cannot be opened or given its title. -/
  | window (reason : String)
  /-- There is no mouse button with that number, counted from the end. -/
  | button
  /-- A number of a mouse button that is beyond all bounds. -/
  | buttonSize
  | plain (fault : Hetman.Fault)
  deriving DecidableEq

namespace Fault

def message : Fault → String
  | .color => "Color must be [R, G, B] array, kozache!"
  | .imageMissing name => s!"Image '{name}' not loaded, kozache!"
  | .soundMissing name => s!"Sound '{name}' not loaded, kozache!"
  | .icon path reason => s!"Failed to set icon: {path}, kozache: {reason}"
  | .window reason => reason
  | .button => "tuple index out of range"
  | .buttonSize => "cannot fit 'int' into an index-sized integer"
  | .plain fault => fault.message

end Fault

/-- A game in progress: its state, the shared values of its arguments, and the
requests made so far. -/
structure Scene where
  game : Game := {}
  heap : Heap := {}
  cues : List Cue := []

abbrev Play := EStateM Fault Scene

namespace Play

def cue (c : Cue) : Play Unit :=
  modify fun s => { s with cues := s.cues ++ [c] }

def lift {α : Type} : Except Hetman.Fault α → Play α
  | .ok a => return a
  | .error fault => throw (.plain fault)

def onHeap {α : Type} (f : Heap → Except Hetman.Fault α) : Play α := do
  lift (f (← get).heap)

def change (f : Game → Game) : Play Unit :=
  modify fun s => { s with game := f s.game }

def checkColor (color : Value) : Play Unit := do
  let heap := (← get).heap
  let parts : Option (List Value) := match color with
    | .tuple items => some items
    | .list ref => some (heap.list ref)
    | _ => none
  unless parts.any (·.length == 3) do throw .color

def checkScreen (method : String) : Play Unit := do
  unless (← get).game.screen do throw (.plain (.attribute "NoneType" method))

/-! ## The window -/

def windowIcon : Value := .text "..\\icon.png"

/-- The icon is set if it can be loaded. -/
def createWindow (stage : Stage) (width height title : Value) : Play Value := do
  cue (.loadImage windowIcon)
  if (stage.imageFault windowIcon).isNone then cue (.setIcon windowIcon)
  cue (.openWindow width height)
  match stage.windowFault with
  | some reason => throw (.window reason)
  | none =>
    change fun g => { g with screen := true }
    cue (.setCaption title)
    match stage.titleFault with
    | some reason => throw (.window reason)
    | none =>
      change fun g => { g with running := true }
      return .bool true

def setIcon (stage : Stage) (path : Value) : Play Value := do
  cue (.loadImage path)
  match stage.imageFault path with
  | some reason => throw (.icon (← onHeap fun h => h.display path) reason)
  | none =>
    cue (.setIcon path)
    return .bool true

def stop : Play Value := do
  change fun g => { g with running := false }
  return .bool false

/-- Looks at the events and brings the screen up to date. Tells whether the game goes on. -/
def update (stage : Stage) : Play Value := do
  if (← get).game.running then
    cue .pollEvents
    match stage.events with
    | none => stop
    | some events =>
      if events.contains .quit then stop
      else
        cue .flip
        if stage.flips then return .bool true else stop
  else return .bool false

def setFps (fps : Value) : Play Value := do
  cue (.tick fps)
  return .none

def close (stage : Stage) : Play Value := do
  change fun g => { g with running := false }
  cue .askInitialized
  if stage.initialized then cue .quit
  return .none

/-! ## Input devices -/

/-- All keys are asked about before the name is looked at. -/
def keyPressed (stage : Stage) (name : Value) : Play Value := do
  cue .askKeys
  match name with
  | .text name =>
    match Key.ofName? name with
    | some key => return .bool (stage.isDown key)
    | none => return .bool false
  | v => throw (.plain (.attribute v.typeName "lower"))

def mousePosition (stage : Stage) : Play Value := do
  cue .askMouse
  modifyGet fun s =>
    let (position, heap) := s.heap.newList stage.mouse
    (position, { s with heap })

/-- Negative numbers count from the end. -/
def mousePressed (stage : Stage) (button : Value) : Play Value := do
  cue .askButtons
  let count := stage.buttons.length
  if ← onHeap fun h => h.compare .lt button (.int count) then
    match button.int? with
    | none => throw (.plain (.type (.indices "tuple" button.typeName)))
    | some n =>
      if n < -Int.pow 2 63 then throw .buttonSize
      else
        let place := if n < 0 then n + count else n
        if place < 0 then throw .button else return stage.buttons.getD place.toNat .none
  else return .bool false

/-! ## Drawing -/

def fill (color : Value) : Play Value := do
  checkColor color
  checkScreen "fill"
  cue (.fill color)
  return .none

def drawRect (color x y width height : Value) : Play Value := do
  checkColor color
  cue (.rect (← get).game.screen color x y width height)
  return .none

def drawCircle (color x y radius : Value) : Play Value := do
  checkColor color
  cue (.circle (← get).game.screen color x y radius)
  return .none

def drawLine (color x1 y1 x2 y2 width : Value) : Play Value := do
  checkColor color
  cue (.line (← get).game.screen color x1 y1 x2 y2 width)
  return .none

def drawText (text x y color size : Value) : Play Value := do
  cue (.font size)
  checkColor color
  let shown ← onHeap fun h => h.display text
  cue (.renderText shown color)
  checkScreen "blit"
  cue (.showText x y)
  return .none

def loaded? (named : Game → List (Value × Value)) (name : Value) : Play (Option Value) := do
  lift (Heap.checkKey name)
  return (Heap.entryAt? (named (← get).game) name).map (·.2)

/-- Tells whether the image could be loaded. -/
def loadImage (stage : Stage) (path name : Value) : Play Value := do
  cue (.loadImage path)
  if (stage.imageFault path).isNone && name.unhashable?.isNone then
    change fun g => { g with images := Heap.putEntry name path g.images }
    return .bool true
  else return .bool false

def drawImage (name x y : Value) : Play Value := do
  match ← loaded? Game.images name with
  | some path =>
    checkScreen "blit"
    cue (.showImage path x y)
    return .none
  | none => throw (.imageMissing (← onHeap fun h => h.display name))

/-! ## Sounds -/

/-- Tells whether the sound could be loaded. -/
def loadSound (stage : Stage) (path name : Value) : Play Value := do
  cue (.loadSound path)
  if (stage.soundFault path).isNone && name.unhashable?.isNone then
    change fun g => { g with sounds := Heap.putEntry name path g.sounds }
    return .bool true
  else return .bool false

def playSound (name : Value) : Play Value := do
  match ← loaded? Game.sounds name with
  | some path =>
    cue (.playSound path)
    return .none
  | none => throw (.soundMissing (← onHeap fun h => h.display name))

end Play

end Game

end Hetman
