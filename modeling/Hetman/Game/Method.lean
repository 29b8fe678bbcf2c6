import Hetman.Game.Play
import Hetman.Library.Signature

/-!
The names under which a game can be told what to do.

Every operation has a name in three dialects. The Ukrainian one does it, and the
others call a method by its name, with parameters and defaults of their own. So
a name that there is not, or that leads back to itself, is found when it is
called.
-/

namespace Hetman.Game

/-- A parameter, with the value that it has when it is left out. -/
structure Parameter where
  name : String
  default : Option Value := none

instance : Coe String Parameter where
  coe name := { name }

/-- What is done with the values of the parameters. -/
def Body : List Parameter → Type
  | [] => Play Value
  | _ :: rest => Value → Body rest

namespace Body

/-- An argument that there is not is none. -/
def run : {parameters : List Parameter} → Body parameters → List Value → Play Value
  | [], body, _ => body
  | _ :: _, body, value :: args => run (body value) args
  | _ :: _, body, [] => run (body .none) []

end Body

/-- A call of a method of the same game. -/
abbrev Self := String → List Value → Play Value

/-- A call whose answer is not passed on. -/
def Self.tell (self : Self) (name : String) (args : List Value) : Play Value := do
  let _ ← self name args
  return .none

structure Method where
  name : String
  parameters : List Parameter
  body : Stage → Self → Body parameters

namespace Method

def signature (m : Method) : Signature where
  required := (m.parameters.filter (·.default.isNone)).map (·.name)
  optional := (m.parameters.filterMap (·.default)).length

/-- The arguments, and the defaults of the parameters after them. -/
def complete (m : Method) (args : List Value) : List Value :=
  args ++ (m.parameters.filterMap (·.default)).drop (args.length - m.signature.required.length)

def call (m : Method) (stage : Stage) (self : Self) (args : List Value) : Play Value :=
  match m.signature.check s!"GameModule.{m.name}" args.length with
  | .error fault => throw (.plain (.type fault))
  | .ok () => (m.body stage self).run (m.complete args)

/-! ## The window -/

def window : List Method :=
  [⟨"stvoryty_vikno", ["shyryna", "vysota", ⟨"nazva", some (.text "KozakScript Game")⟩],
    fun stage _ shyryna vysota nazva => Play.createWindow stage shyryna vysota nazva⟩,
   ⟨"create_window", ["width", "height", ⟨"title", some (.text "KozakScript Game")⟩],
    fun _ self width height title => self "stvoryty_vikno" [width, height, title]⟩,
   ⟨"sozdat_okno", ["shirina", "visota", ⟨"nazvanie", some (.text "KozakScript Game")⟩],
    fun _ self shirina visota nazvanie => self "stvoryty_vikno" [shirina, visota, nazvanie]⟩,
   ⟨"vstanovyty_ikonku", ["shlyakh"], fun stage _ shlyakh => Play.setIcon stage shlyakh⟩,
   ⟨"ustanovit_ikonku", ["put"], fun _ self put => self "vstanovyty_ikonku" [put]⟩,
   ⟨"set_icon", ["path"], fun _ self path => self "vstanovyty_ikonku" [path]⟩,
   ⟨"onovyty", [], fun stage _ => Play.update stage⟩,
   ⟨"update", [], fun _ self => self "onovyty" []⟩,
   ⟨"obnovit", [], fun _ self => self "onovyty" []⟩,
   ⟨"vstanovyty_fps", ["fps"], fun _ _ fps => Play.setFps fps⟩,
   ⟨"set_fps", ["fps"], fun _ self fps => self.tell "vstanovyty_fps" [fps]⟩,
   ⟨"ustanovit_fps", ["fps"], fun _ self fps => self.tell "vstanovyty_fps" [fps]⟩,
   ⟨"zakryty", [], fun stage _ => Play.close stage⟩,
   ⟨"close", [], fun _ self => self.tell "zakryty" []⟩,
   ⟨"zakryt", [], fun _ self => self.tell "zakryty" []⟩]

/-! ## Drawing -/

def drawing : List Method :=
  [⟨"zalyty", ["kolir"], fun _ _ kolir => Play.fill kolir⟩,
   ⟨"fill", ["color"], fun _ self color => self.tell "zalyty" [color]⟩,
   ⟨"zalit", ["tsvet"], fun _ self tsvet => self.tell "zalyty" [tsvet]⟩,
   ⟨"namalyuvaty_pryamokutnyk", ["kolir", "x", "y", "shyryna", "vysota"],
    fun _ _ kolir x y shyryna vysota => Play.drawRect kolir x y shyryna vysota⟩,
   ⟨"draw_rect", ["color", "x", "y", "width", "height"],
    fun _ self color x y width height =>
      self.tell "namalyuvaty_pryamokutnyk" [color, x, y, width, height]⟩,
   ⟨"narisovat_pryamougolnik", ["tsvet", "x", "y", "shirina", "vysota"],
    fun _ self tsvet x y shirina vysota =>
      self.tell "namalyuvaty_pryamokutnyk" [tsvet, x, y, shirina, vysota]⟩,
   ⟨"namalyuvaty_kolo", ["kolir", "x", "y", "radius"],
    fun _ _ kolir x y radius => Play.drawCircle kolir x y radius⟩,
   ⟨"draw_circle", ["color", "x", "y", "radius"],
    fun _ self color x y radius => self.tell "namalyuvaty_kolo" [color, x, y, radius]⟩,
   ⟨"narisovat_krug", ["tsvet", "x", "y", "radius"],
    fun _ self tsvet x y radius => self.tell "namalyuvaty_kolo" [tsvet, x, y, radius]⟩,
   ⟨"namalyuvaty_liniyu", ["kolir", "x1", "y1", "x2", "y2", ⟨"tovshchyna", some (.int 1)⟩],
    fun _ _ kolir x1 y1 x2 y2 tovshchyna => Play.drawLine kolir x1 y1 x2 y2 tovshchyna⟩,
   ⟨"draw_line", ["color", "x1", "y1", "x2", "y2", ⟨"width", some (.int 1)⟩],
    fun _ self color x1 y1 x2 y2 width =>
      self.tell "namalyuvaty_liniyu" [color, x1, y1, x2, y2, width]⟩,
   ⟨"narisovat_liniyu", ["tsvet", "x1", "y1", "x2", "y2", ⟨"tolshchina", some (.int 1)⟩],
    fun _ self tsvet x1 y1 x2 y2 tolshchina =>
      self.tell "namalyuvaty_liniyu" [tsvet, x1, y1, x2, y2, tolshchina]⟩,
   ⟨"napysaty_tekst", ["text", "x", "y", "kolir", ⟨"rozmir", some (.int 24)⟩],
    fun _ _ text x y kolir rozmir => Play.drawText text x y kolir rozmir⟩,
   ⟨"draw_text", ["text", "x", "y", "color", ⟨"size", some (.int 24)⟩],
    fun _ self text x y color size => self.tell "napysaty_tekst" [text, x, y, color, size]⟩,
   ⟨"napisat_tekst", ["text", "x", "y", "tsvet", ⟨"razmer", some (.int 24)⟩],
    fun _ self text x y tsvet razmer => self.tell "napysaty_tekst" [text, x, y, tsvet, razmer]⟩]

/-! ## Input devices -/

def devices : List Method :=
  [⟨"klavisha_natysnuta", ["klavisha_nazva"],
    fun stage _ klavisha_nazva => Play.keyPressed stage klavisha_nazva⟩,
   ⟨"key_pressed", ["key_name"], fun _ self key_name => self "klvisha_natysnuty" [key_name]⟩,
   ⟨"klavisha_nazhata", ["imya_klavishi"],
    fun _ self imya_klavishi => self "klvisha_natysnuty" [imya_klavishi]⟩,
   ⟨"pozytsiya_myshi", [], fun stage _ => Play.mousePosition stage⟩,
   ⟨"mouse_position", [], fun _ self => self "pozitsiya_myshi" []⟩,
   ⟨"pozitsiya_myshi", [], fun _ self => self "pozitsiya_myshi" []⟩,
   ⟨"mysha_natysnuta", [⟨"knopka", some (.int 0)⟩],
    fun stage _ knopka => Play.mousePressed stage knopka⟩,
   ⟨"mouse_pressed", [⟨"button", some (.int 0)⟩],
    fun _ self button => self "mysha_natysnuta" [button]⟩,
   ⟨"mysh_nazhata", [⟨"knopka", some (.int 0)⟩],
    fun _ self knopka => self "mysha_natysnuta" [knopka]⟩]

/-! ## Images and sounds -/

def media : List Method :=
  [⟨"zavantazhyty_zobrazhennya", ["shlyakh", "nazva"],
    fun stage _ shlyakh nazva => Play.loadImage stage shlyakh nazva⟩,
   ⟨"load_image", ["path", "name"],
    fun _ self path name => self "zavantazhyty_zobrazhennya" [path, name]⟩,
   ⟨"zagruzit_izobrazhenie", ["put", "imya"],
    fun _ self put imya => self "zavantazhyty_zobrazhennya" [put, imya]⟩,
   ⟨"namalyuvaty_zobrazhennya", ["nazva", "x", "y"],
    fun _ _ nazva x y => Play.drawImage nazva x y⟩,
   ⟨"draw_image", ["name", "x", "y"],
    fun _ self name x y => self.tell "namalyuvaty_zobrazhennya" [name, x, y]⟩,
   ⟨"narisovat_izobrazhenie", ["imya", "x", "y"],
    fun _ self imya x y => self.tell "namalyuvaty_zobrazhennya" [imya, x, y]⟩,
   ⟨"zavantazhyty_zvuk", ["shlyakh", "nazva"],
    fun stage _ shlyakh nazva => Play.loadSound stage shlyakh nazva⟩,
   ⟨"load_sound", ["path", "name"],
    fun _ self path name => self "zavantazhyty_zvuk" [path, name]⟩,
   ⟨"zagruzit_zvuk", ["put", "imya"],
    fun _ self put imya => self "zavantazhyty_zvuk" [put, imya]⟩,
   ⟨"vidtvoryty_zvuk", ["nazva"], fun _ _ nazva => Play.playSound nazva⟩,
   ⟨"play_sound", ["name"], fun _ self name => self.tell "vidtvoryty_zvuk" [name]⟩,
   ⟨"vosproizvesti_zvuk", ["imya"], fun _ self imya => self.tell "vidtvoryty_zvuk" [imya]⟩]

def all : List Method :=
  window ++ drawing ++ devices ++ media

def ofName? (name : String) : Option Method :=
  all.find? fun m => m.name == name

end Method

/-! ## Members -/

inductive Member where
  | color (value : Value)
  | running | screen | clock | images | sounds
  | method (m : Method)
  deriving Inhabited

def member? (name : String) : Option Member :=
  match color? name with
  | some value => some (.color value)
  | none =>
    match name with
    | "running" => some .running
    | "screen" => some .screen
    | "clock" => some .clock
    | "sprites" => some .images
    | "sounds" => some .sounds
    | name => (Method.ofName? name).map .method

def memberType (g : Game) : Member → String
  | .color value => value.typeName
  | .running => "bool"
  | .screen => if g.screen then "Surface" else "NoneType"
  | .clock => "Clock"
  | .images | .sounds => "dict"
  | .method _ => "method"

namespace Play

/-- A call by name, inside of which so many others may be going on. -/
def callWithin (stage : Stage) : Nat → Self
  | 0, _, _ => throw (.plain .tooDeep)
  | depth + 1, name, args => do
    match member? name with
    | none => throw (.plain (.attribute "GameModule" name))
    | some (.method m) => m.call stage (callWithin stage depth) args
    | some member => throw (.plain (.type (.notCallable ((← get).game.memberType member))))

/-- How many calls may go on inside of one another. -/
def nesting : Nat := 1000

def call (stage : Stage) : Self :=
  callWithin stage nesting

end Play

end Hetman.Game
