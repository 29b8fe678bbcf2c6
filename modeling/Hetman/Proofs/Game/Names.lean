import Hetman.Game.Method

/-!
# The names of an operation

Every operation of a game has three names, one for each dialect with letters. The Ukrainian one does
it, and the others pass their arguments on to that name, in the same order and with the same
defaults, so that an operation does the same by each of them (`call_by_any_name`). Only the refusal
of a wrong number of arguments speaks of the parameters as this name has them. Two operations stand
apart: two names for asking about a key lead to a name that there is not, and two for the place of
the mouse lead to a name that leads back to itself.
-/

namespace Hetman

/-- A refusal without the names of the function and of its parameters. -/
def TypeFault.unnamed : TypeFault → TypeFault
  | .missingArguments _ names => .missingArguments "" (names.map fun _ => "")
  | .surplusArguments _ least most given => .surplusArguments "" least most given
  | fault => fault

namespace Signature

/-- How many arguments are taken. -/
def counts (s : Signature) : Nat × Nat × Bool :=
  (s.required.length, s.optional, s.anyMore)

theorem check_alike {s s' : Signature} (same : s.counts = s'.counts) (f f' : String)
    (count : Nat) :
    (s.check f count = .ok () ∧ s'.check f' count = .ok ()) ∨
      ∃ fault fault', s.check f count = .error fault ∧ s'.check f' count = .error fault' ∧
        fault.unnamed = fault'.unnamed := by
  obtain ⟨names', optional', more'⟩ := s'
  simp only [counts, Prod.mk.injEq] at same
  obtain ⟨length, rfl, rfl⟩ := same
  have blank : ∀ all : List String,
      (all.drop count).map (fun _ => "") = List.replicate (all.length - count) "" := by
    intro all
    rw [List.map_const', List.length_drop]
  unfold check
  dsimp only
  rw [← length]
  split
  · exact .inr ⟨_, _, rfl, rfl, rfl⟩
  · split
    · refine .inr ⟨_, _, rfl, rfl, ?_⟩
      rw [TypeFault.unnamed, TypeFault.unnamed, blank, blank, length]
    · exact .inl ⟨rfl, rfl⟩

theorem check_eq_ok_iff {s : Signature} (limited : s.anyMore = false) (f : String) (count : Nat) :
    s.check f count = .ok () ↔
      s.required.length ≤ count ∧ count ≤ s.required.length + s.optional := by
  unfold check
  rw [limited]
  dsimp only
  split
  · simp_all
  · split <;> simp_all

end Signature

namespace Game

/-! ## Bodies -/

namespace Body

/-- Passes the values of its parameters on, in their order. -/
def gather : (parameters : List Parameter) → (List Value → Play Value) → Body parameters
  | [], next => next []
  | _ :: rest, next => fun value => gather rest fun values => next (value :: values)

theorem run_gather {parameters : List Parameter} {values : List Value}
    (next : List Value → Play Value) (full : values.length = parameters.length) :
    (gather parameters next).run values = next values := by
  induction parameters generalizing values next with
  | nil =>
    cases List.length_eq_zero_iff.1 full
    rfl
  | cons p rest ih =>
    cases values with
    | nil => cases full
    | cons value values => exact ih _ (Nat.succ.inj full)

/-- Whatever the values are, what is done has the property. -/
def All (P : Play Value → Prop) : {parameters : List Parameter} → Body parameters → Prop
  | [], body => P body
  | _ :: _, body => ∀ value, All P (body value)

theorem All.run {P : Play Value → Prop} {parameters : List Parameter} {body : Body parameters}
    (all : All P body) (values : List Value) : P (body.run values) := by
  induction parameters generalizing values with
  | nil => exact all
  | cons p rest ih =>
    cases values with
    | nil => exact ih (all .none) []
    | cons value values => exact ih (all value) values

end Body

/-! ## Methods -/

namespace Method

variable {m target : Method} {stage : Stage} {self : Self} {args : List Value} {f : String}

theorem length_parameters (m : Method) :
    m.signature.required.length + m.signature.optional = m.parameters.length := by
  obtain ⟨name, parameters, body⟩ := m
  simp only [signature, List.length_map]
  clear body
  induction parameters with
  | nil => rfl
  | cons p rest ih => cases given : p.default <;> simp [given] <;> omega

theorem length_complete (fits : m.signature.check f args.length = .ok ()) :
    (m.complete args).length = m.parameters.length := by
  obtain ⟨least, most⟩ := (Signature.check_eq_ok_iff rfl _ _).1 fits
  have optional : m.signature.optional = (m.parameters.filterMap (·.default)).length := rfl
  rw [← m.length_parameters, complete, List.length_append, List.length_drop]
  omega

/-- A method that is given the defaults does what it does without them. -/
theorem call_complete (fits : m.signature.check f args.length = .ok ()) :
    m.call stage self (m.complete args) = (m.body stage self).run (m.complete args) := by
  have length := length_complete fits
  have fit : m.signature.check s!"GameModule.{m.name}" (m.complete args).length = .ok () := by
    apply (Signature.check_eq_ok_iff rfl _ _).2
    have := m.length_parameters
    omega
  have nothing : (m.parameters.filterMap (·.default)).drop
      ((m.complete args).length - m.signature.required.length) = [] := by
    apply List.drop_eq_nil_of_le
    have optional : m.signature.optional = (m.parameters.filterMap (·.default)).length := rfl
    have := m.length_parameters
    omega
  have same : m.complete (m.complete args) = m.complete args := by
    rw [complete, nothing, List.append_nil]
  unfold call
  rw [fit, same]

/-- Nothing is answered. -/
def Mute (x : Play Value) : Prop :=
  (do let _ ← x; return .none) = x

/-- A method hands everything over to another one, which does it on its own. -/
structure Forwards (m target : Method) : Prop where
  counts : m.signature.counts = target.signature.counts
  defaults : m.parameters.filterMap (·.default) = target.parameters.filterMap (·.default)
  own : ∀ stage self self', target.body stage self = target.body stage self'
  body : (∀ stage self, m.body stage self = Body.gather m.parameters (self target.name)) ∨
    (∀ stage self, m.body stage self = Body.gather m.parameters (self.tell target.name)) ∧
      ∀ stage self, (target.body stage self).All Mute

theorem Forwards.complete (h : m.Forwards target) (args : List Value) :
    m.complete args = target.complete args := by
  have required : m.signature.required.length = target.signature.required.length :=
    congrArg (·.1) h.counts
  rw [Method.complete, Method.complete, h.defaults, required]

/-- With a fitting number of arguments, what is done is what the other method does. -/
theorem Forwards.run_complete (h : m.Forwards target)
    (fits : m.signature.check f args.length = .ok ()) {self' : Self}
    (calls : self target.name = target.call stage self') :
    (m.body stage self).run (m.complete args) =
      (target.body stage self).run (target.complete args) := by
  have full := length_complete fits
  have fits' : target.signature.check f args.length = .ok () := by
    rcases Signature.check_alike h.counts f f args.length with ⟨-, fits'⟩ | ⟨_, _, wrong, -⟩
    · exact fits'
    · rw [fits] at wrong
      cases wrong
  have done : self target.name (target.complete args) =
      (target.body stage self).run (target.complete args) := by
    rw [calls, call_complete fits', h.own stage self' self]
  rcases h.body with passes | ⟨tells, mute⟩
  · rw [passes, Body.run_gather _ full, h.complete, done]
  · rw [tells, Body.run_gather _ full, h.complete, Self.tell, done]
    exact (mute stage self).run _

end Method

/-! ## Operations -/

/-- What a game can be told to do. -/
inductive Operation where
  | createWindow | setIcon | update | setFps | fill | drawRect | drawCircle | drawLine
  | keyPressed | mousePosition | mousePressed | drawText | loadImage | drawImage
  | loadSound | playSound | close

namespace Operation

/-- The Ukrainian, the English and the Russian name. -/
def names : Operation → List String
  | .createWindow => ["stvoryty_vikno", "create_window", "sozdat_okno"]
  | .setIcon => ["vstanovyty_ikonku", "set_icon", "ustanovit_ikonku"]
  | .update => ["onovyty", "update", "obnovit"]
  | .setFps => ["vstanovyty_fps", "set_fps", "ustanovit_fps"]
  | .fill => ["zalyty", "fill", "zalit"]
  | .drawRect => ["namalyuvaty_pryamokutnyk", "draw_rect", "narisovat_pryamougolnik"]
  | .drawCircle => ["namalyuvaty_kolo", "draw_circle", "narisovat_krug"]
  | .drawLine => ["namalyuvaty_liniyu", "draw_line", "narisovat_liniyu"]
  | .keyPressed => ["klavisha_natysnuta", "key_pressed", "klavisha_nazhata"]
  | .mousePosition => ["pozytsiya_myshi", "mouse_position", "pozitsiya_myshi"]
  | .mousePressed => ["mysha_natysnuta", "mouse_pressed", "mysh_nazhata"]
  | .drawText => ["napysaty_tekst", "draw_text", "napisat_tekst"]
  | .loadImage => ["zavantazhyty_zobrazhennya", "load_image", "zagruzit_izobrazhenie"]
  | .drawImage => ["namalyuvaty_zobrazhennya", "draw_image", "narisovat_izobrazhenie"]
  | .loadSound => ["zavantazhyty_zvuk", "load_sound", "zagruzit_zvuk"]
  | .playSound => ["vidtvoryty_zvuk", "play_sound", "vosproizvesti_zvuk"]
  | .close => ["zakryty", "close", "zakryt"]

/-- Whether every name of an operation leads to it. -/
def reached : Operation → Bool
  | .keyPressed | .mousePosition => false
  | _ => true

end Operation

/-! ## Operations that answer nothing -/

namespace Method

theorem mute_of_unit {x : Play Unit} : Mute (do x; return .none) := by
  unfold Mute
  rw [bind_assoc]
  rfl

theorem mute_throw (fault : Fault) : Mute (throw fault) :=
  rfl

theorem mute_bind {α : Type} {x : Play α} {f : α → Play Value} (mute : ∀ a, Mute (f a)) :
    Mute (x >>= f) := by
  unfold Mute at mute ⊢
  rw [bind_assoc]
  exact congrArg _ (funext mute)

@[simp]
theorem mute_setFps (fps : Value) : Mute (Play.setFps fps) :=
  mute_of_unit

@[simp]
theorem mute_close (stage : Stage) : Mute (Play.close stage) := by
  refine mute_bind fun _ => mute_bind fun _ => ?_
  cases stage.initialized
  · rfl
  · exact mute_of_unit

@[simp]
theorem mute_fill (color : Value) : Mute (Play.fill color) :=
  mute_bind fun _ => mute_bind fun _ => mute_of_unit

@[simp]
theorem mute_drawRect (color x y width height : Value) :
    Mute (Play.drawRect color x y width height) :=
  mute_bind fun _ => mute_bind fun _ => mute_of_unit

@[simp]
theorem mute_drawCircle (color x y radius : Value) : Mute (Play.drawCircle color x y radius) :=
  mute_bind fun _ => mute_bind fun _ => mute_of_unit

@[simp]
theorem mute_drawLine (color x1 y1 x2 y2 width : Value) :
    Mute (Play.drawLine color x1 y1 x2 y2 width) :=
  mute_bind fun _ => mute_bind fun _ => mute_of_unit

@[simp]
theorem mute_drawText (text x y color size : Value) : Mute (Play.drawText text x y color size) :=
  mute_bind fun _ => mute_bind fun _ => mute_bind fun _ => mute_bind fun _ => mute_bind fun _ =>
    mute_of_unit

@[simp]
theorem mute_drawImage (name x y : Value) : Mute (Play.drawImage name x y) := by
  refine mute_bind fun found => ?_
  cases found with
  | none => exact mute_bind fun _ => mute_throw _
  | some path => exact mute_bind fun _ => mute_of_unit

@[simp]
theorem mute_playSound (name : Value) : Mute (Play.playSound name) := by
  refine mute_bind fun found => ?_
  cases found with
  | none => exact mute_bind fun _ => mute_throw _
  | some path => exact mute_of_unit

end Method

/-! ## The names of an operation -/

variable {op : Operation} {stage : Stage} {args : List Value}

/-- The first name leads to a method that does the operation, and the others to methods that hand
everything over to it. -/
theorem Operation.leads (reached : op.reached = true) :
    ∃ target : Method, member? target.name = some (.method target) ∧
      ∀ name ∈ op.names, ∃ m, member? name = some (.method m) ∧
        (m = target ∨ m.Forwards target) := by
  cases op
  case keyPressed | mousePosition => cases reached
  case createWindow | setIcon | update | mousePressed | loadImage | loadSound =>
    simp only [names, List.forall_mem_cons]
    refine ⟨_, ?_, ⟨_, rfl, .inl rfl⟩,
      ⟨_, rfl, .inr ⟨rfl, rfl, fun _ _ _ => rfl, .inl fun _ _ => rfl⟩⟩,
      ⟨_, rfl, .inr ⟨rfl, rfl, fun _ _ _ => rfl, .inl fun _ _ => rfl⟩⟩, List.forall_mem_nil _⟩
    rfl
  all_goals
    simp only [names, List.forall_mem_cons]
    refine ⟨_, ?_, ⟨_, rfl, .inl rfl⟩,
      ⟨_, rfl, .inr ⟨rfl, rfl, fun _ _ _ => rfl, .inr ⟨fun _ _ => rfl, ?_⟩⟩⟩,
      ⟨_, rfl, .inr ⟨rfl, rfl, fun _ _ _ => rfl, .inr ⟨fun _ _ => rfl, ?_⟩⟩⟩,
      List.forall_mem_nil _⟩
    · rfl
    · simp [Body.All]
    · simp [Body.All]

theorem callWithin_of_member {name : String} {m : Method} (found : member? name = some (.method m))
    (stage : Stage) (depth : Nat) :
    Play.callWithin stage (depth + 1) name = m.call stage (Play.callWithin stage depth) := by
  funext args
  unfold Play.callWithin
  rw [found]

/-- A name of an operation does, with a fitting number of arguments, what its method does. -/
theorem Method.call_of_leads {m target : Method} (found : member? target.name = some (.method target))
    (leads : m = target ∨ m.Forwards target)
    (fits : m.signature.check s!"GameModule.{m.name}" args.length = .ok ()) (depth : Nat) :
    m.call stage (Play.callWithin stage (depth + 1)) args =
      (target.body stage (Play.callWithin stage (depth + 1))).run (target.complete args) := by
  unfold Method.call
  rw [fits]
  rcases leads with rfl | forwards
  · rfl
  · exact forwards.run_complete fits (callWithin_of_member found stage depth)

theorem Method.call_of_wrong {m : Method} {self : Self} {fault : TypeFault}
    (wrong : m.signature.check s!"GameModule.{m.name}" args.length = .error fault) :
    m.call stage self args = throw (.plain (.type fault)) := by
  unfold Method.call
  rw [wrong]

/-- The English and the Russian name for asking about a key call a method that there is not. -/
theorem keyPressed_lost (stage : Stage) (args : List Value) (scene : Scene) (depth : Nat) :
    ∀ name ∈ Operation.keyPressed.names.tail, ∃ fault,
      Play.callWithin stage (depth + 2) name args scene = .error (.plain fault) scene ∧
      (args.length = 1 → fault = .attribute "GameModule" "klvisha_natysnuty") := by
  have lost : ∀ m : Method, m.signature.counts = (1, 0, false) →
      (∀ v, (m.body stage (Play.callWithin stage (depth + 1))).run (m.complete [v]) =
        Play.callWithin stage (depth + 1) "klvisha_natysnuty" [v]) →
      ∃ fault, m.call stage (Play.callWithin stage (depth + 1)) args scene =
          .error (.plain fault) scene ∧
        (args.length = 1 → fault = .attribute "GameModule" "klvisha_natysnuty") := by
    intro m counts calls
    simp only [Signature.counts, Prod.mk.injEq] at counts
    obtain ⟨one, optional, limited⟩ := counts
    cases checked : m.signature.check s!"GameModule.{m.name}" args.length with
    | error fault =>
      rw [Method.call_of_wrong checked]
      refine ⟨_, rfl, fun length => ?_⟩
      rw [(Signature.check_eq_ok_iff limited _ _).2 (by omega)] at checked
      cases checked
    | ok =>
      have length : args.length = 1 := by
        have := (Signature.check_eq_ok_iff limited _ _).1 checked
        omega
      obtain ⟨v, rfl⟩ := List.length_eq_one_iff.1 length
      refine ⟨_, ?_, fun _ => rfl⟩
      unfold Method.call
      rw [checked]
      dsimp only
      rw [calls]
      rfl
  simp only [Operation.names, List.tail_cons, List.forall_mem_cons]
  refine ⟨?_, ?_, List.forall_mem_nil _⟩
  · rw [callWithin_of_member rfl]
    exact lost _ rfl fun _ => rfl
  · rw [callWithin_of_member rfl]
    exact lost _ rfl fun _ => rfl

/-- However deep calls may go, two names for the place of the mouse use all of it up. -/
theorem mousePosition_endless (stage : Stage) (scene : Scene) (depth : Nat) :
    ∀ name ∈ Operation.mousePosition.names.tail,
      Play.callWithin stage depth name [] scene = .error (.plain .tooDeep) scene := by
  induction depth with
  | zero => exact fun _ _ => rfl
  | succ depth ih =>
    have again := ih "pozitsiya_myshi" (by decide)
    simp only [Operation.names, List.tail_cons, List.forall_mem_cons]
    refine ⟨?_, ?_, List.forall_mem_nil _⟩
    · rw [callWithin_of_member rfl]
      exact again
    · rw [callWithin_of_member rfl]
      exact again

/-- Whatever name is used for an operation, it gives the same answer or error, leaves the same game
and asks the same of the outside. A wrong number of arguments is refused alike, in the words of the
name. The English and the Russian name for asking about a key give no answer, and those for the
place of the mouse come to no end. -/
theorem call_by_any_name (stage : Stage) (args : List Value) (scene : Scene) :
    (∀ op : Operation, op.reached = true → ∀ name ∈ op.names, ∀ other ∈ op.names,
      Play.call stage name args scene = Play.call stage other args scene ∨
      ∃ fault fault', fault.unnamed = fault'.unnamed ∧
        Play.call stage name args scene = .error (.plain (.type fault)) scene ∧
        Play.call stage other args scene = .error (.plain (.type fault')) scene) ∧
    (∀ name ∈ Operation.keyPressed.names.tail, ∃ fault,
      Play.call stage name args scene = .error (.plain fault) scene ∧
      (args.length = 1 → fault = .attribute "GameModule" "klvisha_natysnuty")) ∧
    ∀ name ∈ Operation.mousePosition.names.tail,
      Play.call stage name [] scene = .error (.plain .tooDeep) scene := by
  refine ⟨?_, ?_, ?_⟩
  · intro op reached name named other named'
    obtain ⟨target, found, leads⟩ := Operation.leads reached
    obtain ⟨m, member, forwards⟩ := leads name named
    obtain ⟨n, member', forwards'⟩ := leads other named'
    have counts : ∀ {m : Method}, m = target ∨ m.Forwards target →
        m.signature.counts = target.signature.counts := by
      rintro m (rfl | forwards)
      · rfl
      · exact forwards.counts
    unfold Play.call Play.nesting
    rw [callWithin_of_member member, callWithin_of_member member']
    rcases Signature.check_alike ((counts forwards).trans (counts forwards').symm)
      s!"GameModule.{m.name}" s!"GameModule.{n.name}" args.length with
      ⟨fits, fits'⟩ | ⟨fault, fault', wrong, wrong', same⟩
    · rw [Method.call_of_leads found forwards fits, Method.call_of_leads found forwards' fits']
      exact .inl rfl
    · rw [Method.call_of_wrong wrong, Method.call_of_wrong wrong']
      exact .inr ⟨fault, fault', same, rfl, rfl⟩
  · exact keyPressed_lost stage args scene 998
  · exact mousePosition_endless stage scene 1000

def Stage.upward : Stage where
  imageFault _ := none
  soundFault _ := none
  events := some []
  isDown := (· = .up)
  mouse := []
  buttons := []
  initialized := true

theorem call_by_any_name_window :
    Play.call .upward "sozdat_okno" [.int 8, .int 6] {} =
      Play.call .upward "stvoryty_vikno" [.int 8, .int 6] {} ∧
    ∃ fault, Play.call .upward "key_pressed" [.text "up"] {} = .error (.plain fault) {} ∧
      fault = .attribute "GameModule" "klvisha_natysnuty" := by
  obtain ⟨alike, -⟩ := call_by_any_name .upward [.int 8, .int 6] {}
  obtain ⟨-, lost, -⟩ := call_by_any_name .upward [.text "up"] {}
  obtain ⟨fault, failed, missing⟩ := lost "key_pressed" (by decide)
  refine ⟨?_, fault, failed, missing rfl⟩
  rcases alike .createWindow rfl "sozdat_okno" (by decide) "stvoryty_vikno" (by decide) with
    same | ⟨_, _, -, refused, -⟩
  · exact same
  · cases refused

/-- The key is down by its Ukrainian name, and not found by its English one. -/
theorem key_pressed_unanswered :
    Play.call .upward "klavisha_natysnuta" [.text "up"] {} =
      .ok (.bool true) { cues := [.askKeys] } ∧
    Play.call .upward "key_pressed" [.text "up"] {} =
      .error (.plain (.attribute "GameModule" "klvisha_natysnuty")) {} :=
  ⟨rfl, rfl⟩

end Game

end Hetman
