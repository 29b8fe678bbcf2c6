import Hetman.Proofs.Eval.Runs

/-!
# Variables with a declared type

An assignment is checked against the declared type. The other ways to bind a variable are not:
steps, loops, handlers, calls, declarations in bodies, and the import of a library. A variable that
is kept away from those (`Use`) fits its type at every point of every evaluation (`outcomes_fit`):
an evaluator that looks at the variable before and after each node and raises an alarm does what the
evaluator does, whatever the alarm is.
-/

namespace Hetman

open List

/-! ## Fitting -/

/-- A bound variable has a value of its declared type. -/
def Session.fits (s : Session) (x : String) : Bool :=
  match s.types.get? x, s.env.get? x with
  | some expected, some value => TypeName.accepts expected value.typeName
  | _, _ => true

theorem Session.fits_congr {s t : Session} {x : String} (types : t.types.get? x = s.types.get? x)
    (env : t.env.get? x = s.env.get? x) : t.fits x = s.fits x := by
  unfold fits
  rw [types, env]

theorem Session.fits_of_types {s : Session} {x : String} (types : s.types.get? x = none) :
    s.fits x = true := by
  unfold fits
  rw [types]

theorem Session.fits_of_accepts {s : Session} {x : String} {value : Value}
    (bound : s.env.get? x = some value)
    (accepted : ∀ expected, s.types.get? x = some expected →
      TypeName.accepts expected value.typeName = true) : s.fits x = true := by
  unfold fits
  rw [bound]
  cases found : s.types.get? x with
  | none => rfl
  | some expected => exact accepted expected found

/-! ## Uses of a variable -/

/-- What a program does with a variable. -/
inductive Usage where
  /-- It is never declared with a type; anything else may be done with it. -/
  | untyped
  /-- It is declared outside of bodies, and bound by assignments only. -/
  | assigned
  /-- It is stepped as well, and not declared to be a truth value. -/
  | counted
  deriving DecidableEq

/-- Whether a variable may be declared with a type. -/
def Usage.declares : Usage → String → Bool
  | .untyped, _ => false
  | .assigned, _ => true
  | .counted, expected => expected ≠ "bool"

/-- How a program uses a variable. -/
structure Use where
  name : String
  usage : Usage
  /-- Whether files may be imported; then none may be written. -/
  importing : Bool

/-- What a node does itself agrees with the use; `inside` tells whether it stands in a body. -/
def Node.Respects (u : Use) (inside : Bool) : Node → Prop
  | .assign name _ hint => name = u.name → ∀ type, hint.filter (· ≠ "") = some type →
    inside = false ∧ u.usage.declares (TypeName.normalize type) = true
  | .step _ (.var name) => name = u.name → u.usage ≠ .assigned
  | .forEach name _ _ => name = u.name → u.usage = .untyped
  | .tryCatch _ catches _ => ∀ body, (some u.name, body) ∈ catches → u.usage = .untyped
  | .function routine => u.name ∈ routine.parameters → u.usage = .untyped
  | .classDecl decl =>
    (u.name = "this" ∨ ∃ method ∈ decl.methods, u.name ∈ method.2.parameters) →
      u.usage = .untyped
  | .call name _ => u.importing = true → Builtin.ofName? name ≠ some .write
  | .importFile path =>
    (∃ name lib, path = .text name ∧ Library.ofName? name = some lib ∧
      (lib.name = u.name → u.usage = .untyped)) ∨
    (u.importing = true ∧ inside = false ∧
      ∀ lib : Library, lib.name = u.name → u.usage = .untyped)
  | _ => True

/-- All that occurs in a node agrees with the use of a variable. -/
def Node.UsesAs (node : Node) (u : Use) (inside : Bool) : Prop :=
  ∀ m deeper, node.Occurs m deeper → m.Respects u (inside || deeper)

section Nodes

variable {node p : Node} {u : Use} {inside : Bool}

theorem Node.UsesAs.part (h : node.UsesAs u inside) (isPart : p ∈ node.parts) :
    p.UsesAs u inside :=
  fun m deeper occurs => h m deeper (.part isPart occurs)

theorem Node.UsesAs.body (h : node.UsesAs u inside) (isBody : p ∈ node.bodies) :
    p.UsesAs u true := by
  intro m deeper occurs
  have deep := h m true (.body isBody occurs)
  rwa [Bool.or_true] at deep

theorem Node.UsesAs.self (h : node.UsesAs u inside) : node.Respects u inside := by
  have top := h node false .here
  rwa [Bool.or_false] at top

theorem Node.usesAs_of_parts (self : node.Respects u inside)
    (parts : ∀ p ∈ node.parts, p.UsesAs u inside) (bodies : ∀ p ∈ node.bodies, p.UsesAs u true) :
    node.UsesAs u inside := by
  intro m deeper occurs
  cases occurs with
  | here => rwa [Bool.or_false]
  | part isPart inPart => exact parts _ isPart m deeper inPart
  | body isBody inBody =>
    rw [Bool.or_true]
    exact bodies _ isBody m _ inBody

end Nodes

/-! ## Sessions -/

/-- The body agrees with the use, and the variable is no parameter. -/
structure Routine.UsesAs (routine : Routine Node) (u : Use) : Prop where
  parameters : u.name ∈ routine.parameters → u.usage = .untyped
  body : ∀ n ∈ routine.body, n.UsesAs u true

/-- What objects of a class run agrees with the use. -/
structure ClassInfo.UsesAs (c : ClassInfo) (u : Use) : Prop where
  methods : ∀ method ∈ c.methods, (u.name = "this" → u.usage = .untyped) ∧ method.2.UsesAs u
  constructor : ∀ routine, c.constructor = some routine →
    (u.name = "this" → u.usage = .untyped) ∧ routine.UsesAs u
  destructor : ∀ body, c.destructor = some body →
    (u.name = "this" → u.usage = .untyped) ∧ ∀ n ∈ body, n.UsesAs u true

/-- The variable fits, and all that is stored or can be imported agrees with its use. -/
structure Session.UsesAs (s : Session) (u : Use) : Prop where
  fits : s.fits u.name = true
  declared : ∀ expected, s.types.get? u.name = some expected → u.usage.declares expected = true
  functions : ∀ name routine, s.functions.get? name = some routine → routine.UsesAs u
  classes : ∀ id, (s.classes.info id).UsesAs u
  programs : u.importing = true → ∀ program, Eval.Importable s program → program.UsesAs u false

theorem ClassInfo.usesAs_default (u : Use) : (default : ClassInfo).UsesAs u := by
  refine ⟨fun _ isMethod => ?_, fun _ found => ?_, fun _ found => ?_⟩
  · cases isMethod
  · cases found
  · cases found

theorem Session.usesAs_of_fresh {s : Session} {u : Use} (types : s.types = [])
    (functions : s.functions = []) (classes : s.classes = {})
    (programs : u.importing = true → ∀ program, Eval.Importable s program →
      program.UsesAs u false) : s.UsesAs u := by
  refine ⟨?_, ?_, ?_, ?_, programs⟩
  · exact fits_of_types (by rw [types]; rfl)
  · rw [types]
    intro expected found
    cases found
  · rw [functions]
    intro name routine found
    cases found
  · rw [classes]
    exact fun id => ClassInfo.usesAs_default u

namespace Session.UsesAs

variable {s t : Session} {u : Use}

theorem quiet (h : s.UsesAs u) (q : Eval.Quiet s t) : t.UsesAs u := by
  refine ⟨?_, ?_, ?_, ?_, ?_⟩
  · rw [fits_congr (congrArg (Bindings.get? · u.name) q.types)
      (congrArg (Bindings.get? · u.name) q.env)]
    exact h.fits
  · rw [q.types]
    exact h.declared
  · rw [q.functions]
    exact h.functions
  · rw [q.classes]
    exact h.classes
  · unfold Eval.Importable
    rw [q.files, q.strict, q.dialect]
    exact h.programs

theorem types_of_untyped (h : s.UsesAs u) (untyped : u.usage = .untyped) :
    s.types.get? u.name = none := by
  cases found : s.types.get? u.name with
  | none => rfl
  | some expected =>
    have declares := h.declared expected found
    rw [untyped] at declares
    cases declares

theorem withEnv (h : s.UsesAs u) {env : Bindings Value}
    (kept : env.get? u.name = s.env.get? u.name ∨ u.usage = .untyped) :
    { s with env }.UsesAs u := by
  refine ⟨?_, h.declared, h.functions, h.classes, h.programs⟩
  rcases kept with same | untyped
  · exact (fits_congr (s := s) (t := { s with env }) rfl same).trans h.fits
  · exact fits_of_types (h.types_of_untyped untyped)

theorem withTypes (h : s.UsesAs u) {types : Bindings String}
    (kept : types.get? u.name = s.types.get? u.name) : { s with types }.UsesAs u := by
  refine ⟨?_, ?_, h.functions, h.classes, h.programs⟩
  · exact (fits_congr (s := s) (t := { s with types }) kept rfl).trans h.fits
  · dsimp only
    rw [kept]
    exact h.declared

theorem withFunction {routine : Routine Node} (h : s.UsesAs u) (uses : routine.UsesAs u) :
    { s with functions := s.functions.insert routine.name routine }.UsesAs u := by
  refine ⟨h.fits, h.declared, fun name other found => ?_, h.classes, h.programs⟩
  rw [Bindings.get?_insert] at found
  split at found
  · cases found
    exact uses
  · exact h.functions name other found

theorem withClass (h : s.UsesAs u) {c : ClassInfo} (uses : c.UsesAs u) :
    { s with classes := (s.classes.define c).2 }.UsesAs u := by
  refine ⟨h.fits, h.declared, h.functions, fun id => ?_, h.programs⟩
  rw [ClassGraph.info_define]
  split
  · exact uses
  · exact h.classes id

end Session.UsesAs

namespace Eval

variable {name : String} {s t : Session} {node : Node}

/-! ## The discipline -/

/-- A variable fits from node to node; inside of a body its type stays. -/
def typed (u : Use) (inside : Bool) : Discipline where
  start s := s.UsesAs u
  change s t := t.UsesAs u ∧ (inside = true → t.types.get? u.name = s.types.get? u.name)
  returns := True
  quiet h q := ⟨h.quiet q, fun _ => congrArg (Bindings.get? · u.name) q.types⟩
  trans first second := ⟨second.1, fun within => (second.2 within).trans (first.2 within)⟩
  keeps _ h := h.1

variable {u : Use} {inside : Bool} {expected : String} {hint : Option String}
  {ev ev' : Node → Eval Value}

theorem typed_binds (h : name = u.name → u.usage = .untyped) : (typed u inside).Binds name := by
  intro s start
  by_cases same : name = u.name
  · exact ⟨fun v => ⟨start.withEnv (.inr (h same)), fun _ => rfl⟩,
      start.withEnv (.inr (h same)), fun _ => rfl⟩
  · have inserted : ∀ v, (s.env.insert name v).get? u.name = s.env.get? u.name :=
      fun v => (Bindings.get?_insert ..).trans (if_neg same)
    have erased : (s.env.erase name).get? u.name = s.env.get? u.name := Bindings.get?_erase _ same
    exact ⟨fun v => ⟨start.withEnv (.inl (inserted v)), fun _ => rfl⟩,
      start.withEnv (.inl erased), fun _ => rfl⟩

/-! ## Assignments and steps -/

theorem typed_bindSelf {value : Value} (start : s.UsesAs u)
    (accepted : ∀ expected, s.types.get? u.name = some expected →
      TypeName.accepts expected value.typeName = true) :
    (typed u inside).change s { s with env := s.env.insert u.name value } := by
  have bound : (s.env.insert u.name value).get? u.name = some value :=
    (Bindings.get?_insert ..).trans (if_pos rfl)
  refine ⟨⟨?_, start.declared, start.functions, start.classes, start.programs⟩, fun _ => rfl⟩
  exact Session.fits_of_accepts bound accepted

theorem typed_declareSelf {value : Value} (start : s.UsesAs u)
    (declares : u.usage.declares expected = true)
    (accepted : TypeName.accepts expected value.typeName = true) :
    (typed u false).change s
      { s with types := s.types.insert u.name expected, env := s.env.insert u.name value } := by
  have bound : (s.env.insert u.name value).get? u.name = some value :=
    (Bindings.get?_insert ..).trans (if_pos rfl)
  have declared : ∀ type, (s.types.insert u.name expected).get? u.name = some type →
      expected = type := by
    intro type found
    rw [Bindings.get?_insert, if_pos rfl] at found
    exact Option.some.inj found
  refine ⟨⟨?_, fun type found => ?_, start.functions, start.classes, start.programs⟩,
    fun within => nomatch within⟩
  · refine Session.fits_of_accepts bound fun type found => ?_
    cases declared type found
    exact accepted
  · cases declared type found
    exact declares

theorem typed_assignSelf
    (respects : ∀ type, hint.filter (· ≠ "") = some type →
      inside = false ∧ u.usage.declares (TypeName.normalize type) = true) (v : Value) :
    Runs (typed u inside) (assignVariable u.name v hint) (assignVariable u.name v hint) := by
  intro s start
  unfold assignVariable
  split
  · rename_i type given
    obtain ⟨rfl, declares⟩ := respects type given
    dsimp only
    split
    · rename_i accepted
      exact ⟨rfl, typed_declareSelf start declares accepted, fun _ _ result => nomatch result⟩
    · exact ((still_reject _).runs s start).bindAt fun _ _ result => nomatch result
  · refine Runs.getAt (fun s start => ?_) s start
    split
    · rename_i expected found
      split
      · rename_i accepted
        refine ⟨rfl, typed_bindSelf start fun type declared => ?_, fun _ _ result => nomatch result⟩
        rw [found] at declared
        cases declared
        exact accepted
      · exact ((still_reject _).runs s start).bindAt fun _ _ result => nomatch result
    · rename_i found
      refine ⟨rfl, typed_bindSelf start fun type declared => ?_, fun _ _ result => nomatch result⟩
      rw [found] at declared
      cases declared

theorem typed_assignVariable {value : Node}
    (respects : (Node.assign name value hint).Respects u inside) (v : Value) :
    Runs (typed u inside) (assignVariable name v hint) (assignVariable name v hint) := by
  by_cases same : name = u.name
  · subst same
    exact typed_assignSelf (respects rfl) v
  · have binds : (typed u inside).Binds name := typed_binds fun e => absurd e same
    refine runs_assignVariable binds (fun type _ s start => ?_) v
    have kept : (s.types.insert name (TypeName.normalize type)).get? u.name = s.types.get? u.name :=
      (Bindings.get?_insert ..).trans (if_neg same)
    exact ⟨start.withTypes kept, fun _ => kept⟩

section Arithmetic

variable {f : Int → Int → Int} {g : Float → Float → Float} {h : Complex → Complex → Complex}
  {value result : Value} {n : Int}

theorem typeName_onFloat {y : Float} (double : Number.ofValue? value = some (.float y))
    (ran : Value.onNumbers "+" (Number.lift f g h) value (.int n) = .ok result) :
    result.typeName = "float" := by
  unfold Value.onNumbers at ran
  rw [double] at ran
  cases converted : Number.intToFloat n with
  | ok z =>
    simp only [Number.ofValue?, Number.lift, converted] at ran
    cases ran
    rfl
  | error fault =>
    simp only [Number.ofValue?, Number.lift, converted] at ran
    cases ran

/-- Arithmetic with an integer keeps a type that is not that of truth values. -/
theorem typeName_onNumbers (real : value.isReal = true) (notBool : value.typeName ≠ "bool")
    (ran : Value.onNumbers "+" (Number.lift f g h) value (.int n) = .ok result) :
    result.typeName = value.typeName := by
  cases value with
  | bool b => exact absurd rfl notBool
  | int m =>
    cases ran
    rfl
  | float y | nan ident => exact typeName_onFloat rfl ran
  | _ => cases real

end Arithmetic

theorem typeName_settle {result value : Value} (ran : settle result s = .ok value t) :
    value.typeName = result.typeName := by
  unfold settle at ran
  split at ran
  · split at ran
    · cases ran
      rfl
    · cases ran
      rfl
  · rename_i items
    cases settled : items.mapM settle.settleItem s with
    | ok values u =>
      rw [bind_ok settled] at ran
      cases ran
      rfl
    | error signal u =>
      rw [bind_error settled] at ran
      cases ran
  · cases ran
    rfl

theorem accepts_of_typeName {old new : Value}
    (accepted : TypeName.accepts expected old.typeName = true) (notBool : expected ≠ "bool")
    (kept : old.typeName ≠ "bool" → new.typeName = old.typeName) :
    TypeName.accepts expected new.typeName = true := by
  have other : old.typeName ≠ "bool" := by
    intro isBool
    rw [isBool] at accepted
    simp [TypeName.accepts, notBool] at accepted
  rw [kept other]
  exact accepted

theorem lift_ok {α : Type} {e : Except Fault α} {a : α} (ran : lift e s = .ok a t) :
    e = .ok a ∧ t = s := by
  cases e with
  | ok b =>
    cases ran
    exact ⟨rfl, rfl⟩
  | error fault => cases ran

/-- A step of a variable that is no truth value. -/
theorem typed_changeSelf {value : Value} {f : Int → Int → Int}
    {g : Float → Float → Float} {h : Complex → Complex → Complex} (start : s.UsesAs u)
    (counted : u.usage = .counted) (bound : s.env.get? u.name = some value)
    (refusal : ScriptFault) :
    RunsAt (typed u inside) (evalStep.change u.name value (Number.lift f g h) refusal)
      (evalStep.change u.name value (Number.lift f g h) refusal) s := by
  unfold evalStep.change
  split
  · rename_i real
    refine ((still_lift _).runs s start).bindAt fun result t lifted => ?_
    obtain ⟨ran, rfl⟩ := lift_ok lifted
    have settles := silent_settle result
    refine (settles.runs t start).bindAt fun new w settled => ?_
    have quiet : Quiet t w := by
      have change := settles.change t
      rw [settled] at change
      exact change
    refine ⟨rfl, typed_bindSelf (start.quiet quiet) fun expected declared => ?_,
      fun _ _ ended => nomatch ended⟩
    rw [quiet.types] at declared
    have accepted : TypeName.accepts expected value.typeName = true := by
      have fits := start.fits
      unfold Session.fits at fits
      rw [declared, bound] at fits
      exact fits
    refine accepts_of_typeName accepted ?_ fun notBool => ?_
    · have declares := start.declared expected declared
      rw [counted] at declares
      exact of_decide_eq_true declares
    · exact (typeName_settle settled).trans (typeName_onNumbers real notBool ran)
  · exact (still_reject _).runs s start

theorem typed_evalStep {op : StepOp} {target : Node}
    (respects : (Node.step op target).Respects u inside) :
    Runs (typed u inside) (evalStep op target) (evalStep op target) := by
  by_cases self : target = .var u.name ∧ u.usage ≠ .untyped
  · obtain ⟨rfl, isTyped⟩ := self
    have notAssigned : u.usage ≠ .assigned := respects rfl
    have counted : u.usage = .counted := by
      cases usage : u.usage with
      | untyped => exact absurd usage isTyped
      | assigned => exact absurd usage notAssigned
      | counted => rfl
    intro s start
    refine ((still_binding? u.name).runs s start).bindAt fun bound t found => ?_
    cases found
    split
    · exact (still_reject _).runs _ start
    · rename_i value found
      cases op with
      | increment | decrement => exact typed_changeSelf start counted found _
      | other symbol => exact (still_reject _).runs _ start
  · apply runs_evalStep
    rintro name rfl
    refine typed_binds fun same => ?_
    exact Decidable.byContradiction fun isTyped => self ⟨congrArg Node.var same, isTyped⟩

/-! ## Bodies -/

theorem usesAs_of_offers {g : ClassGraph}
    (h : ∀ id, (g.info id).UsesAs u) (offers : g.Offers routine) :
    (u.name = "this" → u.usage = .untyped) ∧ routine.UsesAs u := by
  obtain ⟨id, ⟨name, isMethod⟩ | isConstructor⟩ := offers.stored
  · exact (h id).methods _ (Bindings.mem_of_get? isMethod)
  · exact (h id).constructor _ isConstructor

/-- A body that agrees with the use, called without the variable as a local one. -/
theorem typed_runBody {body : List Node} {locals : Bindings Value}
    (h : ∀ n ∈ body, Runs (typed u true) (ev n) (ev' n))
    (free : (∃ entry ∈ locals, entry.1 = u.name) → u.usage = .untyped) :
    Runs (typed u inside) (runBody ev body locals name) (runBody ev' body locals name) := by
  refine runs_runBody (typed u true) h (fun s start => ?_) fun s t start change => ?_
  · have bound : { s with env := s.env.insertAll locals }.UsesAs u := by
      by_cases isLocal : ∃ entry ∈ locals, entry.1 = u.name
      · exact start.withEnv (.inr (free isLocal))
      · refine start.withEnv (.inl (Bindings.get?_insertAll _ fun entry inLocals same => ?_))
        exact isLocal ⟨entry, inLocals, same⟩
    exact ⟨bound.fits, bound.declared, bound.functions, bound.classes, bound.programs⟩
  · obtain ⟨after, kept⟩ := change
    have types : t.types.get? u.name = s.types.get? u.name := kept rfl
    refine ⟨⟨?_, after.declared, after.functions, after.classes, after.programs⟩, fun _ => types⟩
    exact (Session.fits_congr (s := s) (t := left s t) types rfl).trans start.fits

theorem typed_calls (h : ∀ n : Node, n.UsesAs u true → Runs (typed u true) (ev n) (ev' n)) :
    Calls (typed u inside) ev ev' where
  function start found args := by
    have uses := start.functions _ _ found
    refine typed_runBody (fun n isBody => h n (uses.body n isBody)) fun ⟨entry, isLocal, same⟩ => ?_
    exact uses.parameters (same ▸ (of_mem_zip isLocal).1)
  method start offers ref args name := by
    obtain ⟨this, uses⟩ := usesAs_of_offers start.classes offers
    refine typed_runBody (fun n isBody => h n (uses.body n isBody)) fun ⟨entry, isLocal, same⟩ => ?_
    rcases mem_cons.1 isLocal with rfl | isArgument
    · exact this same.symm
    · exact uses.parameters (same ▸ (of_mem_zip isArgument).1)
  destructor start found ref := by
    obtain ⟨this, uses⟩ := (start.classes _).destructor _ found
    refine typed_runBody (fun n isBody => h n (uses n isBody)) fun ⟨entry, isLocal, same⟩ => ?_
    cases mem_singleton.1 isLocal
    exact this same.symm

/-! ## What nodes do themselves -/

theorem typed_importLibrary {lib : Library} (known : Library.ofName? name = some lib)
    (free : lib.name = u.name → u.usage = .untyped)
    (h : Runs (typed u inside) (ev (.text name)) (ev' (.text name)))
    (texts : ∀ s v t, ev' (.text name) s = .ok v t → v = .text name) :
    Runs (typed u inside) (ev (.text name) >>= importValue ev)
      (ev' (.text name) >>= importValue ev') := by
  intro s start
  have run := h s start
  refine run.bindAt fun v t given => ?_
  have started := run.start start given
  rw [run.same] at given
  cases texts s v t given
  unfold importValue
  dsimp only
  rw [known]
  exact ((runs_importLibrary (typed_binds free)).bind fun _ => .pure _) t started

theorem typed_importValue (importing : u.importing = true)
    (free : ∀ lib : Library, lib.name = u.name → u.usage = .untyped)
    (h : ∀ n : Node, n.UsesAs u false → Runs (typed u false) (ev n) (ev' n)) (target : Value) :
    Runs (typed u false) (importValue ev target) (importValue ev' target) := by
  have records : (typed u false).Records := fun s full start =>
    ⟨⟨start.fits, start.declared, start.functions, start.classes, start.programs⟩, fun _ => rfl⟩
  apply runs_importValue (fun lib => typed_binds (free lib)) records
  intro s program folder start read
  have runs := h program (start.programs importing program read)
  refine runs_inFolder runs (fun s start => ?_) fun s t start change => ?_
  · exact ⟨start.fits, start.declared, start.functions, start.classes, start.programs⟩
  · obtain ⟨after, kept⟩ := change
    exact ⟨⟨after.fits, after.declared, after.functions, after.classes, after.programs⟩, kept⟩

theorem usesAs_declared {decl : ClassDecl Node} (uses : (Node.classDecl decl).UsesAs u inside)
    (parent : Option Nat) : (declared decl parent).UsesAs u := by
  have methods : ∀ method ∈ decl.methods,
      (u.name = "this" → u.usage = .untyped) ∧ method.2.UsesAs u := by
    intro method isMethod
    refine ⟨fun this => uses.self (.inl this), fun isParameter => ?_, fun n inBody => ?_⟩
    · exact uses.self (.inr ⟨method, isMethod, isParameter⟩)
    · refine uses.body (mem_append_left _ (mem_append_left _ ?_))
      exact mem_flatMap.2 ⟨method, isMethod, inBody⟩
  refine ⟨methods, fun routine found => ?_, fun body found => ?_⟩
  · exact methods _ (Bindings.mem_of_get? found)
  · refine ⟨fun this => uses.self (.inl this), fun n inBody => ?_⟩
    refine uses.body (mem_append_right _ ?_)
    have destructor : decl.destructor = some body := found
    rw [destructor]
    exact inBody

theorem typed_ownEffect (uses : node.UsesAs u inside)
    (h : ∀ n inside, n.UsesAs u inside → Runs (typed u inside) (ev n) (ev' n))
    (texts : ∀ name s v t, ev' (.text name) s = .ok v t → v = .text name) :
    OwnEffect (typed u inside) ev ev' node := by
  have respects := uses.self
  cases node with
  | call name arguments =>
    intro isWrite s files start _
    refine ⟨⟨start.fits, start.declared, start.functions, start.classes, ?_⟩, fun _ => rfl⟩
    exact fun importing => absurd isWrite (respects importing)
  | assign name value hint => exact typed_assignVariable respects
  | step op target => exact typed_evalStep respects
  | forEach name array body => exact typed_binds respects
  | tryCatch body catches final =>
    intro name handler isHandler
    exact typed_binds fun same => respects handler (same ▸ isHandler)
  | function routine =>
    intro s start
    exact ⟨start.withFunction ⟨respects, fun n inBody => uses.body inBody⟩, fun _ => rfl⟩
  | classDecl decl =>
    intro parent s start _
    exact ⟨start.withClass (usesAs_declared uses parent), fun _ => rfl⟩
  | ret value => exact trivial
  | importFile path =>
    have ofPath := h path inside (uses.part (mem_singleton_self _))
    rcases respects with ⟨name, lib, rfl, known, free⟩ | ⟨importing, rfl, free⟩
    · exact typed_importLibrary known free ofPath (texts name)
    · exact ofPath.bind (typed_importValue importing free fun n => h n false)
  | _ => trivial

/-! ## Watching a variable -/

def check (x : String) (alarm : Eval Unit) : Eval Unit := do
  if (← get).fits x then return else alarm

/-- Evaluates with a look at a variable before and after. -/
def watching (x : String) (alarm : Eval Unit) (e : Eval Value) : Eval Value := do
  check x alarm
  let outcome ← attempt e
  check x alarm
  conclude outcome

/-- Evaluates with a look at a variable before and after every node on the way. -/
def watched (x : String) (alarm : Eval Unit) : (fuel : Nat) → Node → Eval Value
  | 0, _ => throw (.suspended .steps)
  | fuel + 1, node => watching x alarm (evalNode fuel (watched x alarm fuel) node)

variable {x : String} {alarm : Eval Unit} {e : Eval Value}

theorem check_fits (fits : s.fits x = true) : check x alarm s = .ok () s := by
  have looked : check x alarm s =
      (if s.fits x = true then pure () else alarm : Eval Unit) s := rfl
  rw [looked, if_pos fits]
  rfl

theorem watching_fits (before : s.fits x = true)
    (after : (ending (e s)).fits x = true) : watching x alarm e s = e s := by
  unfold watching
  rw [bind_ok (check_fits before)]
  cases result : e s with
  | ok v t =>
    have fits : t.fits x = true := by rwa [result] at after
    rw [bind_ok (attempt_ok result), bind_ok (check_fits fits)]
    rfl
  | error signal t =>
    have fits : t.fits x = true := by rwa [result] at after
    rw [bind_ok (attempt_error result), bind_ok (check_fits fits)]
    rfl

theorem runs_watching {e' : Eval Value} (h : Runs (typed u inside) e e') :
    Runs (typed u inside) (watching u.name alarm e) e' := by
  intro s start
  obtain ⟨same, change, returns⟩ := h s start
  have unnoticed : watching u.name alarm e s = e s := watching_fits start.fits change.1.fits
  exact ⟨unnoticed.trans same, unnoticed ▸ change, unnoticed ▸ returns⟩

/-- What evaluates to a text is that text. -/
theorem eval_text {fuel : Nat} {v : Value}
    (result : eval fuel (.text name) s = .ok v t) : v = .text name := by
  cases fuel with
  | zero => cases result
  | succ fuel =>
    cases result
    rfl

/-- A variable that is used as its type demands fits at every node, and nobody is alarmed. -/
theorem runs_typed (alarm : Eval Unit) (fuel : Nat) {inside : Bool} (uses : node.UsesAs u inside) :
    Runs (typed u inside) (watched u.name alarm fuel node) (eval fuel node) := by
  induction fuel generalizing node inside with
  | zero => exact runs_outOfSteps
  | succ fuel ih =>
    apply runs_watching
    apply runs_evalNode fuel
    · exact fun p isPart => ih (uses.part isPart)
    · exact typed_calls fun n inBody => ih inBody
    · exact typed_ownEffect uses (fun n inside inNode => ih inNode) fun _ _ _ _ => eval_text

/-! ## Sequences of statements -/

/-- A variable that is used as its type demands fits after every statement; and as an alarm whenever
it does not fit before or after a node, inside of loops, handlers and calls too, changes nothing, it
fits there as well. -/
theorem outcomes_fit (u : Use) (statements : List Node) (fuel : Nat) (s : Session)
    (start : s.UsesAs u) (uses : ∀ n ∈ statements, n.UsesAs u false) :
    (∀ result ∈ outcomes (eval fuel) statements s, (ending result).fits u.name = true) ∧
      ∀ alarm, outcomes (watched u.name alarm fuel) statements s =
        outcomes (eval fuel) statements s := by
  induction statements generalizing s with
  | nil => exact ⟨fun _ isResult => (nomatch isResult), fun _ => rfl⟩
  | cons node rest ih =>
    have run := fun alarm => runs_typed alarm fuel (uses node (mem_cons_self ..)) s start
    have next : (ending (eval fuel node s)).UsesAs u := by
      rw [← (run (pure ())).same]
      exact (run (pure ())).change.1
    obtain ⟨fit, unnoticed⟩ := ih _ next fun n inRest => uses n (mem_cons_of_mem _ inRest)
    refine ⟨forall_mem_cons.2 ⟨next.fits, fit⟩, fun alarm => ?_⟩
    unfold outcomes
    rw [(run alarm).same, unnoticed alarm]

/-- A counter is declared, stepped in a loop, and refuses a text. -/
def countingUp : List Node :=
  [.assign "n" (.number (.int 1)) (some "Chyslo"),
    .whileLoop (.comparison (.var "n") .lt (.number (.int 3))) [.step .increment (.var "n")],
    .assign "n" (.text "four") none]

def counter : Use := ⟨"n", .counted, false⟩

theorem countingUp_usesAs : ∀ n ∈ countingUp, n.UsesAs counter false := by
  have simple : ∀ node : Node, node.Respects counter false → node.bodies = [] →
      (∀ p ∈ node.parts, p.UsesAs counter false) → node.UsesAs counter false := by
    intro node respects noBodies parts
    exact Node.usesAs_of_parts respects parts (by simp [noBodies])
  have reference : (Node.var "n").UsesAs counter false := simple _ trivial rfl (by simp [Node.parts])
  have number : ∀ n, (Node.number (.int n)).UsesAs counter false :=
    fun n => simple _ trivial rfl (by simp [Node.parts])
  have text : (Node.text "four").UsesAs counter false := simple _ trivial rfl (by simp [Node.parts])
  have declaration : (Node.assign "n" (.number (.int 1)) (some "Chyslo")).UsesAs counter false := by
    refine simple _ (fun _ type given => ?_) rfl (by simpa [Node.parts] using number 1)
    cases given
    exact ⟨rfl, rfl⟩
  have condition : (Node.comparison (.var "n") .lt (.number (.int 3))).UsesAs counter false :=
    simple _ trivial rfl (by simpa [Node.parts] using ⟨reference, number 3⟩)
  have step : (Node.step .increment (.var "n")).UsesAs counter false :=
    simple _ (fun _ => by decide) rfl (by simpa [Node.parts] using reference)
  have loop : (Node.whileLoop (.comparison (.var "n") .lt (.number (.int 3)))
      [.step .increment (.var "n")]).UsesAs counter false :=
    simple _ trivial rfl (by simpa [Node.parts] using ⟨condition, step⟩)
  have assignment : (Node.assign "n" (.text "four") none).UsesAs counter false := by
    refine simple _ (fun _ type given => ?_) rfl (by simpa [Node.parts] using text)
    cases given
  simpa [countingUp] using ⟨declaration, loop, assignment⟩

theorem outcomes_fit_countingUp :
    (∀ n ∈ countingUp, n.UsesAs counter false) ∧
      (∀ result ∈ outcomes (eval 9) countingUp {}, (ending result).fits "n" = true) ∧
      (outcomes (eval 9) countingUp {}).map (fun result => (ending result).env.get? "n") =
        [some (.int 1), some (.int 3), some (.int 3)] :=
  have start : Session.UsesAs {} counter :=
    Session.usesAs_of_fresh rfl rfl rfl fun importing => nomatch importing
  ⟨countingUp_usesAs, (outcomes_fit counter countingUp 9 {} start countingUp_usesAs).1, rfl⟩

/-- A truth value that is stepped turns into an integer. -/
theorem stepped_flag_unfit :
    (outcomes (eval 9) [.assign "b" (.boolean true) (some "Logika"), .step .increment (.var "b")]
      {}).map (fun result => (ending result).fits "b") = [true, false] :=
  rfl

/-- The other ways to bind a variable can raise the alarm: a loop over a list, a handler, a
parameter, a declaration in a body, and an import. -/
example :
    let declaration : Node := .assign "math" (.number (.int 1)) (some "Chyslo")
    let body : List Node := [.print [.var "math"]]
    let programs : List (List Node) :=
      [[declaration, .forEach "math" (.array [.text "a"]) body],
        [declaration, .tryCatch [.throw (.text "a")] [(some "math", body)] none],
        [declaration, .function { name := "f", parameters := ["math"], body },
          .call "f" (some [.text "a"])],
        [.assign "math" (.text "a") none,
          .function { name := "f", parameters := [], body := [declaration] }, .call "f" (some [])],
        [declaration, .importFile (.text "math")]]
    programs.all (fun program =>
      (outcomes (watched "math" (throw (.exited (.number 7))) 9) program {}).any fun result =>
        match result with
        | .error (.exited (.number 7)) _ => true
        | _ => false) = true :=
  rfl

end Eval

end Hetman
