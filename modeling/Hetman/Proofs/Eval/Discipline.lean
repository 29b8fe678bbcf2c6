import Hetman.Eval.Statement
import Hetman.Proofs.Heap

/-!
# Evaluation under a discipline

A discipline says in which sessions an evaluation may start, how it may change the session, and
whether it may end by a return. `Runs D x y`: the evaluation `x` keeps to the discipline, however it
ends, and `y` comes to the same result. The rules for `Runs` lift a discipline from the steps of an
evaluator to the evaluator.

Evaluations without parts are still (`Still`). Such an evaluation is silent if it leaves the
variables, the definitions, the place in the program, the files and the record of imports as they
are, lets objects grow older at most, and takes back nothing that was written. Silent evaluations
keep to every discipline.
-/

namespace Hetman

variable {σ ε : Type} {s' : σ}

/-- The object whose code runs in a session. -/
def Session.this? (s : Session) : Option Nat :=
  match s.env.get? "this" with
  | some (.object ref) => some ref
  | _ => none

/-- Who asks for members of objects in a session. -/
def Session.caller (s : Session) : Caller where
  object := s.this?
  function := s.function

/-- The signal leads neither to a caller nor to the end of the program. -/
def Signal.stops : Signal → Bool
  | .failed _ | .suspended _ => true
  | .returned _ | .exited _ => false

theorem Signal.of_asScript {signal other : Signal} (same : signal.asScript = other)
    (plain : ∀ fault, other ≠ .failed fault) : signal = other := by
  unfold asScript at same
  split at same
  · exact absurd same.symm (plain _)
  · exact same

def Session.exitedWith (s : Session) (code : ExitCode) : Session :=
  { s with exitCode := code }

/-- Nothing is taken back of a text, but more may be written. -/
def Continues (text longer : String) : Prop :=
  ∃ more, longer = text ++ more

@[refl] theorem Continues.refl (text : String) : Continues text text :=
  ⟨"", String.append_empty.symm⟩

theorem Continues.trans {a b c : String} (first : Continues a b) (second : Continues b c) :
    Continues a c := by
  obtain ⟨more, rfl⟩ := first
  obtain ⟨further, rfl⟩ := second
  exact ⟨more ++ further, String.append_assoc⟩

namespace Eval

variable {α β : Type}

/-! ## Results -/

theorem bind_ok {x : EStateM ε σ α} {f : α → EStateM ε σ β} {a : α} {s : σ} (h : x s = .ok a s') :
    (x >>= f) s = f a s' := by
  simp only [bind, EStateM.bind, h]

theorem bind_error {x : EStateM ε σ α} {f : α → EStateM ε σ β} {e : ε} {s : σ}
    (h : x s = .error e s') : (x >>= f) s = .error e s' := by
  simp only [bind, EStateM.bind, h]

theorem bind_eq {x y : EStateM ε σ α} {f : α → EStateM ε σ β} {s t : σ} (h : x s = y t) :
    (x >>= f) s = (y >>= f) t := by
  simp only [bind, EStateM.bind, h]

theorem attempt_apply (x : EStateM Signal σ α) (s : σ) :
    attempt x s =
      match x s with
      | .ok a s => .ok (.ok a) s
      | .error signal s => .ok (.error signal) s := by
  unfold attempt
  cases x s <;> rfl

theorem attempt_ok {x : EStateM Signal σ α} {a : α} {s t : σ} (h : x s = .ok a t) :
    attempt x s = .ok (.ok a) t := by
  rw [attempt_apply, h]

theorem attempt_error {x : EStateM Signal σ α} {signal : Signal} {s t : σ}
    (h : x s = .error signal t) : attempt x s = .ok (.error signal) t := by
  rw [attempt_apply, h]

theorem asScript_apply (x : EStateM Signal σ α) (s : σ) :
    asScript x s =
      match x s with
      | .ok a t => .ok a t
      | .error signal t => .error signal.asScript t := by
  unfold asScript
  cases result : x s with
  | ok a t =>
    rw [bind_ok (attempt_ok result)]
    rfl
  | error signal t =>
    rw [bind_ok (attempt_error result)]
    rfl

theorem lift_bind_apply (e : Except Fault α) (f : α → Eval β) (s : Session) :
    (lift e >>= f) s =
      match e with
      | .ok a => f a s
      | .error fault => .error (.failed fault) s := by
  cases e <;> rfl

theorem get_bind_apply (f : Session → Eval α) (s : Session) : (get >>= f) s = f s s :=
  rfl

def ending : EStateM.Result Signal Session α → Session
  | .ok _ s => s
  | .error _ s => s

/-- How a run ended, without its session. -/
def outcomeOf {α : Type} : EStateM.Result Signal Session α → Except Signal α
  | .ok a _ => .ok a
  | .error signal _ => .error signal

theorem attempt_bind_apply (x : Eval α) (f : Except Signal α → Eval β) (s : Session) :
    (attempt x >>= f) s = f (outcomeOf (x s)) (ending (x s)) := by
  cases result : x s with
  | ok a t => exact bind_ok (attempt_ok result)
  | error signal t => exact bind_ok (attempt_error result)

/-- One evaluation after another, as an attempt that passes signals on. -/
theorem bind_eq_attempt (x : Eval α) (f : α → Eval β) :
    x >>= f = attempt x >>= fun outcome => match outcome with
      | .ok a => f a
      | .error signal => throw signal := by
  funext s
  rw [attempt_bind_apply]
  cases result : x s with
  | ok a t => exact bind_ok result
  | error signal t => exact bind_error result

def exitedWith (code : ExitCode) :
    EStateM.Result Signal Session α → EStateM.Result Signal Session α
  | .ok a s => .ok a (s.exitedWith code)
  | .error signal s => .error signal (s.exitedWith code)

/-! ## Still evaluations -/

/-- How evaluations may change the session, one after the other. -/
structure Change where
  holds : Session → Session → Prop
  refl : ∀ s, holds s s
  trans : ∀ {s t u}, holds s t → holds t u → holds s u

/-- An evaluation that neither returns nor exits, changes the session in a given way, and does not
see the code of the last exit. -/
structure Still (C : Change) (x : Eval α) : Prop where
  stops : ∀ s signal t, x s = .error signal t → signal.stops = true
  change : ∀ s, C.holds s (ending (x s))
  blind : ∀ (s : Session) code, x (s.exitedWith code) = exitedWith code (x s)

variable {C : Change} {x y : Eval α} {f g : α → Eval β}

namespace Still

theorem pure (a : α) : Still C (pure a) where
  stops _ _ _ ended := nomatch ended
  change := C.refl
  blind _ _ := rfl

/-- What is done with the session, apart from the code of the last exit. -/
theorem get {f : Session → Eval α} (h : ∀ s, Still C (f s))
    (blind : ∀ (s : Session) code, f (s.exitedWith code) = f s) : Still C (get >>= f) where
  stops s := (h s).stops s
  change s := (h s).change s
  blind s code := (congrFun (blind s code) _).trans ((h s).blind s code)

theorem modifyGet (f : Session → α × Session) (change : ∀ s, C.holds s (f s).2)
    (blind : ∀ (s : Session) code, f (s.exitedWith code) = ((f s).1, (f s).2.exitedWith code)) :
    Still C (modifyGet f) where
  stops _ _ _ ended := nomatch ended
  change := change
  blind s code := by
    show EStateM.Result.ok (f (s.exitedWith code)).1 (f (s.exitedWith code)).2 = _
    rw [blind]
    rfl

theorem modify (f : Session → Session) (change : ∀ s, C.holds s (f s))
    (blind : ∀ (s : Session) code, f (s.exitedWith code) = (f s).exitedWith code) :
    Still C (modify f) :=
  modifyGet (fun s => ((), f s)) change fun s code => congrArg (Prod.mk ()) (blind s code)

theorem throw {signal : Signal} (stops : signal.stops = true) :
    Still C (throw signal : Eval α) where
  stops s other t ended := by
    cases ended
    exact stops
  change := C.refl
  blind _ _ := rfl

theorem bind (first : Still C x) (second : ∀ a, Still C (f a)) : Still C (x >>= f) where
  stops s signal t ended := by
    cases result : x s with
    | ok a s' =>
      rw [bind_ok result] at ended
      exact (second a).stops s' signal t ended
    | error other s' =>
      rw [bind_error result] at ended
      cases ended
      exact first.stops s signal t result
  change s := by
    have changed := first.change s
    cases result : x s with
    | ok a s' =>
      rw [result] at changed
      rw [bind_ok result]
      exact C.trans changed ((second a).change s')
    | error signal s' =>
      rw [result] at changed
      rw [bind_error result]
      exact changed
  blind s code := by
    have same := first.blind s code
    cases result : x s with
    | ok a s' =>
      rw [result] at same
      rw [bind_ok result, bind_ok same]
      exact (second a).blind s' code
    | error signal s' =>
      rw [result] at same
      rw [bind_error result, bind_error same]
      rfl

/-- An evaluation of which it is known what it comes to in every session. -/
theorem of_run {run : Session → EStateM.Result Signal Session α} (same : ∀ s, x s = run s)
    (stops : ∀ s signal t, run s = .error signal t → signal.stops = true)
    (change : ∀ s, C.holds s (ending (run s)))
    (blind : ∀ (s : Session) code, run (s.exitedWith code) = exitedWith code (run s)) :
    Still C x := by
  rw [funext same]
  exact ⟨stops, change, blind⟩

end Still

/-! ## Disciplines -/

/-- Variables, definitions, place, files and imports are the same, objects are older, and more may
be written. -/
structure Quiet (s t : Session) : Prop where
  heap : s.heap.Ages t.heap
  output : Continues s.output t.output
  env : t.env = s.env
  types : t.types = s.types
  functions : t.functions = s.functions
  classes : t.classes = s.classes
  function : t.function = s.function
  folder : t.folder = s.folder
  files : t.files = s.files
  imported : t.imported = s.imported
  strict : t.strict = s.strict
  dialect : t.dialect = s.dialect

theorem Quiet.refl (s : Session) : Quiet s s := by
  constructor <;> rfl

theorem Quiet.trans {s t u : Session} (first : Quiet s t) (second : Quiet t u) : Quiet s u where
  heap := first.heap.trans second.heap
  output := first.output.trans second.output
  env := second.env.trans first.env
  types := second.types.trans first.types
  functions := second.functions.trans first.functions
  classes := second.classes.trans first.classes
  function := second.function.trans first.function
  folder := second.folder.trans first.folder
  files := second.files.trans first.files
  imported := second.imported.trans first.imported
  strict := second.strict.trans first.strict
  dialect := second.dialect.trans first.dialect

/-- What an evaluation may do to the session. -/
structure Discipline where
  /-- The sessions in which an evaluation may start. -/
  start : Session → Prop
  /-- How it may change the session. -/
  change : Session → Session → Prop
  /-- Whether it may end by a return. -/
  returns : Prop
  quiet : ∀ {s t}, start s → Quiet s t → change s t
  trans : ∀ {s t u}, change s t → change t u → change s u
  keeps : ∀ {s t}, start s → change s t → start t

/-- From a session, an evaluation keeps to a discipline and has the result of another one. -/
structure RunsAt (D : Discipline) (x y : Eval α) (s : Session) : Prop where
  same : x s = y s
  change : D.change s (ending (x s))
  returns : ∀ v t, x s = .error (.returned v) t → D.returns

/-- An evaluation that keeps to a discipline, and one with the same result. -/
def Runs (D : Discipline) (x y : Eval α) : Prop :=
  ∀ s, D.start s → RunsAt D x y s

/-- Nothing is changed that a program can name. -/
def quietly : Change :=
  ⟨Quiet, Quiet.refl, Quiet.trans⟩

/-- An evaluation that changes nothing a program can name, and does not return. -/
abbrev Silent (x : Eval α) : Prop :=
  Still quietly x

variable {D : Discipline}

theorem Still.runs (h : Silent x) : Runs D x x := by
  intro s start
  refine ⟨rfl, D.quiet start (h.change s), fun v t result => ?_⟩
  cases h.stops s _ t result

/-! ## Rules -/

/-- What is done next may rely on the session that the first evaluation leaves. -/
theorem RunsAt.bindAt {s : Session} (first : RunsAt D x y s)
    (second : ∀ a t, x s = .ok a t → RunsAt D (f a) (g a) t) : RunsAt D (x >>= f) (y >>= g) s := by
  obtain ⟨same, change, returns⟩ := first
  cases result : x s with
  | ok a t =>
    rw [result] at same change
    have run := second a t result
    refine ⟨?_, ?_, ?_⟩
    · rw [bind_ok result, bind_ok same.symm]
      exact run.same
    · rw [bind_ok result]
      exact D.trans change run.change
    · rw [bind_ok result]
      exact run.returns
  | error signal t =>
    rw [result] at same change
    refine ⟨?_, ?_, ?_⟩
    · rw [bind_error result, bind_error same.symm]
    · rw [bind_error result]
      exact change
    · rw [bind_error result]
      intro v u ended
      cases ended
      exact returns v t result

theorem RunsAt.congr {z : Eval α} {s : Session} (run : RunsAt D x y s) (same : z s = x s) :
    RunsAt D z y s :=
  ⟨same.trans run.same, same ▸ run.change, same ▸ run.returns⟩

theorem RunsAt.start {s t : Session} {a : α} (run : RunsAt D x y s) (start : D.start s)
    (result : x s = .ok a t) : D.start t := by
  have change := run.change
  rw [result] at change
  exact D.keeps start change

theorem RunsAt.bind {s : Session} (first : RunsAt D x y s) (start : D.start s)
    (second : ∀ a, Runs D (f a) (g a)) : RunsAt D (x >>= f) (y >>= g) s :=
  first.bindAt fun a t result => second a t (first.start start result)

theorem RunsAt.attempt {s : Session} (run : RunsAt D x y s) :
    RunsAt D (attempt x) (attempt y) s := by
  refine ⟨?_, ?_, fun v t result => ?_⟩
  · rw [attempt_apply, attempt_apply, run.same]
  · have change := run.change
    rw [attempt_apply]
    cases result : x s with
    | ok a t | error signal t =>
      rw [result] at change
      exact change
  · rw [attempt_apply] at result
    split at result <;> cases result

namespace Runs

theorem pure (a : α) : Runs D (pure a) (pure a) := by
  intro s start
  exact ⟨rfl, D.quiet start (.refl s), fun v t result => nomatch result⟩

theorem throw (signal : Signal) (allowed : ∀ v, signal = .returned v → D.returns) :
    Runs D (throw signal : Eval α) (throw signal) := by
  intro s start
  refine ⟨rfl, D.quiet start (.refl s), fun v t result => allowed v ?_⟩
  cases result
  rfl

theorem bind (first : Runs D x y) (second : ∀ a, Runs D (f a) (g a)) : Runs D (x >>= f) (y >>= g) :=
  fun s start => (first s start).bind start second

/-- What is done with the session may rely on where it comes from. -/
theorem getAt {f g : Session → Eval α} (h : ∀ s, D.start s → RunsAt D (f s) (g s) s) :
    Runs D (get >>= f) (get >>= g) :=
  fun s start => ⟨(h s start).same, (h s start).change, (h s start).returns⟩

theorem get {f g : Session → Eval α} (h : ∀ s, D.start s → Runs D (f s) (g s)) :
    Runs D (get >>= f) (get >>= g) :=
  getAt fun s start => h s start s start

theorem modifyGet {f : Session → α × Session} (h : ∀ s, D.start s → D.change s (f s).2) :
    Runs D (modifyGet f) (modifyGet f) := by
  intro s start
  exact ⟨rfl, h s start, fun v t result => nomatch result⟩

theorem modify {f : Session → Session} (h : ∀ s, D.start s → D.change s (f s)) :
    Runs D (modify f) (modify f) :=
  modifyGet h

/-- What follows an attempt may rely on the attempt. -/
theorem attempt {f g : Except Signal α → Eval β} (first : Runs D x y)
    (second : ∀ outcome, (∀ v, outcome = .error (.returned v) → D.returns) →
      Runs D (f outcome) (g outcome)) : Runs D (attempt x >>= f) (attempt y >>= g) := by
  intro s start
  have run := first s start
  refine run.attempt.bindAt fun outcome t tried => ?_
  refine second outcome (fun v ended => ?_) t (run.attempt.start start tried)
  subst ended
  cases result : x s with
  | ok a u =>
    rw [attempt_ok result] at tried
    cases tried
  | error signal u =>
    rw [attempt_error result] at tried
    cases tried
    exact run.returns v t result

theorem conclude {outcome : Except Signal α}
    (allowed : ∀ v, outcome = .error (.returned v) → D.returns) :
    Runs D (conclude outcome) (conclude outcome) := by
  cases outcome with
  | ok a => exact .pure a
  | error signal => exact .throw signal fun v ended => allowed v (congrArg _ ended)

end Runs

/-! ## Sequences of statements -/

/-- The results of statements one after the other, however each ends. -/
def outcomes (ev : Node → Eval Value) :
    List Node → Session → List (EStateM.Result Signal Session Value)
  | [], _ => []
  | node :: rest, s => ev node s :: outcomes ev rest (ending (ev node s))

/-- Statements that keep to a discipline one by one keep to it in sequence. -/
theorem outcomes_of_runs {ev ev' : Node → Eval Value} (h : ∀ n, Runs D (ev n) (ev' n))
    (statements : List Node) {s : Session} (start : D.start s) :
    outcomes ev statements s = outcomes ev' statements s ∧
      (s :: (outcomes ev' statements s).map ending).Pairwise D.change := by
  induction statements generalizing s with
  | nil => exact ⟨rfl, List.pairwise_singleton ..⟩
  | cons node rest ih =>
    obtain ⟨same, change, _⟩ := h node s start
    rw [same] at change
    obtain ⟨sameRest, changes⟩ := ih (D.keeps start change)
    refine ⟨?_, List.pairwise_cons.2 ⟨List.forall_mem_cons.2 ⟨change, ?_⟩, changes⟩⟩
    · unfold outcomes
      rw [same, sameRest]
    · intro t isLater
      exact D.trans change ((List.pairwise_cons.1 changes).1 t isLater)

/-! ## Silent evaluations -/

theorem still_fail (fault : Fault) : Still C (fail fault : Eval α) :=
  .throw rfl

theorem still_reject (cause : ScriptFault) : Still C (reject cause : Eval α) :=
  still_fail _

theorem still_lift (result : Except Fault α) : Still C (lift result) := by
  cases result with
  | ok a => exact .pure a
  | error fault => exact still_fail fault

/-- What is done with a result may rely on how it came about. -/
theorem quiet_heap {s : Session} {heap : Heap} (ages : s.heap.Ages heap) :
    Quiet s { s with heap } := by
  constructor
  · exact ages
  all_goals rfl

theorem silent_heap {f : Heap → Heap} (ages : ∀ h : Heap, h.Ages (f h)) :
    Silent (modify fun s => { s with heap := f s.heap }) :=
  .modify _ (fun s => quiet_heap (ages s.heap)) fun _ _ => rfl

theorem still_fromHeap (f : Heap → α) : Still C (fromHeap f) :=
  .get (fun _ => .pure _) fun _ _ => rfl

theorem still_onHeap (f : Heap → Except Fault α) : Still C (onHeap f) :=
  .get (fun _ => still_lift _) fun _ _ => rfl

theorem updateHeap_apply (f : Heap → Except Fault (Value × Heap)) (s : Session) :
    updateHeap f s =
      match f s.heap with
      | .ok (value, heap) => .ok value { s with heap }
      | .error fault => .error (.failed fault) s := by
  have started : updateHeap f s = (lift (f s.heap) >>= fun result => do
      modify fun s => { s with heap := result.2 }
      return result.1) s := rfl
  rw [started]
  cases f s.heap with
  | ok result | error fault => rfl

/-- A change of the heap that leaves the objects alone. -/
theorem silent_updateHeap {f : Heap → Except Fault (Value × Heap)}
    (spares : ∀ h : Heap, h.Spares (·.2) (f h)) : Silent (updateHeap f) := by
  refine .of_run (updateHeap_apply f) (fun s signal t ended => ?_) (fun s => ?_) fun s code => ?_
  · split at ended
    · cases ended
    · cases ended
      rfl
  · cases result : f s.heap with
    | ok made => exact quiet_heap (Heap.ages_of_objects (spares s.heap made result))
    | error fault => exact .refl s
  · have given : (s.exitedWith code).heap = s.heap := rfl
    rw [given]
    cases f s.heap <;> rfl

theorem silent_assignEntry (ref : Nat) (key value : Value) : Silent (assignEntry ref key value) :=
  silent_updateHeap fun _ => Heap.spares_bind fun _ written =>
    Heap.spares_ok (Heap.spares_setEntry _ _ _ _ written)

theorem silent_assignElement (ref : Nat) (index value : Value) :
    Silent (assignElement ref index value) :=
  silent_updateHeap fun _ => Heap.spares_bind fun _ written =>
    Heap.spares_ok (Heap.spares_setElement _ _ _ _ written)

theorem silent_freshIdent : Silent freshIdent :=
  .modifyGet _ (fun _ => quiet_heap (Heap.ages_of_objects rfl)) fun _ _ => rfl

theorem still_mapM (h : ∀ a, Still C (f a)) (items : List α) :
    Still C (items.mapM f) := by
  induction items with
  | nil =>
    exact .pure _
  | cons first rest ih =>
    rw [List.mapM_cons]
    exact (h first).bind fun _ => ih.bind fun _ => .pure _

theorem silent_settle (v : Value) : Silent (settle v) := by
  unfold settle
  split
  · split
    · exact silent_freshIdent.bind fun _ => .pure _
    · exact .pure _
  · refine (still_mapM (fun item => ?_) _).bind fun _ => .pure _
    unfold settle.settleItem
    split
    · split
      · exact silent_freshIdent.bind fun _ => .pure _
      · exact .pure _
    · exact .pure _
  · exact .pure _

theorem silent_newList (items : List Value) : Silent (newList items) :=
  silent_updateHeap fun _ => Heap.spares_ok rfl

theorem still_truthy (v : Value) : Still C (truthy v) :=
  still_fromHeap _

theorem still_display (v : Value) : Still C (display v) :=
  still_onHeap _

theorem silent_write (text : String) : Silent (write text) := by
  refine .modify _ (fun s => ?_) fun _ _ => rfl
  constructor
  case output => exact ⟨text, rfl⟩
  all_goals rfl

theorem silent_readLine : Silent readLine := by
  have run : ∀ s : Session, readLine s =
      if s.input.isEmpty then
        if s.inputOpen then .error (.suspended .input) s else .error (.failed .endOfInput) s
      else
        let line := s.input.takeWhile (· ≠ '\n')
        .ok (String.ofList line) { s with input := s.input.drop (line.length + 1) } := by
    intro s
    unfold readLine
    rw [get_bind_apply]
    cases s.input.isEmpty with
    | true => cases s.inputOpen <;> rfl
    | false => rfl
  refine .of_run run (fun s signal t ended => ?_) (fun s => ?_) fun s code => ?_
  · split at ended
    · split at ended <;> cases ended <;> rfl
    · cases ended
  · split
    · split <;> exact Quiet.refl s
    · show Quiet s _
      constructor <;> rfl
  · have given : (s.exitedWith code).input = s.input := rfl
    have opened : (s.exitedWith code).inputOpen = s.inputOpen := rfl
    rw [given, opened]
    cases s.input.isEmpty with
    | true => cases s.inputOpen <;> rfl
    | false => rfl

theorem this?_apply (s : Session) : this? s = .ok s.this? s := by
  have started : this? s = (match s.env.get? "this" with
      | some (.object ref) => pure (some ref)
      | _ => pure none : Eval (Option Nat)) s := rfl
  rw [started]
  unfold Session.this?
  cases s.env.get? "this" with
  | none => rfl
  | some value => cases value <;> rfl

theorem caller_apply (s : Session) : caller s = .ok s.caller s := by
  unfold caller
  rw [bind_ok (this?_apply s)]
  rfl

theorem still_binding? (name : String) : Still C (binding? name) :=
  .get (fun _ => .pure _) fun _ _ => rfl

theorem still_this? : Still C this? := by
  refine (still_binding? _).bind fun bound => ?_
  split
  · exact .pure _
  · exact .pure _

theorem still_caller : Still C caller :=
  still_this?.bind fun _ => .get (fun _ => .pure _) fun _ _ => rfl

/-! ### Calls -/

theorem still_countArguments (arguments : Option (List Node)) :
    Still C (countArguments arguments) := by
  cases arguments with
  | none => exact still_fail _
  | some nodes => exact .pure _

theorem silent_callLibrary (lib : Library) (member : Value) (args : List Value) :
    Silent (callLibrary lib member args) := by
  unfold callLibrary
  split
  · exact (still_onHeap _).bind fun result => silent_settle result
  · exact still_fail _

theorem still_libraryIdent (lib : Library) : Still C (libraryIdent lib) :=
  .get (fun _ => .pure _) fun _ _ => rfl

theorem still_namedMember? (name : String) : Still C (namedMember? name) := by
  unfold namedMember?
  split
  · exact .pure _
  · split
    · exact .pure _
    · exact (still_libraryIdent _).bind fun _ => .pure _

theorem destroy_apply (ev : Node → Eval Value) (ref : Nat) (s : Session) :
    destroy ev ref s =
      if (s.heap.object ref).destroyed then .ok () s
      else
        match (s.classes.info (s.heap.object ref).classId).destructor with
        | none => .ok () { s with heap := Object.markDestroyed s.heap ref }
        | some body =>
          match runBody ev body [("this", .object ref)] "Destructor" s with
          | .ok _ t => .ok () { t with heap := Object.markDestroyed t.heap ref }
          | .error signal t => .error signal { t with heap := Object.markDestroyed t.heap ref } := by
  unfold destroy
  rw [get_bind_apply]
  cases (s.heap.object ref).destroyed with
  | true => rfl
  | false =>
    rw [if_neg (by decide)]
    cases (s.classes.info (s.heap.object ref).classId).destructor with
    | none => rfl
    | some body =>
      dsimp only
      cases result : runBody ev body [("this", .object ref)] "Destructor" s with
      | ok value t =>
        rw [bind_ok (attempt_ok result)]
        rfl
      | error signal t =>
        rw [bind_ok (attempt_error result)]
        rfl

theorem still_checkMethodAccess (ref : Nat) (method : String) :
    Still C (checkMethodAccess ref method) := by
  refine .get (fun s => still_this?.bind fun calling => ?_) fun _ _ => rfl
  split
  · split
    · exact .pure _
    · exact still_reject _
  · cases calling with
    | none => exact still_reject _
    | some other =>
      dsimp only
      split
      · exact .pure _
      · exact still_reject _
  · exact .pure _

theorem still_readFile (path : Value) : Still C (readFile path) := by
  unfold readFile
  split
  · refine .get (fun s => ?_) fun _ _ => rfl
    split
    · exact still_reject _
    · exact still_fail _
    · split
      · exact .pure _
      · exact still_fail _
  · exact still_reject _

theorem silent_randomInt (low high : Value) : Silent (randomInt low high) := by
  unfold randomInt
  split
  · split
    · exact still_fail _
    · refine .modifyGet _ (fun s => ?_) fun _ _ => rfl
      constructor <;> rfl
  · exact still_reject _

/-! ### Variables, fields and output -/

theorem still_evalVariable (name : String) : Still C (evalVariable name) := by
  refine .get (fun s => ?_) fun _ _ => rfl
  split
  · exact .pure _
  · split
    · exact .pure _
    · exact still_reject _

theorem evalVariable_bound {name : String} {value : Value} {s : Session}
    (bound : s.env.get? name = some value) : evalVariable name s = .ok value s := by
  unfold evalVariable
  rw [get_bind_apply, bound]
  rfl

theorem setField_apply (ref : Nat) (name : String) (value : Value) (s : Session) :
    setField ref name value s =
      match Object.set s.classes s.heap ref name value s.caller with
      | .ok heap => .ok value { s with heap }
      | .error cause => .error (.failed (.script (.object cause))) s := by
  have started : setField ref name value s = (caller >>= fun asking =>
      match Object.set s.classes s.heap ref name value asking with
      | .ok heap => do
        modify fun s => { s with heap }
        return value
      | .error cause => reject (.object cause)) s := rfl
  rw [started, bind_ok (caller_apply s)]
  cases Object.set s.classes s.heap ref name value s.caller with
  | ok heap | error cause => rfl

theorem silent_setField (ref : Nat) (name : String) (value : Value) :
    Silent (setField ref name value) := by
  refine .of_run (setField_apply ref name value) (fun s signal t ended => ?_) (fun s => ?_)
    fun s code => ?_
  · split at ended
    · cases ended
    · cases ended
      rfl
  · cases result : Object.set s.classes s.heap ref name value s.caller with
    | ok heap => exact quiet_heap (Object.ages_set result)
    | error cause => exact .refl s
  · have given : Object.set (s.exitedWith code).classes (s.exitedWith code).heap ref name value
        (s.exitedWith code).caller = Object.set s.classes s.heap ref name value s.caller := rfl
    rw [given]
    cases Object.set s.classes s.heap ref name value s.caller <;> rfl

theorem still_printText (value : Value) : Still C (printText value) := by
  unfold printText
  split
  · exact .pure _
  · exact still_display _

theorem silent_printItems (values : List Value) : Silent (printItems values) := by
  fun_induction printItems values with
  | case1 => exact .pure _
  | case2 last => exact (still_printText last).bind fun _ => silent_write _
  | case3 value rest _ ih =>
    refine (still_printText value).bind fun text => (silent_write text).bind fun _ => ?_
    exact (silent_write " ").bind fun _ => ih

end Eval

end Hetman
