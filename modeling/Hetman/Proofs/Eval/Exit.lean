import Hetman.Proofs.Eval.Composed
import Hetman.Report

/-!
# What runs after an exit

To say what still runs on the way of an exit, `leaving` evaluates a program with exits made visible:
an exit that no handler takes either stops the evaluation where it is, or goes on with the last
parts on its way replaced by given evaluations. With the last parts themselves it is the evaluation
(`leaving_eval`).

`Leaves` relates the two: the evaluation comes to no such exit, or it comes to one in some session,
and from there on only has turns: a frame is left, or a last part is run. For a run this is
`exit_ends_run`.
-/

namespace Hetman.Eval

variable {α β : Type}

variable {node : Node} {s : Session}

/-! ## Evaluation with exits made visible -/

/-- What is made of an exit that no handler takes. -/
inductive Leaving where
  /-- The evaluation stops where it is. -/
  | halting (cause : Suspension)
  /-- The exit goes on, and the last parts on its way are run in a given way. -/
  | through (last : Nat → List Node → Eval Unit)

namespace Leaving

def signal : Leaving → ExitCode → Signal
  | .halting cause, _ => .suspended cause
  | .through _, code => .exited code

/-- The last part of a block that an exit has left. -/
def last : Leaving → Nat → List Node → Eval Unit
  | .halting _, _, _ => return
  | .through last, fuel, nodes => last fuel nodes

end Leaving

def codeFor (ev : Node → Eval Value) (code : Node) : Eval ExitCode :=
  match code with
  | .missing => return .number 0
  | code => do lift (exitCodeOf (← ev code))

/-- An exit by a signal that its code is made into. -/
def exitWith (signal : ExitCode → Signal) (ev : Node → Eval Value) (code : Node) :
    Eval Value := do
  let code ← codeFor ev code
  modify fun s => { s with exitCode := code }
  throw (signal code)

/-- A block with its handlers, which may be evaluated in different ways. -/
def handled (inner ev : Node → Eval Value) (last : Eval Unit) (body : List Node)
    (catches : List (Option String × List Node)) : Eval Unit := do
  match ← attempt (runBlock inner body) with
  | .ok () => return
  | .error (.returned value) =>
    last
    throw (.returned value)
  | .error signal => handle ev last catches signal

/-- Runs the last part after a block, in its own way if the block exits. -/
def lastly (away last block : Eval Unit) : Eval Unit := do
  match ← attempt block with
  | .error (.suspended cause) => throw (.suspended cause)
  | .error (.exited code) =>
    away
    throw (.exited code)
  | outcome =>
    last
    conclude outcome

/-- Evaluation with something made of the exits that no handler takes; blocks with handlers have
none. -/
def leaving (l : Leaving) : (fuel : Nat) → Node → Eval Value
  | 0, _ => throw (.suspended .steps)
  | fuel + 1, .exit code => exitWith l.signal (leaving l fuel) code
  | fuel + 1, .tryCatch body catches final => do
    let inner := if catches.isEmpty then leaving l fuel else eval fuel
    let last := runBlock (leaving l fuel) (final.getD [])
    lastly (l.last fuel (final.getD [])) last (handled inner (leaving l fuel) last body catches)
    return .none
  | fuel + 1, node => evalNode fuel (leaving l fuel) node

theorem evalExit_eq (ev : Node → Eval Value) (code : Node) :
    evalExit ev code = exitWith .exited ev code := by
  unfold evalExit exitWith codeFor
  split
  · rfl
  · simp only [bind_assoc]

theorem Compositional.codeFor {ι : Type} {R : (α : Type) → (ι → Eval α) → Prop}
    (comp : Compositional R) {ev : ι → Node → Eval Value}
    (parts : ∀ node, R Value fun i => ev i node) (code : Node) :
    R ExitCode fun i => Eval.codeFor (ev i) code := by
  have usual : R ExitCode fun i => ev i code >>= fun value => lift (exitCodeOf value) :=
    comp.bind (parts code) fun value => comp.leaf (still_lift _)
  cases code with
  | missing => exact comp.leaf (.pure _)
  | _ => exact usual

theorem lastly_self (last block : Eval Unit) : lastly last last block = afterwards last block := by
  funext s
  unfold lastly afterwards
  cases result : block s with
  | ok u t => rw [bind_ok (attempt_ok result), bind_ok (attempt_ok result)]
  | error signal t =>
    rw [bind_ok (attempt_error result), bind_ok (attempt_error result)]
    cases signal <;> rfl

theorem leaving_plain (l : Leaving) (fuel : Nat) (plain : node.guards = false) :
    leaving l (fuel + 1) node = evalNode fuel (leaving l fuel) node := by
  cases node with
  | exit code | tryCatch body catches final => cases plain
  | _ => rfl

/-- The last parts as they are evaluated. -/
def lastPart (fuel : Nat) (nodes : List Node) : Eval Unit :=
  runBlock (eval fuel) nodes

/-- With the last parts themselves, exits are what they are. -/
theorem leaving_eval (fuel : Nat) (node : Node) :
    leaving (.through lastPart) fuel node = eval fuel node := by
  induction fuel generalizing node with
  | zero => rfl
  | succ fuel ih =>
    have same : leaving (.through lastPart) fuel = eval fuel := funext ih
    by_cases plain : node.guards = false
    · rw [leaving_plain _ fuel plain, same]
      rfl
    · cases node with
      | exit code =>
        rw [leaving, same]
        exact (evalExit_eq (eval fuel) code).symm
      | tryCatch body catches final =>
        rw [leaving, same, ite_self]
        exact congrArg (· >>= fun _ => pure Value.none) (lastly_self ..)
      | _ => exact absurd rfl plain

/-! ## The way out -/

/-- What has its turn when an exit passes. -/
inductive Turn where
  | leave (frame : Frame)
  | last (fuel : Nat) (nodes : List Node)

def Turn.skip (s : Session) : Turn → Session
  | .leave frame => frame.leave s
  | .last _ _ => s

/-- A turn, unless it comes to an end of its own. -/
def Turn.take (last : Nat → List Node → Eval Unit) (s : Session) : Turn → Option Session
  | .leave frame => some (frame.leave s)
  | .last fuel nodes =>
    match last fuel nodes s with
    | .ok _ t => some t
    | .error _ _ => none

def skipAll (turns : List Turn) (s : Session) : Session :=
  turns.foldl Turn.skip s

def takeAll (last : Nat → List Node → Eval Unit) (turns : List Turn) (s : Session) :
    Option Session :=
  turns.foldlM (Turn.take last) s

/-- A last part on the way out ends by a signal of its own. -/
def Displaced (turns : List Turn) (p : Session) : Prop :=
  ∃ before fuel nodes after t signal u, turns = before ++ .last fuel nodes :: after ∧
    takeAll lastPart before p = some t ∧ lastPart fuel nodes t = .error signal u

theorem takeAll_cons {last : Nat → List Node → Eval Unit} {turn : Turn} {t : Session}
    (h : turn.take last s = some t) (rest : List Turn) :
    takeAll last (turn :: rest) s = takeAll last rest t := by
  simp only [takeAll, List.foldlM_cons, h, Option.bind_eq_bind, Option.bind_some]

theorem takeAll_or_displaced (turns : List Turn) (p : Session) :
    (∃ u, takeAll lastPart turns p = some u) ∨ Displaced turns p := by
  induction turns generalizing p with
  | nil => exact .inl ⟨p, rfl⟩
  | cons turn rest ih =>
    cases taken : turn.take lastPart p with
    | some t =>
      rcases ih t with ⟨u, ended⟩ | ⟨before, fuel, nodes, after, t', signal, u, rfl, way, ended⟩
      · exact .inl ⟨u, (takeAll_cons taken rest).trans ended⟩
      · have further := (takeAll_cons taken before).trans way
        exact .inr ⟨turn :: before, fuel, nodes, after, t', signal, u, rfl, further, ended⟩
    | none =>
      cases turn with
      | leave frame => cases taken
      | last fuel nodes =>
        cases result : lastPart fuel nodes p with
        | ok v t =>
          simp only [Turn.take, result] at taken
          cases taken
        | error signal u => exact .inr ⟨[], fuel, nodes, rest, p, signal, u, rfl, rfl, result⟩

theorem skipAll_exitCode (turns : List Turn) (s : Session) :
    (skipAll turns s).exitCode = s.exitCode := by
  induction turns generalizing s with
  | nil => rfl
  | cons turn rest ih =>
    cases turn with
    | leave frame => exact (ih _).trans (frame.leave_same s).2.1
    | last fuel nodes => exact ih s

/-! ## Leaving by an exit -/

/-- Evaluations that come to no exit: they have a result in common. -/
structure Stays (r : EStateM.Result Signal Session α)
    (result : Leaving → EStateM.Result Signal Session α) : Prop where
  same : ∀ l, result l = r
  no_exit : ∀ code t, r ≠ .error (.exited code) t

/-- Evaluations that come to an exit: they stop there, or have the turns that are left. -/
structure ExitsAt (p : Session) (turns : List Turn)
    (result : Leaving → EStateM.Result Signal Session α) : Prop where
  halts : ∀ cause, result (.halting cause) = .error (.suspended cause) (skipAll turns p)
  leaves : ∀ last u, takeAll last turns p = some u →
    result (.through last) = .error (.exited p.exitCode) u

/-- The results of evaluations that may come to an exit. -/
def LeavesAt (result : Leaving → EStateM.Result Signal Session α) : Prop :=
  (∃ r, Stays r result) ∨ ∃ p turns, ExitsAt p turns result

/-- Evaluations that do not differ but by what is made of exits. -/
def Leaves (x : Leaving → Eval α) : Prop :=
  ∀ s, LeavesAt fun l => x l s

theorem LeavesAt.congr {result result' : Leaving → EStateM.Result Signal Session α}
    (h : LeavesAt result') (same : ∀ l, result l = result' l) : LeavesAt result := by
  rwa [funext same]

variable {x : Leaving → Eval α} {f : Leaving → Except Signal α → Eval β}

namespace Leaves

theorem fixed {x : Eval α} (h : ∀ s code t, x s ≠ .error (.exited code) t) :
    Leaves fun _ => x :=
  fun s => .inl ⟨x s, fun _ => rfl, h s⟩

theorem leaf {x : Eval α} (h : Leaf x) : Leaves fun _ => x := by
  refine fixed fun s code t ended => ?_
  cases h.stops s _ t ended

theorem throw {signal : Signal} (h : ∀ code, signal ≠ .exited code) :
    Leaves fun _ => (throw signal : Eval α) := by
  refine fixed fun s code t ended => ?_
  cases ended
  exact h code rfl

theorem conclude {outcome : Except Signal α} (h : ∀ code, outcome ≠ .error (.exited code)) :
    Leaves fun _ => conclude outcome := by
  cases outcome with
  | ok a => exact leaf (.pure a)
  | error signal => exact throw fun code ended => h code (congrArg _ ended)

theorem bind {f : Leaving → α → Eval β} (first : Leaves x) (second : ∀ a, Leaves fun l => f l a) :
    Leaves fun l => x l >>= f l := by
  intro s
  rcases first s with ⟨r, same, no_exit⟩ | ⟨p, turns, halts, leaves⟩
  · cases r with
    | ok a t => exact (second a t).congr fun l => bind_ok (same l)
    | error signal t =>
      refine .inl ⟨.error signal t, fun l => bind_error (same l), fun code u ended => ?_⟩
      cases ended
      exact no_exit code t rfl
  · refine .inr ⟨p, turns, fun cause => bind_error (halts cause), fun last u taken => ?_⟩
    exact bind_error (leaves last u taken)

/-- What is done after an attempt: it lets exits pass, and has its turns. -/
theorem attempt (turns : List Turn) (first : Leaves x)
    (stays : ∀ outcome, (∀ code, outcome ≠ .error (.exited code)) → Leaves fun l => f l outcome)
    (halts : ∀ cause s, f (.halting cause) (.error (.suspended cause)) s =
      .error (.suspended cause) (skipAll turns s))
    (leaves : ∀ last code s u, takeAll last turns s = some u →
      f (.through last) (.error (.exited code)) s = .error (.exited code) u) :
    Leaves fun l => attempt (x l) >>= f l := by
  intro s
  rcases first s with ⟨r, same, no_exit⟩ | ⟨p, before, halted, left⟩
  · cases r with
    | ok a t =>
      refine (stays (.ok a) (fun _ => nofun) t).congr fun l => ?_
      exact bind_ok (attempt_ok (same l))
    | error signal t =>
      refine (stays (.error signal) (fun code ended => ?_) t).congr fun l => ?_
      · cases ended
        exact no_exit code t rfl
      · exact bind_ok (attempt_error (same l))
  · refine .inr ⟨p, before ++ turns, fun cause => ?_, fun last u taken => ?_⟩
    · rw [skipAll, List.foldl_append]
      exact (bind_ok (attempt_error (halted cause))).trans (halts cause _)
    · rw [takeAll, List.foldlM_append] at taken
      obtain ⟨t, first, rest⟩ := Option.bind_eq_some_iff.1 taken
      exact (bind_ok (attempt_error (left last t first))).trans (leaves last _ t u rest)

/-- What is done after an attempt, without a turn of its own. -/
theorem attempt_passing (first : Leaves x)
    (stays : ∀ outcome, (∀ code, outcome ≠ .error (.exited code)) → Leaves fun l => f l outcome)
    (halts : ∀ cause, f (.halting cause) (.error (.suspended cause)) =
      MonadExcept.throw (.suspended cause))
    (leaves : ∀ last code, f (.through last) (.error (.exited code)) =
      MonadExcept.throw (.exited code)) : Leaves fun l => Eval.attempt (x l) >>= f l := by
  refine attempt [] first stays (fun cause s => ?_) fun last code s u taken => ?_
  · rw [halts]
    rfl
  · cases taken
    rw [leaves]
    rfl

/-- What is done after an attempt that is the same whatever is made of exits. -/
theorem attempt_fixed {x : Eval α} (second : ∀ outcome, Leaves fun l => f l outcome) :
    Leaves fun l => Eval.attempt x >>= f l := by
  refine bind (fixed fun s code t ended => ?_) second
  rw [attempt_apply] at ended
  split at ended <;> cases ended

theorem within (frame : Frame) (h : Leaves x) : Leaves fun l => within frame (x l) := by
  refine attempt [.leave frame] h (fun outcome plain => ?_) (fun _ _ => rfl) ?_
  · exact bind (leaf (leaf_leave frame)) fun _ => conclude plain
  · intro last code s u taken
    cases taken
    rfl

theorem returning {x : Leaving → Eval Unit} (h : Leaves x) : Leaves fun l => returning (x l) := by
  refine attempt_passing h (fun outcome plain => ?_) (fun _ => rfl) fun _ _ => rfl
  cases outcome with
  | ok u => exact leaf (.pure _)
  | error signal =>
    cases signal with
    | returned value => exact leaf (.pure _)
    | exited code => exact absurd rfl (plain code)
    | _ => exact throw fun _ => nofun

theorem asScript (h : Leaves x) : Leaves fun l => asScript (x l) := by
  refine attempt_passing h (fun outcome plain => ?_) (fun _ => rfl) fun _ _ => rfl
  cases outcome with
  | ok a => exact leaf (.pure a)
  | error signal =>
    exact throw fun code exited => plain code (congrArg _ (Signal.of_asScript exited nofun))

theorem compositional : Compositional fun _ x => Leaves x where
  leaf := leaf
  ret _ := throw fun _ => nofun
  look h _ s := h s s
  bind := bind
  within := within
  asScript := asScript
  returning := returning

end Leaves

/-! ### Guarded blocks and exits -/

section Blocks

variable {ev : Leaving → Node → Eval Value} {last block : Leaving → Eval Unit}

variable {catches : List (Option String × List Node)}

theorem leaves_beforeReturn (hlast : Leaves last) (h : Leaves block) :
    Leaves fun l => beforeReturn (last l) (block l) := by
  refine .attempt_passing h (fun outcome plain => ?_) (fun _ => rfl) fun _ _ => rfl
  cases outcome with
  | ok u => exact .leaf (.pure u)
  | error signal =>
    cases signal with
    | returned value => exact hlast.bind fun _ => .throw fun _ => nofun
    | exited code => exact absurd rfl (plain code)
    | _ => exact .throw fun _ => nofun

theorem leaves_withMessage (name : Option String) (message : String) (h : Leaves block) :
    Leaves fun l => withMessage name message (block l) := by
  unfold withMessage
  cases name.filter (· ≠ "") with
  | none => exact h
  | some name =>
    refine .bind (.leaf (still_binding? name)) fun before => ?_
    refine .bind (.leaf (leaf_bind_ name _)) fun _ => ?_
    have left := h.within (.handler name before)
    cases before with
    | none => exact left
    | some value => cases value <;> exact left

theorem leaves_handle {signal : Signal} (taken : catches = [] → ∀ code, signal ≠ .exited code)
    (parts : ∀ node, Leaves fun l => ev l node) (hlast : Leaves last) :
    Leaves fun l => handle (ev l) (last l) catches signal := by
  have ran : ∀ name body message, Leaves fun l =>
      withMessage name message (beforeReturn (last l) (runBlock (ev l) body)) := by
    intro name body message
    refine leaves_withMessage name message (leaves_beforeReturn hlast ?_)
    exact Leaves.compositional.rules.runBlock fun n _ => parts n
  cases catches with
  | nil =>
    have passed : ∀ l, handle (ev l) (last l) [] signal = throw signal := by
      intro l
      cases signal <;> rfl
    simp only [passed]
    exact .throw (taken rfl)
  | cons first rest =>
    cases signal with
    | failed fault | exited code => exact ran first.1 first.2 _
    | _ => exact .throw fun _ => nofun

/-- A handler takes the exits of its block; without one they pass. -/
theorem leaves_handled {fuel : Nat} {body : List Node} (parts : ∀ node, Leaves fun l => ev l node)
    (hlast : Leaves last) :
    Leaves fun l => handled (if catches.isEmpty then ev l else eval fuel) (ev l) (last l) body
      catches := by
  have after : ∀ outcome : Except Signal Unit,
      (catches = [] → ∀ code, outcome ≠ .error (.exited code)) → Leaves fun l =>
        match outcome with
        | .ok () => return
        | .error (.returned value) => last l >>= fun _ => throw (.returned value)
        | .error signal => handle (ev l) (last l) catches signal := by
    intro outcome taken
    cases outcome with
    | ok u => exact .leaf (.pure _)
    | error signal =>
      cases signal with
      | returned value => exact hlast.bind fun _ => .throw fun _ => nofun
      | _ =>
        refine leaves_handle (fun empty code ended => ?_) parts hlast
        exact taken empty code (congrArg _ ended)
  cases catches with
  | nil =>
    have run : Leaves fun l => runBlock (ev l) body :=
      Leaves.compositional.rules.runBlock fun n _ => parts n
    exact run.attempt_passing (fun outcome plain => after outcome fun _ => plain) (fun _ => rfl)
      fun _ _ => rfl
  | cons first rest =>
    show Leaves fun l => handled (eval fuel) (ev l) (last l) body (first :: rest)
    exact .attempt_fixed fun outcome => after outcome fun empty => nomatch empty

theorem leaves_lastly (fuel : Nat) (nodes : List Node) (hlast : Leaves last)
    (h : Leaves block) : Leaves fun l => lastly (l.last fuel nodes) (last l) (block l) := by
  refine .attempt [.last fuel nodes] h (fun outcome plain => ?_) (fun _ _ => rfl) ?_
  · cases outcome with
    | ok u => exact hlast.bind fun _ => .leaf (.pure u)
    | error signal =>
      cases signal with
      | suspended cause => exact .throw fun _ => nofun
      | exited code => exact absurd rfl (plain code)
      | _ => exact hlast.bind fun _ => .throw fun _ => nofun
  · intro last code s u taken
    cases result : last fuel nodes s with
    | ok v t =>
      simp only [takeAll, List.foldlM_cons, Turn.take, result] at taken
      cases taken
      exact bind_ok result
    | error signal t =>
      simp only [takeAll, List.foldlM_cons, Turn.take, result] at taken
      cases taken

theorem leaves_exitWith (code : Node) (parts : ∀ node, Leaves fun l => ev l node) :
    Leaves fun l => exitWith l.signal (ev l) code := by
  refine .bind (Leaves.compositional.codeFor parts code) fun code s => ?_
  refine .inr ⟨{ s with exitCode := code }, [], fun cause => rfl, fun last u taken => ?_⟩
  cases taken
  rfl

end Blocks

/-- Evaluation up to an exit, and the turns on the way out. -/
theorem leaves_leaving (fuel : Nat) (node : Node) : Leaves fun l => leaving l fuel node := by
  induction fuel generalizing node with
  | zero => exact .leaf (.throw rfl)
  | succ fuel ih =>
    by_cases plain : node.guards = false
    · simp only [leaving_plain _ fuel plain]
      exact Leaves.compositional.evalNode ih fuel plain
    · cases node with
      | exit code => exact leaves_exitWith code ih
      | tryCatch body catches final =>
        have last : Leaves fun l => runBlock (leaving l fuel) (final.getD []) :=
          Leaves.compositional.rules.runBlock fun n _ => ih n
        refine .bind (leaves_lastly fuel _ last ?_) fun _ => .leaf (.pure _)
        exact leaves_handled ih last
      | _ => exact absurd rfl plain

/-- The session at the first exit that no handler takes, as the frames around it leave it; any cause
stops an evaluation there. -/
def exitPoint? (fuel : Nat) (node : Node) (s : Session) : Option Session :=
  match leaving (.halting .steps) fuel node s, leaving (.halting .input) fuel node s with
  | .error (.suspended .steps) q, .error (.suspended .input) _ => some q
  | _, _ => none

theorem exitPoint?_of_stays {fuel : Nat} {r : EStateM.Result Signal Session Value}
    (h : Stays r fun l => leaving l fuel node s) : exitPoint? fuel node s = none := by
  unfold exitPoint?
  rw [h.same, h.same]
  -- One result is not suspended for two causes.
  cases r with
  | ok v t => rfl
  | error signal t =>
    cases signal with
    | suspended cause => cases cause <;> rfl
    | _ => rfl

theorem exitPoint?_of_exits {fuel : Nat} {p : Session} {turns : List Turn}
    (h : ExitsAt p turns fun l => leaving l fuel node s) :
    exitPoint? fuel node s = some (skipAll turns p) := by
  unfold exitPoint?
  rw [h.halts, h.halts]

theorem eval_ne_exited {fuel : Nat} (h : exitPoint? fuel node s = none) (code : ExitCode)
    (t : Session) : eval fuel node s ≠ .error (.exited code) t := by
  have either : LeavesAt fun l => leaving l fuel node s := leaves_leaving ..
  rcases either with ⟨r, stays⟩ | ⟨p, turns, exits⟩
  · rw [← leaving_eval, stays.same]
    exact stays.no_exit code t
  · rw [exitPoint?_of_exits exits] at h
    cases h

/-- From an exit on, an evaluation only has turns. -/
theorem leaving_exited {fuel : Nat} {q : Session} (h : exitPoint? fuel node s = some q) :
    ∃ p turns, q = skipAll turns p ∧
      ∀ last u, takeAll last turns p = some u →
        leaving (.through last) fuel node s = .error (.exited q.exitCode) u := by
  have either : LeavesAt fun l => leaving l fuel node s := leaves_leaving ..
  rcases either with ⟨r, stays⟩ | ⟨p, turns, exits⟩
  · rw [exitPoint?_of_stays stays] at h
    cases h
  · rw [exitPoint?_of_exits exits] at h
    cases h
    rw [skipAll_exitCode]
    exact ⟨p, turns, rfl, exits.leaves⟩

end Hetman.Eval

namespace Hetman

open Eval

variable {w : World} {strict : Bool} {program : Node} {s : Session}

/-! ## Runs -/

namespace Report

variable {code : String}

/-- The program in a text, and the session that its evaluation starts in. -/
def startIn? (w : World) (code : String) (strict : Bool) (folder : String) :
    Option (Node × Session) :=
  let outcome := parse (lex code).tokens strict
  let dialect := outcome.state.dialect
  let announced := match strict, dialect with
    | true, some d => w.printLine s!"✓ Dialect check passed: Using {d.name} dialect"
    | _, _ => w
  match (lex code).fault, outcome.node with
  | none, .ok program =>
    if outcome.state.problems.isEmpty then
      some (program, { announced.start with strict, dialect, folder := some folder })
    else none
  | _, _ => none

/-- The program that a run comes to evaluate, and the session it starts in. -/
def start? (w : World) (code : String) (strict : Bool) (folder : Option String) :
    Option (Node × Session) :=
  match folder.filter (· ≠ "") with
  | none => startIn? w code strict (Path.ofNames w.files.cwd)
  | some path =>
    match w.files.enter path with
    | .error _ => none
    | .ok files => startIn? { w with files } code strict path

theorem runIn_of_start {folder : String} (h : startIn? w code strict folder = some (program, s)) :
    runIn w code strict folder = conclude (eval stepLimit program s) := by
  unfold startIn? at h
  dsimp only at h
  split at h
  · rename_i tree fault node
    split at h
    · rename_i clean
      cases h
      simp only [runIn, fault, node, clean]
      rfl
    · cases h
  · cases h

/-- A run takes place in some world, unless the folder cannot be entered. -/
theorem run_cases (w : World) (code : String) (strict : Bool) (folder : Option String) :
    (start? w code strict folder = none ∧ ∀ c, (run w code strict folder).1 ≠ .ok c) ∨
      ∃ v path, start? w code strict folder = startIn? v code strict path ∧
        (run w code strict folder).1 = (runIn v code strict path).1 := by
  unfold start? run
  cases folder.filter (· ≠ "") with
  | none => exact .inr ⟨w, _, rfl, rfl⟩
  | some path =>
    dsimp only
    cases w.files.enter path with
    | error fault => exact .inl ⟨rfl, nofun⟩
    | ok files => exact .inr ⟨{ w with files }, path, rfl, rfl⟩

theorem run_of_start {folder : Option String} (h : start? w code strict folder = some (program, s)) :
    (run w code strict folder).1 = (conclude (eval stepLimit program s)).1 := by
  rcases run_cases w code strict folder with ⟨unstarted, -⟩ | ⟨v, path, starts, ran⟩
  · cases unstarted.symm.trans h
  · rw [ran, runIn_of_start (starts.symm.trans h)]

end Report

/-- An exit ends the program unless a handler takes it, and without one the program does not end by
an exit. From there on, frames are left and the last parts of the blocks around are run, in whatever
way these run, and nothing else. The program ends with the code of the exit, unless a last part ends
by a signal of its own. -/
theorem exit_ends_run {w : World} {code : String} {strict : Bool} {folder : Option String}
    {program : Node} {s : Session}
    (starts : Report.start? w code strict folder = some (program, s)) :
    (exitPoint? stepLimit program s = none →
      ∀ c t, eval stepLimit program s ≠ .error (.exited c) t) ∧
    ∀ q, exitPoint? stepLimit program s = some q → ∃ p turns,
      q = skipAll turns p ∧
      (∀ last u, takeAll last turns p = some u →
        leaving (.through last) stepLimit program s = .error (.exited q.exitCode) u) ∧
      ((∃ u, takeAll lastPart turns p = some u ∧
        eval stepLimit program s = .error (.exited q.exitCode) u ∧
        (Report.run w code strict folder).1 = .ok q.exitCode) ∨ Displaced turns p) := by
  refine ⟨eval_ne_exited, fun q found => ?_⟩
  obtain ⟨p, turns, isPoint, leaves⟩ := leaving_exited found
  refine ⟨p, turns, isPoint, leaves, ?_⟩
  rcases takeAll_or_displaced turns p with ⟨u, taken⟩ | displaced
  · have ended := leaves lastPart u taken
    rw [leaving_eval] at ended
    refine .inl ⟨u, taken, ended, ?_⟩
    rw [Report.run_of_start starts, ended]
    rfl
  · exact .inr displaced

/-- A program that exits in a call, from a block with a last part. -/
def exitInCall : String :=
  "Chief\nFunction f() \x7b Try \x7b Exit(3); \x7d Finally \x7b Print(1); \x7d \x7d\nf();\nPrint(2);"

theorem exit_ends_run_in_call : ∃ program s q,
    Report.start? {} exitInCall false none = some (program, s) ∧
    exitPoint? stepLimit program s = some q ∧ q.exitCode = .number 3 ∧
    ∃ p turns, q = skipAll turns p ∧
      ((∃ u, takeAll lastPart turns p = some u ∧
        eval stepLimit program s = .error (.exited (.number 3)) u ∧
        (Report.run {} exitInCall false none).1 = .ok (.number 3)) ∨ Displaced turns p) := by
  have found : ((Report.start? {} exitInCall false none).bind fun begun =>
      exitPoint? stepLimit begun.1 begun.2).map (·.exitCode) = some (.number 3) := by
    decide +kernel
  obtain ⟨q, point, code⟩ := Option.map_eq_some_iff.1 found
  obtain ⟨⟨program, s⟩, starts, stops⟩ := Option.bind_eq_some_iff.1 point
  obtain ⟨p, turns, same, -, ends⟩ := (exit_ends_run starts).2 q stops
  rw [code] at ends
  exact ⟨program, s, q, starts, stops, code, p, turns, same, ends⟩

/-- An exit in a block with a handler does not end the program: the handler runs, and so does what
comes after. -/
theorem exit_taken_by_handler :
    (Report.run {} "Chief\nTry \x7b Exit(3); \x7d Catch(e) \x7b Print(e); \x7d\nPrint(2);"
      false none).2.output =
    "Program exited with code 3\n2\n\nProgram executed successfully, kozache!\n" ++
      "Program exited with code 3\n" := by
  decide +kernel

end Hetman
