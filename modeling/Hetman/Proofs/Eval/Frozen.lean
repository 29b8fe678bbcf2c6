import Hetman.Proofs.Eval.Destroyed
import Hetman.Proofs.Eval.Noting
import Hetman.Proofs.Eval.Secrets

/-!
# Destroyed objects are frozen

A destroyed object stays destroyed and keeps its fields from one moment of an evaluation to all
later ones, however deep in calls, handlers and destructors the two moments are
(`destroyed_frozen`).

To speak of two moments, an evaluation is stopped at the first node in an early session, or after it
at the first node in a late one (`stopping`). That the early moment has passed is kept in the
register of `noting`. `GoesOn`: from the early moment up to the late one, objects have only grown
older.
-/

namespace Hetman

/-- What is destroyed in one session is destroyed in the other, with the same fields. -/
def Session.Freezes (s t : Session) : Prop :=
  ∀ ref, (s.heap.object ref).destroyed = true → t.heap.object ref = s.heap.object ref

theorem Heap.Ages.freezes {s t : Session} (ages : s.heap.Ages t.heap) : s.Freezes t :=
  fun _ gone => ages.destroyed _ gone

namespace Eval

variable {α β : Type} {early late : Session → Bool}

/-! ## Moments -/

/-- Stops an evaluation by the first cause at an early moment; without that cause, by the second one
at the late moment after it. -/
def stopping (early late : Session → Bool) (causes : Option Suspension × Suspension) (_ : Node) :
    Eval Unit := do
  let s ← get
  if s.exitCode = .flag true then
    if late s then throw (.suspended causes.2)
  else if early s then
    match causes.1 with
    | some cause => throw (.suspended cause)
    | none => modify (·.exitedWith (.flag true))

/-- Evaluation up to the early or the late moment. -/
def staged (early late : Session → Bool) (fuel : Nat) (node : Node) (s : Session)
    (causes : Option Suspension × Suspension) : EStateM.Result Signal Session Value :=
  noting (stopping early late causes) (fun register _ => register) fuel node
    (s.exitedWith (.flag false))

/-- Objects grow older until the end, or until a late moment. -/
def AgesUntil (late : Session → Bool) (h : Heap)
    (result : Suspension → EStateM.Result Signal Session α) : Prop :=
  (∃ r, (∀ cause, result cause = r) ∧ h.Ages (ending r).heap) ∨
    ∃ q t, late q = true ∧ (∀ cause, result cause = .error (.suspended cause) t) ∧ h.Ages q.heap

namespace AgesUntil

variable {h h' : Heap}

variable {x : Suspension → Eval α} {s : Session}

theorem mono {result : Suspension → EStateM.Result Signal Session α} (older : h.Ages h')
    (ages : AgesUntil late h' result) : AgesUntil late h result := by
  rcases ages with ⟨r, same, ages⟩ | ⟨q, t, isLate, stopped, ages⟩
  · exact .inl ⟨r, same, older.trans ages⟩
  · exact .inr ⟨q, t, isLate, stopped, older.trans ages⟩

theorem attempt {f : Except Signal α → Suspension → Eval β}
    (first : AgesUntil late h fun cause => x cause s)
    (second : ∀ outcome (t : Session), AgesUntil late t.heap fun cause => f outcome cause t)
    (passes : ∀ cause, f (.error (.suspended cause)) cause = throw (.suspended cause)) :
    AgesUntil late h fun cause =>
      (Eval.attempt (x cause) >>= fun outcome => f outcome cause) s := by
  simp only [attempt_bind_apply]
  rcases first with ⟨r, same, ages⟩ | ⟨q, t, isLate, stopped, ages⟩
  · simp only [same]
    exact (second _ _).mono ages
  · refine .inr ⟨q, t, isLate, fun cause => ?_, ages⟩
    dsimp only at stopped ⊢
    rw [stopped cause]
    exact congrFun (passes cause) t

theorem within (frame : Frame) (first : AgesUntil late h fun cause => x cause s) :
    AgesUntil late h fun cause => Eval.within frame (x cause) s := by
  simp only [within_apply]
  rcases first with ⟨r, same, ages⟩ | ⟨q, t, isLate, stopped, ages⟩
  · simp only [same]
    cases r with
    | ok a t | error signal t =>
      exact .inl ⟨_, fun _ => rfl, ages.trans ((frame.ageing_leave t).heap)⟩
  · simp only [stopped]
    exact .inr ⟨q, frame.leave t, isLate, fun _ => rfl, ages⟩

end AgesUntil

/-! ## From one moment to another -/

/-- Some evaluations are stopped at early moments and the others go on. Either none comes to one,
and they do not differ; or the first are stopped at one, and in the others objects grow older from
there on. -/
structure GoesOn (early late : Session → Bool)
    (x : Option Suspension × Suspension → Eval α) : Prop where
  ages : ∀ s : Session, AgesUntil late s.heap fun cause => x (none, cause) s
  stops : ∀ s, (∀ first cause, x (first, cause) s = x (none, cause) s) ∨
    ∃ p t, early p = true ∧
      (∀ first cause, x (some first, cause) s = .error (.suspended first) t) ∧
      AgesUntil late p.heap fun cause => x (none, cause) s

namespace GoesOn

variable {x : Option Suspension × Suspension → Eval α}

theorem fixed {x : Eval α} (ages : ∀ s : Session, s.heap.Ages (ending (x s)).heap) :
    GoesOn early late fun _ => x where
  ages s := .inl ⟨x s, fun _ => rfl, ages s⟩
  stops _ := .inl fun _ _ => rfl

theorem attempt {f : Except Signal α → Option Suspension × Suspension → Eval β}
    (first : GoesOn early late x) (second : ∀ outcome, GoesOn early late (f outcome))
    (passes : ∀ cause causes, f (.error (.suspended cause)) causes = throw (.suspended cause)) :
    GoesOn early late fun causes =>
      Eval.attempt (x causes) >>= fun outcome => f outcome causes where
  ages s := (first.ages s).attempt (fun outcome t => (second outcome).ages t) fun cause =>
    passes cause (none, cause)
  stops s := by
    rcases first.stops s with same | ⟨p, t, isEarly, stopped, ages⟩
    · simp only [attempt_bind_apply]
      -- What follows starts from the same session, unless the attempt was stopped late.
      rcases first.ages s with ⟨r, plain, -⟩ | ⟨q, t, -, stopped, -⟩
      · have run : ∀ causes, x causes s = r := fun causes => (same causes.1 causes.2).trans (plain _)
        simp only [run]
        exact (second _).stops _
      · refine .inl fun first cause => ?_
        dsimp only at stopped
        rw [same first cause, stopped cause]
        exact congrFun ((passes cause _).trans (passes cause _).symm) t
    · refine .inr ⟨p, t, isEarly, fun first cause => ?_, ?_⟩
      · rw [attempt_bind_apply, stopped first cause]
        exact congrFun (passes first _) t
      · exact ages.attempt (fun outcome t => (second outcome).ages t) fun cause =>
          passes cause (none, cause)

theorem bind {f : α → Option Suspension × Suspension → Eval β} (first : GoesOn early late x)
    (second : ∀ a, GoesOn early late (f a)) :
    GoesOn early late fun causes => x causes >>= fun a => f a causes := by
  rw [funext fun causes => bind_eq_attempt (x causes) fun a => f a causes]
  refine first.attempt (fun outcome => ?_) fun _ _ => rfl
  cases outcome with
  | ok a => exact second a
  | error signal => exact .fixed fun s => .refl s.heap

theorem within (frame : Frame) (h : GoesOn early late x) :
    GoesOn early late fun causes => Eval.within frame (x causes) where
  ages s := (h.ages s).within frame
  stops s := by
    rcases h.stops s with same | ⟨p, t, isEarly, stopped, ages⟩
    · refine .inl fun first cause => ?_
      rw [within_apply, within_apply, same]
    · refine .inr ⟨p, frame.leave t, isEarly, fun first cause => ?_, ages.within frame⟩
      rw [within_apply, stopped]

end GoesOn

theorem goesOn_closed : Closed fun _ _ x => GoesOn early late x where
  leaf h := .fixed fun s => (h.change s).heap
  throw _ := .fixed fun s => .refl s.heap
  look h _ := ⟨fun s => (h s).ages s, fun s => (h s).stops s⟩
  bind first second := first.bind second
  attempt h second passes :=
    h.attempt (fun outcome => second (fun _ => True) outcome fun _ _ => trivial) passes
  within frame h := h.within frame

theorem goesOn_exitNoting {ev : Option Suspension × Suspension → Node → Eval Value}
    (note : ExitCode → ExitCode → ExitCode) (code : Node)
    (parts : ∀ node, GoesOn early late fun causes => ev causes node) :
    GoesOn early late fun causes => exitNoting note (ev causes) code :=
  ((goesOn_closed.compositional fun _ => True).codeFor parts code).bind fun _ =>
    .fixed fun s => .refl s.heap

/-- Where an evaluation is stopped, and where it goes on. -/
theorem stopping_apply (causes : Option Suspension × Suspension) (node : Node) (s : Session) :
    stopping early late causes node s =
      if s.exitCode = .flag true then
        if late s then .error (.suspended causes.2) s else .ok () s
      else if early s then
        match causes.1 with
        | some cause => .error (.suspended cause) s
        | none => .ok () (s.exitedWith (.flag true))
      else .ok () s := by
  obtain ⟨first, cause⟩ := causes
  show (if s.exitCode = .flag true then _ else _ : Eval Unit) s = _
  split
  · cases late s <;> rfl
  · cases early s with
    | true => cases first <;> rfl
    | false => rfl

theorem goesOn_stopping (node : Node) :
    GoesOn early late fun causes => stopping early late causes node := by
  refine ⟨fun s => ?_, fun s => ?_⟩ <;> simp only [stopping_apply]
  · by_cases passed : s.exitCode = .flag true
    · simp only [if_pos passed]
      cases isLate : late s with
      | true => exact .inr ⟨s, s, isLate, fun _ => rfl, .refl _⟩
      | false => exact .inl ⟨.ok () s, fun _ => rfl, .refl _⟩
    · simp only [if_neg passed]
      cases early s <;> exact .inl ⟨_, fun _ => rfl, .refl s.heap⟩
  · by_cases passed : s.exitCode = .flag true
    · refine .inl fun first cause => ?_
      rw [if_pos passed, if_pos passed]
    · simp only [if_neg passed]
      cases isEarly : early s with
      | true => exact .inr ⟨s, s, isEarly, fun _ _ => rfl, .inl ⟨_, fun _ => rfl, .refl s.heap⟩⟩
      | false => exact .inl fun _ _ => rfl

theorem goesOn_noting (fuel : Nat) (node : Node) :
    GoesOn early late fun causes =>
      noting (stopping early late causes) (fun register _ => register) fuel node :=
  goesOn_closed.noting (fun _ => goesOn_stopping)
    (fun _ _ code parts => goesOn_exitNoting _ code parts) fuel node fun _ => True

/-- Without late moments, an evaluation that goes on is the evaluation itself. -/
theorem staged_eval (early : Session → Bool) (fuel : Nat) (node : Node) (s : Session)
    (cause : Suspension) :
    ∃ code, staged early (fun _ => false) fuel node s (none, cause) =
      exitedWith code (eval fuel node s) := by
  refine noting_sameBut (fun node s code => ?_) fuel node s (.flag false)
  rw [stopping_apply]
  split
  · exact ⟨code, rfl⟩
  · cases early (s.exitedWith code) with
    | true => exact ⟨.flag true, rfl⟩
    | false => exact ⟨code, rfl⟩

/-! ## Steps -/

/-- What can be done to the objects of a session. -/
inductive ObjectStep where
  | evaluate (fuel : Nat) (node : Node)
  | ask (fuel : Nat) (request : Request)
  | make (classId : Nat)
  | define (info : ClassInfo)

def ObjectStep.after (s : Session) : ObjectStep → Session
  | .evaluate fuel node => ending (eval fuel node s)
  | .ask fuel request => (request.perform (eval fuel) s).2
  | .make classId => { s with heap := (s.heap.newObject { classId }).2 }
  | .define info => { s with classes := (s.classes.define info).2 }

/-- The sessions before, between and after some steps. -/
def course : List ObjectStep → Session → List Session
  | [], s => [s]
  | step :: rest, s => s :: course rest (step.after s)

theorem ages_eval (fuel : Nat) (node : Node) (s : Session) :
    s.heap.Ages (ending (eval fuel node s)).heap :=
  (runs_since s.heap fuel node s (.refl _)).change

theorem ages_destroy (fuel ref : Nat) (s : Session) :
    s.heap.Ages (ending (destroy (eval fuel) ref s)).heap := by
  have parts : ∀ node, GoesOn (fun _ => false) (fun _ => false) fun _ => eval fuel node :=
    fun node => .fixed (ages_eval fuel node)
  have moves := (goesOn_closed.compositional fun _ => True).destroy parts ref
  rcases moves.ages s with ⟨r, same, ages⟩ | ⟨q, t, isLate, -⟩
  · have result : destroy (eval fuel) ref s = r := same .steps
    rw [result]
    exact ages
  · cases isLate

theorem ObjectStep.ages_after (step : ObjectStep) (s : Session) :
    s.heap.Ages (step.after s).heap := by
  cases step with
  | evaluate fuel node => exact ages_eval fuel node s
  | ask fuel request =>
    cases request with
    | get ref name caller => exact .refl _
    | set ref name value caller =>
      unfold after Request.perform
      dsimp only
      cases result : Object.set s.classes s.heap ref name value caller with
      | ok heap => exact Object.ages_set result
      | error cause => exact .refl _
    | destroy ref =>
      have ages := ages_destroy fuel ref s
      unfold after Request.perform
      dsimp only
      cases result : destroy (eval fuel) ref s with
      | ok u t | error signal t =>
        rw [result] at ages
        exact ages
  | make classId => exact Heap.ages_newObject s.heap _
  | define info => exact .refl _

theorem ages_of_mem_course {steps : List ObjectStep} {s t : Session} (h : t ∈ course steps s) :
    s.heap.Ages t.heap := by
  induction steps generalizing s with
  | nil =>
    cases List.mem_singleton.mp h
    exact .refl _
  | cons step rest ih =>
    rcases List.mem_cons.mp h with rfl | later
    · exact .refl _
    · exact (step.ages_after s).trans (ih later)

theorem course_ages (steps : List ObjectStep) (s : Session) :
    (course steps s).Pairwise fun t u => t.heap.Ages u.heap := by
  induction steps generalizing s with
  | nil => exact List.pairwise_singleton ..
  | cons step rest ih =>
    refine List.pairwise_cons.mpr ⟨fun t later => ?_, ih (step.after s)⟩
    exact (step.ages_after s).trans (ages_of_mem_course later)

/-! ## Frozen objects -/

/-- What is destroyed is frozen, from each of a series of steps to each later one; and in an
evaluation, from one moment to any later one, and to the end. -/
theorem destroyed_frozen (s : Session) :
    (∀ steps, (course steps s).Pairwise Session.Freezes) ∧
      ∀ early late fuel node,
        (∀ cause, ∃ code, staged early (fun _ => false) fuel node s (none, cause) =
          exitedWith code (eval fuel node s)) ∧
        ((∀ first cause, staged early late fuel node s (first, cause) =
            staged early late fuel node s (none, cause)) ∨
          ∃ p t, early p = true ∧
            (∀ first cause, staged early late fuel node s (some first, cause) =
              .error (.suspended first) t) ∧
            ((∃ r, (∀ cause, staged early late fuel node s (none, cause) = r) ∧
                p.Freezes (ending r)) ∨
              ∃ q u, late q = true ∧
                (∀ cause, staged early late fuel node s (none, cause) =
                  .error (.suspended cause) u) ∧
                p.Freezes q)) := by
  refine ⟨fun steps => ?_, fun early late fuel node => ⟨staged_eval early fuel node s, ?_⟩⟩
  · exact (course_ages steps s).imp fun ages => ages.freezes
  · rcases (goesOn_noting fuel node).stops (s.exitedWith (.flag false)) with
      same | ⟨p, t, isEarly, stopped, ages⟩
    · exact .inl same
    · refine .inr ⟨p, t, isEarly, stopped, ?_⟩
      rcases ages with ⟨r, ended, older⟩ | ⟨q, u, isLate, stopped, older⟩
      · exact .inl ⟨r, ended, older.freezes⟩
      · exact .inr ⟨q, u, isLate, stopped, older.freezes⟩

end Eval

end Hetman
