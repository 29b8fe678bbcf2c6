import Hetman.Proofs.Eval.Closed
import Hetman.Proofs.Eval.Monitor

/-!
# Evaluations that are cut short

An evaluation is cut short if it comes to what another one comes to, or else runs out of steps after
it has written a beginning of what the other one writes (`CutShort`). No handler has its turn then,
so a step of the evaluator over parts that are cut short is cut short (`cutShort_evalNode`). A
monitor that only stops does so (`cutShort_monitored`), and a lower bound on the steps
(`cutShort_eval`).
-/

namespace Hetman.Eval

variable {α β : Type}

/-- The same result as another evaluation, or out of steps with a beginning of the same text
written. Nothing is taken back. -/
structure CutShort (x y : Eval α) : Prop where
  cut : ∀ s, x s = y s ∨
    ∃ t, x s = .error (.suspended .steps) t ∧ Continues t.output (ending (y s)).output
  grows : ∀ s, Continues s.output (ending (y s)).output

namespace CutShort

variable {x y : Eval α}

theorem refl (grows : ∀ s, Continues s.output (ending (x s)).output) : CutShort x x :=
  ⟨fun _ => .inl rfl, grows⟩

theorem leaf (h : Leaf x) : CutShort x x :=
  .refl fun s => (h.change s).output

theorem throw (signal : Signal) : CutShort (throw signal : Eval α) (throw signal) :=
  .refl fun s => .refl s.output

theorem outOfSteps (h : CutShort x y) : CutShort (MonadExcept.throw (.suspended .steps)) y :=
  ⟨fun s => .inr ⟨s, rfl, h.grows s⟩, h.grows⟩

/-- What follows an attempt has to pass a suspension on. -/
theorem attempt {f g : Except Signal α → Eval β} (first : CutShort x y)
    (second : ∀ outcome, CutShort (f outcome) (g outcome))
    (passes : f (.error (.suspended .steps)) = MonadExcept.throw (.suspended .steps)) :
    CutShort (Eval.attempt x >>= f) (Eval.attempt y >>= g) where
  cut s := by
    rw [attempt_bind_apply, attempt_bind_apply]
    rcases first.cut s with same | ⟨t, stopped, begun⟩
    · rw [same]
      exact (second _).cut _
    · rw [stopped]
      refine .inr ⟨t, congrFun passes t, begun.trans ((second _).grows _)⟩
  grows s := by
    rw [attempt_bind_apply]
    exact (first.grows s).trans ((second _).grows _)

theorem bind {f g : α → Eval β} (first : CutShort x y) (second : ∀ a, CutShort (f a) (g a)) :
    CutShort (x >>= f) (y >>= g) := by
  rw [bind_eq_attempt x, bind_eq_attempt y]
  refine first.attempt (fun outcome => ?_) ?_
  · cases outcome with
    | ok a => exact second a
    | error signal => exact .throw signal
  · rfl

theorem within (frame : Frame) (h : CutShort x y) :
    CutShort (Eval.within frame x) (Eval.within frame y) where
  cut s := by
    rcases h.cut s with same | ⟨t, stopped, begun⟩
    · rw [within_apply, within_apply, same]
      exact .inl rfl
    · refine .inr ⟨frame.leave t, ?_, ?_⟩
      · rw [within_apply, stopped]
      · rw [ending_within, (frame.leave_same _).2.2, (frame.leave_same _).2.2]
        exact begun
  grows s := by
    rw [ending_within, (frame.leave_same _).2.2]
    exact h.grows s

end CutShort

theorem CutShort.eq_or_stopped {x y : Eval α} (h : CutShort x y) (s : Session) :
    x s = y s ∨ ∃ t, x s = .error (.suspended .steps) t := by
  rcases h.cut s with same | ⟨t, stopped, _⟩
  · exact .inl same
  · exact .inr ⟨t, stopped⟩

theorem cutShort_closed : Closed (ι := Bool) fun _ _ x => CutShort (x true) (x false) where
  leaf h := .leaf h
  throw _ := .throw _
  look h _ := ⟨fun s => (h s).cut s, fun s => (h s).grows s⟩
  bind first second := first.bind second
  attempt h second passes :=
    h.attempt (fun outcome => second (fun _ => True) outcome fun _ _ => trivial)
      (passes .steps true)
  within frame h := h.within frame

/-! ## All nodes -/

section Nodes

variable {ev ev' : Node → Eval Value} (parts : ∀ node, CutShort (ev node) (ev' node))

include parts

theorem cutShort_evalExit (code : Node) : CutShort (evalExit ev code) (evalExit ev' code) := by
  have last : ∀ code : ExitCode, CutShort (α := Value)
      (modify (fun s => { s with exitCode := code }) >>= fun _ => throw (.exited code))
      (modify (fun s => { s with exitCode := code }) >>= fun _ => throw (.exited code)) :=
    fun code => .refl fun s => .refl s.output
  unfold evalExit
  split
  · exact last _
  · exact (parts code).bind fun v => (CutShort.leaf (still_lift _)).bind last

theorem cutShort_evalNode (fuel : Nat) (node : Node) :
    CutShort (evalNode fuel ev node) (evalNode fuel ev' node) := by
  by_cases exits : ∃ code, node = .exit code
  · obtain ⟨code, rfl⟩ := exits
    exact cutShort_evalExit parts code
  · exact @Closed.evalNode _ _ (fun _ => True) (fun cut => if cut then ev else ev') cutShort_closed
      fuel node (fun code same => exits ⟨code, same⟩) fun _ => parts

/-! ## More steps -/

theorem cutShort_runBlock (body : List Node) : CutShort (runBlock ev body) (runBlock ev' body) := by
  induction body with
  | nil => exact .leaf (.pure _)
  | cons node rest ih => exact (parts node).bind fun _ => ih

theorem cutShort_whileLoop (condition : Node) (body : List Node) (fuel : Nat) :
    CutShort (whileLoop ev condition body fuel) (whileLoop ev' condition body (fuel + 1)) := by
  have round : ∀ {x y : Eval Unit}, CutShort x y →
      CutShort (do if ← truthy (← ev condition) then runBlock ev body; x else return)
        (do if ← truthy (← ev' condition) then runBlock ev' body; y else return) := by
    intro x y rest
    refine (parts condition).bind fun value => (CutShort.leaf (still_truthy value)).bind ?_
    intro holds
    cases holds with
    | true => exact (cutShort_runBlock parts body).bind fun _ => rest
    | false => exact .leaf (.pure _)
  induction fuel with
  | zero => exact (round (.throw _)).outOfSteps
  | succ fuel ih => exact round ih

theorem cutShort_eachLoop (ref : Nat) (name : String) (body : List Node) (fuel index : Nat) :
    CutShort (eachLoop ev ref name body fuel index)
      (eachLoop ev' ref name body (fuel + 1) index) := by
  have round : ∀ n m index, CutShort (eachLoop ev ref name body n (index + 1))
      (eachLoop ev' ref name body m (index + 1)) → CutShort
      (eachLoop ev ref name body (n + 1) index) (eachLoop ev' ref name body (m + 1) index) := by
    intro n m index rest
    refine (CutShort.leaf (still_fromHeap _)).bind fun element => ?_
    cases element with
    | none => exact .leaf (.pure _)
    | some value =>
      exact (CutShort.leaf (leaf_bind_ name value)).bind fun _ =>
        (cutShort_runBlock parts body).bind fun _ => rest
  induction fuel generalizing index with
  | zero => exact (round 0 0 index (.throw _)).outOfSteps
  | succ fuel ih => exact round fuel (fuel + 1) index (ih (index + 1))

omit parts in
/-- A loop with a step has it as the last statement of its body. -/
theorem forLoop_eq_whileLoop (condition step : Node) (body : List Node) (fuel : Nat) :
    forLoop ev condition step body fuel = whileLoop ev condition (body ++ [step]) fuel := by
  have steps : ∀ x : Eval Unit, (do runBlock ev (body ++ [step]); x) =
      (do runBlock ev body; let _ ← ev step; x) := by
    intro x
    induction body with
    | nil => exact bind_assoc (ev step) (fun _ => pure ()) fun _ => x
    | cons node rest ih =>
      simp only [List.cons_append, runBlock, bind_assoc, ih]
  induction fuel with
  | zero => rfl
  | succ fuel ih => simp only [forLoop, whileLoop, steps, ih]

/-- Parts with more steps, and loops with one round more. -/
theorem cutShort_moreRounds (fuel : Nat) (node : Node) :
    CutShort (evalNode fuel ev node) (evalNode (fuel + 1) ev' node) := by
  cases node with
  | whileLoop condition body =>
    exact (cutShort_whileLoop parts condition body fuel).bind fun _ => .leaf (.pure _)
  | forLoop init condition step body =>
    refine (parts init).bind fun _ => ?_
    rw [forLoop_eq_whileLoop, forLoop_eq_whileLoop]
    exact (cutShort_whileLoop parts condition _ fuel).bind fun _ => .leaf (.pure _)
  | forEach name array body =>
    have comp := cutShort_closed.compositional fun _ => True
    exact @Rules.evalForEach _ _ _ (fun cut => if cut then ev else ev') comp.rules name array body
      (fun cut => if cut then fuel else fuel + 1) (comp.own parts rfl) (parts array)
      fun ref => cutShort_eachLoop parts ref name body fuel 0
  | _ => exact cutShort_evalNode parts fuel _

end Nodes

theorem cutShort_eval (fuel : Nat) (node : Node) :
    CutShort (eval fuel node) (eval (fuel + 1) node) := by
  induction fuel generalizing node with
  | zero => exact (cutShort_evalNode (fun _ => .throw _) 0 node).outOfSteps
  | succ fuel ih => exact cutShort_moreRounds ih fuel node

theorem cutShort_self (fuel : Nat) (node : Node) :
    CutShort (eval fuel node) (eval fuel node) := by
  cases fuel with
  | zero => exact .throw _
  | succ fuel => exact .refl (cutShort_eval fuel node).grows

/-- A monitor of nodes that lets the evaluation go on or stops it. -/
theorem cutShort_monitored {m : Monitor}
    (read : ∀ running ref name, m.read running ref name = pure ())
    (write : ∀ running ref name value, m.write running ref name value = pure ())
    (stops : ∀ node, CutShort (m.node node) (pure ())) (fuel : Nat)
    (running : List Activation) (node : Node) :
    CutShort (monitored m fuel running node) (eval fuel node) := by
  induction fuel generalizing node with
  | zero => exact .throw _
  | succ fuel ih =>
    rw [monitored_succ read write]
    exact (stops node).bind fun _ => cutShort_evalNode ih fuel node

def stopIf (condition : Bool) : Eval Unit :=
  if condition then throw (.suspended .steps) else return

theorem silent_stopIf (condition : Bool) : Silent (stopIf condition) := by
  unfold stopIf
  split
  · exact .throw rfl
  · exact .pure _

theorem stopIf_passed {condition : Bool} {s t : Session} {u : Unit}
    (passed : stopIf condition s = .ok u t) : condition = false ∧ t = s := by
  cases condition with
  | true => cases passed
  | false =>
    cases passed
    exact ⟨rfl, rfl⟩

/-- To stop at some nodes cuts the evaluation short. -/
theorem cutShort_stopping (condition : Node → Bool) (fuel : Nat) (running : List Activation)
    (node : Node) :
    CutShort (monitored { node := fun n => stopIf (condition n) } fuel running node)
      (eval fuel node) := by
  refine cutShort_monitored (fun _ _ _ => rfl) (fun _ _ _ _ => rfl) (fun n => ?_) fuel running node
  dsimp only [stopIf]
  split
  · exact (CutShort.leaf (.pure ())).outOfSteps
  · exact .leaf (.pure ())

end Hetman.Eval
