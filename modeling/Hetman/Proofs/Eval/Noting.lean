import Hetman.Proofs.Eval.Closed
import Hetman.Proofs.Eval.Exit

/-!
# The exit code as a register

Exits write the exit code of a session, and nothing in an evaluation reads it. So it can serve as a
register: `noting` does something before each node and notes the codes of exits in its own way. If
the register is all that it changes, it is the evaluation but for the register (`noting_sameBut`).
`Closed.noting` shows what such evaluations have in common.
-/

namespace Hetman.Eval

variable {α β ι : Type}

/-- An exit that notes its code. -/
def exitNoting (note : ExitCode → ExitCode → ExitCode) (ev : Node → Eval Value) (code : Node) :
    Eval Value := do
  let code ← codeFor ev code
  modify fun s => s.exitedWith (note s.exitCode code)
  throw (.exited code)

/-- Evaluation with something done before each node, and its own way to note the codes of exits. -/
def noting (before : Node → Eval Unit) (note : ExitCode → ExitCode → ExitCode) :
    (fuel : Nat) → Node → Eval Value
  | 0, _ => throw (.suspended .steps)
  | fuel + 1, .exit code => do
    before (.exit code)
    exitNoting note (noting before note fuel) code
  | fuel + 1, node => do
    before node
    evalNode fuel (noting before note fuel) node

theorem noting_succ {node : Node} (stays : ∀ code, node ≠ .exit code) (before : Node → Eval Unit)
    (note : ExitCode → ExitCode → ExitCode) (fuel : Nat) :
    noting before note (fuel + 1) node =
      before node >>= fun _ => evalNode fuel (noting before note fuel) node := by
  cases node with
  | exit code => exact absurd rfl (stays code)
  | _ => rfl

theorem noting_eval (fuel : Nat) (node : Node) :
    noting (fun _ => pure ()) (fun _ code => code) fuel node = eval fuel node := by
  induction fuel generalizing node with
  | zero => rfl
  | succ fuel ih =>
    have same : noting (fun _ => pure ()) (fun _ code => code) fuel = eval fuel := funext ih
    by_cases exits : ∃ code, node = .exit code
    · obtain ⟨code, rfl⟩ := exits
      rw [noting, same]
      exact (evalExit_eq (eval fuel) code).symm
    · rw [noting_succ (fun code same => exits ⟨code, same⟩), same]
      rfl

/-- A closed property is kept in evaluations that note, if what is done before a node has it and
exits keep it. -/
theorem Closed.noting {R : (ExitCode → Prop) → (α : Type) → (ι → Eval α) → Prop}
    (closed : Closed R) {before : ι → Node → Eval Unit}
    {note : ι → ExitCode → ExitCode → ExitCode}
    (first : ∀ S node, R S Unit fun i => before i node)
    (exits : ∀ (ev : ι → Node → Eval Value) S code, (∀ node, R S Value fun i => ev i node) →
      R S Value fun i => exitNoting (note i) (ev i) code)
    (fuel : Nat) (node : Node) (S : ExitCode → Prop) :
    R S Value fun i => Eval.noting (before i) (note i) fuel node := by
  induction fuel generalizing node S with
  | zero => exact closed.leaf (.throw rfl)
  | succ fuel ih =>
    by_cases exit : ∃ code, node = .exit code
    · obtain ⟨code, rfl⟩ := exit
      exact closed.bind (first S _) fun _ => exits _ S code fun node => ih node S
    · have stays : ∀ code, node ≠ .exit code := fun code same => exit ⟨code, same⟩
      simp only [noting_succ stays]
      exact closed.bind (first S node) fun _ => closed.evalNode fuel stays fun S node => ih node S

/-! ## All but the register -/

/-- One evaluation is the other but for the register, and keeps what this says of the session. -/
def SameBut (keep : ExitCode → Session → Prop) (x y : Eval α) : Prop :=
  ∀ s code, keep code s →
    ∃ code', x (s.exitedWith code) = exitedWith code' (y s) ∧ keep code' (ending (y s))

namespace SameBut

variable {keep : ExitCode → Session → Prop} {x y : Eval α}

theorem attempt {f g : Except Signal α → Eval β} (first : SameBut keep x y)
    (second : ∀ outcome, SameBut keep (f outcome) (g outcome)) :
    SameBut keep (Eval.attempt x >>= f) (Eval.attempt y >>= g) := by
  intro s code start
  obtain ⟨code', same, kept⟩ := first s code start
  obtain ⟨code'', rest, kept⟩ := second (outcomeOf (y s)) (ending (y s)) code' kept
  rw [← attempt_bind_apply y g s] at kept rest
  refine ⟨code'', ?_, kept⟩
  rw [attempt_bind_apply, same, ← rest]
  cases y s <;> rfl

theorem bind {f g : α → Eval β} (first : SameBut keep x y)
    (second : ∀ a, SameBut keep (f a) (g a)) : SameBut keep (x >>= f) (y >>= g) := by
  rw [bind_eq_attempt x, bind_eq_attempt y]
  refine first.attempt fun outcome => ?_
  cases outcome with
  | ok a => exact second a
  | error signal => exact fun s code start => ⟨code, rfl, start⟩

end SameBut

/-- What the register says stays true while objects grow older. -/
def Lasting (keep : ExitCode → Session → Prop) : Prop :=
  ∀ (code : ExitCode) (s t : Session), keep code s → s.heap.Ages t.heap → keep code t

variable {keep : ExitCode → Session → Prop}

theorem sameBut_leaf (lasting : Lasting keep) {x : Eval α} (h : Leaf x) : SameBut keep x x :=
  fun s code start => ⟨code, h.blind s code, lasting code s _ start (h.change s).heap⟩

theorem sameBut_closed (lasting : Lasting keep) :
    Closed (ι := Bool) fun _ _ x => SameBut keep (x true) (x false) where
  leaf h := sameBut_leaf lasting h
  throw _ _ code start := ⟨code, rfl, start⟩
  look h blind s code start := by
    obtain ⟨code', same, kept⟩ := h s s code start
    exact ⟨code', (congrFun (congrFun (blind s code) true) _).trans same, kept⟩
  bind first second := first.bind second
  attempt h second _ := h.attempt fun outcome => second (fun _ => True) outcome fun _ _ => trivial
  within frame h := h.attempt fun outcome =>
    (sameBut_leaf lasting (leaf_leave frame)).bind fun _ s code start => by
      cases outcome <;> exact ⟨code, rfl, start⟩

theorem exitNoting_sameBut (lasting : Lasting keep) {ev ev' : Node → Eval Value}
    {note note' : ExitCode → ExitCode → ExitCode}
    (notes : ∀ register code s, keep register s → keep (note register code) s)
    (parts : ∀ node, SameBut keep (ev node) (ev' node)) (code : Node) :
    SameBut keep (exitNoting note ev code) (exitNoting note' ev' code) := by
  have given : SameBut keep (codeFor ev code) (codeFor ev' code) := by
    show SameBut keep (codeFor (pair ev ev' true) code) (codeFor (pair ev ev' false) code)
    exact ((sameBut_closed lasting).compositional fun _ => True).codeFor parts code
  refine given.bind fun code s register start => ⟨note register code, rfl, ?_⟩
  exact lasting _ s _ (notes register code s start) (.refl _)

/-- To change the register before nodes, and to note codes in any way, is to evaluate but for the
register. -/
theorem noting_sameBut {before : Node → Eval Unit} {note : ExitCode → ExitCode → ExitCode}
    (first : ∀ node (s : Session) code, ∃ code', before node (s.exitedWith code) =
      .ok () (s.exitedWith code')) (fuel : Nat) (node : Node) (s : Session) (code : ExitCode) :
    ∃ code', noting before note fuel node (s.exitedWith code) =
      exitedWith code' (eval fuel node s) := by
  have lasting : Lasting fun _ _ => True := fun _ _ _ _ _ => trivial
  rw [← noting_eval]
  obtain ⟨code', same, -⟩ := @Closed.noting Bool _ (sameBut_closed lasting)
    (fun first => bif first then before else fun _ => pure ())
    (fun first => bif first then note else fun _ code => code)
    (fun _ node s code _ => (first node s code).imp fun _ same => ⟨same, trivial⟩)
    (fun _ _ code parts => exitNoting_sameBut lasting (fun _ _ _ _ => trivial) parts code)
    fuel node (fun _ => True) s code trivial
  exact ⟨code', same⟩

end Hetman.Eval
