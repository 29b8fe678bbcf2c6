import Hetman.Proofs.Eval.CutShort

/-!
# Loops with a step

What a program does is what it comes to when the bound on its steps grows: it ends with a result
that stays the same from some bound on (`Ends`), or it runs out of steps under every bound
(`Diverges`). Evaluations that cut each other short are alike in this (`Alike`), and so a loop with
a step is to a loop with the step at the end of its body (`forLoop_alike_whileLoop`).
-/

namespace Hetman.Eval

variable {α : Type}

/-- From some bound on the evaluation has a result, and not that the steps are used up. -/
def Ends (x : Nat → Eval α) (s : Session) (r : EStateM.Result Signal Session α) : Prop :=
  (∀ t, r ≠ .error (.suspended .steps) t) ∧ ∃ least, ∀ n, least ≤ n → x n s = r

/-- The steps run out, however many there are. -/
def Diverges (x : Nat → Eval α) (s : Session) : Prop :=
  ∀ n, ∃ t, x n s = .error (.suspended .steps) t

/-- The text is a beginning of the output after enough steps. -/
def Prints (x : Nat → Eval α) (s : Session) (text : String) : Prop :=
  ∃ n, Continues text (ending (x n s)).output

/-- The evaluations have the same result or both diverge, and write the same. -/
structure Alike (x y : Nat → Eval α) (s : Session) : Prop where
  outcome : (∃ r, Ends x s r ∧ Ends y s r) ∨ (Diverges x s ∧ Diverges y s)
  output : ∀ text, Prints x s text ↔ Prints y s text

theorem CutShort.eq_of_ended {x y : Eval α} (h : CutShort x y) {s : Session}
    (ended : ∀ t, x s ≠ .error (.suspended .steps) t) : y s = x s := by
  rcases h.cut s with same | ⟨t, stopped, _⟩
  · exact same.symm
  · exact absurd stopped (ended t)

theorem CutShort.continues {x y : Eval α} (h : CutShort x y) (s : Session) :
    Continues (ending (x s)).output (ending (y s)).output := by
  rcases h.cut s with same | ⟨t, stopped, begun⟩
  · rw [same]
  · rw [stopped]
    exact begun

theorem alike_of_cutShort {x y : Nat → Eval α} (below : ∀ n, CutShort (x n) (y n))
    (above : ∀ n, CutShort (y n) (x (n + 1))) (s : Session) : Alike x y s where
  outcome := by
    by_cases ends : ∃ n, ∀ t, x n s ≠ .error (.suspended .steps) t
    · obtain ⟨n, ended⟩ := ends
      have stays : ∀ m, n ≤ m → x m s = x n s ∧ y m s = x n s := by
        intro m later
        induction later with
        | refl => exact ⟨rfl, (below n).eq_of_ended ended⟩
        | @step m _ ih =>
          have first : x (m + 1) s = x n s := by
            rw [(above m).eq_of_ended (ih.2 ▸ ended), ih.2]
          exact ⟨first, by rw [(below (m + 1)).eq_of_ended (first ▸ ended), first]⟩
      exact .inl ⟨x n s, ⟨ended, n, fun m later => (stays m later).1⟩,
        ended, n, fun m later => (stays m later).2⟩
    · have stopped : Diverges x s := fun n =>
        Classical.byContradiction fun ended => ends ⟨n, fun t result => ended ⟨t, result⟩⟩
      refine .inr ⟨stopped, fun n => ?_⟩
      rcases (above n).cut s with same | ⟨t, result, _⟩
      · rw [same]
        exact stopped (n + 1)
      · exact ⟨t, result⟩
  output text := by
    constructor
    · rintro ⟨n, written⟩
      exact ⟨n, written.trans ((below n).continues s)⟩
    · rintro ⟨n, written⟩
      exact ⟨n + 1, written.trans ((above n).continues s)⟩

/-- With one step more, the loop is its beginning and then a loop with the step at the end of its
body. -/
theorem eval_forLoop (fuel : Nat) (init condition step : Node) (body : List Node) :
    eval (fuel + 1) (.forLoop init condition step body) =
      (eval fuel init >>= fun _ => eval (fuel + 1) (.whileLoop condition (body ++ [step]))) := by
  show (eval fuel init >>= fun _ => forLoop (eval fuel) condition step body fuel >>= _) = _
  rw [forLoop_eq_whileLoop]
  rfl

/-- A loop with a beginning, a condition, a step and a body does what its beginning does and then a
loop with the condition and the body, to which the step is added: both come to the same value,
return, error or exit in the same session, or neither ends, and they write the same. -/
theorem forLoop_alike_whileLoop (init condition step : Node) (body : List Node) (s : Session) :
    Alike (fun n => eval n (.forLoop init condition step body))
      (fun n => eval n init >>= fun _ => eval n (.whileLoop condition (body ++ [step]))) s := by
  refine alike_of_cutShort (fun n => ?_) (fun n => ?_) s
  · cases n with
    | zero => exact .throw _
    | succ n =>
      simp only [eval_forLoop]
      exact (cutShort_eval n init).bind fun _ => cutShort_self (n + 1) _
  · simp only [eval_forLoop]
    exact (cutShort_self n init).bind fun _ => cutShort_eval n _

end Hetman.Eval
