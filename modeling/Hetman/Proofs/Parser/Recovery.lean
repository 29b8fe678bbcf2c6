import Hetman.Proofs.Parser.Reads

/-!
# Skipping and complaining

What the basic moves of the parser do to a state: skipping tokens, going to the next recovery point,
and asking for a token of a kind.
-/

namespace Hetman.Parser

open List

namespace State

/-- The state after a problem is noted. -/
def note (s : State) (problem : Problem) : State :=
  { s with problems := s.problems ++ [problem] }

@[simp] theorem rest_note (s : State) (problem : Problem) : (s.note problem).rest = s.rest := rfl

theorem rest_eq_nil_iff (s : State) : s.rest = [] ↔ s.token? = none := by
  rw [token?_eq, head?_eq_none_iff]

theorem rest_eq_cons {s : State} {t : Token} (here : s.token? = some t) :
    s.rest = t :: s.rest.tail := by
  rw [token?_eq] at here
  exact (cons_head?_tail here).symm

end State

/-- The number of tokens at the front that pass a test. -/
def runOf (test : Token → Bool) (tokens : List Token) : Nat :=
  (tokens.takeWhile test).length

theorem runOf_le (test : Token → Bool) (tokens : List Token) : runOf test tokens ≤ tokens.length :=
  (List.takeWhile_prefix test).length_le

theorem drop_runOf (test : Token → Bool) (tokens : List Token) :
    tokens.drop (runOf test tokens) = tokens.dropWhile test := by
  induction tokens with
  | nil => rfl
  | cons t rest ih =>
    unfold runOf at ih ⊢
    by_cases passes : test t = true
    · simp [takeWhile_cons_of_pos passes, dropWhile_cons_of_pos passes, ih]
    · simp [takeWhile_cons_of_neg passes, dropWhile_cons_of_neg passes]

theorem skipWhile_apply (test : Token → Bool) (fuel : Nat) (s : State)
    (enough : s.rest.length < fuel) :
    repeatWhile (fun _ => nextIs test) (fun _ => advance) fuel () s =
      .ok () (s.skip (runOf test s.rest)) := by
  induction fuel generalizing s with
  | zero => omega
  | succ fuel ih =>
    unfold repeatWhile
    rw [bind_apply (nextIs_apply test s)]
    cases left : s.rest with
    | nil => rfl
    | cons t rest =>
      cases passes : test t with
      | true =>
        have shorter : (s.skip 1).rest = rest := by simp [left]
        have room : (s.skip 1).rest.length < fuel := by
          rw [shorter]
          rw [left, length_cons] at enough
          omega
        have count : runOf test (t :: rest) = 1 + runOf test rest := by
          simp [runOf, takeWhile_cons_of_pos passes, Nat.add_comm]
        simp only [head?_cons, Option.any_some, passes, if_true]
        rw [bind_apply (advance_apply s), ih (s.skip 1) room, shorter, State.skip_skip, count]
      | false =>
        have none_passes : runOf test (t :: rest) = 0 := by
          simp [runOf, takeWhile_cons_of_neg (Bool.eq_false_iff.mp passes)]
        simp only [head?_cons, Option.any_some, passes]
        rw [none_passes]
        rfl

theorem skipLoop_apply (test : Token → Bool) (s : State) :
    loop (fun _ => nextIs test) (fun _ => advance) () s = .ok () (s.skip (runOf test s.rest)) := by
  exact skipWhile_apply test _ s (by rw [State.remaining_eq]; omega)

/-! ## Recovery -/

/-- How many tokens are skipped up to the next recovery point. -/
def syncLength : List Token → Nat
  | [] => 0
  | _ :: rest => 1 + runOf (fun t => !isRecoveryPoint t) rest

theorem syncLength_le (tokens : List Token) : syncLength tokens ≤ tokens.length := by
  cases tokens with
  | nil => exact Nat.le_refl _
  | cons t rest =>
    have le := runOf_le (fun t => !isRecoveryPoint t) rest
    show 1 + runOf _ rest ≤ rest.length + 1
    omega

theorem synchronize_apply (s : State) : synchronize s = .ok () (s.skip (syncLength s.rest)) := by
  unfold synchronize
  rw [bind_apply (isAtEnd_apply s)]
  cases left : s.rest with
  | nil =>
    have skipped := skipLoop_apply (fun t => !isRecoveryPoint t) s
    rw [left] at skipped
    exact skipped
  | cons t rest =>
    have shorter : (s.skip 1).rest = rest := by simp [left]
    have skipped := skipLoop_apply (fun t => !isRecoveryPoint t) (s.skip 1)
    rw [shorter, State.skip_skip] at skipped
    exact skipped

theorem complain_apply (token : Option Token) (what : Complaint) (s : State) :
    complain token what s =
      .ok () ((s.note (.complaint token what)).skip (syncLength s.rest)) := by
  unfold complain
  have noted : report (.complaint token what) s = .ok () (s.note (.complaint token what)) := rfl
  rw [bind_apply noted, synchronize_apply, State.rest_note]

theorem expect_cases (kind : Kind) (s : State) :
    (∃ t, s.token? = some t ∧ t.kind = kind ∧ expect kind s = .ok (some t) (s.skip 1)) ∨
      ((∀ t, s.token? = some t → t.kind ≠ kind) ∧
        expect kind s = .ok none
          ((s.note (.complaint s.token? (.expected kind))).skip (syncLength s.rest))) := by
  cases here : s.token? with
  | none =>
    refine .inr ⟨fun t found => (nomatch found), ?_⟩
    unfold expect
    rw [bind_apply (peek_apply s), here]
    show (complain none (.expected kind) >>= fun _ => pure none) s = _
    rw [bind_apply (complain_apply none (.expected kind) s)]
    rfl
  | some t =>
    by_cases fits : t.kind = kind
    · exact .inl ⟨t, rfl, fits, expect_found here fits⟩
    · refine .inr ⟨fun u found => Option.some.inj found ▸ fits, ?_⟩
      unfold expect
      rw [bind_apply (peek_apply s), here]
      simp only [if_neg fits]
      rw [bind_apply (complain_apply (some t) (.expected kind) s)]
      rfl

end Hetman.Parser
