import Hetman.Proofs.Parser.Productions
import Hetman.Proofs.Parser.Progress

/-!
# Text that follows

What a parser reads without a complaint it reads in the same way when other text follows (`follow`):
the pairings `following old more whole` compare a parser in a text that goes on with `old` with the
same one, given more levels perhaps, in a text that goes on with `more`. Only a statement of which
nothing but separators is left takes in what follows.
-/

namespace Hetman.Parser

open List

variable {α β γ δ : Type}

/-! ## States side by side -/

/-- States before the same tokens, in texts that go on with `old` and `more`. -/
structure Beside (old more front : List Token) (s s' : State) : Prop where
  rest : s.rest = front ++ old
  rest' : s'.rest = front ++ more

namespace Beside

variable {old more front left : List Token} {s s' : State}

theorem skip (h : Beside old more front s s') {n : Nat} (le : n ≤ front.length) :
    Beside old more (front.drop n) (s.skip n) (s'.skip n) := by
  refine ⟨?_, ?_⟩
  · rw [State.rest_skip, h.rest, drop_append_of_le_length le]
  · rw [State.rest_skip, h.rest', drop_append_of_le_length le]

theorem head? (h : Beside old more front s s') (some_left : front ≠ []) : s'.token? = s.token? := by
  obtain ⟨t, rest, rfl⟩ := exists_cons_of_ne_nil some_left
  rw [State.token?_eq, State.token?_eq, h.rest, h.rest']
  rfl

theorem left_eq (h : Beside old more front s s') (rest : s.rest = left ++ old) : left = front :=
  append_cancel_right (rest.symm.trans h.rest)

theorem remaining_le (h : Beside old more front s s') (room : old.length ≤ more.length) :
    s.remaining ≤ s'.remaining := by
  rw [State.remaining_eq, State.remaining_eq, h.rest, h.rest', length_append, length_append]
  omega

end Beside

/-! ## Readings side by side -/

namespace Pairing

variable {P : Pairing} {start : State → State → Prop} {v : α → γ} {p q : Parser α}

theorem AgreeFrom.view {w : α → δ} (h : P.AgreeFrom start v p q)
    (coarser : ∀ a b, v a = v b → w a = w b) : P.AgreeFrom start w p q where
  moves := h.moves
  locks s s' related started counts := by
    have locked := h.locks s s' related started counts
    generalize p s = result at locked
    generalize q s' = result' at locked
    cases locked with
    | ok same after abreast => exact .ok (coarser _ _ same) after abreast
    | error alike => exact .error alike

section Following

variable {old more : List Token} {whole : Prop} {room : old.length ≤ more.length}
  {apart : whole → Apart more}

/-- A reading without a complaint, with other text to follow. -/
theorem follow {front : List Token} {s s' t : State} {a : α}
    (h : (following old more whole room apart).AgreeFrom start id p q)
    (beside : Beside old more front s s') (starts : start s s') (result : p s = .ok a t)
    (clean : t.complaints = s.complaints) (within : (following old more whole room apart).Within t) :
    ∃ t' left, q s' = .ok a t' ∧ Beside old more left t t' ∧ t'.complaints = s'.complaints := by
  have locked := h.locks s s' ⟨front, front, beside.rest, beside.rest', rfl⟩ starts
    (by rw [result]; exact ⟨fun _ => clean, within⟩)
  rw [result] at locked
  generalize q s' = result' at locked
  cases locked with
  | ok same related abreast =>
    cases same
    obtain ⟨left, _, rest, rest', rfl⟩ := related
    obtain ⟨new, new', noted, noted', alike⟩ := abreast.complaints
    rw [noted, append_right_eq_self] at clean
    rw [clean, map_nil, eq_comm, map_eq_nil_iff] at alike
    rw [alike, append_nil] at noted'
    exact ⟨_, left, rfl, ⟨rest, rest'⟩, noted'⟩

theorem AgreeFrom.ofNode {p q : Parser Node}
    (h : (following old more whole room apart).AgreeFrom start
      (following old more whole room apart).node p q) :
    (following old more whole room apart).AgreeFrom start id p q := by
  have plain : ∀ a : Node, (following old more whole room apart).node a = a := Node.respell_id
  refine h.view fun a b same => ?_
  rw [plain, plain] at same
  exact same

theorem AgreeFrom.ofNodes {p q : Parser (List Node)}
    (h : (following old more whole room apart).AgreeFrom start
      (following old more whole room apart).nodes p q) :
    (following old more whole room apart).AgreeFrom start id p q := by
  have plain : ∀ nodes, (following old more whole room apart).nodes nodes = nodes :=
    Node.respellAll_id
  refine h.view fun a b same => ?_
  rw [plain, plain] at same
  exact same

end Following

/-- Texts that are at the same tokens. -/
def together : Pairing :=
  following [] [] True room_for_nothing apart_of_nothing

theorem together_shut : ¬together.Open :=
  fun opened => opened.2 rfl

end Pairing

end Hetman.Parser
