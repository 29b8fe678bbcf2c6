import Hetman.Proofs.Parser.Following

/-!
# The tokens that a parser takes

`Takes start p Q`: whenever the parser `p`, from a state in `start`, comes to an end without a
complaint, the tokens it has gone through and its result satisfy `Q`. `Takes.bind` puts the tokens
of one parser before those of the next, and `Takes.loop` adds up what the rounds of a loop take.
-/

namespace Hetman.Parser

variable {α β : Type}

variable {test : Token → Bool}

/-! ## From one state to another -/

/-- The tokens between one state and a later one. -/
def State.readTo (s t : State) : List Token :=
  s.rest.take (t.pos - s.pos)

namespace State

theorem readTo_self (s : State) : s.readTo s = [] := by
  rw [readTo, Nat.sub_self, List.take_zero]

theorem readTo_trans {s t u : State} (first : Moves s t) (second : Moves t u) :
    s.readTo u = s.readTo t ++ t.readTo u := by
  have le := first.pos
  have le' := second.pos
  have later : t.rest = s.rest.drop (t.pos - s.pos) := by
    rw [rest, rest, first.tokens, List.drop_drop, Nat.add_sub_cancel' le]
  have sum : u.pos - s.pos = (t.pos - s.pos) + (u.pos - t.pos) := by omega
  rw [readTo, sum, List.take_add, ← later]
  rfl

theorem readTo_skip_one {s : State} {w : Token} (here : s.token? = some w) :
    s.readTo (s.skip 1) = [w] := by
  have one : (s.skip 1).pos - s.pos = 1 := Nat.add_sub_cancel_left _ _
  rw [readTo, one, rest_eq_cons here]
  rfl

end State

/-! ## What is taken -/

/-- The parser goes on; without a complaint, what it takes and gives satisfies `Q`. -/
def Takes (start : State → Prop) (p : Parser α) (Q : List Token → α → Prop) : Prop :=
  ∀ s a t, start s → p s = .ok a t →
    Moves s t ∧ (t.complaints = s.complaints → Q (s.readTo t) a)

variable {g : Option Token → Parser β} {again : α → Parser Bool} {body : α → Parser α}

namespace Takes

variable {start : State → Prop} {p : Parser α} {P Q : List Token → α → Prop}
  {R : List Token → β → Prop} {w : Token}

theorem mono (h : Takes start p P) (weaker : ∀ used a, P used a → Q used a) :
    Takes start p Q :=
  fun s a t starts result =>
    (h s a t starts result).imp_right fun taken same => weaker _ _ (taken same)

theorem anywhere (h : Takes Anywhere p Q) : Takes start p Q :=
  fun s a t _ => h s a t trivial

theorem pure {a : α} (h : Q [] a) : Takes start (pure a) Q := by
  intro s b t _ result
  cases result
  refine ⟨.refl s, fun _ => ?_⟩
  rw [State.readTo_self]
  exact h

theorem throw (stop : Stop) : Takes start (throw stop : Parser α) Q :=
  fun _ _ _ _ result => nomatch result

/-- What is known of the first parser is at hand when the second one ends. -/
theorem bind {f : α → Parser β} (first : Takes start p P)
    (second : ∀ a, Takes Anywhere (f a) fun later b => ∀ used, P used a → R (used ++ later) b) :
    Takes start (p >>= f) R := by
  intro s b t starts result
  obtain ⟨a, u, read, result⟩ := bind_eq_ok result
  obtain ⟨early, taken⟩ := first s a u starts read
  obtain ⟨late, taken'⟩ := second a u b t trivial result
  refine ⟨early.trans late, fun same => ?_⟩
  obtain ⟨sameEarly, sameLate⟩ := early.clean late same
  rw [State.readTo_trans early late]
  exact taken' sameLate _ (taken sameEarly)

theorem ite {c : Prop} [Decidable c] {q : Parser α} (yes : c → Takes start p Q)
    (no : ¬c → Takes start q Q) : Takes start (if c then p else q) Q :=
  iteInduction (motive := (Takes start · Q)) yes no

theorem checkDialect (word : Token) : Takes start (checkDialect word) fun used _ => used = [] := by
  intro s a t _ result
  obtain ⟨u, checked, observed⟩ := Pairing.watches_checkDialect word s
  cases checked.symm.trans result
  refine ⟨observed.moves, fun _ => ?_⟩
  rw [State.readTo, observed.pos, Nat.sub_self, List.take_zero]

theorem checked {word : Token} {g : Unit → Parser β} (h : Takes (At w) (g ()) R) :
    Takes (At w) (Parser.checkDialect word >>= g) R := by
  intro s b t here result
  obtain ⟨u, checked, observed⟩ := Pairing.watches_checkDialect word s
  rw [bind_apply checked] at result
  have here' : At w u := by rw [At, State.token?, observed.tokens, observed.pos]; exact here
  obtain ⟨moved, taken⟩ := h u b t here' result
  refine ⟨observed.moves.trans moved, fun same => ?_⟩
  have read := taken (same.trans observed.complaints.symm)
  rwa [State.readTo, State.rest, observed.tokens, observed.pos] at read

/-! ### Single tokens -/

/-- A parser that only looks. -/
theorem looking (looks : ∀ s a t, p s = .ok a t → t = s) :
    Takes start p fun used _ => used = [] := by
  intro s a t _ result
  rw [looks s a t result]
  exact ⟨.refl s, fun _ => s.readTo_self⟩

theorem opensDictionary : Takes start opensDictionary fun used _ => used = [] := by
  refine .looking fun s a t result => ?_
  rw [opensDictionary_apply] at result
  cases result
  rfl

theorem advance : Takes (At w) advance fun used _ => used = [w] := by
  intro s a t here result
  cases result
  exact ⟨.skip s 1, fun _ => State.readTo_skip_one here⟩

theorem peek (absent : Takes Anywhere (g none) R) (found : ∀ w, Takes (At w) (g (some w)) R) :
    Takes start (peek >>= g) R := by
  intro s b t _ result
  rw [bind_apply (peek_apply s)] at result
  cases here : s.token? with
  | none =>
    rw [here] at result
    exact absent s b t trivial result
  | some w =>
    rw [here] at result
    exact found w s b t here result

theorem peekAt (found : Takes (At w) (g (some w)) R) : Takes (At w) (Parser.peek >>= g) R := by
  intro s b t here result
  rw [bind_apply (peek_apply s), here] at result
  exact found s b t here result

theorem asked {again : Parser Bool} {g : Bool → Parser β} (asks : Asks test again)
    (yes : ∀ w, test w = true → Takes (At w) (g true) R) (no : Takes Anywhere (g false) R) :
    Takes start (again >>= g) R := by
  intro s b t _ result
  obtain ⟨c, u, answer, result⟩ := bind_eq_ok result
  obtain ⟨rfl, passes⟩ := asks.eq_ok answer
  cases c with
  | false => exact no u b t trivial result
  | true =>
    obtain ⟨w, here, passed⟩ := passes rfl
    exact yes w passed u b t here result

theorem nextKind : Takes start nextKind fun used _ => used = [] :=
  .peek (.throw _) fun _ => .pure rfl

/-! ### Asking for tokens -/

/-- A parser that complains whenever it does not stop. -/
theorem complains {token : Option Token} {what : Complaint} {f : Unit → Parser β}
    (later : Takes Anywhere (f ()) fun _ _ => True) :
    Takes start (complain token what >>= f) R := by
  intro s b t _ result
  obtain ⟨a, u, noted, result⟩ := bind_eq_ok result
  obtain ⟨moved, complained⟩ := objects_complain token what s a u noted
  have after := (later u b t trivial result).1
  exact ⟨moved.trans after, fun same => absurd (moved.clean after same).1 complained⟩

theorem failNode (token : Option Token) (what : Complaint) {Q : List Token → Node → Prop} :
    Takes start (failNode token what) Q :=
  complains (.pure trivial)

theorem expect (kind : Kind) :
    Takes start (expect kind) fun used taken =>
      ∃ w, w.kind = kind ∧ used = [w] ∧ taken = some w := by
  intro s a t _ result
  rcases expect_eq_ok result with ⟨w, taken, here, fits, rfl⟩ | ⟨-, moved, complained⟩
  · exact ⟨.skip s 1, fun _ => ⟨w, fits, State.readTo_skip_one here, taken⟩⟩
  · exact ⟨moved, fun same => absurd same complained⟩

theorem demand (kind : Kind) :
    Takes start (demand kind) fun used _ => ∃ w, w.kind = kind ∧ used = [w] := by
  refine (expect kind).bind fun taken => .pure ?_
  rintro used ⟨w, fits, rfl, _⟩
  exact ⟨w, fits, rfl⟩

theorem expectText (kind : Kind) :
    Takes start (expectText kind) fun used _ => ∃ w, w.kind = kind ∧ used = [w] := by
  refine (expect kind).bind fun taken => ?_
  cases taken with
  | none => exact .throw _
  | some w' =>
    refine .pure ?_
    rintro used ⟨w, fits, rfl, _⟩
    exact ⟨w, fits, rfl⟩

theorem expectChecked (kind : Kind) :
    Takes start (expectChecked kind) fun used _ => ∃ w, w.kind = kind ∧ used = [w] := by
  have taking : Takes Anywhere (Parser.expect kind) fun used _ => ∃ w, w.kind = kind ∧ used = [w] :=
    (expect kind).mono fun _ _ ⟨w, fits, taken, _⟩ => ⟨w, fits, taken⟩
  refine .peek taking fun w => ?_
  exact .ite (fun _ => .checked taking.anywhere) fun _ => taking.anywhere

/-! ### Loops -/

theorem repeatWhile (asks : ∀ a, Asks test (again a))
    (rounds : ∀ a w, test w = true →
      Takes (At w) (body a) fun used b => ∀ front, P front a → P (front ++ used) b) (fuel : Nat)
    (a : α) :
    Takes start (repeatWhile again body fuel a)
      fun used b => ∀ front, P front a → P (front ++ used) b := by
  induction fuel generalizing a start with
  | zero => exact .throw _
  | succ fuel ih =>
    refine .asked (asks a) (fun w passes => ?_) (.pure fun front holds => ?_)
    · refine (rounds a w passes).bind fun b => (ih b).mono ?_
      intro later c kept used round front holds
      rw [← List.append_assoc]
      exact kept _ (round front holds)
    · rw [List.append_nil]
      exact holds

theorem loop (asks : ∀ a, Asks test (again a))
    (rounds : ∀ a w, test w = true →
      Takes (At w) (body a) fun used b => ∀ front, P front a → P (front ++ used) b) (a : α) :
    Takes start (loop again body a) fun used b => ∀ front, P front a → P (front ++ used) b :=
  fun s b t starts result => repeatWhile asks rounds _ a s b t starts result

end Takes

end Hetman.Parser
