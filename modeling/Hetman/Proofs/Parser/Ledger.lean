import Hetman.Proofs.Parser.Foreign

/-!
# How often a word is held against the dialect

A ledger lists the tokens that have been passed, each with the number of times that it was held
against the dialect; the violations are those on the list, each as often as it says (`Ledger`). That
number depends on the kind of the token, and in a text without complaints mostly on nothing else
(`usualChecks`). A ledger is carried over from a state to a later one (`Carried`) by each move of
the parser.
-/

namespace Hetman.Parser

open List

variable {s t u : State} {w : Token} {k : Nat}

/-! ## Words of other dialects -/

/-- What strict mode notes on a word of another dialect, but not of both Slavic ones. -/
def foreign? (d : Dialect) (t : Token) : Option Violation :=
  (verdict? d t).filter (·.origin ≠ .slavic)

namespace State

def foreign (s : State) : List Violation :=
  s.violations.filter (·.origin ≠ .slavic)

/-- The dialect is this one, or has not been found yet. -/
def Admits (s : State) (d : Dialect) : Prop :=
  ∀ e, s.dialect = some e → e = d

end State

theorem foreign_note (s : State) (v : Violation) :
    (s.note (.foreign v)).foreign = s.foreign ++ [v].filter (·.origin ≠ .slavic) := by
  unfold State.foreign State.violations State.note
  rw [filterMap_append, filter_append]
  rfl

theorem foreign_judge (s : State) (d : Dialect) (w : Token) :
    (s.judge d w).foreign = s.foreign ++ (foreign? d w).toList := by
  unfold State.judge foreign?
  cases verdict? d w with
  | none => exact (append_nil _).symm
  | some v =>
    rw [foreign_note]
    by_cases slavic : v.origin = .slavic <;> simp [slavic, Option.filter_some]

/-- A word that decides on a dialect is not foreign to it, and one that decides on none is foreign
to none, words of both Slavic dialects aside. -/
theorem checkDialect_undecided (strict : s.strict = true) (undecided : s.dialect = none)
    (w : Token) : ∃ found, checkDialect w s = .ok () { s with dialect := found } ∧
      ∀ d, (∀ e, found = some e → e = d) → foreign? d w = none := by
  have stays : (pure () : Parser Unit) s = .ok () { s with dialect := none } := by
    rw [← undecided]
    rfl
  unfold checkDialect foreign? verdict?
  rw [get_apply, if_pos strict]
  cases w.payload with
  | number n => exact ⟨none, stays, fun _ _ => rfl⟩
  | text word =>
    by_cases shared : sharedSlavic.contains word = true
    · simp only [if_pos shared, undecided]
      refine ⟨none, stays, fun d _ => ?_⟩
      cases d.isSlavic <;> rfl
    · simp only [if_neg shared]
      cases Dialect.ofWord? word with
      | none => exact ⟨none, stays, fun _ _ => rfl⟩
      | some origin =>
        simp only [undecided]
        refine ⟨some origin, rfl, fun d admits => ?_⟩
        simp only [admits origin rfl]
        rfl

/-- A word is noted if it is foreign to the dialect. -/
theorem checkDialect_foreign (strict : s.strict = true) (w : Token) :
    ∃ u, checkDialect w s = .ok () u ∧ Pairing.Observes s u ∧
      ∀ d, u.Admits d → s.Admits d ∧ u.foreign = s.foreign ++ (foreign? d w).toList := by
  obtain ⟨u, result, observed⟩ := Pairing.watches_checkDialect w s
  refine ⟨u, result, observed, fun d admits => ?_⟩
  cases found : s.dialect with
  | some e =>
    rw [checkDialect_judge strict found] at result
    cases result
    have same : (s.judge e w).dialect = some e := by
      unfold State.judge
      cases verdict? e w <;> exact found
    cases admits e same
    refine ⟨fun e other => ?_, foreign_judge s d w⟩
    exact (Option.some.inj (found.symm.trans other)).symm
  | none =>
    obtain ⟨decided, result', unnoted⟩ := checkDialect_undecided strict found w
    cases result'.symm.trans result
    refine ⟨fun e other => ?_, ?_⟩
    · rw [found] at other
      cases other
    · rw [unnoted d admits]
      exact (append_nil _).symm

theorem checkDialect_skip (w : Token) (s : State) (n : Nat) :
    ∃ u, checkDialect w s = .ok () u ∧ checkDialect w (s.skip n) = .ok () (u.skip n) := by
  unfold checkDialect
  rw [get_apply, get_apply]
  obtain ⟨tokens, pos, problems, strict, dialect⟩ := s
  dsimp only [State.skip]
  cases strict with
  | false => exact ⟨_, rfl, rfl⟩
  | true =>
    cases w.payload with
    | number n => exact ⟨_, rfl, rfl⟩
    | text word =>
      by_cases shared : sharedSlavic.contains word = true
      · simp only [if_pos shared]
        cases dialect with
        | none => exact ⟨_, rfl, rfl⟩
        | some d =>
          by_cases slavic : d.isSlavic = true
          · simp only [if_pos slavic]
            exact ⟨_, rfl, rfl⟩
          · simp only [if_neg slavic]
            exact ⟨_, rfl, rfl⟩
      · simp only [if_neg shared]
        cases Dialect.ofWord? word with
        | none => exact ⟨_, rfl, rfl⟩
        | some origin =>
          cases dialect with
          | none => exact ⟨_, rfl, rfl⟩
          | some d =>
            by_cases own : d = origin
            · simp only [if_pos own]
              exact ⟨_, rfl, rfl⟩
            · simp only [if_neg own]
              exact ⟨_, rfl, rfl⟩

/-! ## Ledgers -/

/-- How often a token of a kind is held against the dialect at most. -/
def mostChecks : Kind → Nat
  | .keyword .forLoop => 3
  | .keyword k =>
    if isStatementKeyword (.keyword k) || k = .super then 2
    else if [.start, .elseIf, .elseBranch, .each, .catchBlock, .finallyBlock].contains k then 0
    else 1
  | .ident => 1
  | _ => 0

/-- How often without complaints. A function is also a member of a class, and `Super` also begins a
statement; a type is not looked at where it declares a field. -/
def usualChecks (kind : Kind) (field : Bool) : List Nat :=
  match kind with
  | .keyword .function => [0, 2]
  | .keyword .super => [1, 2]
  | .ident => [0, 1]
  | kind => if isTypeKind kind && field then [0] else [mostChecks kind]

/-- The tokens after a type make it the type of a field. -/
def declaresField : List Token → Bool
  | name :: mark :: _ => name.kind = .ident && mark.kind = .semicolon
  | _ => false

/-- A token may have been held against the dialect so often, given what follows. -/
def Counts (clean : Prop) (after : List Token) (w : Token) (k : Nat) : Prop :=
  k ≤ mostChecks w.kind ∧ (clean → k ∈ usualChecks w.kind (declaresField after))

/-- What is noted on tokens that were held against the dialect. -/
def tally (d : Dialect) (entries : List (Token × Nat)) : List Violation :=
  entries.flatMap fun entry => (List.replicate entry.2 entry.1).filterMap (foreign? d)

theorem tally_append (d : Dialect) (entries entries' : List (Token × Nat)) :
    tally d (entries ++ entries') = tally d entries ++ tally d entries' :=
  flatMap_append

theorem tally_succ (d : Dialect) (w : Token) (k : Nat) :
    tally d [(w, k + 1)] = tally d [(w, k)] ++ (foreign? d w).toList := by
  simp only [tally, flatMap_singleton, replicate_succ']
  cases found : foreign? d w <;> simp [found]

/-- The next token, if any, with a number of times. -/
def State.entry (s : State) (k : Nat) : List (Token × Nat) :=
  s.token?.toList.map fun t => (t, k)

theorem tally_entry_zero (d : Dialect) (s : State) : tally d (s.entry 0) = [] := by
  unfold State.entry
  cases s.token? <;> rfl

/-- An account of the tokens passed, while the next one has been held against the dialect `k` times.
-/
structure Ledger (clean : Prop) (s : State) (k : Nat) (passed : List (Token × Nat)) : Prop where
  strict : s.strict = true
  tokens : passed.map Prod.fst ++ s.rest = s.tokens.toList
  pos : passed.length = s.pos
  counts : ∀ i w n, passed[i]? = some (w, n) → Counts clean (s.tokens.toList.drop (i + 1)) w n
  noted : ∀ d, s.Admits d → s.foreign = tally d (passed ++ s.entry k)

def Booked (clean : Prop) (s : State) (k : Nat) : Prop :=
  ∃ passed, Ledger clean s k passed

namespace Booked

variable {clean : Prop}

theorem check (here : s.token? = some w) (result : checkDialect w s = .ok () u)
    (h : Booked clean s k) : Booked clean u (k + 1) := by
  obtain ⟨passed, ledger⟩ := h
  obtain ⟨u', result', observed, notes⟩ := checkDialect_foreign ledger.strict w
  cases result'.symm.trans result
  have rest : u.rest = s.rest := by
    unfold State.rest
    rw [observed.tokens, observed.pos]
  have next : u.token? = some w := by
    unfold State.token?
    rw [observed.tokens, observed.pos]
    exact here
  refine ⟨passed, observed.strict.trans ledger.strict, ?_, ledger.pos.trans observed.pos.symm, ?_,
    ?_⟩
  · rw [rest, observed.tokens]
    exact ledger.tokens
  · rw [observed.tokens]
    exact ledger.counts
  · intro d admits
    obtain ⟨before, added⟩ := notes d admits
    have entry : ∀ n, s.entry n = [(w, n)] ∧ u.entry n = [(w, n)] := by
      intro n
      unfold State.entry
      rw [here, next]
      exact ⟨rfl, rfl⟩
    rw [added, ledger.noted d before, (entry k).1, (entry (k + 1)).2, tally_append, tally_append,
      tally_succ, append_assoc]

theorem pass (here : s.token? = some w) (fits : Counts clean (s.rest.drop 1) w k)
    (h : Booked clean s k) : Booked clean (s.skip 1) 0 := by
  obtain ⟨passed, ledger⟩ := h
  have left := State.rest_eq_cons here
  have entry : s.entry k = [(w, k)] := by
    unfold State.entry
    rw [here]
    rfl
  refine ⟨passed ++ [(w, k)], ledger.strict, ?_, ?_, ?_, ?_⟩
  · have tokens := ledger.tokens
    rw [left] at tokens
    rw [State.rest_skip, left, map_append, append_assoc]
    exact tokens
  · rw [length_append, ledger.pos]
    rfl
  · intro i v n found
    rcases Nat.lt_trichotomy i passed.length with before | rfl | after
    · rw [getElem?_append_left before] at found
      exact ledger.counts i v n found
    · rw [getElem?_concat_length] at found
      cases found
      have after : s.tokens.toList.drop (passed.length + 1) = s.rest.drop 1 := by
        rw [ledger.pos, State.rest, drop_drop]
      rw [show (s.skip 1).tokens = s.tokens from rfl, after]
      exact fits
    · rw [getElem?_eq_none (by simp; omega)] at found
      cases found
  · intro d admits
    rw [tally_append, tally_entry_zero, append_nil, ← entry]
    exact ledger.noted d admits

theorem note (token : Option Token) (what : Complaint) (h : Booked clean s k) :
    Booked clean (s.note (.complaint token what)) k := by
  obtain ⟨passed, ledger⟩ := h
  have same : (s.note (.complaint token what)).foreign = s.foreign := by
    unfold State.foreign State.violations State.note
    rw [filterMap_append, filter_append]
    exact append_nil _
  refine ⟨passed, ledger.strict, ledger.tokens, ledger.pos, ledger.counts, fun d admits => ?_⟩
  rw [same]
  exact ledger.noted d admits

/-- After a complaint, tokens are passed unseen. -/
theorem skip (complained : ¬clean) (h : Booked clean s 0) {n : Nat} (le : n ≤ s.rest.length) :
    Booked clean (s.skip n) 0 := by
  induction n with
  | zero => exact h
  | succ n ih =>
    have before := ih (by omega)
    have left : 0 < (s.skip n).rest.length := by
      rw [State.rest_skip, length_drop]
      omega
    obtain ⟨w, rest, next⟩ := exists_cons_of_length_pos left
    have here : (s.skip n).token? = some w := by
      rw [State.token?_eq, next]
      rfl
    have passed := before.pass here ⟨Nat.zero_le _, fun h => absurd h complained⟩
    exact passed

end Booked

/-! ## Carrying an account over -/

/-- Complaints stay, and an account in which the next token has been held against the dialect `k`
times can be carried over to the later state, if that counts: where only readings without complaints
do, it has none. -/
structure Carried (k : Nat) (s u : State) : Prop where
  complaints : u.complaints = [] → s.complaints = []
  booked : ∀ clean : Prop, (clean → u.complaints = []) → Booked clean s k → Booked clean u 0

/-- A token may always be passed after so many checks. -/
def passable (kind : Kind) (k : Nat) : Bool :=
  decide (k ≤ mostChecks kind) && [true, false].all fun field => (usualChecks kind field).contains k

theorem counts_of_passable {clean : Prop} (h : passable w.kind k = true) (after : List Token) :
    Counts clean after w k := by
  obtain ⟨most, usual⟩ := Bool.and_eq_true_iff.mp h
  refine ⟨of_decide_eq_true most, fun _ => contains_iff_mem.mp ?_⟩
  exact all_eq_true.mp usual _ (by cases declaresField after <;> decide)

namespace Carried

theorem refl (s : State) : Carried 0 s s :=
  ⟨id, fun _ _ => id⟩

theorem trans (first : Carried k s t) (second : Carried 0 t u) : Carried k s u := by
  refine ⟨fun quiet => first.complaints (second.complaints quiet), fun clean counts booked => ?_⟩
  refine second.booked clean counts (first.booked clean (fun isClean => ?_) booked)
  exact second.complaints (counts isClean)

theorem check (here : s.token? = some w) (looked : checkDialect w s = .ok () t)
    (later : Carried (k + 1) t u) : Carried k s u := by
  obtain ⟨t', looked', observed⟩ := Pairing.watches_checkDialect w s
  cases looked'.symm.trans looked
  refine ⟨fun quiet => observed.complaints ▸ later.complaints quiet, fun clean counts booked => ?_⟩
  exact later.booked clean counts (booked.check here looked)

/-- The next token is passed, and what follows tells how often it was held against the dialect in a
clean text. -/
theorem passThen (here : s.token? = some w) (most : k ≤ mostChecks w.kind)
    (usual : u.complaints = [] → k ∈ usualChecks w.kind (declaresField (s.skip 1).rest))
    (later : Carried 0 (s.skip 1) u) : Carried k s u := by
  refine ⟨later.complaints, fun clean counts booked => ?_⟩
  refine later.booked clean counts (booked.pass here ⟨most, fun isClean => ?_⟩)
  have fits := usual (counts isClean)
  rw [State.rest_skip] at fits
  exact fits

theorem pass (here : s.token? = some w) (passes : passable w.kind k = true) :
    Carried k s (s.skip 1) :=
  ⟨id, fun _ _ booked => booked.pass here (counts_of_passable passes _)⟩

theorem noted (s : State) (token : Option Token) (what : Complaint) {n : Nat}
    (le : n ≤ s.rest.length) : Carried 0 s ((s.note (.complaint token what)).skip n) := by
  have complaints : ((s.note (.complaint token what)).skip n).complaints =
      s.complaints ++ [.complaint token what] := s.complaints_note token what
  refine ⟨fun quiet => ?_, fun clean counts booked => ?_⟩
  · rw [complaints] at quiet
    simp at quiet
  · have complained : ¬clean := by
      intro isClean
      have nothing := counts isClean
      rw [complaints] at nothing
      simp at nothing
    exact (booked.note token what).skip complained le

end Carried

end Hetman.Parser
