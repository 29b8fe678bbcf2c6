import Hetman.Proofs.Parser.Agreement

/-!
# Words of other dialects

Once the dialect of a program is found, strict mode judges every token on its own (`verdict?`): a
word is foreign if the first dialect that has it is another one. `Heeds`: a reading stays in its
mode and with its dialect, and notes verdicts on tokens of the text.
-/

namespace Hetman.Parser

variable {d : Dialect} {s t u : State} {w : Token}

/-! ## Verdicts -/

/-- What strict mode notes on a token in a program of a dialect. -/
def verdict? (d : Dialect) (t : Token) : Option Violation :=
  match t.payload with
  | .number _ => none
  | .text word =>
    if sharedSlavic.contains word then
      if d.isSlavic then none else some ⟨t, .slavic, d⟩
    else
      match Dialect.ofWord? word with
      | none => none
      | some origin => if d = origin then none else some ⟨t, .dialect origin, d⟩

/-- A foreign word is one of both Slavic dialects and this is none of them, or the first dialect
that has it is another one. -/
theorem verdict?_eq_some {v : Violation} (foreign : verdict? d w = some v) :
    ∃ word, w.payload = .text word ∧
      (sharedSlavic.contains word = true ∧ d.isSlavic = false ∧ v = ⟨w, .slavic, d⟩ ∨
        sharedSlavic.contains word = false ∧
          ∃ origin, Dialect.ofWord? word = some origin ∧ d ≠ origin ∧
            v = ⟨w, .dialect origin, d⟩) := by
  unfold verdict? at foreign
  cases payload : w.payload with
  | number n =>
    rw [payload] at foreign
    cases foreign
  | text word =>
    rw [payload] at foreign
    refine ⟨word, rfl, ?_⟩
    cases shared : sharedSlavic.contains word with
    | true =>
      simp only [shared] at foreign
      cases slavic : d.isSlavic with
      | true =>
        rw [slavic] at foreign
        cases foreign
      | false =>
        rw [slavic] at foreign
        cases foreign
        exact .inl ⟨rfl, rfl, rfl⟩
    | false =>
      simp only [shared] at foreign
      cases found : Dialect.ofWord? word with
      | none =>
        rw [found] at foreign
        cases foreign
      | some origin =>
        rw [found] at foreign
        by_cases own : d = origin
        · simp only [if_pos own] at foreign
          cases foreign
        · simp only [if_neg own] at foreign
          cases foreign
          exact .inr ⟨rfl, origin, rfl, own, rfl⟩

def State.judge (s : State) (d : Dialect) (t : Token) : State :=
  match verdict? d t with
  | some violation => s.note (.foreign violation)
  | none => s

theorem checkDialect_judge (strict : s.strict = true) (found : s.dialect = some d) (w : Token) :
    checkDialect w s = .ok () (s.judge d w) := by
  unfold checkDialect State.judge verdict?
  rw [get_apply, if_pos strict]
  cases w.payload with
  | number n => rfl
  | text word =>
    by_cases shared : sharedSlavic.contains word = true
    · simp only [if_pos shared, found]
      cases d.isSlavic <;> rfl
    · simp only [if_neg shared, found]
      cases Dialect.ofWord? word with
      | none => rfl
      | some origin =>
        by_cases own : d = origin
        · simp only [if_pos own]
          rfl
        · simp only [if_neg own]
          rfl

/-- The mode and a dialect that was found stay; what is noted are verdicts on tokens of the text. -/
structure Heeds (s t : State) : Prop where
  strict : t.strict = s.strict
  dialect : ∀ d, s.dialect = some d → t.dialect = some d
  violations : ∀ d, s.dialect = some d → ∀ v ∈ t.violations,
    v ∈ s.violations ∨ ∃ w ∈ s.tokens, verdict? d w = some v

namespace Heeds

/-- Nothing is noted but complaints. -/
theorem of_same (strict : t.strict = s.strict) (dialect : t.dialect = s.dialect)
    (violations : t.violations = s.violations) : Heeds s t where
  strict := strict
  dialect _ found := dialect.trans found
  violations _ _ _ noted := .inl (violations ▸ noted)

theorem of_undecided (strict : t.strict = s.strict) (undecided : s.dialect = none) : Heeds s t := by
  refine ⟨strict, ?_, ?_⟩
  · intro d found
    rw [undecided] at found
    cases found
  · intro d found
    rw [undecided] at found
    cases found

theorem refl (s : State) : Heeds s s :=
  of_same rfl rfl rfl

theorem trans (first : Heeds s t) (second : Heeds t u) (tokens : t.tokens = s.tokens) :
    Heeds s u where
  strict := second.strict.trans first.strict
  dialect d found := second.dialect d (first.dialect d found)
  violations d found v noted := by
    rcases second.violations d (first.dialect d found) v noted with before | judged
    · exact first.violations d found v before
    · rw [tokens] at judged
      exact .inr judged

theorem note (s : State) (token : Option Token) (what : Complaint) :
    Heeds s (s.note (.complaint token what)) := by
  have unnoted : (s.note (.complaint token what)).violations = s.violations := by
    unfold State.violations State.note
    rw [List.filterMap_append]
    exact List.append_nil _
  exact of_same (t := s.note (.complaint token what)) rfl rfl unnoted

theorem judge (found : s.dialect = some d) (inText : w ∈ s.tokens) : Heeds s (s.judge d w) := by
  unfold State.judge
  cases verdict : verdict? d w with
  | none => exact refl s
  | some violation =>
    refine ⟨rfl, fun _ same => same, fun d' found' v noted => ?_⟩
    cases found.symm.trans found'
    unfold State.violations State.note at noted
    rw [List.filterMap_append] at noted
    rcases List.mem_append.1 noted with before | new
    · exact .inl before
    · cases List.mem_singleton.1 new
      exact .inr ⟨w, inText, verdict⟩

end Heeds

theorem checkDialect_stays (inText : w ∈ s.tokens) :
    ∃ u, checkDialect w s = .ok () u ∧ u.tokens = s.tokens ∧ u.pos = s.pos ∧ Heeds s u := by
  obtain ⟨u, result, observed⟩ := Pairing.watches_checkDialect w s
  refine ⟨u, result, observed.tokens, observed.pos, ?_⟩
  cases strict : s.strict with
  | false =>
    rw [observed.plain strict]
    exact .refl s
  | true =>
    cases found : s.dialect with
    | none => exact .of_undecided observed.strict found
    | some d =>
      rw [checkDialect_judge strict found] at result
      cases result
      exact .judge found inText

end Hetman.Parser
