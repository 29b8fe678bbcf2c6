import Hetman.Proofs.Parser.Outcomes

/-!
# False alarms

A dialect admits its own words, and a Slavic one the words that both have. What a dialect admits is
not foreign to it (`verdict?_admitted`), but for one word: the Russian word for private members is
also Ukrainian, and the Ukrainian words are looked up first (`violations_of_admitted`).
-/

namespace Hetman

variable {word : String}

/-- A word may stand in a program of a dialect: it belongs to no dialect, to this one, or to both
Slavic ones if this is one of them. -/
def Dialect.admits (d : Dialect) (word : String) : Bool :=
  if sharedSlavic.contains word || Dialect.all.any (·.vocabulary.contains word) then
    d.vocabulary.contains word || (d.isSlavic && sharedSlavic.contains word)
  else true

def Token.admittedBy (t : Token) (d : Dialect) : Bool :=
  match t.payload with
  | .text word => d.admits word
  | .number _ => true

namespace Parser

variable {d : Dialect} {w : Token}

/-! ## Words that a dialect admits -/

/-- No word is common to both Slavic dialects, and each is looked up in its own dialect first, but
for one. -/
theorem vocabulary_table : Dialect.all.all (fun d => d.vocabulary.all fun word =>
    !sharedSlavic.contains word && (Dialect.ofWord? word = some d ||
      (d = .russian && word = "Zakrytyy" && Dialect.ofWord? word = some .ukrainian))) = true := by
  decide +kernel

theorem ofWord?_of_vocabulary (own : d.vocabulary.contains word = true) :
    sharedSlavic.contains word = false ∧ (Dialect.ofWord? word = some d ∨
      (d = .russian ∧ word = "Zakrytyy" ∧ Dialect.ofWord? word = some .ukrainian)) := by
  have isDialect : d ∈ Dialect.all := by cases d <;> decide
  have entry := List.all_eq_true.1 (List.all_eq_true.1 vocabulary_table d isDialect) word
    (List.contains_iff_mem.1 own)
  simpa [and_assoc] using entry

theorem vocabulary_of_ofWord? (found : Dialect.ofWord? word = some d) :
    d.vocabulary.contains word = true := by
  exact List.find?_some (p := fun e : Dialect => e.vocabulary.contains word) found

theorem own_of_admits (admitted : d.admits word = true)
    (known : sharedSlavic.contains word = true ∨ ∃ origin, Dialect.ofWord? word = some origin) :
    d.vocabulary.contains word = true ∨
      d.isSlavic = true ∧ sharedSlavic.contains word = true := by
  have listed : (sharedSlavic.contains word || Dialect.all.any (·.vocabulary.contains word)) =
      true := by
    apply Bool.or_eq_true_iff.mpr
    rcases known with shared | ⟨origin, found⟩
    · exact .inl shared
    · have isDialect : origin ∈ Dialect.all := by cases origin <;> decide
      exact .inr (List.any_eq_true.mpr ⟨origin, isDialect, vocabulary_of_ofWord? found⟩)
  unfold Dialect.admits at admitted
  rw [if_pos listed] at admitted
  rcases Bool.or_eq_true_iff.mp admitted with own | both
  · exact .inl own
  · exact .inr (Bool.and_eq_true_iff.mp both)

/-- What a dialect admits is foreign to it in one case only. -/
theorem verdict?_admitted {v : Violation} (admitted : w.admittedBy d = true)
    (foreign : verdict? d w = some v) :
    d = .russian ∧ w.payload = .text "Zakrytyy" ∧ v = ⟨w, .dialect .ukrainian, .russian⟩ := by
  obtain ⟨word, payload, judged⟩ := verdict?_eq_some foreign
  unfold Token.admittedBy at admitted
  rw [payload] at admitted ⊢
  rcases judged with ⟨shared, notSlavic, -⟩ | ⟨unshared, origin, found, other, rfl⟩
  · rcases own_of_admits admitted (.inl shared) with own | ⟨slavic, -⟩
    · have unshared := (ofWord?_of_vocabulary own).1
      rw [shared] at unshared
      cases unshared
    · rw [notSlavic] at slavic
      cases slavic
  · rcases own_of_admits admitted (.inr ⟨origin, found⟩) with own | ⟨-, shared⟩
    · rcases (ofWord?_of_vocabulary own).2 with first | ⟨rfl, rfl, ukrainian⟩
      · rw [found] at first
        exact absurd (Option.some.inj first).symm other
      · rw [found] at ukrainian
        cases ukrainian
        exact ⟨rfl, rfl, rfl⟩
    · rw [unshared] at shared
      cases shared

/-! ## Programs in the words of their dialect -/

theorem heeds_parse {starter : Token} {rest : List Token}
    (isStarter : starter.kind = .keyword .start)
    (announces : Dialect.ofStarter? starter.display = some d) :
    Heeds { starting (starter :: rest) true with dialect := some d }
      (parse (starter :: rest) true).state := by
  have state : (parse (starter :: rest) true).state =
      ending (program (starting (starter :: rest) true)) := Pairing.runProgram_state _
  have inside : (starting (starter :: rest) true).Inside := Nat.zero_le _
  have went := went_announced (s := starting (starter :: rest) true) isStarter inside rfl
  have announced : (starting (starter :: rest) true).announce starter.display =
      { starting (starter :: rest) true with dialect := some d } := by
    unfold State.announce
    rw [announces]
    rfl
  rw [announced] at went
  rw [state]
  generalize program (starting (starter :: rest) true) = result at went
  cases went with
  | ok onward _ _ _ | stop onward _ => exact onward.heeds

/-- In a program in the words of its dialect strict mode finds no other word, unless the program is
Russian and has the word for private members. -/
theorem violations_of_admitted {starter : Token} {rest : List Token}
    (isStarter : starter.kind = .keyword .start)
    (announces : Dialect.ofStarter? starter.display = some d)
    (admitted : ∀ t ∈ starter :: rest, t.admittedBy d = true) :
    (parse (starter :: rest) true).state.dialect = some d ∧
      (∀ v ∈ (parse (starter :: rest) true).state.violations, d = .russian ∧
        ∃ t ∈ starter :: rest, t.payload = .text "Zakrytyy" ∧
          v = ⟨t, .dialect .ukrainian, .russian⟩) ∧
      ((d = .russian → ∀ t ∈ starter :: rest, t.payload ≠ .text "Zakrytyy") →
        (parse (starter :: rest) true).state.violations = []) := by
  have heeds := @heeds_parse d starter rest isStarter announces
  have alarms : ∀ v ∈ (parse (starter :: rest) true).state.violations, d = .russian ∧
      ∃ t ∈ starter :: rest, t.payload = .text "Zakrytyy" ∧
        v = ⟨t, .dialect .ukrainian, .russian⟩ := by
    intro v noted
    rcases heeds.violations d rfl v noted with before | ⟨t, inText, verdict⟩
    · cases before
    · have listed : t ∈ starter :: rest := List.mem_toArray.mp inText
      obtain ⟨isRussian, word, isVerdict⟩ := verdict?_admitted (admitted t listed) verdict
      exact ⟨isRussian, t, listed, word, isVerdict⟩
  refine ⟨heeds.dialect d rfl, alarms, fun absent => ?_⟩
  apply List.eq_nil_iff_forall_not_mem.mpr
  intro v noted
  obtain ⟨isRussian, t, listed, word, _⟩ := alarms v noted
  exact absent isRussian t listed word

/-- A class with a private field, in the words of a dialect. -/
def privateField (starter classDef hidden number : String) : List Token :=
  [⟨.keyword .start, .text starter, 1, 1⟩, ⟨.keyword .classDef, .text classDef, 2, 1⟩,
    ⟨.ident, .text "A", 3, 1⟩, ⟨.lbrace, .text "\x7b", 4, 1⟩,
    ⟨.keyword .privateAccess, .text hidden, 5, 1⟩, ⟨.keyword .intType, .text number, 6, 1⟩,
    ⟨.ident, .text "x", 7, 1⟩, ⟨.semicolon, .text ";", 8, 1⟩, ⟨.rbrace, .text "\x7d", 9, 1⟩]

theorem violations_of_admitted_english :
    (privateField "Chief" "Class" "Private" "Int").all (·.admittedBy .english) = true ∧
      (parse (privateField "Chief" "Class" "Private" "Int") true).state.violations = [] := by
  have admitted : (privateField "Chief" "Class" "Private" "Int").all
      (·.admittedBy .english) = true := by
    decide +kernel
  have quiet := @violations_of_admitted .english _ _ rfl rfl (List.all_eq_true.mp admitted)
  refine ⟨admitted, quiet.2.2 ?_⟩
  intro isRussian
  cases isRussian

/-- The Russian word for private members is taken for the Ukrainian one. -/
theorem private_word_foreign :
    (privateField "Ataman" "Klass" "Zakrytyy" "Chislo").all (·.admittedBy .russian) = true ∧
      (parse (privateField "Ataman" "Klass" "Zakrytyy" "Chislo") true).state.violations =
        [⟨⟨.keyword .privateAccess, .text "Zakrytyy", 5, 1⟩, .dialect .ukrainian, .russian⟩] := by
  refine ⟨by decide +kernel, ?_⟩
  rfl

end Parser

end Hetman
