import Hetman.Proofs.Parser.Alarms

/-!
# Every word is accounted for

Every production carries a ledger over, so there is one for each text that is read in strict mode
(`ledger_of_parse`). Strict mode does not note each foreign word once: some are noted as often as
three times, and some never (`foreign_words_tallied`).
-/

namespace Hetman.Parser

open List

variable {node : Node} {clean : Prop} {tokens : List Token}

theorem starts_of_program {s u : State} (read : program s = .ok node u) :
    ∃ w, s.token? = some w ∧ w.kind = .keyword .start := by
  by_contra unstarted
  rw [program_of_unstarted fun w here isStarter => unstarted ⟨w, here, isStarter⟩] at read
  cases read

/-- The start on a text in strict mode, with a dialect handed over. -/
def strictly (tokens : List Token) (given : Option Dialect) : State :=
  { starting tokens true with dialect := given }

theorem booked_strictly (tokens : List Token) (given : Option Dialect) :
    Booked clean (strictly tokens given) 0 := by
  refine ⟨[], rfl, rfl, rfl, nofun, fun d _ => ?_⟩
  cases tokens <;> rfl

theorem ledger_of_parse (returns : (parse tokens true).node = .ok node)
    (counts : clean → (parse tokens true).state.complaints = []) :
    ∃ passed : List (Token × Nat), passed.map Prod.fst = tokens ∧
      Ledger clean (parse tokens true).state 0 passed := by
  have read := parse_ok returns
  have ended := (State.rest_eq_nil_iff _).mpr (program_eq_ok read).2
  obtain ⟨w, here, isStarter⟩ := starts_of_program read
  obtain ⟨found, announced⟩ := (starting tokens true).announce_eq w.display
  have went := went_announced isStarter (Nat.zero_le _) here
  rw [announced, read] at went
  cases went with
  | ok onward _ carried _ =>
    obtain ⟨passed, ledger⟩ := (carried 0 rfl).booked clean counts (booked_strictly tokens found)
    have all := ledger.tokens
    rw [ended, append_nil] at all
    exact ⟨passed, all.trans (congrArg Array.toList onward.tokens), ledger⟩

/-- Each token is held against the dialect a number of times, and the violations are on foreign
words, each as often as that. -/
theorem counts_of_parse (returns : (parse tokens true).node = .ok node) :
    ∃ counts : List Nat, counts.length = tokens.length ∧
      (∀ d, (parse tokens true).state.dialect = some d →
        (parse tokens true).state.foreign = tally d (tokens.zip counts)) ∧
      ∀ i w n, tokens[i]? = some w → counts[i]? = some n → n ≤ mostChecks w.kind ∧
        ((parse tokens true).state.complaints = [] →
          n ∈ usualChecks w.kind (declaresField (tokens.drop (i + 1)))) := by
  obtain ⟨passed, all, ledger⟩ := ledger_of_parse returns id
  have pairs : passed = tokens.zip (passed.map Prod.snd) := zip_of_prod all rfl
  have same : (parse tokens true).state.tokens.toList = tokens :=
    congrArg Array.toList (Pairing.moves_parse tokens true).tokens
  refine ⟨passed.map Prod.snd, ?_, fun d found => ?_, fun i w n isToken isCount => ?_⟩
  · rw [← all, length_map, length_map]
  · have admits : (parse tokens true).state.Admits d := fun e other =>
      Option.some.inj (other.symm.trans found)
    rw [← pairs, ledger.noted d admits, tally_append, tally_entry_zero, append_nil]
  · have entry : passed[i]? = some (w, n) := by
      rw [pairs, getElem?_zip_eq_some]
      exact ⟨isToken, isCount⟩
    have counts := ledger.counts i w n entry
    rw [same] at counts
    exact counts

/-- A word of another dialect, and not of this one or both Slavic ones, is noted as often as it is
held against the dialect. -/
theorem tally_foreign {d origin : Dialect} {w : Token} {word : String} (n : Nat)
    (payload : w.payload = .text word) (belongs : origin.vocabulary.contains word = true)
    (other : d.vocabulary.contains word = false) (unshared : sharedSlavic.contains word = false) :
    ∃ e : Dialect, tally d [(w, n)] = List.replicate n ⟨w, .dialect e, d⟩ := by
  have looked : ∃ e, Dialect.ofWord? word = some e ∧ d ≠ e := by
    rcases (ofWord?_of_vocabulary belongs).2 with own | ⟨-, -, ukrainian⟩
    · refine ⟨origin, own, ?_⟩
      rintro rfl
      rw [belongs] at other
      cases other
    · refine ⟨.ukrainian, ukrainian, ?_⟩
      rintro rfl
      rw [vocabulary_of_ofWord? ukrainian] at other
      cases other
  obtain ⟨e, found, differs⟩ := looked
  have noted : foreign? d w = some ⟨w, .dialect e, d⟩ := by
    simp only [foreign?, verdict?, payload, unshared, found, if_neg differs]
    rfl
  refine ⟨e, ?_⟩
  simp only [tally, flatMap_singleton, filterMap_replicate, noted]

/-- In a text that is read in strict mode, with a dialect found, each token is held against the
dialect a number of times, which its kind limits and in a text without complaints decides, but
for functions, for `Super` and for names. The violations, apart from those on words of both
Slavic dialects, are the foreign words in their order, each as often as it was held against the
dialect. -/
theorem foreign_words_tallied {tokens : List Token} {node : Node} {d : Dialect}
    (returns : (parse tokens true).node = .ok node)
    (found : (parse tokens true).state.dialect = some d) :
    (∃ counts : List Nat, counts.length = tokens.length ∧
      (parse tokens true).state.foreign = tally d (tokens.zip counts) ∧
      ∀ i w n, tokens[i]? = some w → counts[i]? = some n → n ≤ mostChecks w.kind ∧
        ((parse tokens true).state.complaints = [] →
          n ∈ usualChecks w.kind (declaresField (tokens.drop (i + 1))))) ∧
    ∀ (w : Token) (word : String) (origin : Dialect) (n : Nat), w.payload = .text word →
      origin.vocabulary.contains word = true → d.vocabulary.contains word = false →
      sharedSlavic.contains word = false →
      ∃ e : Dialect, tally d [(w, n)] = List.replicate n ⟨w, .dialect e, d⟩ := by
  obtain ⟨counts, length, noted, limits⟩ := counts_of_parse returns
  exact ⟨⟨counts, length, noted d found, limits⟩, fun w word origin n => tally_foreign n⟩

/-- A condition in English words, in a Ukrainian program. -/
def englishCondition : List Token :=
  [⟨.keyword .start, .text "Hetman", 1, 1⟩, ⟨.keyword .ifBranch, .text "If", 2, 1⟩,
    ⟨.lparen, .text "(", 2, 4⟩, ⟨.keyword .yes, .text "Pravda", 2, 5⟩, ⟨.rparen, .text ")", 2, 11⟩,
    ⟨.lbrace, .text "\x7b", 2, 13⟩, ⟨.rbrace, .text "\x7d", 2, 15⟩,
    ⟨.keyword .elseBranch, .text "Else", 2, 17⟩, ⟨.lbrace, .text "\x7b", 2, 22⟩,
    ⟨.rbrace, .text "\x7d", 2, 24⟩]

theorem foreign_words_tallied_condition : ∃ counts : List Nat, counts.length = 10 ∧
    (parse englishCondition true).state.foreign = tally .ukrainian (englishCondition.zip counts) ∧
    counts[1]? = some 2 ∧ counts[7]? = some 0 := by
  have returns : (parse englishCondition true).node =
      .ok (.program [.ifElse (.boolean true) [] [] (some [])]) := rfl
  obtain ⟨⟨counts, length, noted, usual⟩, -⟩ := foreign_words_tallied returns rfl
  have count : ∀ (i : Nat) (w : Token), englishCondition[i]? = some w →
      ∃ n, counts[i]? = some n ∧
        n ∈ usualChecks w.kind (declaresField (englishCondition.drop (i + 1))) := by
    intro i w isToken
    have inside : i < counts.length := by
      rw [length]
      exact (List.getElem?_eq_some_iff.mp isToken).1
    have isCount := getElem?_eq_getElem inside
    exact ⟨_, isCount, (usual i w _ isToken isCount).2 rfl⟩
  obtain ⟨n, isCount, two⟩ := count 1 _ rfl
  obtain ⟨m, isCount', zero⟩ := count 7 _ rfl
  cases mem_singleton.mp two
  cases mem_singleton.mp zero
  exact ⟨counts, length, noted, isCount, isCount'⟩

/-- Two English words in a Ukrainian program: one is noted twice and the other not at all. -/
theorem condition_miscounted :
    (parse englishCondition true).state.dialect = some .ukrainian ∧
    (["If", "Else"].all fun word => Dialect.english.vocabulary.contains word &&
      !Dialect.ukrainian.vocabulary.contains word && !sharedSlavic.contains word) = true ∧
    (parse englishCondition true).state.violations =
      [⟨⟨.keyword .ifBranch, .text "If", 2, 1⟩, .dialect .english, .ukrainian⟩,
        ⟨⟨.keyword .ifBranch, .text "If", 2, 1⟩, .dialect .english, .ukrainian⟩] := by
  refine ⟨rfl, by decide +kernel, rfl⟩

end Hetman.Parser
