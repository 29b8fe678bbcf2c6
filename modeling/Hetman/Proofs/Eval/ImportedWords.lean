import Hetman.Proofs.Eval.ExitCode
import Hetman.Proofs.Eval.Imports
import Hetman.Proofs.Lexer
import Hetman.Proofs.Parser.Tally

/-!
# The words of imported files

In strict mode the dialect of a program is handed over to the files that it imports. But the start
word of a file announces a dialect that takes its place (`readProgram_eq`). So each file is held
against its own dialect (`KeepsTo`), and a file in another dialect than the program is read like any
other.
-/

namespace Hetman

open List

/-- A token is a word of other dialects only. -/
def Token.Elsewhere (t : Token) (d : Dialect) : Prop :=
  ∃ (word : String) (origin : Dialect), t.payload = .text word ∧
    origin.vocabulary.contains word = true ∧ d.vocabulary.contains word = false

namespace Parser

variable {tokens : List Token} {d : Dialect} {node : Node} {text : String}

variable {w : Token}

/-! ## Start words -/

theorem starters_table : Token.lexicon.all (fun entry =>
    entry.2 ≠ .start || (Dialect.ofStarter? entry.1).isSome) = true := by
  decide +kernel

theorem token?_strictly (tokens : List Token) (given : Option Dialect) :
    (strictly tokens given).token? = tokens.head? := by
  cases tokens <;> rfl

/-- A start word in a text announces a dialect. -/
theorem announces_of_start (member : w ∈ (lex text).tokens) (isStarter : w.kind = .keyword .start) :
    ∃ d, Dialect.ofStarter? w.display = some d := by
  obtain ⟨word, payload, listed⟩ := Lexer.word_of_keyword member isStarter
  have entry := all_eq_true.1 starters_table _ listed
  have shown : w.display = word := congrArg Token.Payload.display payload
  rw [shown]
  exact Option.isSome_iff_exists.1 (by simpa using entry)

/-- The start word replaces what was handed over. -/
theorem program_strictly (first : (lex text).tokens.head? = some w)
    (isStarter : w.kind = .keyword .start) (given : Option Dialect) :
    ∃ d, Dialect.ofStarter? w.display = some d ∧ program (strictly (lex text).tokens given) =
      (advance >>= fun _ => statementsToEnd) (strictly (lex text).tokens (some d)) := by
  obtain ⟨d, announces⟩ := announces_of_start (mem_of_head? first) isStarter
  have announced : (strictly (lex text).tokens given).announce w.display =
      strictly (lex text).tokens (some d) := by
    unfold State.announce
    rw [announces]
    rfl
  refine ⟨d, announces, ?_⟩
  rw [program_announced isStarter ((token?_strictly _ given).trans first), announced]

/-- A text without a start word is no program, and in others nothing is left of what was handed
over. -/
theorem runProgram_strictly (text : String) (given : Option Dialect) :
    runProgram (strictly (lex text).tokens given) = parse (lex text).tokens true ∨
      (runProgram (strictly (lex text).tokens given)).node = .error .noStarter ∧
        (parse (lex text).tokens true).node = .error .noStarter := by
  have isParse : parse (lex text).tokens true = runProgram (strictly (lex text).tokens none) := rfl
  rw [isParse]
  unfold runProgram
  by_cases started : ∃ w, (lex text).tokens.head? = some w ∧ w.kind = .keyword .start
  · obtain ⟨w, first, isStarter⟩ := started
    obtain ⟨d, announces, read⟩ := program_strictly first isStarter given
    obtain ⟨e, announces', read'⟩ := program_strictly first isStarter none
    cases announces.symm.trans announces'
    rw [read, read']
    exact .inl rfl
  · have unstarted : ∀ given w, (strictly (lex text).tokens given).token? = some w →
        w.kind ≠ .keyword .start := by
      intro given w here isStarter
      exact started ⟨w, (token?_strictly _ given).symm.trans here, isStarter⟩
    rw [program_of_unstarted (unstarted given), program_of_unstarted (unstarted none)]
    exact .inr ⟨rfl, rfl⟩

/-! ## Texts that strict mode takes -/

/-- A text keeps to a dialect: its start word announces it, strict mode finds no other and notes
nothing, so no token held against the dialect is a word of others only. How often a token is held
against it depends on its kind. -/
structure KeepsTo (text : String) (d : Dialect) : Prop where
  announced : ∃ starter rest, (lex text).tokens = starter :: rest ∧
    Dialect.ofStarter? starter.display = some d
  found : (parse (lex text).tokens true).state.dialect = some d
  unnoted : (parse (lex text).tokens true).state.violations = []
  counts : ∃ counts : List Nat, counts.length = (lex text).tokens.length ∧
    ∀ i w n, (lex text).tokens[i]? = some w → counts[i]? = some n →
      n ∈ usualChecks w.kind (declaresField ((lex text).tokens.drop (i + 1))) ∧
        (w.Elsewhere d → n = 0)

/-- If nothing is noted, a word of other dialects only was not held against it. -/
theorem eq_zero_of_tally {entries : List (Token × Nat)} {n : Nat} (unnoted : tally d entries = [])
    (entry : (w, n) ∈ entries) (elsewhere : w.Elsewhere d) : n = 0 := by
  obtain ⟨word, origin, payload, belongs, other⟩ := elsewhere
  have unshared := (ofWord?_of_vocabulary belongs).1
  obtain ⟨e, noted⟩ := tally_foreign n payload belongs other unshared
  have nothing : tally d [(w, n)] = [] := by
    unfold tally at unnoted ⊢
    rw [flatMap_singleton]
    exact flatMap_eq_nil_iff.1 unnoted _ entry
  rw [nothing] at noted
  exact (replicate_eq_nil_iff _).1 noted.symm

theorem keepsTo_of_parse (returns : (parse (lex text).tokens true).node = .ok node)
    (clean : (parse (lex text).tokens true).state.problems = []) : ∃ d, KeepsTo text d := by
  obtain ⟨w, here, isStarter⟩ := starts_of_program (parse_ok returns)
  have first : (lex text).tokens.head? = some w := (token?_strictly _ none).symm.trans here
  obtain ⟨d, announces⟩ := announces_of_start (mem_of_head? first) isStarter
  obtain ⟨rest, tokens⟩ := head?_eq_some_iff.1 first
  have found : (parse (lex text).tokens true).state.dialect = some d := by
    rw [tokens]
    exact (heeds_parse isStarter announces).dialect d rfl
  have unnoted : (parse (lex text).tokens true).state.violations = [] := by
    unfold State.violations
    rw [clean]
    rfl
  have complaints : (parse (lex text).tokens true).state.complaints = [] := by
    unfold State.complaints
    rw [clean]
    rfl
  obtain ⟨counts, length, noted, limits⟩ := counts_of_parse returns
  have nothing : tally d ((lex text).tokens.zip counts) = [] := by
    rw [← noted d found]
    unfold State.foreign
    rw [unnoted]
    rfl
  refine ⟨d, ⟨w, rest, tokens, announces⟩, found, unnoted, counts, length, ?_⟩
  intro i v n isToken isCount
  have entry : ((lex text).tokens.zip counts)[i]? = some (v, n) :=
    getElem?_zip_eq_some.2 ⟨isToken, isCount⟩
  exact ⟨(limits i v n isToken isCount).2 complaints, eq_zero_of_tally nothing (mem_of_getElem? entry)⟩

end Parser

open Hetman.Parser

namespace Eval

variable {s u : Session} {full path text : String} {node : Node}

/-! ## Files -/

/-- The program in a text without problems. -/
def accepted (path : String) (outcome : Outcome) : Except Fault Node :=
  match outcome.node with
  | .error stop => .error (stopFault path stop)
  | .ok node =>
    if outcome.state.problems.isEmpty then .ok node
    else .error (.script (.importing (.problems path (outcome.state.problems.map (·.message)))))

/-- What is handed over in strict mode makes no difference, and else nothing is. -/
theorem readProgram_eq (strict : Bool) (given : Option Dialect) (path text : String) :
    readProgram strict given path text =
      match (lex text).fault with
      | some fault => .error (lexFault path fault)
      | none => accepted path (parse (lex text).tokens strict) := by
  cases strict with
  | false => rfl
  | true =>
    show (match (lex text).fault with
      | some fault => Except.error (lexFault path fault)
      | none => accepted path (runProgram (strictly (lex text).tokens given))) = _
    rcases runProgram_strictly text given with same | ⟨unstarted, unstarted'⟩
    · rw [same]
    · unfold accepted
      rw [unstarted, unstarted']

theorem accepted_eq_ok_iff {outcome : Outcome} :
    accepted path outcome = .ok node ↔ outcome.node = .ok node ∧ outcome.state.problems = [] := by
  unfold accepted
  cases outcome.node with
  | error stop => simp
  | ok program => by_cases clean : outcome.state.problems = [] <;> simp [clean]

theorem readProgram_eq_ok_iff {strict : Bool} {given : Option Dialect} :
    readProgram strict given path text = .ok node ↔ (lex text).fault = none ∧
      (parse (lex text).tokens strict).node = .ok node ∧
      (parse (lex text).tokens strict).state.problems = [] := by
  rw [readProgram_eq]
  cases lexed : (lex text).fault with
  | some fault => simp
  | none =>
    rw [accepted_eq_ok_iff]
    exact ⟨fun read => ⟨rfl, read⟩, fun both => both.2⟩

theorem loaded_eq_ok_iff (strict : u.strict = true) :
    loaded u full = .ok node ↔ ∃ text, importText u.files full = .ok text ∧
      (lex text).fault = none ∧ (parse (lex text).tokens true).node = .ok node ∧
      (parse (lex text).tokens true).state.problems = [] := by
  unfold loaded
  cases importText u.files full with
  | error fault => simp
  | ok text =>
    rw [strict, readProgram_eq_ok_iff]
    simp

theorem loaded_given (given : Option Dialect) (full : String) :
    loaded { u with dialect := given } full = loaded u full := by
  unfold loaded
  cases importText u.files full with
  | error fault => rfl
  | ok text =>
    dsimp only
    rw [readProgram_eq, readProgram_eq]

/-! ## Runs -/

/-- The mode and the dialect stay as they are. -/
def steady (strict : Bool) (dialect : Option Dialect) : Discipline where
  start s := s.strict = strict ∧ s.dialect = dialect
  change _ t := t.strict = strict ∧ t.dialect = dialect
  returns := True
  quiet start q := ⟨q.strict.trans start.1, q.dialect.trans start.2⟩
  trans _ second := second
  keeps _ change := change

theorem steady_about (strict : Bool) (dialect : Option Dialect) :
    (steady strict dialect).About fun s => (s.strict, s.dialect) where
  unscoped _ _ _ _ _ _ := rfl
  change _ _ start same :=
    ⟨(congrArg Prod.fst same).trans start.1, (congrArg Prod.snd same).trans start.2⟩
  returns := trivial
  writes _ _ start _ := start
  defines _ _ _ start _ := start

theorem steady_records (strict : Bool) (dialect : Option Dialect) :
    (steady strict dialect).Records :=
  fun _ _ start => start

end Eval

namespace Report

variable {w : World} {code : String} {strict : Bool} {program : Node} {s : Session}

/-- A program starts in its mode and the dialect it was found to be in. -/
structure Begins (code : String) (strict : Bool) (program : Node) (s : Session) : Prop where
  mode : s.strict = strict
  dialect : s.dialect = (parse (lex code).tokens strict).state.dialect
  node : (parse (lex code).tokens strict).node = .ok program
  clean : (parse (lex code).tokens strict).state.problems = []

theorem begins_of_startIn {folder : String}
    (starts : startIn? w code strict folder = some (program, s)) :
    Begins code strict program s := by
  unfold startIn? at starts
  dsimp only at starts
  split at starts
  · rename_i fault node
    split at starts
    · rename_i clean
      cases starts
      exact ⟨rfl, rfl, node, isEmpty_iff.1 clean⟩
    · cases starts
  · cases starts

theorem begins_of_start {folder : Option String}
    (starts : start? w code strict folder = some (program, s)) : Begins code strict program s := by
  rcases run_cases w code strict folder with ⟨unstarted, -⟩ | ⟨v, path, same, -⟩
  · cases unstarted.symm.trans starts
  · exact begins_of_startIn (same.symm.trans starts)

end Report

open Eval

/-- Strict mode extends to imports, but each file is held against its own dialect. Whenever a strict
run opens a file, however deep inside of others, the mode is strict and the program's dialect is
handed over. In any strict session, this makes no difference to what is made of a file: it is taken
as a program exactly if it could be run by itself. Then it keeps to the dialect of its own start
word, as the program does. -/
theorem imports_keep_to_own_dialect {w : World} {code : String} {folder : Option String}
    {program : Node} {s : Session} (starts : Report.start? w code true folder = some (program, s)) :
    (∃ d, s.dialect = some d ∧ KeepsTo code d) ∧
    (∀ watch : List String → Eval Unit,
      (∀ files (u : Session), u.strict = true → u.dialect = s.dialect → watch files u = .ok () u) →
      importing watch stepLimit [] program s = eval stepLimit program s) ∧
    ∀ (u : Session) (full : String), u.strict = true →
      (∀ given, loaded { u with dialect := given } full = loaded u full) ∧
      ((∃ node, loaded u full = .ok node) ↔
        ∃ text, importText u.files full = .ok text ∧ Report.refusal? text true = none) ∧
      ∀ node, loaded u full = .ok node →
        ∃ text d, importText u.files full = .ok text ∧ KeepsTo text d := by
  have begins := Report.begins_of_start starts
  refine ⟨?_, fun watch calm => ?_, fun u full strict => ⟨?_, ?_, fun node read => ?_⟩⟩
  · obtain ⟨d, keeps⟩ := keepsTo_of_parse begins.node begins.clean
    exact ⟨d, begins.dialect.trans keeps.found, keeps⟩
  · have runs := (steady_about true s.dialect).importing (steady_records true s.dialect)
      (fun files u start => calm files u start.1 start.2) stepLimit [] program
    exact (runs s ⟨begins.mode, rfl⟩).same
  · exact fun given => loaded_given given full
  · simp only [loaded_eq_ok_iff strict, Report.refusal?_eq_none_iff]
    constructor
    · rintro ⟨node, text, isText, lexed, parsed, clean⟩
      exact ⟨text, isText, lexed, node, parsed, clean⟩
    · rintro ⟨text, isText, lexed, node, parsed, clean⟩
      exact ⟨node, text, isText, lexed, parsed, clean⟩
  · obtain ⟨text, isText, -, parsed, clean⟩ := (loaded_eq_ok_iff strict).1 read
    obtain ⟨d, keeps⟩ := keepsTo_of_parse parsed clean
    exact ⟨text, d, isText, keeps⟩

/-- A folder with a file in Ukrainian words. -/
def ukrainianLibrary : World where
  files := ({} : Files).setFile ["lib.kozak"] "Hetman\nChyslo x := 5;".toUTF8

/-- A program in English words that imports it. -/
def englishImport : String := "Chief\nImport(\"lib.kozak\");"

/-- Ends the program when a dialect other than English is handed over. -/
def englishOnly (_ : List String) : Eval Unit := do
  if (← get).dialect = some .english then pure () else throw (.exited (.number 7))

theorem imports_keep_to_own_dialect_library : ∃ program s,
    Report.start? ukrainianLibrary englishImport true none = some (program, s) ∧
    s.dialect = some .english ∧
    importing englishOnly stepLimit [] program s = eval stepLimit program s ∧
    ∃ text, importText s.files "/lib.kozak" = .ok text ∧ KeepsTo text .ukrainian := by
  have found : (Report.start? ukrainianLibrary englishImport true none).map (fun begun =>
      (begun.2.strict, begun.2.dialect, (loaded begun.2 "/lib.kozak").toOption.isSome,
        (importText begun.2.files "/lib.kozak").toOption.map fun text =>
          (lex text).tokens.head?.bind fun starter => Dialect.ofStarter? starter.display)) =
      some (true, some .english, true, some (some .ukrainian)) := by
    decide +kernel
  cases starts : Report.start? ukrainianLibrary englishImport true none with
  | none =>
    rw [starts] at found
    cases found
  | some begun =>
    obtain ⟨program, s⟩ := begun
    rw [starts] at found
    obtain ⟨strict, dialect, isProgram, starter⟩ : s.strict = true ∧ s.dialect = some .english ∧
        (loaded s "/lib.kozak").toOption.isSome = true ∧ _ := by
      simpa only [Option.map_some, Option.some.injEq, Prod.mk.injEq] using found
    obtain ⟨-, unnoticed, read⟩ := imports_keep_to_own_dialect starts
    refine ⟨program, s, rfl, dialect, unnoticed _ fun files u _ handed => ?_, ?_⟩
    · have calm : (englishOnly files : Eval Unit) u =
          (if u.dialect = some .english then pure () else throw (.exited (.number 7)) :
            Eval Unit) u := rfl
      rw [calm, if_pos (handed.trans dialect)]
      rfl
    · cases result : loaded s "/lib.kozak" with
      | error fault =>
        rw [result] at isProgram
        cases isProgram
      | ok node =>
        obtain ⟨text, d, isText, keeps⟩ := (read s "/lib.kozak" strict).2.2 node result
        obtain ⟨first, rest, tokens, announces⟩ := keeps.announced
        rw [isText] at starter
        simp only [Except.toOption, Option.map_some, tokens, head?_cons, Option.bind_some,
          announces, Option.some.injEq] at starter
        cases starter
        exact ⟨text, isText, keeps⟩

/-- An English program imports a file in Ukrainian words, and the run ends well, though an English
file with its word for a type would not keep to the dialect. -/
theorem ukrainian_library_imported :
    (Report.run ukrainianLibrary englishImport true none).1.toOption = some (.number 0) ∧
    (parse (lex englishImport).tokens true).state.dialect = some .english ∧
    (loaded { files := ukrainianLibrary.files, strict := true, dialect := some .english }
      "/lib.kozak").toOption.isSome = true ∧
    Dialect.ukrainian.vocabulary.contains "Chyslo" = true ∧
    Dialect.english.vocabulary.contains "Chyslo" = false ∧
    (parse (lex "Chief\nChyslo x := 5;").tokens true).state.violations =
      [⟨⟨.keyword .intType, .text "Chyslo", 2, 1⟩, .dialect .ukrainian, .english⟩] := by
  decide +kernel

end Hetman
