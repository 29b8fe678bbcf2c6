import Hetman.Proofs.Eval.Noting

/-!
# The code of a run

A run ends with the code of the exit that ended it; with the code of its last exit, if a handler
took each of them; or with 1, if it failed (`code_of_run`). The codes of the exits that an
evaluation comes to are a list that all ways of noting agree on (`Notes`).
-/

namespace Hetman

open List

variable {s : Session} {codes : List ExitCode}

/-- A code from 0 to 255, or a truth value. -/
def ExitCode.InRange : ExitCode → Prop
  | .number n => 0 ≤ n ∧ n ≤ 255
  | .flag _ => True

namespace Eval

variable {α β : Type} {S : ExitCode → Prop}

variable {code : ExitCode} {t : Session}

/-! ## The codes of exits -/

theorem inRange_of_exitCodeOf {value : Value} (h : exitCodeOf value = .ok code) : code.InRange := by
  cases code with
  | flag b => trivial
  | number n =>
    -- Whatever the number was read from, it is compared with the bounds before it is a code.
    have checked : ∀ m : Int, (if 0 ≤ m && m ≤ 255 then .ok (.number m)
        else .error (.script .exitRange) : Except Fault ExitCode) = .ok (.number n) →
        ExitCode.InRange (.number n) := by
      intro m passed
      split at passed
      · rename_i inside
        cases passed
        simpa [ExitCode.InRange] using inside
      · cases passed
    unfold exitCodeOf at h
    cases value with
    | bool b => cases h
    | int m => exact checked m h
    | _ =>
      dsimp only at h
      split at h
      · exact checked _ h
      · cases h
      · cases h

theorem inRange_of_codeFor {ev : Node → Eval Value} {node : Node}
    (h : codeFor ev node s = .ok code t) : code.InRange := by
  have usual : (ev node >>= fun value => lift (exitCodeOf value)) s = .ok code t →
      code.InRange := by
    intro given
    cases result : ev node s with
    | error signal u =>
      rw [bind_error result] at given
      cases given
    | ok value u =>
      rw [bind_ok result] at given
      cases read : exitCodeOf value with
      | error fault =>
        rw [read] at given
        cases given
      | ok c =>
        rw [read] at given
        cases given
        exact inRange_of_exitCodeOf read
  cases node with
  | missing =>
    cases h
    exact ⟨by decide, by decide⟩
  | _ => exact usual h

/-- Evaluations that note in their own ways come to exits with the same codes, all in range, and end
alike but for their notes; an exit at the end has one of the codes. -/
structure NotesAt (S : ExitCode → Prop) (x : (ExitCode → ExitCode → ExitCode) → Eval α)
    (s : Session) (codes : List ExitCode) (r : EStateM.Result Signal Session α) : Prop where
  inRange : ∀ code ∈ codes, code.InRange
  notes : ∀ note register,
    x note (s.exitedWith register) = exitedWith (codes.foldl note register) r
  exits : ∀ code t, r = .error (.exited code) t → code ∈ codes ∨ S code

/-- Evaluations that go on as others do after some codes were noted, with which the others may exit.
-/
theorem NotesAt.prepend {x y : (ExitCode → ExitCode → ExitCode) → Eval α} {codes' : List ExitCode}
    {r : EStateM.Result Signal Session α} {S' : ExitCode → Prop} (rest : NotesAt S' y t codes' r)
    (inRange : ∀ code ∈ codes, code.InRange) (caught : ∀ code, S' code → code ∈ codes ∨ S code)
    (goesOn : ∀ note register, x note (s.exitedWith register) =
      y note (t.exitedWith (codes.foldl note register))) : NotesAt S x s (codes ++ codes') r where
  inRange code found := by
    rcases mem_append.mp found with found | found
    · exact inRange code found
    · exact rest.inRange code found
  notes note register := by rw [goesOn, rest.notes, foldl_append]
  exits code u ended := by
    rcases rest.exits code u ended with found | before
    · exact .inl (mem_append_right _ found)
    · rcases caught code before with found | before
      · exact .inl (mem_append_left _ found)
      · exact .inr before

def Notes (S : ExitCode → Prop) (x : (ExitCode → ExitCode → ExitCode) → Eval α) : Prop :=
  ∀ s, ∃ codes r, NotesAt S x s codes r

namespace Notes

variable {x : (ExitCode → ExitCode → ExitCode) → Eval α}

/-- Without exits of its own. -/
theorem none {x : Eval α}
    (blind : ∀ (s : Session) code, x (s.exitedWith code) = exitedWith code (x s))
    (exits : ∀ s code t, x s = .error (.exited code) t → S code) : Notes S fun _ => x :=
  fun s => ⟨[], x s, nofun, fun _ => blind s, fun code t ended => .inr (exits s code t ended)⟩

theorem bind {f : α → (ExitCode → ExitCode → ExitCode) → Eval β} (first : Notes S x)
    (second : ∀ a, Notes S (f a)) : Notes S fun note => x note >>= fun a => f a note := by
  intro s
  obtain ⟨codes, r, begun⟩ := first s
  cases r with
  | ok a t =>
    obtain ⟨codes', r', rest⟩ := second a t
    refine ⟨codes ++ codes', r', rest.prepend begun.inRange (fun _ => .inr) ?_⟩
    exact fun note register => bind_ok (begun.notes note register)
  | error signal t =>
    refine ⟨codes, .error signal t, begun.inRange, fun note register => ?_, fun code u ended => ?_⟩
    · exact bind_error (begun.notes note register)
    · cases ended
      exact begun.exits code t rfl

theorem attempt {f : Except Signal α → (ExitCode → ExitCode → ExitCode) → Eval β}
    (first : Notes S x)
    (second : ∀ S' outcome, (∀ code, outcome = .error (.exited code) → S' code) →
      Notes S' (f outcome)) :
    Notes S fun note => Eval.attempt (x note) >>= fun outcome => f outcome note := by
  intro s
  obtain ⟨codes, r, begun⟩ := first s
  cases r with
  | ok a t =>
    obtain ⟨codes', r', rest⟩ := second S (.ok a) nofun t
    refine ⟨codes ++ codes', r', rest.prepend begun.inRange (fun _ => .inr) ?_⟩
    exact fun note register => bind_ok (attempt_ok (begun.notes note register))
  | error signal t =>
    have caught : ∀ code, (.error signal : Except Signal α) = .error (.exited code) →
        code ∈ codes ∨ S code := by
      rintro code ⟨⟩
      exact begun.exits code t rfl
    obtain ⟨codes', r', rest⟩ := second _ (.error signal) caught t
    refine ⟨codes ++ codes', r', rest.prepend begun.inRange (fun _ => id) ?_⟩
    exact fun note register => bind_ok (attempt_error (begun.notes note register))

theorem within (frame : Frame) (h : Notes S x) :
    Notes S fun note => Eval.within frame (x note) := by
  refine h.attempt fun S' outcome caught => ?_
  have leaving : Notes S' fun _ => modify fun s => frame.leave s :=
    .none (leaf_leave frame).blind fun s code t ended => nomatch ended
  refine leaving.bind fun _ => .none (fun s code => ?_) fun s code t ended => caught code ?_
  · cases outcome <;> rfl
  · cases outcome with
    | ok a => cases ended
    | error signal =>
      cases ended
      rfl

end Notes

theorem notes_closed : Closed fun S _ x => Notes S x where
  leaf h := .none h.blind fun s code t ended => nomatch h.stops s _ t ended
  throw allowed := .none (fun _ _ => rfl) fun s code t ended => by
    cases ended
    exact allowed code rfl
  look h blind s := by
    obtain ⟨codes, r, looked⟩ := h s s
    refine ⟨codes, r, looked.inRange, fun note register => ?_, looked.exits⟩
    exact (congrFun (congrFun (blind s register) note) _).trans (looked.notes note register)
  bind first second := first.bind second
  attempt h second _ := h.attempt second
  within frame h := h.within frame

theorem notes_exitNoting (ev : (ExitCode → ExitCode → ExitCode) → Node → Eval Value)
    (S : ExitCode → Prop) (code : Node) (parts : ∀ node, Notes S fun note => ev note node) :
    Notes S fun note => exitNoting note (ev note) code := by
  intro s
  obtain ⟨codes, r, given⟩ := (notes_closed.compositional S).codeFor parts code s
  cases r with
  | ok c t =>
    have checked : c.InRange :=
      inRange_of_codeFor (given.notes (fun register _ => register) (.number 0))
    refine ⟨codes ++ [c], .error (.exited c) t, fun code found => ?_, fun note register => ?_, ?_⟩
    · rcases mem_append.mp found with found | found
      · exact given.inRange code found
      · cases mem_singleton.mp found
        exact checked
    · rw [foldl_append]
      exact bind_ok (given.notes note register)
    · rintro code u ⟨⟩
      exact .inl (mem_append_right _ (mem_singleton_self c))
  | error signal t =>
    refine ⟨codes, .error signal t, given.inRange, fun note register => ?_, ?_⟩
    · exact bind_error (given.notes note register)
    · rintro code u ⟨⟩
      exact given.exits code t rfl

theorem notes_noting (fuel : Nat) (node : Node) :
    Notes (fun _ => False) fun note => noting (fun _ => pure ()) note fuel node :=
  notes_closed.noting (fun _ _ => notes_closed.leaf (.pure ())) notes_exitNoting fuel node _

/-- To note each code in the place of the one before is to keep the last. -/
theorem foldl_last (codes : List ExitCode) (register : ExitCode) :
    codes.foldl (fun _ code => code) register = codes.getLastD register := by
  induction codes generalizing register with
  | nil => rfl
  | cons code rest ih => rw [foldl_cons, ih, getLastD_cons]

/-- An evaluation without a code leaves the last code that it comes to. -/
theorem codes_of_eval (fuel : Nat) (node : Node) (fresh : s.exitCode = .number 0) :
    ∃ codes r, NotesAt (fun _ => False)
        (fun note => noting (fun _ => pure ()) note fuel node) s codes r ∧
      (∀ note, (ending (noting (fun _ => pure ()) note fuel node s)).exitCode =
        codes.foldl note (.number 0)) ∧
      eval fuel node s = exitedWith (codes.getLastD (.number 0)) r := by
  obtain ⟨codes, r, noted⟩ := notes_noting fuel node s
  have begins : s.exitedWith (.number 0) = s := by
    rw [← fresh]
    rfl
  refine ⟨codes, r, noted, fun note => ?_, ?_⟩
  · have result := noted.notes note (.number 0)
    rw [begins] at result
    rw [result]
    cases r <;> rfl
  · have result := noted.notes (fun _ code => code) (.number 0)
    rw [begins, noting_eval, foldl_last] at result
    exact result

theorem inRange_last (h : ∀ code ∈ codes, code.InRange) : (codes.getLastD (.number 0)).InRange := by
  rcases mem_cons.mp (getLastD_mem_cons (l := codes)) with none | found
  · rw [none]
    exact ⟨by decide, by decide⟩
  · exact h _ found

end Eval

open Eval

/-! ## Programs that are not run -/

namespace World

theorem write_write (w : World) (text text' : String) :
    (w.write text).write text' = w.write (text ++ text') := by
  simp only [write, String.append_assoc]

theorem foldl_write {ι : Type} (text : ι → String) (items : List ι) (w : World) :
    items.foldl (fun w item => w.write (text item)) w =
      w.write (String.join (items.map text)) := by
  induction items generalizing w with
  | nil => simp [write]
  | cons item rest ih =>
    rw [foldl_cons, ih, write_write, map_cons, String.join_cons]

end World

namespace Report

variable {report : String}

/-- What is written about a text that cannot be run. -/
def refusal? (code : String) (strict : Bool) : Option String :=
  let unforeseen message :=
    "Neperedbachena bida! An unexpected error occurred:\n" ++ Hint.annotate message
  let outcome := parse (lex code).tokens strict
  match (lex code).fault, outcome.node with
  | some fault, _ => some (unforeseen fault.message)
  | none, .error stop => some (unforeseen stop.message)
  | none, .ok _ =>
    if outcome.state.problems.isEmpty then none
    else
      let listed := outcome.state.problems.map fun p => Hint.annotate p.message
      let advice := if strict && !outcome.state.violations.isEmpty then
          mixture outcome.state.violations.length outcome.state.dialect
        else ""
      some ("Bida, kozache! Errors found:\n" ++ String.join listed ++ advice)

variable {w : World} {code : String} {strict : Bool}

theorem runIn_of_refusal (h : refusal? code strict = some report) (folder : String) :
    runIn w code strict folder = (.ok (.number 1), w.write report) := by
  have unforeseen : ∀ message, unexpected w message = (.ok (.number 1), w.write
      ("Neperedbachena bida! An unexpected error occurred:\n" ++ Hint.annotate message)) := by
    intro message
    rw [unexpected, World.printLine, World.write_write]
    rfl
  unfold refusal? at h
  dsimp only at h
  unfold runIn
  dsimp only
  split at h
  · rename_i fault lexed
    cases h
    rw [lexed]
    exact unforeseen _
  · rename_i stop lexed parsed
    cases h
    rw [lexed, parsed]
    exact unforeseen _
  · rename_i program lexed parsed
    rw [lexed, parsed]
    dsimp only
    split at h
    · cases h
    · rename_i problems
      cases h
      rw [if_neg problems, unreadable, World.foldl_write, World.printLine]
      split
      · rw [World.write_write, World.write_write]
        rfl
      · rw [World.write_write, String.append_empty]
        rfl

theorem refusal?_eq_none_iff : refusal? code strict = none ↔ (lex code).fault = none ∧
    ∃ program, (parse (lex code).tokens strict).node = .ok program ∧
      (parse (lex code).tokens strict).state.problems = [] := by
  unfold refusal?
  dsimp only
  cases lexed : (lex code).fault with
  | some fault => simp
  | none =>
    cases parsed : (parse (lex code).tokens strict).node with
    | error stop | ok program => simp

theorem startIn?_of_accepted (h : refusal? code strict = none) (folder : String) :
    ∃ program s, startIn? w code strict folder = some (program, s) ∧ s.exitCode = .number 0 := by
  obtain ⟨lexed, program, parsed, clean⟩ := refusal?_eq_none_iff.1 h
  unfold startIn?
  dsimp only
  rw [lexed, parsed]
  dsimp only
  rw [if_pos (isEmpty_iff.2 clean)]
  exact ⟨_, _, rfl, by cases strict <;> cases (parse (lex code).tokens _).state.dialect <;> rfl⟩

theorem enter_files {f f' : Files} {path : String} (h : f.enter path = .ok f') :
    { f' with cwd := f.cwd } = f := by
  unfold Files.enter at h
  cases found : f.resolve path with
  | error fault =>
    rw [found] at h
    cases h
  | ok names =>
    rw [found] at h
    change (if f.isFolder names then _ else _) = _ at h
    split at h
    · cases h
      rfl
    · split at h <;> cases h

variable {folder : Option String} {c : ExitCode}

theorem run_of_refusal (h : refusal? code strict = some report)
    (ended : (run w code strict folder).1 = .ok c) :
    c = .number 1 ∧ (run w code strict folder).2 = w.write report := by
  unfold run at ended ⊢
  cases given : folder.filter (· ≠ "") with
  | none =>
    rw [given] at ended
    rw [runIn_of_refusal h] at ended ⊢
    cases ended
    exact ⟨rfl, rfl⟩
  | some path =>
    rw [given] at ended
    dsimp only at ended ⊢
    cases entered : w.files.enter path with
    | error fault =>
      rw [entered] at ended
      cases ended
    | ok files =>
      rw [entered] at ended
      dsimp only at ended ⊢
      rw [runIn_of_refusal h] at ended ⊢
      cases ended
      refine ⟨rfl, ?_⟩
      show { ({ w with files } : World).write report with
        files := { files with cwd := w.files.cwd } } = w.write report
      rw [enter_files entered]
      rfl

theorem start?_of_accepted (h : refusal? code strict = none)
    (ended : (run w code strict folder).1 = .ok c) :
    ∃ program s, start? w code strict folder = some (program, s) ∧ s.exitCode = .number 0 := by
  rcases run_cases w code strict folder with ⟨-, unended⟩ | ⟨v, path, starts, -⟩
  · exact absurd ended (unended c)
  · exact starts ▸ startIn?_of_accepted h path

/-- The code that an evaluation is reported with. -/
def codeOf : EStateM.Result Signal Session Value → ExitCode
  | .ok _ t => t.exitCode
  | .error (.exited code) _ => code
  | .error _ _ => .number 1

theorem conclude_eq_ok {result : EStateM.Result Signal Session Value}
    (h : (conclude result).1 = .ok c) : c = codeOf result := by
  cases result with
  | ok value t =>
    cases h
    rfl
  | error signal t =>
    cases signal with
    | exited code =>
      cases h
      rfl
    | failed fault => cases fault <;> cases h <;> rfl
    | suspended cause =>
      cases cause with
      | steps =>
        cases h
        rfl
      | input => cases h
    | returned value =>
      unfold conclude at h
      dsimp only at h
      split at h
      · cases h
        rfl
      · cases h

end Report

/-- A run with a code has one in range. A text that cannot be run is refused with code 1, and only
the report changes in the world. Otherwise the program is evaluated and comes to exits with certain
codes: if it ends by an exit, the code is that one, and among these; if it ends normally, it is the
last of them, or 0; otherwise it is 1. -/
theorem code_of_run {w : World} {code : String} {strict : Bool} {folder : Option String}
    {c : ExitCode} (ended : (Report.run w code strict folder).1 = .ok c) :
    c.InRange ∧
      match Report.refusal? code strict with
      | some report =>
        c = .number 1 ∧ (Report.run w code strict folder).2 = w.write report
      | none =>
        ∃ program s, ∃ codes : List ExitCode,
          Report.start? w code strict folder = some (program, s) ∧
          (∀ note, (ending (noting (fun _ => pure ()) note stepLimit program s)).exitCode =
            codes.foldl note (.number 0)) ∧
          (∀ code ∈ codes, code.InRange) ∧
          match eval stepLimit program s with
          | .ok _ _ => c = codes.getLastD (.number 0)
          | .error (.exited code) _ => c = code ∧ code ∈ codes
          | .error _ _ => c = .number 1 := by
  have failed : ExitCode.InRange (.number 1) := ⟨by decide, by decide⟩
  cases refused : Report.refusal? code strict with
  | some report =>
    obtain ⟨rfl, world⟩ := Report.run_of_refusal refused ended
    exact ⟨failed, rfl, world⟩
  | none =>
    obtain ⟨program, s, starts, fresh⟩ := Report.start?_of_accepted refused ended
    obtain ⟨codes, r, noted, register, result⟩ := codes_of_eval stepLimit program fresh
    rw [Report.run_of_start starts] at ended
    have reported := Report.conclude_eq_ok ended
    suffices shown : c.InRange ∧ match eval stepLimit program s with
        | .ok _ _ => c = codes.getLastD (.number 0)
        | .error (.exited code) _ => c = code ∧ code ∈ codes
        | .error _ _ => c = .number 1 from
      ⟨shown.1, program, s, codes, starts, register, noted.inRange, shown.2⟩
    rw [result] at reported ⊢
    cases r with
    | ok value t =>
      refine ⟨?_, reported⟩
      rw [reported]
      exact inRange_last noted.inRange
    | error signal t =>
      cases signal with
      | exited code =>
        have found : code ∈ codes := (noted.exits code t rfl).resolve_right id
        exact ⟨by rw [reported]; exact noted.inRange code found, reported, found⟩
      | _ => exact ⟨by rw [reported]; exact failed, reported⟩

/-- A program whose exit a handler takes. -/
def exitInHandler : String :=
  "Chief\nTry \x7b Exit(3); \x7d Catch(e) \x7b Print(e); \x7d\nPrint(2);"

/-- Whether an evaluation comes to its end. -/
def completes {α : Type} : EStateM.Result Signal Session α → Bool
  | .ok _ _ => true
  | .error _ _ => false

theorem code_of_run_in_handler :
    (Report.run {} exitInHandler false none).1 = .ok (.number 3) ∧
    ∃ program s, ∃ codes : List ExitCode,
      Report.start? {} exitInHandler false none = some (program, s) ∧
      (∀ note, (ending (noting (fun _ => pure ()) note stepLimit program s)).exitCode =
        codes.foldl note (.number 0)) ∧
      codes.getLastD (.number 0) = .number 3 := by
  obtain ⟨code, accepted, normal⟩ :
      (Report.run {} exitInHandler false none).1.toOption = some (.number 3) ∧
      Report.refusal? exitInHandler false = none ∧
      (Report.start? {} exitInHandler false none).map
        (fun begun => completes (eval stepLimit begun.1 begun.2)) = some true := by
    decide +kernel
  have ended : (Report.run {} exitInHandler false none).1 = .ok (.number 3) := by
    cases result : (Report.run {} exitInHandler false none).1 with
    | ok c =>
      rw [result] at code
      cases code
      rfl
    | error fault =>
      rw [result] at code
      cases code
  have shown := (code_of_run ended).2
  rw [accepted] at shown
  obtain ⟨program, s, codes, starts, noted, -, last⟩ := shown
  rw [starts] at normal
  refine ⟨ended, program, s, codes, starts, noted, ?_⟩
  cases result : eval stepLimit program s with
  | ok value t =>
    rw [result] at last
    exact last.symm
  | error signal t => simp [result, completes] at normal

end Hetman
