import Hetman.Proofs.Eval.Frame
import Hetman.Proofs.Eval.Monitor

/-!
# Imports of files

A file is put on record by its path in plain form before it is read, and what is on record is passed
over. So nothing is read again by the same path (`files_opened_once`), and an unreadable file counts
as imported all the same (`failed_import_recorded`). `importing` evaluates a node while somebody is
told, whenever a file is opened, of the files that are being imported.
-/

namespace Hetman

open List

variable {σ : Type} {part : Session → σ} {D : Discipline}

def Session.recording (s : Session) (full : String) : Session :=
  { s with imported := s.imported ++ [full] }

namespace Eval

variable {full path : String} {known outer : List String} {s t : Session}

/-! ## One import -/

/-- The program in a file, if it can be read and is one. -/
def loaded (s : Session) (full : String) : Except Fault Node :=
  match importText s.files full with
  | .ok code => readProgram s.strict s.dialect full code
  | .error fault => .error fault

/-- A file on record is passed over, and one that may not be imported is refused. Any other is put
on record, and then read and evaluated. -/
theorem runImport_apply (ev : Node → Eval Value) (full path : String) (s : Session) :
    runImport ev full path s =
      if full ∈ s.imported then .ok () s
      else
        match checkImport s.files full path with
        | .ok () =>
          match loaded s full with
          | .ok program => inFolder (Path.folder full) (ev program) (s.recording full)
          | .error fault => .error (.failed fault) (s.recording full)
        | .error fault => .error (.failed fault) s := by
  unfold runImport
  rw [get_bind_apply]
  by_cases known : full ∈ s.imported
  · rw [if_pos known, if_pos (contains_iff_mem.2 known)]
    rfl
  · rw [if_neg known, if_neg fun isKnown => known (contains_iff_mem.1 isKnown)]
    rw [lift_bind_apply]
    cases checkImport s.files full path with
    | error fault => rfl
    | ok u =>
      have recorded : (modify fun s => s.recording full : Eval Unit) s = .ok () (s.recording full) :=
        rfl
      refine (bind_ok recorded).trans ?_
      rw [lift_bind_apply]
      unfold loaded
      cases importText s.files full with
      | error fault => rfl
      | ok code =>
        dsimp only
        cases readProgram s.strict s.dialect full code <;> rfl

/-- Imports a file while others are being imported, the innermost first, and tells of all of them
when its text has been read. -/
def runWatched (watch : List String → Eval Unit) (ev : List String → Node → Eval Value)
    (outer : List String) (full path : String) : Eval Unit := do
  let s ← get
  if s.imported.contains full then return
  else
    lift (checkImport s.files full path)
    modify fun s => s.recording full
    let code ← lift (importText s.files full)
    watch (full :: outer)
    let program ← lift (readProgram s.strict s.dialect full code)
    inFolder (Path.folder full) (ev (full :: outer) program)

/-- Imports a library by its name, or a file in a given way. -/
def importBy (run : (full path : String) → Eval Unit) (target : Value) : Eval Value := do
  match target with
  | .text path =>
    match Library.ofName? path with
    | some lib => importLibrary lib
    | none => run (importPath (← get) path) path
    return .none
  | v => reject (.importing (.pathType v.typeName))

/-- Evaluates a node while files are being imported, and tells of every file that is opened. -/
def importing (watch : List String → Eval Unit) :
    (fuel : Nat) → (outer : List String) → Node → Eval Value
  | 0, _, _ => throw (.suspended .steps)
  | fuel + 1, outer, .importFile path => do
    importBy (runWatched watch (importing watch fuel) outer) (← importing watch fuel outer path)
  | fuel + 1, outer, node => evalNode fuel (importing watch fuel outer) node

theorem importBy_runImport (ev : Node → Eval Value) : importBy (runImport ev) = importValue ev :=
  rfl

/-- Who does not mind the opening of a file is not noticed. -/
theorem runWatched_eq {watch : List String → Eval Unit} {ev : List String → Node → Eval Value}
    (calm : full ∉ s.imported → checkImport s.files full path = .ok () →
      (∃ code, importText s.files full = .ok code) →
        watch (full :: outer) (s.recording full) = .ok () (s.recording full)) :
    runWatched watch ev outer full path s = runImport (ev (full :: outer)) full path s := by
  unfold runWatched runImport
  rw [get_bind_apply, get_bind_apply]
  by_cases known : full ∈ s.imported
  · rw [if_pos (contains_iff_mem.2 known), if_pos (contains_iff_mem.2 known)]
  · have unknown : ¬ s.imported.contains full = true :=
      fun isKnown => known (contains_iff_mem.1 isKnown)
    rw [if_neg unknown, if_neg unknown]
    cases check : checkImport s.files full path with
    | error fault => rfl
    | ok u =>
      cases text : importText s.files full with
      | error fault => rfl
      | ok code =>
        have told := calm known check ⟨code, text⟩
        exact bind_ok told

theorem Discipline.About.importing_succ {watch : List String → Eval Unit} {fuel : Nat}
    {outer : List String} (about : D.About part)
    (parts : ∀ n, Runs D (importing watch fuel outer n) (eval fuel n))
    (opens : ∀ s path, Runs D
      (runWatched watch (importing watch fuel) outer (importPath s path) path)
      (runImport (eval fuel) (importPath s path) path)) (node : Node) :
    Runs D (importing watch (fuel + 1) outer node) (eval (fuel + 1) node) := by
  cases node with
  | importFile path =>
    refine (parts path).bind fun target => ?_
    rw [← importBy_runImport]
    unfold importBy
    split
    · split
      · exact (runs_importLibrary (about.binds _)).bind fun _ => .pure _
      · exact .get fun s _ => (opens s _).bind fun _ => .pure _
    · exact (still_reject _).runs
  | _ =>
    apply runs_evalNode fuel fun p _ => parts p
    · exact about.calls parts
    · exact about.ownEffect fun path isImport => nomatch isImport

/-- What a discipline allows to know whenever a file is opened may be watched for. -/
theorem Discipline.About.importing {watch : List String → Eval Unit} (about : D.About part)
    (records : D.Records) (calm : ∀ files u, D.start u → watch files u = .ok () u) (fuel : Nat)
    (outer : List String) (node : Node) :
    Runs D (importing watch fuel outer node) (eval fuel node) := by
  induction fuel generalizing outer node with
  | zero => exact runs_outOfSteps
  | succ fuel ih =>
    refine about.importing_succ (ih outer) (fun s path t start => ?_) node
    have ran := runs_runImport records (fun _ program folder _ _ =>
      about.inFolder (ih (importPath s path :: outer) program) folder) (importPath s path) path
    refine (ran t start).congr (runWatched_eq fun _ _ _ => ?_)
    exact calm _ _ (D.keeps start (records t _ start))

/-! ## The record of imports -/

def growing : Discipline where
  start _ := True
  change s t := s.imported <+: t.imported
  returns := True
  quiet _ q := q.imported ▸ prefix_rfl
  trans := List.IsPrefix.trans
  keeps _ _ := trivial

theorem growing_about : growing.About (·.imported) where
  unscoped _ _ _ _ _ _ := rfl
  change s t _ same := by
    have grown : s.imported <+: t.imported := same ▸ prefix_rfl
    exact grown
  returns := trivial
  writes _ _ _ _ := prefix_rfl
  defines _ _ _ _ _ := prefix_rfl

theorem runs_growing (fuel : Nat) (node : Node) :
    Runs growing (eval fuel node) (eval fuel node) := by
  have run := growing_about.monitored (m := {}) (fun _ _ _ => prefix_append ..)
    (fun _ _ _ => rfl) (fun _ _ _ _ _ => rfl) (fun _ _ _ _ _ _ => rfl) fuel [] node
  rw [monitored_idle] at run
  exact run

/-- Some files are known to be on record, and others are being imported: these are on record, with
different paths and with programs in them. -/
structure Recorded (known outer : List String) (s : Session) : Prop where
  once : s.imported.Nodup
  kept : known ⊆ s.imported
  nested : outer ⊆ s.imported
  distinct : outer.Nodup
  programs : ∀ p ∈ outer, s.files.HasProgram p

namespace Recorded

theorem congr (h : Recorded known outer s) (imported : t.imported = s.imported)
    (files : t.files = s.files) : Recorded known outer t := by
  obtain ⟨once, kept, nested, distinct, programs⟩ := h
  refine ⟨?_, ?_, ?_, distinct, ?_⟩
  · rwa [imported]
  · rwa [imported]
  · rwa [imported]
  · rwa [files]

theorem leave (h : Recorded known (full :: outer) s) : Recorded known outer s where
  once := h.once
  kept := h.kept
  nested _ isOuter := h.nested (mem_cons_of_mem _ isOuter)
  distinct := (nodup_cons.1 h.distinct).2
  programs p isOuter := h.programs p (mem_cons_of_mem _ isOuter)

theorem enter (h : Recorded known outer s) (new : full ∉ outer) (listed : full ∈ s.imported)
    (program : s.files.HasProgram full) : Recorded known (full :: outer) s where
  once := h.once
  kept := h.kept
  nested := cons_subset.2 ⟨listed, h.nested⟩
  distinct := nodup_cons.2 ⟨new, h.distinct⟩
  programs := forall_mem_cons.2 ⟨program, h.programs⟩

theorem recording (h : Recorded known outer s) (new : full ∉ s.imported) :
    Recorded known outer (s.recording full) where
  once := by
    refine nodup_append.2 ⟨h.once, by simp, fun p listed q isNew => ?_⟩
    cases mem_singleton.1 isNew
    rintro rfl
    exact new listed
  kept _ isKnown := mem_append_left _ (h.kept isKnown)
  nested _ isOuter := mem_append_left _ (h.nested isOuter)
  distinct := h.distinct
  programs := h.programs

end Recorded

/-- A file may be imported if it is there and named like a program. -/
theorem checkImport_ok_iff {files : Files} : checkImport files full path = .ok () ↔
    files.exists? full = true ∧ full.endsWith ".kozak" = true := by
  unfold checkImport
  cases files.exists? full <;> cases full.endsWith ".kozak" <;> simp

theorem read_of_importText {files : Files} {code : String}
    (text : importText files full = .ok code) : ∃ content, files.read full = .ok content := by
  unfold importText at text
  split at text
  · cases text
  · cases text
  · exact ⟨_, ‹_›⟩

/-- A file is opened while others, the innermost first, are being imported. -/
structure Opening (full : String) (outer : List String) (s : Session) : Prop where
  /-- It is the last one on record, where no path stands twice. -/
  last : s.imported.getLast? = some full
  once : s.imported.Nodup
  /-- The others are on record, programs with different paths. -/
  nested : outer ⊆ s.imported
  distinct : (full :: outer).Nodup
  programs : ∀ p ∈ full :: outer, s.files.HasProgram p
  bounded : ∀ paths : List String, (∀ p, s.files.HasProgram p → p ∈ paths) →
    (full :: outer).length ≤ paths.length
  /-- They are no more than the programs, unless a path has a doubled root. -/
  files : (∀ p ∈ full :: outer, p.startsWith "//" = false) →
    (full :: outer).length ≤ s.files.programs.length

theorem Recorded.opening (h : Recorded known (full :: outer) s)
    (last : s.imported.getLast? = some full) : Opening full outer s where
  last := last
  once := h.once
  nested := h.leave.nested
  distinct := h.distinct
  programs := h.programs
  bounded _ all := h.distinct.length_le_of_subset fun p inChain => all p (h.programs p inChain)
  files single := Files.length_le_programs h.distinct h.programs single

/-! ## Evaluation -/

/-- Files are imported inside of others, and what is known to be on record stays there. -/
def recorded (known outer : List String) : Discipline where
  start := Recorded known outer
  change _ t := Recorded known outer t
  returns := True
  quiet start q := start.congr q.imported q.files
  trans _ second := second
  keeps _ change := change

theorem recorded_about (known outer : List String) :
    (recorded known outer).About fun s => (s.imported, s.files) where
  unscoped _ _ _ _ _ _ := rfl
  change _ _ start same := start.congr (congrArg (·.1) same) (congrArg (·.2) same)
  returns := trivial
  writes _ _ start keeps := ⟨start.once, start.kept, start.nested, start.distinct,
    fun p isOuter => (start.programs p isOuter).kept keeps⟩
  defines _ _ _ start _ := start.congr rfl rfl

variable {watch : List String → Eval Unit} {ev : List String → Node → Eval Value}
  {ev' : Node → Eval Value}

theorem runs_runWatched
    (calm : ∀ full outer u, full ∉ known → Opening full outer u →
      watch (full :: outer) u = .ok () u)
    (h : ∀ node, Runs (recorded known (full :: outer)) (ev (full :: outer) node) (ev' node))
    (plain : Path.normalize full = full) (path : String) :
    Runs (recorded known outer) (runWatched watch ev outer full path) (runImport ev' full path) := by
  intro s start
  have opened : full ∉ s.imported → checkImport s.files full path = .ok () →
      (∃ code, importText s.files full = .ok code) →
        Recorded known (full :: outer) (s.recording full) := by
    rintro new checked ⟨code, text⟩
    apply (start.recording new).enter
    · exact fun isOuter => new (start.nested isOuter)
    · exact mem_append_right _ (mem_singleton_self _)
    · exact ⟨plain, (checkImport_ok_iff.1 checked).2, read_of_importText text⟩
  have told : runWatched watch ev outer full path s = runImport (ev (full :: outer)) full path s := by
    apply runWatched_eq
    intro new checked text
    apply calm full outer _ fun isKnown => new (start.kept isKnown)
    exact (opened new checked text).opening getLast?_concat
  refine .congr ?_ told
  -- Both sides come to one result in each of the four ways in which an import may go.
  by_cases listed : full ∈ s.imported
  · have passed : ∀ ev, runImport ev full path s = .ok () s := by
      intro ev
      rw [runImport_apply, if_pos listed]
    exact ⟨(passed _).trans (passed _).symm, passed _ ▸ start, fun _ _ _ => trivial⟩
  · cases checked : checkImport s.files full path with
    | error fault =>
      have refused : ∀ ev, runImport ev full path s = .error (.failed fault) s := by
        intro ev
        rw [runImport_apply, if_neg listed, checked]
      exact ⟨(refused _).trans (refused _).symm, refused _ ▸ start, fun _ _ _ => trivial⟩
    | ok u =>
      cases load : loaded s full with
      | error fault =>
        have failed : ∀ ev, runImport ev full path s = .error (.failed fault) (s.recording full) := by
          intro ev
          rw [runImport_apply, if_neg listed, checked]
          rw [load]
        exact ⟨(failed _).trans (failed _).symm, failed _ ▸ start.recording listed,
          fun _ _ _ => trivial⟩
      | ok program =>
        have evaluated : ∀ ev, runImport ev full path s =
            inFolder (Path.folder full) (ev program) (s.recording full) := by
          intro ev
          rw [runImport_apply, if_neg listed, checked]
          rw [load]
        have text : ∃ code, importText s.files full = .ok code := by
          unfold loaded at load
          split at load
          · exact ⟨_, ‹_›⟩
          · cases load
        have inside : Runs (recorded known (full :: outer))
            (inFolder (Path.folder full) (ev (full :: outer) program))
            (inFolder (Path.folder full) (ev' program)) := by
          apply runs_inFolder (h program)
          · exact fun _ start => start.congr rfl rfl
          · exact fun _ _ _ change => change.congr rfl rfl
        have inside := inside _ (opened listed checked text)
        refine ⟨?_, ?_, fun _ _ _ => trivial⟩
        · rw [evaluated, evaluated]
          exact inside.same
        · rw [evaluated]
          exact inside.change.leave

/-- At every node, whoever looks on finds every file opened for the first time. -/
theorem runs_importing
    (calm : ∀ full outer u, full ∉ known → Opening full outer u →
      watch (full :: outer) u = .ok () u)
    (fuel : Nat) (outer : List String) (node : Node) :
    Runs (recorded known outer) (importing watch fuel outer node) (eval fuel node) := by
  induction fuel generalizing outer node with
  | zero => exact runs_outOfSteps
  | succ fuel ih =>
    apply (recorded_about known outer).importing_succ (ih outer)
    exact fun s path => runs_runWatched calm (fun n => ih _ n) (Path.normalize_normalize _) path

theorem recorded_start (once : s.imported.Nodup) : Recorded s.imported [] s :=
  ⟨once, List.Subset.refl _, nil_subset _, nodup_nil, forall_mem_nil _⟩

/-- In a session that starts without imports, every path is opened once at most. Whenever one is
opened, however deep inside of others, it is the last one on record, where no path stands twice. Those
being imported are programs with different paths, so no more than such paths; and no more than the
programs, unless a path has a doubled root (`doubled_root_opened_twice`). What is on record stays
there and is not opened again, whatever is evaluated. After every evaluation, however it ends, the
folder is the one from before. -/
theorem files_opened_once (statements : List Node) (fuel : Nat) (s : Session)
    (fresh : s.imported = []) :
    (∀ watch : List String → Eval Unit,
      (∀ full outer u, Opening full outer u → watch (full :: outer) u = .ok () u) →
      outcomes (importing watch fuel []) statements s = outcomes (eval fuel) statements s) ∧
    (∀ result ∈ outcomes (eval fuel) statements s, (ending result).imported.Nodup) ∧
    (∀ fuel node (u : Session), u.imported.Nodup → ∀ watch : List String → Eval Unit,
      (∀ full outer v, full ∉ u.imported → Opening full outer v →
        watch (full :: outer) v = .ok () v) →
      importing watch fuel [] node u = eval fuel node u) ∧
    ∀ fuel node u, u.imported <+: (ending (eval fuel node u)).imported ∧
      (ending (eval fuel node u)).folder = u.folder := by
  have start : Recorded s.imported [] s := by
    apply recorded_start
    rw [fresh]
    exact nodup_nil
  have unnoticed := fun (watch : List String → Eval Unit)
      (calm : ∀ full outer u, full ∉ s.imported → Opening full outer u →
        watch (full :: outer) u = .ok () u) =>
    outcomes_of_runs (runs_importing calm fuel []) statements start
  obtain ⟨-, changes⟩ := unnoticed (fun _ => pure ()) fun _ _ _ _ _ => rfl
  refine ⟨?_, ?_, ?_, ?_⟩
  · intro watch calm
    exact (unnoticed watch fun full outer u _ => calm full outer u).1
  · intro result isResult
    have change := (pairwise_cons.1 changes).1 _ (mem_map_of_mem isResult)
    exact change.once
  · intro fuel node u once watch calm
    exact (runs_importing calm fuel [] node u (recorded_start once)).same
  · intro fuel node u
    have anything : ∀ m : Node, m.Stays (fun _ => True) True := by
      intro m
      cases m <;> simp [Node.Stays]
    exact ⟨(runs_growing fuel node u trivial).change,
      (runs_frame fuel (fun m _ => anything m) u trivial).change.folder⟩

/-- A file that imports itself, by another path. -/
def circular : Session where
  files := ({} : Files).setFile ["a.kozak"] "Chief Import(\"./a.kozak\");".toUTF8

/-- Ends the program when a file is opened inside of itself. -/
def alarmed : List String → Eval Unit
  | full :: outer => if full ∈ outer then throw (.exited (.number 7)) else pure ()
  | [] => pure ()

theorem files_opened_once_circular :
    circular.imported = [] ∧
    outcomes (importing alarmed 9 []) [.importFile (.text "a.kozak")] circular =
      outcomes (eval 9) [.importFile (.text "a.kozak")] circular ∧
    (outcomes (eval 9) [.importFile (.text "a.kozak")] circular).map
        (fun result => (ending result).imported) = [["/a.kozak"]] := by
  refine ⟨rfl, ?_, ?_⟩
  · apply (files_opened_once [.importFile (.text "a.kozak")] 9 circular rfl).1
    intro full outer u opening
    have calm : alarmed (full :: outer) = pure () := if_neg (nodup_cons.1 opening.distinct).1
    rw [calm]
    rfl
  · decide +kernel

/-- A file that imports itself by a path with a doubled root. -/
def doubled : Session where
  files := ({} : Files).setFile ["a.kozak"] "Chief Print(0); Import(\"//a.kozak\");".toUTF8

/-- Writes down how many files are open. -/
def counting (chain : List String) : Eval Unit :=
  modify fun s => { s with output := s.output ++ toString chain.length ++ "/" }

/-- The plain form of a path keeps a doubled root, so that one file has two paths. It is evaluated
twice, the second time inside of itself, though there is one program only. -/
theorem doubled_root_opened_twice :
    doubled.imported = [] ∧ doubled.files.programs.length = 1 ∧
    (ending (eval 9 (.importFile (.text "a.kozak")) doubled)).imported = ["/a.kozak", "//a.kozak"] ∧
    (ending (eval 9 (.importFile (.text "a.kozak")) doubled)).output = "0\n0\n" ∧
    (ending (importing counting 9 [] (.importFile (.text "a.kozak")) doubled)).output =
      "1/0\n2/0\n" := by
  decide +kernel

/-! ## Imports that fail -/

variable {fuel : Nat} {e : Node}

/-- A node gives the path of a file. -/
structure NamesFile (fuel : Nat) (e : Node) (s t : Session) (full path : String) : Prop where
  given : eval fuel e s = .ok (.text path) t
  isFile : Library.ofName? path = none
  full : importPath t path = full

theorem NamesFile.eval_importFile (names : NamesFile fuel e s t full path) :
    eval (fuel + 1) (.importFile e) s =
      (runImport (eval fuel) full path >>= fun _ => pure .none) t := by
  have started : eval (fuel + 1) (.importFile e) s = (eval fuel e >>= importValue (eval fuel)) s :=
    rfl
  rw [started, bind_ok names.given, ← names.full]
  unfold importValue
  dsimp only
  rw [names.isFile]
  rfl

theorem NamesFile.passed_over (names : NamesFile fuel e s t full path)
    (known : full ∈ t.imported) : eval (fuel + 1) (.importFile e) s = .ok .none t := by
  have passed : runImport (eval fuel) full path t = .ok () t := by
    rw [runImport_apply, if_pos known]
  rw [names.eval_importFile, bind_ok passed]
  rfl

/-- An import of a file that is not on record evaluates the file or fails. A file that is missing,
or not named like a program, is not put on record. But one that cannot be read, or is no program, is
on record from then on, and whatever is evaluated later, imports of it do nothing. -/
theorem failed_import_recorded (names : NamesFile fuel e s t full path)
    (new : full ∉ t.imported) :
    (∀ fault, checkImport t.files full path = .error fault →
      eval (fuel + 1) (.importFile e) s = .error (.failed fault) t) ∧
    (checkImport t.files full path = .ok () →
      (∀ program, loaded t full = .ok program →
        eval (fuel + 1) (.importFile e) s =
          (inFolder (Path.folder full) (eval fuel program) >>= fun _ => pure .none)
            (t.recording full)) ∧
      ∀ fault, loaded t full = .error fault →
        eval (fuel + 1) (.importFile e) s = .error (.failed fault) (t.recording full) ∧
        ∀ statements fuel', ∀ u ∈ t.recording full ::
            (outcomes (eval fuel') statements (t.recording full)).map ending,
          ∀ {again e' v path'}, NamesFile again e' u v full path' →
            eval (again + 1) (.importFile e') u = .ok .none v) := by
  have run : runImport (eval fuel) full path t = _ := runImport_apply _ _ _ _
  rw [if_neg new] at run
  rw [names.eval_importFile]
  refine ⟨fun fault refused => ?_, fun checked => ⟨fun program load => ?_, fun fault load => ?_⟩⟩
  · rw [refused] at run
    exact bind_error run
  · rw [checked] at run
    dsimp only at run
    rw [load] at run
    exact bind_eq run
  · rw [checked] at run
    dsimp only at run
    rw [load] at run
    refine ⟨bind_error run, fun statements fuel' u later again e' v path' names' => ?_⟩
    -- The record grows up to the later session, and on while the path is evaluated.
    have recorded : full ∈ (t.recording full).imported :=
      mem_append_right _ (mem_singleton_self _)
    have known : full ∈ u.imported := by
      rcases mem_cons.1 later with rfl | isLater
      · exact recorded
      · have grows :=
          (outcomes_of_runs (runs_growing fuel') statements (s := t.recording full) trivial).2
        exact ((pairwise_cons.1 grows).1 u isLater).subset recorded
    have grows := (runs_growing again e' u trivial).change
    rw [names'.given] at grows
    exact names'.passed_over (grows.subset known)

/-- A file in which there is no program. -/
def blank : Session where
  files := ({} : Files).setFile ["b.kozak"] .empty

theorem blank_namesFile :
    NamesFile 1 (.text "b.kozak") blank blank "/b.kozak" "b.kozak" where
  given := rfl
  isFile := by decide +kernel
  full := by decide +kernel

theorem failed_import_recorded_blank :
    NamesFile 1 (.text "b.kozak") blank blank "/b.kozak" "b.kozak" ∧
    "/b.kozak" ∉ blank.imported ∧ checkImport blank.files "/b.kozak" "b.kozak" = .ok () ∧
    ∃ fault, loaded blank "/b.kozak" = .error fault ∧
      eval 2 (.importFile (.text "b.kozak")) blank =
        .error (.failed fault) (blank.recording "/b.kozak") ∧
      eval 2 (.importFile (.text "b.kozak")) (blank.recording "/b.kozak") =
        .ok .none (blank.recording "/b.kozak") := by
  have names := blank_namesFile
  have checked : checkImport blank.files "/b.kozak" "b.kozak" = .ok () := by
    apply checkImport_ok_iff.2
    decide +kernel
  have unread : (loaded blank "/b.kozak").isOk = false := by decide +kernel
  obtain ⟨fault, load⟩ : ∃ fault, loaded blank "/b.kozak" = .error fault := by
    cases load : loaded blank "/b.kozak" with
    | error fault => exact ⟨fault, rfl⟩
    | ok program =>
      rw [load] at unread
      cases unread
  have new : "/b.kozak" ∉ blank.imported := not_mem_nil
  obtain ⟨refused, passed⟩ := ((failed_import_recorded names new).2 checked).2 fault load
  refine ⟨names, new, checked, fault, load, refused, ?_⟩
  apply passed [] 0 _ (mem_cons_self ..)
  exact ⟨rfl, names.isFile, names.full⟩

/-- The first import of the file fails and the second one does not. -/
theorem blank_import_retried :
    (outcomes (eval 2) [.importFile (.text "b.kozak"), .importFile (.text "b.kozak")] blank).map
      (fun result => (result matches .ok _ _, (ending result).imported)) =
    [(false, ["/b.kozak"]), (true, ["/b.kozak"])] := by
  decide +kernel

end Eval

end Hetman
