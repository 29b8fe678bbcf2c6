import Hetman.Files

/-!
# Paths and what becomes of files

The plain form of a path has ordinary names under a root that may be doubled, and is its own plain
form. Different paths in plain form with a single root lead to different files
(`Files.length_le_programs`). Programs remove no files and no folders (`Files.Keeps`).
-/

namespace Hetman

open List

namespace Path

/-! ## Plain forms -/

/-- A name of a file or folder. -/
structure Ordinary (name : String) : Prop where
  nonempty : name ≠ ""
  noDot : name ≠ "."
  noDots : name ≠ ".."
  noSlash : '/' ∉ name.toList

variable {path name : String} {c : List String}

theorem split_eq_splitOn (chars : List Char) : names.split chars = chars.splitOn '/' := by
  fun_induction names.split chars with
  | case1 => rfl
  | case2 rest ih =>
    rw [ih]
    rfl
  | case3 c rest other none ih => exact absurd (ih.symm.trans none) (splitOn_ne_nil _ _)
  | case4 c rest other first more found ih =>
    rw [splitOn_cons_eq_if_modifyHead, ← ih, found, if_neg (by simpa using other)]
    rfl

theorem noSlash_of_mem_split {chars part : List Char} (isPart : part ∈ names.split chars) :
    '/' ∉ part := by
  fun_induction names.split chars generalizing part with
  | case1 => simp_all
  | case2 rest ih =>
    rcases mem_cons.1 isPart with rfl | inRest
    · exact not_mem_nil
    · exact ih inRest
  | case3 c rest other none ih =>
    cases mem_singleton.1 isPart
    simpa using fun same => other same.symm
  | case4 c rest other first more found ih =>
    rw [found] at ih
    rcases mem_cons.1 isPart with rfl | inMore
    · intro isSlash
      rcases mem_cons.1 isSlash with same | inFirst
      · exact other same.symm
      · exact ih (mem_cons_self ..) inFirst
    · exact ih (mem_cons_of_mem _ inMore)

theorem mem_collapse (isName : name ∈ collapse c) :
    name ∈ c ∧ name ≠ "" ∧ name ≠ "." ∧ name ≠ ".." := by
  have kept : ∀ (c taken : List String) (P : String → Prop), (∀ n ∈ taken, P n) →
      (∀ n ∈ c, n ≠ "" → n ≠ "." → n ≠ ".." → P n) →
      ∀ n ∈ c.foldl (fun taken name =>
        if name = "" || name = "." then taken
        else if name = ".." then taken.drop 1
        else name :: taken) taken, P n := by
    intro c
    induction c with
    | nil => exact fun _ _ old _ => old
    | cons first rest ih =>
      intro taken P old new
      refine ih _ P ?_ fun n inRest => new n (mem_cons_of_mem _ inRest)
      dsimp only
      split
      · exact old
      · rename_i notEmpty
        split
        · exact fun n inTaken => old n (mem_of_mem_drop inTaken)
        · rename_i notDots
          simp only [Bool.or_eq_true, decide_eq_true_eq, not_or] at notEmpty
          refine forall_mem_cons.2 ⟨?_, old⟩
          exact new first (mem_cons_self ..) notEmpty.1 notEmpty.2 notDots
  refine kept c [] (fun n => n ∈ c ∧ n ≠ "" ∧ n ≠ "." ∧ n ≠ "..") ?_ ?_ name (mem_reverse.1 isName)
  · exact fun _ inNil => nomatch inNil
  · exact fun n inC h1 h2 h3 => ⟨inC, h1, h2, h3⟩

theorem collapse_of_ordinary (ordinary : ∀ n ∈ c, Ordinary n) : collapse c = c := by
  have taken : ∀ taken, c.foldl (fun taken name =>
        if name = "" || name = "." then taken
        else if name = ".." then taken.drop 1
        else name :: taken) taken = c.reverse ++ taken := by
    induction c with
    | nil => exact fun _ => rfl
    | cons first rest ih =>
      intro taken
      have isOrdinary := ordinary first (mem_cons_self ..)
      rw [foldl_cons, ih fun n inRest => ordinary n (mem_cons_of_mem _ inRest)]
      simp [isOrdinary.nonempty, isOrdinary.noDot, isOrdinary.noDots]
  unfold collapse
  rw [taken]
  simp

theorem names_slash (path : String) : names ("/" ++ path) = "" :: names path := by
  unfold names
  rw [String.toList_append]
  rfl

theorem names_ofNames (ordinary : ∀ n ∈ c, Ordinary n) :
    names (ofNames c) = "" :: if c = [] then [""] else c := by
  unfold ofNames
  rw [names_slash]
  cases c with
  | nil => rfl
  | cons first rest =>
    have clean : ∀ part ∈ (first :: rest).map String.toList, '/' ∉ part := by
      intro part isPart
      obtain ⟨n, isName, rfl⟩ := mem_map.1 isPart
      exact (ordinary n isName).noSlash
    have parted := splitOn_intercalate '/' clean (by simp)
    unfold names
    rw [split_eq_splitOn, String.toList_intercalate]
    rw [show "/".toList = ['/'] from rfl, parted, map_map]
    simp

/-- A path of names does not have a doubled root. -/
theorem ofNames_single (ordinary : ∀ n ∈ c, Ordinary n) : (ofNames c).startsWith "//" = false := by
  unfold ofNames
  cases c with
  | nil => simp
  | cons first rest =>
    obtain ⟨nonempty, -, -, noSlash⟩ := ordinary first (mem_cons_self ..)
    cases chars : first.toList with
    | nil => exact absurd (String.toList_eq_nil_iff.1 chars) nonempty
    | cons ch more =>
      have other : ch ≠ '/' := by
        rintro rfl
        rw [chars] at noSlash
        exact noSlash (mem_cons_self ..)
      cases rest <;> simp [List.intercalate, chars, other.symm]

theorem ordinary_collapse (path : String) : ∀ n ∈ collapse (names path), Ordinary n := by
  intro n isName
  obtain ⟨inPath, nonempty, noDot, noDots⟩ := mem_collapse isName
  obtain ⟨part, isPart, rfl⟩ := mem_map.1 inPath
  refine ⟨nonempty, noDot, noDots, ?_⟩
  rw [String.toList_ofList]
  exact noSlash_of_mem_split isPart

theorem collapse_empty (c : List String) : collapse ("" :: c) = collapse c :=
  rfl

theorem collapse_names_ofNames (ordinary : ∀ n ∈ c, Ordinary n) :
    collapse (names (ofNames c)) = c := by
  rw [names_ofNames ordinary]
  split
  · rename_i none
    rw [none]
    rfl
  · exact collapse_of_ordinary ordinary

theorem normalize_of_single (single : path.startsWith "//" = false) :
    normalize path = ofNames (collapse (names path)) := by
  unfold normalize
  rw [single]
  simp

/-- A plain form has ordinary names, under a root that may be doubled. -/
theorem normalize_cases (path : String) : ∃ c, (∀ n ∈ c, Ordinary n) ∧
    (normalize path = ofNames c ∨ normalize path = "/" ++ ofNames c) := by
  refine ⟨collapse (names path), ordinary_collapse path, ?_⟩
  unfold normalize
  dsimp only
  split
  · exact .inr rfl
  · exact .inl (by simp)

theorem startsWith_slash (path : String) (n : String) :
    ("/" ++ path).startsWith ("/" ++ n) = path.startsWith n := by
  rw [Bool.eq_iff_iff, String.startsWith_string_iff, String.startsWith_string_iff,
    String.toList_append, String.toList_append]
  exact prefix_append_right_inj ..

theorem normalize_normalize (path : String) : normalize (normalize path) = normalize path := by
  obtain ⟨c, ordinary, single | doubled⟩ := normalize_cases path
  · rw [single, normalize_of_single (ofNames_single ordinary), collapse_names_ofNames ordinary]
  · have once : ("/" ++ ofNames c).startsWith "//" = true := by
      have rooted : (ofNames c).startsWith "/" = true := by
        unfold ofNames
        simp
      exact (startsWith_slash (ofNames c) "/").trans rooted
    have twice : ("/" ++ ofNames c).startsWith "///" = false :=
      (startsWith_slash (ofNames c) "//").trans (ofNames_single ordinary)
    rw [doubled]
    unfold normalize
    rw [once, twice, names_slash, collapse_empty, collapse_names_ofNames ordinary]
    rfl

end Path

namespace Files

variable {f g : Files} {path : String} {at_ place c : List String}

/-- What can be read among some files can be read among others. -/
def Keeps (f g : Files) : Prop :=
  ∀ path content, f.read path = .ok content → ∃ content', g.read path = .ok content'

/-- The path leads to a file. -/
theorem read_ok_iff {content : ByteArray} :
    f.read path = .ok content ↔
      ∃ at_, f.resolve path = .ok at_ ∧ f.isFolder at_ = false ∧ f.file? at_ = some content := by
  unfold read
  cases f.resolve path with
  | error fault => simp [bind, Except.bind]
  | ok at_ =>
    cases folder : f.isFolder at_ <;> cases file : f.file? at_ <;>
      simp [bind, Except.bind, pure, Except.pure, folder, file]

/-! ## Writing a file -/

theorem file?_setFile (f : Files) (at_ other : List String) (content : ByteArray) :
    (f.setFile at_ content).file? other =
      if at_ = other then some content else f.file? other := by
  unfold file? setFile
  generalize f.files = files
  induction files with
  | nil =>
    unfold setFile.put
    by_cases same : at_ = other <;> simp [same]
  | cons entry rest ih =>
    obtain ⟨name, old⟩ := entry
    unfold setFile.put
    by_cases found : name = at_
    · subst found
      by_cases same : name = other <;> simp [same]
    · by_cases here : name = other
      · subst here
        simp [found, Ne.symm found]
      · simpa [found, here] using ih

theorem walk_of_folders (folders : g.folders = f.folders) {names : List String} :
    g.walk at_ names = .ok place ↔ f.walk at_ names = .ok place := by
  have same : ∀ at_, g.isFolder at_ = f.isFolder at_ := by
    intro at_
    unfold isFolder
    rw [folders]
  induction names generalizing at_ with
  | nil => rfl
  | cons name rest ih =>
    unfold walk
    rw [same]
    cases f.isFolder at_ with
    | true =>
      simp only [if_true]
      split
      · rfl
      · split
        · exact ih
        · split <;> exact ih
    | false =>
      simp only [Bool.false_eq_true, if_false]
      split <;> split <;> simp

theorem resolve_of_folders (folders : g.folders = f.folders) (cwd : g.cwd = f.cwd) :
    g.resolve path = .ok place ↔ f.resolve path = .ok place := by
  unfold resolve
  rw [cwd]
  split
  · rfl
  · split
    · rfl
    · split
      · rfl
      · exact walk_of_folders folders

/-- No file is lost by writing. -/
theorem keeps_setFile (f : Files) (at_ : List String) (content : ByteArray) :
    f.Keeps (f.setFile at_ content) := by
  intro path old read
  obtain ⟨place, leads, notFolder, holds⟩ := read_ok_iff.1 read
  have leads' : (f.setFile at_ content).resolve path = .ok place :=
    (resolve_of_folders (f := f) (g := f.setFile at_ content) rfl rfl).2 leads
  have file := file?_setFile f at_ place content
  split at file
  · exact ⟨content, read_ok_iff.2 ⟨place, leads', notFolder, file⟩⟩
  · exact ⟨old, read_ok_iff.2 ⟨place, leads', notFolder, file.trans holds⟩⟩

theorem create_eq_ok_iff {keep : Bool} : f.create path keep = .ok (at_, g) ↔
    path.endsWith "/" = false ∧ f.resolve path = .ok at_ ∧ f.isFolder at_ = false ∧
      f.isFolder at_.dropLast = true ∧
      g = f.setFile at_ (if keep then (f.file? at_).getD .empty else .empty) := by
  unfold create
  simp only [bind, Except.bind, pure, Except.pure, throw, throwThe, MonadExceptOf.throw]
  cases path.endsWith "/" with
  | true =>
    split <;> simp
  | false =>
    simp only [Bool.false_eq_true, if_false, ite_self]
    cases f.resolve path with
    | error fault => simp
    | ok place => grind

theorem keeps_create {keep : Bool} (created : f.create path keep = .ok (at_, g)) : f.Keeps g := by
  obtain ⟨-, -, -, -, rfl⟩ := create_eq_ok_iff.1 created
  exact keeps_setFile f at_ _

theorem keeps_appendText (f : Files) (at_ : List String) (text : String) :
    f.Keeps (f.appendText at_ text) :=
  keeps_setFile f at_ _

/-! ## Plain paths of files -/

theorem walk_ordinary (ordinary : ∀ n ∈ c, Path.Ordinary n) (leads : f.walk at_ c = .ok place) :
    place = at_ ++ c := by
  induction c generalizing at_ with
  | nil =>
    cases leads
    simp
  | cons first rest ih =>
    obtain ⟨nonempty, noDot, noDots, -⟩ := ordinary first (mem_cons_self ..)
    have further := fun at_ => @ih at_ fun n inRest => ordinary n (mem_cons_of_mem _ inRest)
    unfold walk at leads
    simp only [nonempty, noDot, noDots, decide_false, Bool.or_self, Bool.false_eq_true,
      if_false] at leads
    split at leads
    · split at leads
      · cases leads
      · rw [further _ leads, append_assoc, singleton_append]
    · split at leads <;> cases leads

theorem walk_empty (leads : f.walk at_ ("" :: c) = .ok place) : f.walk at_ c = .ok place := by
  unfold walk at leads
  split at leads
  · split at leads
    · cases leads
    · exact leads
  · split at leads <;> cases leads

/-- A plain path says which file it leads to, unless its root is doubled. -/
theorem eq_ofNames_of_resolve (plain : Path.normalize path = path)
    (single : path.startsWith "//" = false) (leads : f.resolve path = .ok place) :
    path = Path.ofNames place := by
  have ordinary := Path.ordinary_collapse path
  rw [Path.normalize_of_single single] at plain
  generalize Path.collapse (Path.names path) = c at plain ordinary
  subst plain
  have absolute : Path.isAbsolute (Path.ofNames c) = true := by
    unfold Path.isAbsolute Path.ofNames
    simp
  unfold resolve at leads
  rw [Path.names_ofNames ordinary] at leads
  have walked : f.walk [] ("" :: if c = [] then [""] else c) = .ok place := by
    split at leads
    · cases leads
    · split at leads
      · cases leads
      · split at leads
        · cases leads
        · exact leads
  have reached : f.walk [] c = .ok place := by
    have next := walk_empty walked
    split at next
    · rename_i none
      rw [none]
      exact walk_empty next
    · exact next
  rw [walk_ordinary ordinary reached]
  rfl

/-- A path in plain form at which there is a program. -/
structure HasProgram (f : Files) (path : String) : Prop where
  plain : Path.normalize path = path
  named : path.endsWith ".kozak" = true
  readable : ∃ content, f.read path = .ok content

theorem HasProgram.kept (program : f.HasProgram path) (keeps : f.Keeps g) : g.HasProgram path := by
  obtain ⟨plain, named, content, read⟩ := program
  exact ⟨plain, named, keeps path content read⟩

/-- The files that are named like programs. -/
def programs (f : Files) : List (List String) :=
  ((f.files.map (·.1)).filter fun at_ => (Path.ofNames at_).endsWith ".kozak").eraseDups

/-- Different plain paths lead to different files if no root is doubled. -/
theorem length_le_programs {paths : List String} (distinct : paths.Nodup)
    (programs : ∀ p ∈ paths, f.HasProgram p)
    (single : ∀ p ∈ paths, p.startsWith "//" = false) : paths.length ≤ f.programs.length := by
  have places : paths ⊆ f.programs.map Path.ofNames := by
    intro p isPath
    obtain ⟨plain, named, content, read⟩ := programs p isPath
    obtain ⟨place, leads, -, holds⟩ := read_ok_iff.1 read
    have isPlace := eq_ofNames_of_resolve plain (single p isPath) leads
    obtain ⟨entry, found, -⟩ := Option.map_eq_some_iff.1 holds
    have isEntry : entry.1 = place := by simpa using find?_some found
    subst isEntry
    refine mem_map.2 ⟨entry.1, ?_, isPlace.symm⟩
    rw [Files.programs, mem_eraseDups, mem_filter]
    refine ⟨mem_map_of_mem (mem_of_find?_eq_some found), ?_⟩
    rw [← isPlace]
    exact named
  have fits := distinct.length_le_of_subset places
  rwa [length_map] at fits

end Files

end Hetman
