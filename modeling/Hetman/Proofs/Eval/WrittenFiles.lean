import Hetman.Proofs.Eval.Discipline
import Hetman.Proofs.Files
import Hetman.Report

/-!
# What is read from files that were written

A file is known by its place, to which many paths may lead. A history of calls of `Write` leaves the
texts from the last one on that was not kept to the old ones (`said`). Line ends are unified when
the whole is read: a carriage return and a line feed may meet from two texts.
-/

namespace Hetman.Eval

open List

/-- A call of `Write`. -/
structure Writing where
  path : String
  content : Value
  keep : Option Value := none

namespace Writing

def call (w : Writing) (ev : Node → Eval Value) : Eval Value :=
  applyBuiltin ev .write (.text w.path :: w.content :: w.keep.toList)

def after (ev : Node → Eval Value) (s : Session) (w : Writing) : Session :=
  ending (w.call ev s)

def keeps (w : Writing) (h : Heap) : Bool :=
  w.keep.any h.truthy

end Writing

/-- The path leads to a place where a file may be. -/
structure Leads (s : Session) (path : String) (place : List String) : Prop where
  named : path.endsWith "/" = false
  resolves : s.files.resolve path = .ok place

structure Rewritten (s t : Session) : Prop where
  heap : t.heap = s.heap
  folders : t.files.folders = s.files.folders
  cwd : t.files.cwd = s.files.cwd

/-- Calls, and the texts that they write to a place, each with whether it is added. -/
inductive Received (s : Session) (place : List String) : List Writing → List (Bool × String) → Prop
  | nil : Received s place [] []
  | here {w : Writing} {ws : List Writing} {text : String} {texts : List (Bool × String)}
      (leads : Leads s w.path place) (shown : s.heap.display w.content = .ok text)
      (rest : Received s place ws texts) :
      Received s place (w :: ws) ((w.keeps s.heap, text) :: texts)
  | elsewhere {w : Writing} {ws : List Writing} {texts : List (Bool × String)}
      (other : ¬ Leads s w.path place) (rest : Received s place ws texts) :
      Received s place (w :: ws) texts

/-- What a file says after it was written to. -/
def said (old : String) (texts : List (Bool × String)) : String :=
  texts.foldl (fun old entry => if entry.1 then old ++ entry.2 else entry.2) old

def hold (old : Option ByteArray) (entry : Bool × String) : Option ByteArray :=
  some ((if entry.1 then old.getD .empty else .empty) ++ entry.2.toUTF8)

variable {s t : Session} {ev : Node → Eval Value} {w : Writing} {place : List String}
  {path text : String} {ws : List Writing} {texts : List (Bool × String)}

theorem foldl_hold (old : String) (texts : List (Bool × String)) :
    texts.foldl hold (some old.toUTF8) = some (said old texts).toUTF8 := by
  induction texts generalizing old with
  | nil => rfl
  | cons entry rest ih =>
    obtain ⟨keep, text⟩ := entry
    have held : hold (some old.toUTF8) (keep, text) =
        some (if keep then old ++ text else text).toUTF8 := by
      cases keep with
      | true => exact congrArg some (ByteArray.ext rfl)
      | false => exact congrArg some ByteArray.empty_append
    rw [foldl_cons, held, ih]
    rfl

namespace Rewritten

theorem trans {u : Session} (first : Rewritten s t) (second : Rewritten t u) : Rewritten s u :=
  ⟨second.heap.trans first.heap, second.folders.trans first.folders, second.cwd.trans first.cwd⟩

theorem isFolder (same : Rewritten s t) (place : List String) :
    t.files.isFolder place = s.files.isFolder place := by
  unfold Files.isFolder
  rw [same.folders]

theorem leads_iff (same : Rewritten s t) : Leads t path place ↔ Leads s path place := by
  constructor
  · exact fun ⟨named, resolves⟩ =>
      ⟨named, (Files.resolve_of_folders same.folders same.cwd).1 resolves⟩
  · exact fun ⟨named, resolves⟩ =>
      ⟨named, (Files.resolve_of_folders same.folders same.cwd).2 resolves⟩

end Rewritten

/-! ## Calls -/

theorem call_apply (w : Writing) (ev : Node → Eval Value) (s : Session) :
    w.call ev s = writeFile (.text w.path) w.content (w.keeps s.heap) s := by
  obtain ⟨path, content, keep⟩ := w
  cases keep <;> rfl

/-- A file is written to if the content can be turned into a text. -/
theorem call_created {at_ : List String} {g : Files}
    (created : s.files.create w.path (w.keeps s.heap) = .ok (at_, g)) : w.call ev s =
      match s.heap.display w.content with
      | .ok text => .ok .none { s with files := g.appendText at_ text }
      | .error fault => .error (.failed fault) { s with files := g } := by
  have opened : (set { s with files := g } : Eval Unit) s = .ok () { s with files := g } := rfl
  have turned : display w.content { s with files := g } =
      lift (s.heap.display w.content) { s with files := g } := rfl
  rw [call_apply]
  unfold writeFile
  dsimp only
  rw [get_bind_apply, created]
  dsimp only
  rw [bind_ok opened, bind_eq turned]
  cases s.heap.display w.content <;> rfl

theorem rewritten_after (ev : Node → Eval Value) (s : Session) (w : Writing) :
    Rewritten s (w.after ev s) ∧ ∀ place, ¬ Leads s w.path place →
      (w.after ev s).files.file? place = s.files.file? place := by
  cases created : s.files.create w.path (w.keeps s.heap) with
  | error fault =>
    have refused : w.after ev s = s := by
      unfold Writing.after
      rw [call_apply]
      unfold writeFile
      dsimp only
      rw [get_bind_apply, created]
      rfl
    rw [refused]
    exact ⟨⟨rfl, rfl, rfl⟩, fun _ _ => rfl⟩
  | ok made =>
    obtain ⟨at_, g⟩ := made
    obtain ⟨named, resolves, -, -, rfl⟩ := Files.create_eq_ok_iff.1 created
    have aside : ∀ place, ¬ Leads s w.path place → at_ ≠ place := by
      rintro place other rfl
      exact other ⟨named, resolves⟩
    unfold Writing.after
    rw [call_created created]
    cases s.heap.display w.content with
    | ok text =>
      refine ⟨⟨rfl, rfl, rfl⟩, fun place other => ?_⟩
      dsimp only [ending, Files.appendText]
      rw [Files.file?_setFile, if_neg (aside place other), Files.file?_setFile,
        if_neg (aside place other)]
    | error fault =>
      refine ⟨⟨rfl, rfl, rfl⟩, fun place other => ?_⟩
      exact (Files.file?_setFile ..).trans (if_neg (aside place other))

section Places

variable (ev) (free : s.files.isFolder place = false)
  (inFolder : s.files.isFolder place.dropLast = true)

include free inFolder

theorem call_ok (leads : Leads s w.path place) (shown : s.heap.display w.content = .ok text) :
    w.call ev s = .ok .none (w.after ev s) ∧
      (w.after ev s).files.file? place = hold (s.files.file? place) (w.keeps s.heap, text) := by
  have written : w.call ev s = _ := call_created
    (Files.create_eq_ok_iff.2 ⟨leads.named, leads.resolves, free, inFolder, rfl⟩)
  rw [shown] at written
  unfold Writing.after
  rw [written]
  refine ⟨rfl, ?_⟩
  dsimp only [ending, Files.appendText, hold]
  rw [Files.file?_setFile, if_pos rfl, Files.file?_setFile, if_pos rfl]
  rfl

/-- The induction is on the calls; what they need to know of the session stays. -/
theorem file?_foldl (received : Received s place ws texts) (same : Rewritten s t) :
    Rewritten s (ws.foldl (Writing.after ev) t) ∧
      (ws.foldl (Writing.after ev) t).files.file? place =
        texts.foldl hold (t.files.file? place) := by
  induction received generalizing t with
  | nil => exact ⟨same, rfl⟩
  | @here w ws text texts leads shown _ ih =>
    have written := (call_ok ev ((same.isFolder place).trans free)
      ((same.isFolder _).trans inFolder) (same.leads_iff.2 leads)
      (same.heap.symm ▸ shown)).2
    rw [same.heap] at written
    rw [foldl_cons, foldl_cons, ← written]
    exact ih (same.trans (rewritten_after ev t w).1)
  | @elsewhere w ws texts other _ ih =>
    obtain ⟨rewritten, aside⟩ := rewritten_after ev t w
    rw [← aside place fun leads => other (same.leads_iff.1 leads)]
    exact ih (same.trans rewritten)

end Places

/-- After any history of calls, a call with a path to a place in a folder writes there, and what is
read from there is what was written since the last call that did not keep what the file said, with
line ends unified. -/
theorem read_written (received : Received s place ws texts)
    (free : s.files.isFolder place = false)
    (inFolder : s.files.isFolder place.dropLast = true) (ev : Node → Eval Value) :
    (∀ (w : Writing) text, Leads s w.path place → s.heap.display w.content = .ok text →
      ∃ t, w.call ev (ws.foldl (Writing.after ev) s) = .ok .none t) ∧
    ∀ keep first later path, texts = (keep, first) :: later →
      keep = false ∨ s.files.file? place = none → s.files.resolve path = .ok place →
      applyBuiltin ev .read [.text path] (ws.foldl (Writing.after ev) s) =
        .ok (.text (String.ofList (Text.unifyNewlines (said first later).toList)))
          (ws.foldl (Writing.after ev) s) := by
  obtain ⟨same, holds⟩ := file?_foldl ev free inFolder received ⟨rfl, rfl, rfl⟩
  refine ⟨fun w text leads shown => ?_, ?_⟩
  · exact ⟨_, (call_ok ev ((same.isFolder place).trans free) ((same.isFolder _).trans inFolder)
      (same.leads_iff.2 leads) (same.heap.symm ▸ shown)).1⟩
  rintro keep first later path rfl fresh resolves
  generalize ws.foldl (Writing.after ev) s = t at same holds ⊢
  have start : hold (s.files.file? place) (keep, first) = some first.toUTF8 := by
    refine congrArg some (Eq.trans ?_ ByteArray.empty_append)
    rcases fresh with rfl | absent
    · rfl
    · rw [absent]
      cases keep <;> rfl
  rw [foldl_cons, start, foldl_hold] at holds
  have read : t.files.read path = .ok (said first later).toUTF8 :=
    Files.read_ok_iff.2 ⟨place, (Files.resolve_of_folders same.folders same.cwd).2 resolves,
      (same.isFolder place).trans free, holds⟩
  have decoded : Utf8.decode (said first later).toUTF8 = .ok (said first later) := by
    simp only [Utf8.decode, String.fromUTF8?, String.toUTF8_eq_toByteArray,
      dif_pos (said first later).isValidUTF8]
    rfl
  show readFile (.text path) t = _
  unfold readFile
  dsimp only
  rw [get_bind_apply, read]
  dsimp only
  rw [Files.textOf, decoded]
  rfl

/-- A file is written anew and added to by another path, with a call for another file between. -/
theorem read_written_line_end :
    let calls : List Writing := [⟨"a.txt", .text "x\r", none⟩, ⟨"b.txt", .text "z", none⟩,
      ⟨"./a.txt", .text "\ny", some (.bool true)⟩]
    let t := calls.foldl (Writing.after (eval 9)) {}
    applyBuiltin (eval 9) .read [.text "a.txt"] t = .ok (.text "x\ny") t := by
  intro calls t
  have leads_iff : ∀ path place, ({} : Files).resolve path = .ok place ↔
      (({} : Files).resolve path).toOption = some place := by
    intro path place
    cases ({} : Files).resolve path <;> simp [Except.toOption]
  have leads : ∀ path ∈ ["a.txt", "./a.txt"], Leads {} path ["a.txt"] := by
    simp only [forall_mem_cons]
    exact ⟨⟨by decide +kernel, (leads_iff ..).2 (by decide +kernel)⟩,
      ⟨by decide +kernel, (leads_iff ..).2 (by decide +kernel)⟩, forall_mem_nil _⟩
  have other : ¬ Leads {} "b.txt" ["a.txt"] := fun leads =>
    absurd ((leads_iff ..).1 leads.resolves) (by decide +kernel)
  have received : Received {} ["a.txt"] calls [(false, "x\r"), (true, "\ny")] :=
    .here (leads _ (by simp)) rfl (.elsewhere other (.here (leads _ (by simp)) rfl .nil))
  exact (read_written received rfl rfl (eval 9)).2 false "x\r" [(true, "\ny")] "a.txt" rfl
    (.inl rfl) (leads "a.txt" (by simp)).resolves

/-- Another name of a file is no name of another file. -/
theorem write_by_other_name :
    (Report.run {} ("Chief\nWrite(\"a.txt\", \"x\");\nWrite(\"./a.txt\", \"y\");\n" ++
      "Print(Read(\"a.txt\"));") false none).2.output =
    "y\n\nProgram executed successfully, kozache!\nProgram exited with code 0\n" := by
  decide +kernel

end Hetman.Eval
