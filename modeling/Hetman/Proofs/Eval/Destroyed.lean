import Hetman.Proofs.Eval.Members
import Hetman.Proofs.Eval.Monitor

/-!
# What is left of a destroyed object

Nothing of a destroyed object changes any more (`runs_since`). Whoever reads or writes a member of
it is refused (`destroyed_refuses`). Calls of its methods by name do not ask whether the object was
destroyed (`destroyed_answers_calls`).
-/

namespace Hetman.Eval

variable {ref : Nat} {s : Session}

/-! ## Time -/

def since (h : Heap) : Discipline where
  start s := h.Ages s.heap
  change _ t := h.Ages t.heap
  returns := True
  quiet start q := start.trans q.heap
  trans _ second := second
  keeps _ change := change

theorem since_about (h : Heap) : (since h).About (·.heap) where
  unscoped _ _ _ _ _ _ := rfl
  change s t start same := by
    have older : h.Ages t.heap := by
      rw [same]
      exact start
    exact older
  returns := trivial
  writes _ _ start _ := start
  defines _ _ _ start _ := start

theorem runs_since (h : Heap) (fuel : Nat) (node : Node) :
    Runs (since h) (eval fuel node) (eval fuel node) := by
  have run := (since_about h).monitored (m := {}) (fun _ _ start => start) (fun _ _ _ => rfl)
    (fun _ _ _ _ _ => rfl) (fun _ _ _ _ _ _ => rfl) fuel [] node
  rw [monitored_idle] at run
  exact run

/-! ## Destruction -/

/-- However the destructor ends, the object is destroyed then. -/
theorem destroyed_of_destroy {ref : Nat} {s : Session} (known : ref < s.heap.objects.size)
    (fuel : Nat) :
    ((ending (destroy (eval fuel) ref s)).heap.object ref).destroyed = true := by
  have marked : ∀ h : Heap, s.heap.Ages h →
      ((Object.markDestroyed h ref).object ref).destroyed = true := by
    intro h older
    rw [Object.object_markDestroyed (Nat.lt_of_lt_of_le known older.size)]
  rw [destroy_apply]
  split
  · assumption
  · cases (s.classes.info (s.heap.object ref).classId).destructor with
    | none => exact marked s.heap (.refl _)
    | some body =>
      have nodes : ∀ n ∈ body, Runs (since s.heap) (eval fuel n) (eval fuel n) :=
        fun n _ => runs_since s.heap fuel n
      have older := ((since_about s.heap).runBody nodes [("this", .object ref)] "Destructor" s
        (.refl _)).change
      dsimp only
      cases result : runBody (eval fuel) body [("this", .object ref)] "Destructor" s with
      | ok value t | error signal t =>
        rw [result] at older
        exact marked t.heap older

/-! ## Refusals -/

/-- Refuses a member because the object was destroyed. -/
def refuse {α : Type} (ref : Nat) : Eval α := do
  let s ← get
  reject (.object (.destroyed (s.classes.info (s.heap.object ref).classId).name))

theorem readMember_destroyed (gone : (s.heap.object ref).destroyed = true) (name : String) :
    readMember ref name s = refuse ref s := by
  rw [readMember_apply, Object.get_of_destroyed gone]
  rfl

theorem setField_destroyed (gone : (s.heap.object ref).destroyed = true) (name : String)
    (value : Value) : setField ref name value s = refuse ref s := by
  rw [setField_apply, Object.set_of_destroyed gone]
  rfl

/-- Refuses every member of objects that are gone. -/
def sealing (gone : Session → Nat → Bool) : Monitor where
  read _ ref _ := do
    if gone (← get) ref then refuse ref
  write _ ref _ _ := do
    if gone (← get) ref then refuse ref

/-- Objects that have been destroyed may as well be sealed. -/
theorem runs_sealed {h : Heap} {gone : Session → Nat → Bool}
    (destroyed : ∀ s ref, h.Ages s.heap → gone s ref = true →
      (s.heap.object ref).destroyed = true) (fuel : Nat) (node : Node) :
    Runs (since h) (monitored (sealing gone) fuel [] node) (eval fuel node) := by
  apply (since_about h).monitored fun _ _ start => start
  · exact fun _ _ _ => rfl
  · intro running ref name s start
    have asked : ((sealing gone).read running ref name >>= fun _ => readMember ref name) s =
        ((if gone s ref then refuse ref else pure ()) >>= fun _ => readMember ref name) s := rfl
    rw [asked]
    cases isGone : gone s ref with
    | false => rfl
    | true =>
      rw [readMember_destroyed (destroyed s ref start isGone)]
      rfl
  · intro running ref name value s start
    have asked : ((sealing gone).write running ref name value >>= fun _ =>
        setField ref name value) s =
        ((if gone s ref then refuse ref else pure ()) >>= fun _ => setField ref name value) s := rfl
    rw [asked]
    cases isGone : gone s ref with
    | false => rfl
    | true =>
      rw [setField_destroyed (destroyed s ref start isGone)]
      rfl

/-- In every run, reading or writing a member of an object that is destroyed by then is refused, and
what is destroyed stays so. Once an object is destroyed, however its destructor ended, this holds
for all its members at any later time, and nothing is evaluated for it: it may as well be sealed. -/
theorem destroyed_refuses {ref : Nat} {s : Session} (known : ref < s.heap.objects.size)
    (first : Nat) :
    (∀ fuel node (u : Session),
      monitored (sealing fun s ref => (s.heap.object ref).destroyed) fuel [] node u =
        eval fuel node u ∧
      u.heap.Ages (ending (eval fuel node u)).heap) ∧
    let t := ending (destroy (eval first) ref s)
    (t.heap.object ref).destroyed = true ∧
    ∀ u : Session, t.heap.Ages u.heap →
      (∀ name, readMember ref name u = refuse ref u) ∧
      (∀ name value, setField ref name value u = refuse ref u) ∧
      ∀ fuel node, monitored (sealing fun _ other => other == ref) fuel [] node u =
          eval fuel node u ∧
        (ending (eval fuel node u)).heap.object ref = t.heap.object ref := by
  refine ⟨fun fuel node u => ?_, ?_⟩
  · have run := runs_sealed (fun _ _ _ gone => gone) fuel node u (.refl u.heap)
    refine ⟨run.same, ?_⟩
    rw [← run.same]
    exact run.change
  · intro t
    have gone : (t.heap.object ref).destroyed = true := destroyed_of_destroy known first
    refine ⟨gone, fun u later => ⟨?_, ?_, fun fuel node => ?_⟩⟩
    · exact readMember_destroyed (later.stays gone)
    · exact setField_destroyed (later.stays gone)
    · have same : ∀ (v : Session) other, t.heap.Ages v.heap → (other == ref) = true →
          (v.heap.object other).destroyed = true := by
        intro v other later same
        rw [eq_of_beq same]
        exact later.stays gone
      have run := runs_sealed same fuel node u later
      have older := run.change
      rw [run.same] at older
      exact ⟨run.same, older.destroyed ref gone⟩

/-- A session with an object whose destructor fails. -/
def condemned : Session where
  env := [("a", .object 0)]
  classes := { classes := #[{ name := "A", destructor := some [.throw (.text "no")] }] }
  heap := { objects := #[{ classId := 0, fields := [("x", .int 5)] }] }

/-- The object is destroyed though its destructor failed, and its field is refused. -/
theorem destroyed_refuses_condemned :
    let t := ending (destroy (eval 3) 0 condemned)
    (∃ fault u, destroy (eval 3) 0 condemned = .error (.failed fault) u) ∧
    (t.heap.object 0).destroyed = true ∧
    monitored (sealing fun _ ref => ref == 0) 3 [] (.property (.var "a") "x") t =
      eval 3 (.property (.var "a") "x") t ∧
    ∀ name, readMember 0 name t = refuse 0 t := by
  intro t
  obtain ⟨-, gone, later⟩ := @destroyed_refuses 0 condemned (by decide) 3
  obtain ⟨read, -, isSealed⟩ := later t (.refl _)
  exact ⟨⟨_, _, rfl⟩, gone, (isSealed 3 _).1, read⟩

/-- A method of a destroyed object that is called by its name is run. -/
theorem destroyed_answers_calls :
    (Report.run {} ("Chief\nClass A \x7b Function m() \x7b Return 7; \x7d \x7d\na := new A();\n" ++
      "Destructor(a);\nPrint(a.m());") false none).2.output =
    "7\n\nProgram executed successfully, kozache!\nProgram exited with code 0\n" := by
  decide +kernel

end Hetman.Eval
