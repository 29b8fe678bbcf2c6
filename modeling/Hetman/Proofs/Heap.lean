import Hetman.Collection.Matrix
import Hetman.Collection.Plain
import Hetman.Object
import Hetman.Value.Arithmetic

/-!
# Objects over time

An object keeps its place, its class, and, once it is destroyed, everything (`Heap.Ages`). Functions
on lists and dictionaries and the operators leave all objects alone (`Heap.Spares`). What changes
objects is the making of one, the writing of a field, which a destroyed object refuses, and
destruction.
-/

namespace Hetman

variable {ref : Nat} {g : ClassGraph}

namespace Heap

variable {α β : Type} {h h' : Heap}

/-! ## Reading after writing -/

theorem object_setObject (h : Heap) (ref other : Nat) (o : Instance) :
    (h.setObject ref o).object other =
      if ref = other ∧ ref < h.objects.size then o else h.object other := by
  unfold object setObject
  by_cases same : ref = other
  · subst same
    by_cases inside : ref < h.objects.size
    · simp [inside]
    · simp [inside]
  · simp [same]

theorem object_newObject (h : Heap) (o : Instance) (other : Nat) :
    (h.newObject o).2.object other = if other = h.objects.size then o else h.object other := by
  unfold object newObject
  rw [Array.getElem?_push]
  split <;> rfl

theorem object_of_size_le (outside : h.objects.size ≤ ref) : h.object ref = default := by
  unfold object
  rw [Array.getElem?_eq_none outside]
  rfl

theorem lt_size_of_destroyed (destroyed : (h.object ref).destroyed = true) :
    ref < h.objects.size := by
  apply Nat.lt_of_not_le
  intro outside
  rw [object_of_size_le outside] at destroyed
  cases destroyed

/-! ## Objects that are left alone -/

/-- The heap of a result has the same objects. -/
def Spares (h : Heap) (heapOf : α → Heap) (result : Except Fault α) : Prop :=
  ∀ a, result = .ok a → (heapOf a).objects = h.objects

theorem spares_error (heapOf : α → Heap) (fault : Fault) : h.Spares heapOf (.error fault) := by
  intro a result
  cases result

theorem spares_ok {heapOf : α → Heap} {a : α} (same : (heapOf a).objects = h.objects) :
    h.Spares heapOf (.ok a) := by
  intro b result
  cases result
  exact same

variable {e : Except Fault α}

theorem spares_bind {heapOf : β → Heap} {f : α → Except Fault β}
    (next : ∀ a, e = .ok a → h.Spares heapOf (f a)) : h.Spares heapOf (e >>= f) := by
  cases e with
  | ok a => exact next a rfl
  | error fault => exact spares_error heapOf fault

/-- A computation that hands the heap back. -/
theorem spares_map {f : α → Value} : h.Spares (·.2) (e >>= fun a => .ok (f a, h)) :=
  spares_bind fun _ _ => spares_ok rfl

/-! ### Lists -/

theorem spares_append (array value : Value) : h.Spares (·.2) (h.append array value) :=
  spares_bind fun _ _ => spares_ok rfl

theorem spares_insert (array index value : Value) :
    h.Spares (·.2) (h.insert array index value) :=
  spares_bind fun _ _ => spares_bind fun _ _ => spares_bind fun _ _ => spares_ok rfl

theorem spares_remove (array index : Value) : h.Spares (·.2) (h.remove array index) :=
  spares_bind fun _ _ => spares_bind fun _ _ => spares_bind fun _ _ => spares_ok rfl

theorem spares_pop (array : Value) : h.Spares (·.2) (h.pop array) := by
  refine spares_bind fun ref _ => ?_
  split
  · exact spares_ok rfl
  · exact spares_error _ _

theorem spares_clear (array : Value) : h.Spares (·.2) (h.clear array) :=
  spares_bind fun _ _ => spares_ok rfl

theorem spares_slice (array start : Value) (stop : Option Value) :
    h.Spares (·.2) (h.slice array start stop) := by
  refine spares_bind fun ref _ => spares_bind fun low _ => ?_
  split
  · exact spares_ok rfl
  · exact spares_ok rfl
  · exact spares_bind fun _ _ => spares_ok rfl

theorem spares_contains (array value : Value) : h.Spares (·.2) (h.contains array value) :=
  spares_bind fun _ _ => spares_map

theorem spares_indexOf (array value : Value) : h.Spares (·.2) (h.indexOf array value) := by
  refine spares_bind fun ref _ => spares_bind fun found _ => ?_
  split
  · exact spares_ok rfl
  · exact spares_ok rfl

theorem spares_length (v : Value) : h.Spares (·.2) (h.length v) := by
  unfold length
  split
  · exact spares_ok rfl
  · exact spares_ok rfl
  · exact spares_ok rfl
  · exact spares_error _ _

theorem spares_setElement (ref : Nat) (index value : Value) :
    h.Spares id (h.setElement ref index value) := by
  unfold setElement
  split
  · exact spares_error _ _
  · split
    · exact spares_ok rfl
    · exact spares_error _ _

/-! ### Dictionaries -/

theorem spares_setEntry (ref : Nat) (key value : Value) :
    h.Spares id (h.setEntry ref key value) :=
  spares_bind fun _ _ => spares_ok rfl

theorem spares_keys (dictionary : Value) : h.Spares (·.2) (h.keys dictionary) :=
  spares_bind fun _ _ => spares_ok rfl

theorem spares_values (dictionary : Value) : h.Spares (·.2) (h.values dictionary) :=
  spares_bind fun _ _ => spares_ok rfl

theorem spares_hasKey (dictionary key : Value) : h.Spares (·.2) (h.hasKey dictionary key) :=
  spares_bind fun _ _ => spares_map

theorem spares_removeKey (dictionary key : Value) :
    h.Spares (·.2) (h.removeKey dictionary key) := by
  refine spares_bind fun ref _ => spares_bind fun found _ => ?_
  split
  · exact spares_ok rfl
  · exact spares_bind fun _ _ => spares_error _ _

/-! ### Matrices -/

theorem objects_newLists (h : Heap) (rows : List (List Value)) :
    (h.newLists rows).2.objects = h.objects := by
  induction rows generalizing h with
  | nil => rfl
  | cons items rest ih => exact ih (h.newList items).2

theorem objects_newMatrix (h : Heap) (rows : List (List Value)) :
    (h.newMatrix rows).2.objects = h.objects :=
  objects_newLists h rows

theorem spares_createMatrix (rows cols fill : Value) :
    h.Spares (·.2) (h.createMatrix rows cols fill) := by
  unfold createMatrix
  split
  · split
    · exact spares_error _ _
    · exact spares_ok (objects_newMatrix h _)
  · exact spares_error _ _

theorem spares_matrixSize (matrix : Value) : h.Spares (·.2) (h.matrixSize matrix) :=
  spares_bind fun _ _ => spares_ok rfl

theorem spares_transpose (matrix : Value) : h.Spares (·.2) (h.transpose matrix) := by
  refine spares_bind fun ref _ => ?_
  dsimp only
  split
  · exact spares_error _ _
  · split
    · exact spares_error _ _
    · split
      · exact spares_ok (objects_newMatrix h _)
      · exact spares_error _ _

theorem spares_getRow (matrix index : Value) : h.Spares (·.2) (h.getRow matrix index) :=
  spares_bind fun _ _ => spares_bind fun _ _ => spares_bind fun _ _ => spares_ok rfl

theorem spares_getCol (matrix index : Value) : h.Spares (·.2) (h.getCol matrix index) := by
  refine spares_bind fun ref _ => ?_
  dsimp only
  split
  · exact spares_error _ _
  · refine spares_bind fun n _ => ?_
    split
    · exact spares_error _ _
    · exact spares_bind fun _ _ => spares_bind fun _ _ => spares_ok rfl

theorem spares_flatten (array : Value) : h.Spares (·.2) (h.flatten array) :=
  spares_bind fun _ _ => spares_bind fun _ _ => spares_ok rfl

theorem spares_setPart (v index value : Value) : h.Spares id (h.setPart v index value) := by
  refine spares_bind fun n _ => spares_bind fun size _ => spares_bind fun i _ => ?_
  split
  · exact spares_ok rfl
  · exact spares_setEntry _ _ _
  · exact spares_error _ _

theorem spares_setAt (array : Value) (indices : List Value) (value : Value) :
    h.Spares (·.2) (h.setAt array indices value) :=
  spares_bind fun _ _ => spares_bind fun _ written => spares_ok (spares_setPart _ _ _ _ written)

/-! ### Operators and plain values -/

theorem spares_repeated (v : Value) (n : Int) : h.Spares (·.2) (h.repeated v n) := by
  unfold repeated
  split
  · exact spares_bind fun _ _ => spares_ok rfl
  · exact spares_bind fun _ _ => spares_ok rfl
  · exact spares_bind fun _ _ => spares_ok rfl
  · exact spares_ok rfl

theorem spares_multiply (a b : Value) : h.Spares (·.2) (h.multiply a b) := by
  unfold multiply
  split
  · exact spares_map
  · split
    · split
      · exact spares_repeated _ _
      · exact spares_error _ _
    · split
      · split
        · exact spares_repeated _ _
        · exact spares_error _ _
      · exact spares_error _ _

theorem spares_operate (op : BinaryOp) (a b : Value) : h.Spares (·.2) (h.operate op a b) := by
  unfold operate
  cases op with
  | mul => exact spares_multiply a b
  | div | root =>
    dsimp only
    split
    · exact spares_error _ _
    · exact spares_map
  | and | or => exact spares_ok rfl
  | other symbol => exact spares_error _ _
  | _ => exact spares_map

/-- A store holds what it held, and may be longer. -/
def Kept (old new : Array α) : Prop :=
  ∀ (ref : Nat) item, old[ref]? = some item → new[ref]? = some item

theorem Kept.refl (store : Array α) : Kept store store :=
  fun _ _ => id

theorem Kept.trans {old new newer : Array α} (first : Kept old new) (second : Kept new newer) :
    Kept old newer :=
  fun ref item found => second ref item (first ref item found)

theorem kept_push (old : Array α) (item : α) : Kept old (old.push item) := by
  intro ref stored found
  have inside := (Array.getElem?_eq_some_iff.mp found).1
  rw [Array.getElem?_push, if_neg (Nat.ne_of_lt inside), found]

/-- Only lists and dictionaries are added. -/
structure Gains (h h' : Heap) : Prop where
  lists : Kept h.lists h'.lists
  dicts : Kept h.dicts h'.dicts
  objects : h'.objects = h.objects

theorem Gains.refl (h : Heap) : h.Gains h :=
  ⟨.refl _, .refl _, rfl⟩

theorem Gains.trans {h'' : Heap} (first : h.Gains h') (second : h'.Gains h'') : h.Gains h'' :=
  ⟨first.lists.trans second.lists, first.dicts.trans second.dicts,
    second.objects.trans first.objects⟩

theorem gains_newList (h : Heap) (items : List Value) : h.Gains (h.newList items).2 :=
  ⟨kept_push _ _, .refl _, rfl⟩

theorem gains_newDict (h : Heap) (pairs : List (Value × Value)) : h.Gains (h.newDict pairs).2 :=
  ⟨.refl _, kept_push _ _, rfl⟩

mutual

theorem gains_store (h : Heap) (d : Datum) : h.Gains (h.store d).2 := by
  cases d with
  | float x =>
    unfold store
    split
    · exact ⟨.refl _, .refl _, rfl⟩
    · exact .refl h
  | list items =>
    exact (gains_storeAll h items).trans (gains_newList _ _)
  | tuple items => exact gains_storeAll h items
  | dict entries =>
    exact (gains_storeEntries h entries).trans (gains_newDict _ _)
  | _ => exact .refl h

theorem gains_storeAll (h : Heap) (items : List Datum) : h.Gains (h.storeAll items).2 := by
  cases items with
  | nil => exact .refl h
  | cons item rest =>
    exact (gains_store h item).trans (gains_storeAll _ rest)

theorem gains_storeEntries (h : Heap) (entries : List (Datum × Datum)) :
    h.Gains (h.storeEntries entries).2 := by
  cases entries with
  | nil => exact .refl h
  | cons entry rest =>
    obtain ⟨key, value⟩ := entry
    have stored := (gains_store h key).trans (gains_store _ value)
    exact stored.trans (gains_storeEntries _ rest)

end

/-! ## Objects that grow older -/

/-- No object is lost, each keeps its class, and destroyed ones change no more. -/
structure Ages (h h' : Heap) : Prop where
  size : h.objects.size ≤ h'.objects.size
  classId : ∀ ref, ref < h.objects.size → (h'.object ref).classId = (h.object ref).classId
  destroyed : ∀ ref, (h.object ref).destroyed = true → h'.object ref = h.object ref

@[refl] theorem Ages.refl (h : Heap) : h.Ages h where
  size := Nat.le_refl _
  classId _ _ := rfl
  destroyed _ _ := rfl

theorem Ages.trans {h'' : Heap} (first : h.Ages h') (second : h'.Ages h'') : h.Ages h'' where
  size := Nat.le_trans first.size second.size
  classId ref inside :=
    (second.classId ref (Nat.lt_of_lt_of_le inside first.size)).trans (first.classId ref inside)
  destroyed ref gone := by
    have same := first.destroyed ref gone
    have still : (h'.object ref).destroyed = true := by rw [same, gone]
    exact (second.destroyed ref still).trans same

theorem Ages.stays (ages : h.Ages h') (gone : (h.object ref).destroyed = true) :
    (h'.object ref).destroyed = true := by
  rw [ages.destroyed ref gone]
  exact gone

theorem ages_of_objects (same : h'.objects = h.objects) : h.Ages h' := by
  have each : ∀ ref, h'.object ref = h.object ref := by
    intro ref
    unfold object
    rw [same]
  exact ⟨Nat.le_of_eq (congrArg _ same.symm), fun ref _ => congrArg _ (each ref),
    fun ref _ => each ref⟩

theorem ages_newObject (h : Heap) (o : Instance) : h.Ages (h.newObject o).2 := by
  have older : ∀ ref, ref < h.objects.size → (h.newObject o).2.object ref = h.object ref := by
    intro ref inside
    rw [object_newObject, if_neg (by omega)]
  refine ⟨?_, fun ref inside => congrArg _ (older ref inside), fun ref gone => ?_⟩
  · simp [newObject]
  · exact older ref (lt_size_of_destroyed gone)

/-- An object may be replaced by one of its class, a destroyed one only by itself. -/
theorem ages_setObject {o : Instance} (sameClass : o.classId = (h.object ref).classId)
    (kept : (h.object ref).destroyed = true → o = h.object ref) : h.Ages (h.setObject ref o) := by
  refine ⟨?_, fun other inside => ?_, fun other gone => ?_⟩
  · simp [setObject]
  · rw [object_setObject]
    split
    · rename_i here
      rw [← here.1]
      exact sameClass
    · rfl
  · rw [object_setObject]
    split
    · rename_i here
      rw [← here.1] at gone ⊢
      exact kept gone
    · rfl

end Heap

namespace Object

variable {h : Heap}

theorem ages_markDestroyed (h : Heap) (ref : Nat) : h.Ages (markDestroyed h ref) := by
  refine Heap.ages_setObject rfl fun gone => ?_
  cases o : h.object ref
  rw [o] at gone
  cases gone
  rfl

theorem object_markDestroyed (inside : ref < h.objects.size) :
    (markDestroyed h ref).object ref = { h.object ref with destroyed := true } := by
  unfold markDestroyed
  rw [Heap.object_setObject, if_pos ⟨rfl, inside⟩]

theorem checkAlive_of_destroyed (gone : (h.object ref).destroyed = true) :
    checkAlive g h ref = .error (.destroyed (g.info (h.object ref).classId).name) := by
  exact if_pos gone

theorem checkAlive_of_alive (alive : (h.object ref).destroyed = false) :
    checkAlive g h ref = .ok () := by
  unfold checkAlive
  dsimp only
  rw [alive]
  rfl

theorem ages_set {h' : Heap} {name : String} {value : Value} {caller : Caller}
    (written : set g h ref name value caller = .ok h') : h.Ages h' := by
  unfold set at written
  cases alive : (h.object ref).destroyed with
  | true =>
    rw [checkAlive_of_destroyed alive] at written
    cases written
  | false =>
    rw [checkAlive_of_alive alive] at written
    cases allowed : checkAccess g h ref caller .writeField name
        (g.fieldAccess (h.object ref).classId name) with
    | error fault =>
      simp only [allowed] at written
      cases written
    | ok u =>
      simp only [allowed] at written
      cases written
      exact Heap.ages_setObject rfl fun gone => absurd (gone.symm.trans alive) (by decide)

end Object

end Hetman
