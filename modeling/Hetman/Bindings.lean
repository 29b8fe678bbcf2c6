/-!
Bindings: names with what they stand for, in the order in which the names were
first bound. Binding a name again keeps its place.
-/

namespace Hetman

/-- Names bound to values, in the order of their first binding. -/
abbrev Bindings (α : Type) := List (String × α)

namespace Bindings

variable {α : Type}

def get? (b : Bindings α) (name : String) : Option α :=
  match b with
  | [] => none
  | (k, v) :: rest => if k = name then some v else get? rest name

def has (b : Bindings α) (name : String) : Bool :=
  (b.get? name).isSome

/-- Binds a name: in place if it was bound, else at the end. -/
def insert (b : Bindings α) (name : String) (value : α) : Bindings α :=
  match b with
  | [] => [(name, value)]
  | (k, v) :: rest => if k = name then (k, value) :: rest else (k, v) :: insert rest name value

def erase (b : Bindings α) (name : String) : Bindings α :=
  match b with
  | [] => []
  | (k, v) :: rest => if k = name then rest else (k, v) :: erase rest name

def insertAll (b : Bindings α) (more : List (String × α)) : Bindings α :=
  more.foldl (fun b entry => b.insert entry.1 entry.2) b

def names (b : Bindings α) : List String :=
  b.map (·.1)

theorem mem_of_get? {b : Bindings α} {name : String} {a : α}
    (h : b.get? name = some a) : (name, a) ∈ b := by
  induction b with
  | nil => cases h
  | cons entry rest ih =>
    obtain ⟨k, v⟩ := entry
    unfold get? at h
    split at h
    · rename_i same
      cases h
      rw [same]
      exact List.mem_cons_self ..
    · exact List.mem_cons_of_mem _ (ih h)

theorem get?_eq_none_iff {b : Bindings α} {name : String} :
    b.get? name = none ↔ name ∉ b.names := by
  induction b with
  | nil => simp [get?, names]
  | cons entry rest ih =>
    obtain ⟨k, v⟩ := entry
    by_cases same : k = name
    · simp [get?, names, same]
    · simp only [get?, same, if_false, ih, names, List.map_cons, List.mem_cons, not_or]
      exact ⟨fun h => ⟨Ne.symm same, h⟩, And.right⟩

theorem get?_insert (b : Bindings α) (name other : String) (value : α) :
    (b.insert name value).get? other = if name = other then some value else b.get? other := by
  induction b with
  | nil => simp [insert, get?]
  | cons entry rest ih =>
    obtain ⟨k, v⟩ := entry
    by_cases hk : k = name
    · subst hk
      by_cases ho : k = other <;> simp [insert, get?, ho]
    · by_cases ho : k = other
      · subst ho
        simp [insert, get?, hk, Ne.symm hk]
      · simp [insert, get?, hk, ho, ih]

theorem forall_insert {b : Bindings α} {P : α → Prop} (h : ∀ entry ∈ b, P entry.2) (name : String)
    {value : α} (new : P value) : ∀ entry ∈ b.insert name value, P entry.2 := by
  induction b with
  | nil => simpa [insert] using new
  | cons entry rest ih =>
    obtain ⟨first, others⟩ := List.forall_mem_cons.1 h
    obtain ⟨k, v⟩ := entry
    unfold insert
    split
    · exact List.forall_mem_cons.2 ⟨new, others⟩
    · exact List.forall_mem_cons.2 ⟨first, ih others⟩

theorem get?_erase (b : Bindings α) {name other : String} (h : name ≠ other) :
    (b.erase name).get? other = b.get? other := by
  induction b with
  | nil => rfl
  | cons entry rest ih =>
    obtain ⟨k, v⟩ := entry
    by_cases hk : k = name
    · simp [erase, get?, hk, h]
    · by_cases ho : k = other
      · subst ho
        simp [erase, get?, hk]
      · simp [erase, get?, hk, ho, ih]

theorem get?_insertAll (b : Bindings α) {more : List (String × α)} {other : String}
    (h : ∀ entry ∈ more, entry.1 ≠ other) : (b.insertAll more).get? other = b.get? other := by
  induction more generalizing b with
  | nil => rfl
  | cons entry rest ih =>
    have first : (b.insert entry.1 entry.2).get? other = b.get? other :=
      (get?_insert ..).trans (if_neg (h entry (List.mem_cons_self ..)))
    have others := ih (b.insert entry.1 entry.2) fun e he => h e (List.mem_cons_of_mem _ he)
    exact others.trans first

end Bindings

end Hetman
