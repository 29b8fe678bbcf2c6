import Hetman.Collection.Dictionary

/-!
# Entries by key

What is found under a key after an entry was put or dropped (`value?_putEntry`,
`value?_dropEntry`), for keys of which being the same behaves like an equality (`KeysAgree`):
numbers, truth values and texts among each other (`PlainKey`).
-/

namespace Hetman

/-- Where two of three keys are the same as the other, they are the same. -/
structure KeysAgree (a b c : Value) : Prop where
  outer : Value.sameKey a b = true → Value.sameKey a c = true → Value.sameKey b c = true
  trans : Value.sameKey a b = true → Value.sameKey b c = true → Value.sameKey a c = true
  inner : Value.sameKey a c = true → Value.sameKey b c = true → Value.sameKey a b = true

/-! ## Plain keys -/

inductive PlainKey where
  | int (n : Int)
  | bool (b : Bool)
  | text (s : String)

namespace PlainKey

def value : PlainKey → Value
  | .int n => .int n
  | .bool b => .bool b
  | .text s => .text s

/-- What keys are told apart by: a truth value is a number. -/
def code : PlainKey → Int ⊕ String
  | .int n => .inl n
  | .bool b => .inl (if b then 1 else 0)
  | .text s => .inr s

theorem sameKey_iff (k l : PlainKey) : Value.sameKey k.value l.value = true ↔ k.code = l.code := by
  have plain : Value.sameKey k.value l.value =
      (k.value.identical l.value || k.value.equalPlain l.value) := by
    cases k
    all_goals rfl
  rw [plain]
  cases k <;> cases l
  all_goals simp [value, code, Value.identical, Value.equalPlain, Number.ofValue?, Number.equal,
    Number.compare?]

theorem keysAgree (a b c : PlainKey) : KeysAgree a.value b.value c.value := by
  constructor
  all_goals simp only [sameKey_iff]
  · exact fun first second => first.symm.trans second
  · exact Eq.trans
  · exact fun first second => first.trans second.symm

theorem checkKey_value (k : PlainKey) : Heap.checkKey k.value = .ok () := by
  cases k <;> rfl

end PlainKey

namespace Heap

variable {entries : List (Value × Value)} {key value wanted : Value}

/-- The value under a key. -/
def value? (entries : List (Value × Value)) (key : Value) : Option Value :=
  (entryAt? entries key).map (·.2)

theorem value?_cons (k v wanted : Value) (entries : List (Value × Value)) :
    value? ((k, v) :: entries) wanted =
      if Value.sameKey k wanted then some v else value? entries wanted := by
  unfold value? entryAt?
  rw [List.find?_cons]
  cases Value.sameKey k wanted <;> rfl

theorem value?_putEntry (agree : ∀ e ∈ entries, KeysAgree e.1 key wanted) :
    value? (putEntry key value entries) wanted =
      if Value.sameKey key wanted then some value else value? entries wanted := by
  induction entries with
  | nil => exact value?_cons ..
  | cons e rest ih =>
    obtain ⟨k, v⟩ := e
    have here : KeysAgree k key wanted := agree _ List.mem_cons_self
    have later := ih fun e member => agree e (List.mem_cons_of_mem _ member)
    rw [putEntry, value?_cons]
    by_cases same : Value.sameKey k key = true
    · have alike : Value.sameKey k wanted = Value.sameKey key wanted :=
        Bool.eq_iff_iff.mpr ⟨here.outer same, here.trans same⟩
      rw [if_pos same, value?_cons, alike]
      split <;> rfl
    · rw [if_neg same, value?_cons, later]
      by_cases found : Value.sameKey k wanted = true
      · rw [if_pos found, if_neg fun other => same (here.inner found other), if_pos found]
      · rw [if_neg found, if_neg found]

theorem value?_isSome_iff :
    (value? entries wanted).isSome = true ↔ ∃ e ∈ entries, Value.sameKey e.1 wanted = true := by
  simp [value?, entryAt?]

/-- A key that is there stays in its place; any other comes last. -/
theorem keys_putEntry (key value : Value) (entries : List (Value × Value)) :
    (putEntry key value entries).map (·.1) =
      if (value? entries key).isSome then entries.map (·.1) else entries.map (·.1) ++ [key] := by
  induction entries with
  | nil => rfl
  | cons e rest ih =>
    obtain ⟨k, v⟩ := e
    rw [putEntry, value?_cons]
    by_cases same : Value.sameKey k key = true
    · rw [if_pos same, if_pos same]
      rfl
    · rw [if_neg same, if_neg same, List.map_cons, ih]
      split <;> rfl

theorem value?_of_mem {e : Value × Value} (member : e ∈ entries)
    (self : Value.sameKey e.1 e.1 = true)
    (distinct : entries.Pairwise fun a b => ¬Value.sameKey a.1 b.1 = true) :
    value? entries e.1 = some e.2 := by
  induction entries with
  | nil => cases member
  | cons first rest ih =>
    obtain ⟨apart, distinct⟩ := List.pairwise_cons.mp distinct
    obtain rfl | member := List.mem_cons.mp member
    · exact (value?_cons ..).trans (if_pos self)
    · exact (value?_cons ..).trans ((if_neg (apart e member)).trans (ih member distinct))

theorem dropEntry_of_absent (absent : value? entries key = none) :
    dropEntry key entries = entries := by
  induction entries with
  | nil => rfl
  | cons e rest ih =>
    rw [value?_cons] at absent
    split at absent
    · cases absent
    · next other => rw [dropEntry, if_neg other, ih absent]

theorem dropEntry_sublist (key : Value) (entries : List (Value × Value)) :
    (dropEntry key entries).Sublist entries := by
  fun_induction dropEntry key entries with
  | case1 => exact .slnil
  | case2 k v rest same => exact .cons _ (.refl _)
  | case3 k v rest other ih => exact .cons_cons _ ih

/-- Only one entry is dropped; so no other may have the same key. -/
theorem value?_dropEntry (agree : ∀ e ∈ entries, KeysAgree e.1 key wanted)
    (distinct : entries.Pairwise fun a b =>
      Value.sameKey a.1 key = true → ¬Value.sameKey b.1 key = true) :
    value? (dropEntry key entries) wanted =
      if Value.sameKey key wanted then none else value? entries wanted := by
  induction entries with
  | nil => exact (ite_self none).symm
  | cons e rest ih =>
    obtain ⟨k, v⟩ := e
    obtain ⟨here, agree⟩ := List.forall_mem_cons.mp agree
    obtain ⟨apart, distinct⟩ := List.pairwise_cons.mp distinct
    rw [dropEntry, value?_cons]
    by_cases same : Value.sameKey k key = true
    · rw [if_pos same]
      by_cases sought : Value.sameKey key wanted = true
      · rw [if_pos sought]
        refine Option.not_isSome_iff_eq_none.mp fun isSome => ?_
        obtain ⟨e, member, found⟩ := value?_isSome_iff.mp isSome
        exact apart e member same ((agree e member).inner found sought)
      · rw [if_neg sought, if_neg fun found => sought (here.outer same found)]
    · rw [if_neg same, value?_cons, ih agree distinct]
      by_cases found : Value.sameKey k wanted = true
      · rw [if_pos found, if_neg fun other => same (here.inner found other), if_pos found]
      · rw [if_neg found, if_neg found]

end Heap

end Hetman
