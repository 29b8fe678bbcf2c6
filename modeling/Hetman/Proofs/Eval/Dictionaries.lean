import Hetman.Proofs.Dictionary
import Hetman.Proofs.Eval.NestedElements

/-!
# Dictionaries over time

A dictionary with plain keys tells what was done to it: under each key there is the value that was
put last, unless the key was dropped since, and the keys stand in the order in which they came
(`Chronicled`). Each change keeps this (`Chronicled.step`). The statements that make the changes
come to an end, and the entries are then those that the changes make (`ChangesEntry.ends`,
`EntryRun.entries`). So whatever a program does to a dictionary that it wrote down, the dictionary
tells it (`dictionary_tells_changes`).
-/

namespace Hetman

open List

inductive EntryChange where
  | put (key : PlainKey) (value : Value)
  | drop (key : PlainKey)

namespace EntryChange

variable {c : Int ⊕ String} {k : PlainKey} {v : Value} {older : List EntryChange} {n : Nat}

/-- The value under a key after changes, the latest first. -/
def lastValue (c : Int ⊕ String) : List EntryChange → Option Value
  | [] => none
  | .put key value :: older => if key.code = c then some value else lastValue c older
  | .drop key :: older => if key.code = c then none else lastValue c older

/-- The time since which a key has been there without a break. -/
def born (c : Int ⊕ String) : List EntryChange → Option Nat
  | [] => none
  | .put key _ :: older =>
    if key.code = c then some ((born c older).getD older.length) else born c older
  | .drop key :: older => if key.code = c then none else born c older

theorem isSome_born (c : Int ⊕ String) (history : List EntryChange) :
    (born c history).isSome = (lastValue c history).isSome := by
  induction history with
  | nil => rfl
  | cons change older ih =>
    cases change with
    | put key value | drop key =>
      simp only [born, lastValue]
      split
      · rfl
      · exact ih

theorem born_put (there : born c older = some n) : born c (.put k v :: older) = some n := by
  simp [born, there]

theorem born_lt (there : born c older = some n) : n < older.length := by
  induction older with
  | nil => cases there
  | cons change older ih =>
    refine Nat.lt_succ_of_le ?_
    cases change with
    | put key value =>
      rw [born] at there
      split at there
      · cases before : born c older with
        | some m =>
          rw [before] at there
          exact Nat.le_of_lt (ih (before.trans there))
        | none =>
          rw [before] at there
          exact Nat.le_of_eq (Option.some.inj there).symm
      · exact Nat.le_of_lt (ih there)
    | drop key =>
      rw [born] at there
      split at there
      · cases there
      · exact Nat.le_of_lt (ih there)

/-- Two keys are there, and the first has been there for longer. -/
def Earlier (history : List EntryChange) (a b : PlainKey) : Prop :=
  ∃ m n, born a.code history = some m ∧ born b.code history = some n ∧ m < n

theorem Earlier.ne {history : List EntryChange} {a b : PlainKey} (earlier : Earlier history a b) :
    a.code ≠ b.code := by
  obtain ⟨m, n, first, second, lt⟩ := earlier
  intro same
  rw [same, second] at first
  cases first
  exact Nat.lt_irrefl _ lt

def apply (entries : List (Value × Value)) : EntryChange → List (Value × Value)
  | .put key value => Heap.putEntry key.value value entries
  | .drop key => Heap.dropEntry key.value entries

/-- The entries tell the changes, the latest first. -/
structure Chronicled (history : List EntryChange) (keys : List PlainKey)
    (entries : List (Value × Value)) : Prop where
  plain : entries.map (·.1) = keys.map (·.value)
  ordered : keys.Pairwise (Earlier history)
  found : ∀ k : PlainKey, Heap.value? entries k.value = lastValue k.code history

variable {history : List EntryChange} {keys : List PlainKey} {entries : List (Value × Value)}

namespace Chronicled

variable (recorded : Chronicled history keys entries)

include recorded

theorem agree (k l : PlainKey) : ∀ e ∈ entries, KeysAgree e.1 k.value l.value := by
  intro e member
  have isKey : e.1 ∈ keys.map (·.value) := recorded.plain ▸ mem_map_of_mem member
  obtain ⟨key, _, same⟩ := mem_map.mp isKey
  exact same ▸ key.keysAgree k l

theorem present_iff (k : PlainKey) :
    (lastValue k.code history).isSome = true ↔ ∃ key ∈ keys, key.code = k.code := by
  have key_of_entry : (∃ e ∈ entries, Value.sameKey e.1 k.value = true) ↔
      ∃ v ∈ entries.map (·.1), Value.sameKey v k.value = true := by
    simp
  rw [← recorded.found, Heap.value?_isSome_iff, key_of_entry, recorded.plain]
  simp [PlainKey.sameKey_iff]

theorem born {k : PlainKey} (member : k ∈ keys) :
    ∃ n, EntryChange.born k.code history = some n :=
  Option.isSome_iff_exists.mp
    ((isSome_born _ _).trans ((recorded.present_iff k).mpr ⟨k, member, rfl⟩))

theorem put (k : PlainKey) (v : Value) :
    ∃ keys, Chronicled (.put k v :: history) keys (Heap.putEntry k.value v entries) := by
  have kept : keys.Pairwise (Earlier (.put k v :: history)) :=
    recorded.ordered.imp fun ⟨m, n, first, second, lt⟩ =>
      ⟨m, n, born_put first, born_put second, lt⟩
  have found (l : PlainKey) : Heap.value? (Heap.putEntry k.value v entries) l.value =
      lastValue l.code (.put k v :: history) := by
    rw [Heap.value?_putEntry (recorded.agree k l), recorded.found, lastValue]
    simp only [PlainKey.sameKey_iff]
  have names := Heap.keys_putEntry k.value v entries
  rw [recorded.found, recorded.plain] at names
  by_cases present : (lastValue k.code history).isSome = true
  · rw [if_pos present] at names
    exact ⟨keys, names, kept, found⟩
  · rw [if_neg present] at names
    refine ⟨keys ++ [k], by rw [names, map_append, map_singleton], ?_, found⟩
    refine pairwise_append.mpr ⟨kept, pairwise_singleton _ _, fun a member b isNew => ?_⟩
    obtain rfl := mem_singleton.mp isNew
    obtain ⟨m, there⟩ := recorded.born member
    have absent : EntryChange.born b.code history = none :=
      Option.not_isSome_iff_eq_none.mp ((isSome_born _ _).symm ▸ present)
    refine ⟨m, history.length, born_put there, ?_, born_lt there⟩
    simp [EntryChange.born, absent]

theorem drop (k : PlainKey) :
    ∃ keys, Chronicled (.drop k :: history) keys (Heap.dropEntry k.value entries) := by
  have distinct : entries.Pairwise fun a b =>
      Value.sameKey a.1 k.value = true → ¬Value.sameKey b.1 k.value = true := by
    have names : (entries.map (·.1)).Pairwise fun a b =>
        Value.sameKey a k.value = true → ¬Value.sameKey b k.value = true := by
      rw [recorded.plain, pairwise_map]
      refine recorded.ordered.imp fun earlier same other => earlier.ne ?_
      exact (PlainKey.sameKey_iff ..).mp same |>.trans ((PlainKey.sameKey_iff ..).mp other).symm
    exact pairwise_map.mp names
  have found (l : PlainKey) : Heap.value? (Heap.dropEntry k.value entries) l.value =
      lastValue l.code (.drop k :: history) := by
    rw [Heap.value?_dropEntry (recorded.agree k l) distinct, recorded.found, lastValue]
    simp only [PlainKey.sameKey_iff]
  have fewer := (Heap.dropEntry_sublist k.value entries).map (·.1)
  rw [recorded.plain] at fewer
  obtain ⟨left, sublist, names⟩ := sublist_map_iff.mp fewer
  have other {a : PlainKey} (member : a ∈ left) : k.code ≠ a.code := by
    intro same
    have gone : ¬(Heap.value? (Heap.dropEntry k.value entries) a.value).isSome = true := by
      simp [found, lastValue, same]
    have there : a.value ∈ (Heap.dropEntry k.value entries).map (·.1) :=
      names ▸ mem_map_of_mem member
    obtain ⟨e, isEntry, isKey⟩ := mem_map.mp there
    exact gone (Heap.value?_isSome_iff.mpr ⟨e, isEntry, isKey ▸ (PlainKey.sameKey_iff a a).mpr rfl⟩)
  refine ⟨left, names, (recorded.ordered.sublist sublist).imp_of_mem ?_, found⟩
  intro a b isFirst isSecond ⟨m, n, first, second, lt⟩
  refine ⟨m, n, ?_, ?_, lt⟩
  · rw [EntryChange.born, if_neg (other isFirst), first]
  · rw [EntryChange.born, if_neg (other isSecond), second]

theorem step (change : EntryChange) :
    ∃ keys, Chronicled (change :: history) keys (change.apply entries) := by
  cases change with
  | put key value => exact recorded.put key value
  | drop key => exact recorded.drop key

theorem run (changes : List EntryChange) :
    ∃ keys, Chronicled (changes.reverse ++ history) keys (changes.foldl apply entries) := by
  induction changes generalizing history keys entries with
  | nil => exact ⟨keys, recorded⟩
  | cons change rest ih =>
    obtain ⟨_, next⟩ := recorded.step change
    rw [reverse_cons, append_assoc]
    exact ih next

theorem values_eq :
    (entries.map (·.2)).map some = keys.map fun k => lastValue k.code history := by
  have distinct : (entries.map (·.1)).Pairwise fun a b => ¬Value.sameKey a b = true := by
    rw [recorded.plain, pairwise_map]
    exact recorded.ordered.imp fun earlier same => earlier.ne ((PlainKey.sameKey_iff ..).mp same)
  have stored (e : Value × Value) (member : e ∈ entries) :
      some e.2 = Heap.value? entries e.1 := by
    have isKey : e.1 ∈ keys.map (·.value) := recorded.plain ▸ mem_map_of_mem member
    obtain ⟨key, _, same⟩ := mem_map.mp isKey
    have self : Value.sameKey e.1 e.1 = true := same ▸ (PlainKey.sameKey_iff key key).mpr rfl
    exact (Heap.value?_of_mem member self (pairwise_map.mp distinct)).symm
  calc (entries.map (·.2)).map some
    _ = entries.map fun e => Heap.value? entries e.1 := by
      rw [map_map]
      exact map_congr_left stored
    _ = (entries.map (·.1)).map (Heap.value? entries) := by
      rw [map_map]
      rfl
    _ = keys.map fun k => lastValue k.code history := by
      rw [recorded.plain, map_map]
      exact map_congr_left fun k _ => recorded.found k

end Chronicled

theorem chronicled_nil : Chronicled [] [] [] :=
  ⟨rfl, .nil, fun _ => rfl⟩

end EntryChange

namespace Eval

open EntryChange

variable {ref : Nat} {r s t : Session} {k : PlainKey} {v : Value} {container key value : Node}

/-! ## Statements -/

/-- A dictionary is as it was. -/
structure Untouched (ref : Nat) (s t : Session) : Prop where
  entries : t.heap.dict ref = s.heap.dict ref
  stored : ref < s.heap.dicts.size → ref < t.heap.dicts.size

/-- A statement is to change a dictionary so, when its parts have been evaluated. -/
inductive ChangesEntry (ref : Nat) : Node → Session → EntryChange → Session → Prop
  | put {container key value : Node} {k : PlainKey} {v : Value} {s t : Session}
      (parts : InTurn [container, value, key] s [.dict ref, v, k.value] t) :
      ChangesEntry ref (.assignIndex container key value) s (.put k v) t
  | drop {name : String} {container key : Node} {k : PlainKey} {s t : Session}
      (isRemoval : Builtin.ofName? name = some .removeKey)
      (parts : InTurn [container, key] s [.dict ref, k.value] t) :
      ChangesEntry ref (.call name (some [container, key])) s (.drop k) t

/-- From one session to another, the changes of a dictionary are these. A statement may fail, and
its parts may change the dictionary before it does. -/
inductive EntryRun (ref : Nat) : Session → List EntryChange → Session → Prop
  | still {s t : Session} (same : Untouched ref s t) : EntryRun ref s [] t
  | statement {node : Node} {change : EntryChange} {before : List EntryChange} {s t : Session}
      {result : EStateM.Result Signal Session Value} (changes : ChangesEntry ref node s change t)
      (parts : EntryRun ref s before t) (ended : Ends (fun n => eval n node) s result) :
      EntryRun ref s (before ++ [change]) (ending result)
  | andThen {first second : List EntryChange} {s t u : Session} (left : EntryRun ref s first t)
      (right : EntryRun ref t second u) : EntryRun ref s (first ++ second) u

theorem dict_setDict {h : Heap} (inside : ref < h.dicts.size) (entries : List (Value × Value)) :
    (h.setDict ref entries).dict ref = entries := by
  unfold Heap.dict Heap.setDict
  rw [Array.getElem?_setIfInBounds_self_of_lt inside]
  rfl

theorem lookup?_plain (h : Heap) (ref : Nat) (k : PlainKey) :
    h.lookup? ref k.value = .ok (Heap.value? (h.dict ref) k.value) := by
  unfold Heap.lookup?
  rw [k.checkKey_value]
  rfl

theorem ends_assignIndex (parts : InTurn [container, value, key] s [.dict ref, v, k.value] t) :
    Ends (fun n => eval n (.assignIndex container key value)) s (.ok v
      { t with heap := t.heap.setDict ref (Heap.putEntry k.value v (t.heap.dict ref)) }) := by
  obtain _ | ⟨isDict, _ | ⟨isValue, _ | ⟨isKey, _ | _⟩⟩⟩ := parts
  have assigned : ∀ n, evalNode n (eval n) (.assignIndex container key value) =
      (do
        let target ← eval n container
        let new ← eval n value
        let index ← keyFor target (eval n key)
        writeAt key.outline.display target index new) :=
    fun n => assignAtKey_apply (isDatum_of_ends isKey) container value
  have stored : assignEntry ref k.value v t = .ok v
      { t with heap := t.heap.setDict ref (Heap.putEntry k.value v (t.heap.dict ref)) } := by
    refine updateHeap_ok (f := fun h => do return (v, ← h.setEntry ref k.value v)) ?_
    unfold Heap.setEntry
    rw [k.checkKey_value]
    rfl
  refine .eval ?_
  simp only [assigned]
  exact .bind isDict (.bind isValue (.bind isKey (stored ▸ ends_updateHeap _ t)))

theorem heapCall_removeKey (ref : Nat) (k : PlainKey) :
    HeapCall .removeKey [.dict ref, k.value] (·.removeKey (.dict ref) k.value) :=
  ⟨rfl, nofun, fun _ => rfl⟩

theorem removeKey_some (found : Heap.value? (t.heap.dict ref) k.value = some v) :
    CallEnds .removeKey [.dict ref, k.value] t (.ok .none
      { t with heap := t.heap.setDict ref (Heap.dropEntry k.value (t.heap.dict ref)) }) := by
  refine (heapCall_removeKey ref k).ok ?_
  simp [Heap.removeKey, Heap.dictRef, lookup?_plain, found, bind, Except.bind, pure, Except.pure]

theorem removeKey_none (absent : Heap.value? (t.heap.dict ref) k.value = none) :
    ∃ fault, CallEnds .removeKey [.dict ref, k.value] t (.error (.failed fault) t) := by
  have failed : ∃ fault, t.heap.removeKey (.dict ref) k.value = .error fault := by
    simp only [Heap.removeKey, Heap.dictRef, lookup?_plain, absent, bind, Except.bind]
    cases t.heap.display k.value with
    | ok text => exact ⟨_, rfl⟩
    | error fault => exact ⟨fault, rfl⟩
  obtain ⟨fault, failed⟩ := failed
  exact ⟨fault, (heapCall_removeKey ref k).failed failed⟩

/-- The step: what a statement leaves behind, whether it fails or not. -/
theorem ChangesEntry.ends {node : Node} {change : EntryChange}
    (changes : ChangesEntry ref node s change t) (inside : ref < t.heap.dicts.size) :
    ∃ result, Ends (fun n => eval n node) s result ∧
      (ending result).heap.dict ref = change.apply (t.heap.dict ref) ∧
      ref < (ending result).heap.dicts.size := by
  have size (entries : List (Value × Value)) : ref < (t.heap.setDict ref entries).dicts.size :=
    Nat.lt_of_lt_of_eq inside Array.size_setIfInBounds.symm
  cases changes with
  | put parts => exact ⟨_, ends_assignIndex parts, dict_setDict inside _, size _⟩
  | @drop name _ _ k _ _ isRemoval parts =>
    cases found : Heap.value? (t.heap.dict ref) k.value with
    | some v =>
      exact ⟨_, removeKey_some found _ _ _ isRemoval parts, dict_setDict inside _, size _⟩
    | none =>
      obtain ⟨fault, failed⟩ := removeKey_none found
      exact ⟨_, failed _ _ _ isRemoval parts, (Heap.dropEntry_of_absent found).symm, inside⟩

/-- The run: the entries are those that the changes make, one after the other. -/
theorem EntryRun.entries {changes : List EntryChange} (run : EntryRun ref s changes t)
    (inside : ref < s.heap.dicts.size) :
    t.heap.dict ref = changes.foldl apply (s.heap.dict ref) ∧ ref < t.heap.dicts.size := by
  induction run with
  | still same => exact ⟨same.entries, same.stored inside⟩
  | statement changes _ ended ih =>
    obtain ⟨before, stored⟩ := ih inside
    obtain ⟨result, ends, after, stays⟩ := changes.ends stored
    obtain rfl := ended.unique ends
    exact ⟨by rw [after, before, foldl_append]; rfl, stays⟩
  | andThen _ _ first second =>
    obtain ⟨middle, stored⟩ := first inside
    obtain ⟨last, stays⟩ := second stored
    exact ⟨by rw [last, middle, foldl_append], stays⟩

/-! ## Literals -/

/-- The pairs of a literal have these keys and values, one after the other. -/
inductive PairsGive : List (Node × Node) → Session → List (PlainKey × Value) → Session → Prop
  | nil (s : Session) : PairsGive [] s [] s
  | cons {keyNode valueNode : Node} {key : PlainKey} {value : Value} {s t u : Session}
      {rest : List (Node × Node)} {items : List (PlainKey × Value)}
      (pair : InTurn [keyNode, valueNode] s [key.value, value] t)
      (others : PairsGive rest t items u) :
      PairsGive ((keyNode, valueNode) :: rest) s ((key, value) :: items) u

def puts (items : List (PlainKey × Value)) : List EntryChange :=
  items.map fun e => .put e.1 e.2

theorem ends_evalEntries {pairs : List (Node × Node)} {items : List (PlainKey × Value)}
    (give : PairsGive pairs s items t) (entries : List (Value × Value)) :
    Ends (fun n => evalEntries (eval n) entries pairs) s
      (.ok ((puts items).foldl apply entries) t) := by
  induction give generalizing entries with
  | nil s => exact .pure _ s
  | @cons keyNode valueNode key value s t u rest items pair others ih =>
    obtain _ | ⟨isKey, _ | ⟨isValue, _ | _⟩⟩ := pair
    refine .bind isKey ?_
    cases key with
    | int _ | bool _ | text _ => exact .bind isValue (ih _)

/-! ## Coherence -/

/-- What a program sees of a dictionary is what the changes to it tell, the latest first. -/
structure Coherent (ref : Nat) (history : List EntryChange) (s : Session) (keys : List PlainKey)
    (values : List Value) : Prop where
  keys_given : ∃ list heap, CallEnds .keys [.dict ref] s (.ok (.list list) { s with heap }) ∧
    heap.list list = keys.map (·.value)
  values_given : ∃ list heap, CallEnds .values [.dict ref] s (.ok (.list list) { s with heap }) ∧
    heap.list list = values
  distinct : keys.Pairwise fun a b => a.code ≠ b.code
  ordered : keys.Pairwise (Earlier history)
  values_told : values.map some = keys.map fun k => lastValue k.code history
  told_iff : ∀ k : PlainKey,
    (lastValue k.code history).isSome = true ↔ ∃ key ∈ keys, key.code = k.code
  hasKey : ∀ k : PlainKey, CallEnds .hasKey [.dict ref, k.value] s
    (.ok (.bool (lastValue k.code history).isSome) s)
  reads : ∀ (k : PlainKey) (container key : Node) (r : Session),
    InTurn [container, key] r [.dict ref, k.value] s →
    match lastValue k.code history with
    | some v => Ends (fun n => eval n (.lookup container key)) r (.ok v s)
    | none => ∃ fault, Ends (fun n => eval n (.lookup container key)) r (.error (.failed fault) s)
  assigns : ∀ (k : PlainKey) (v : Value) (container key value : Node) (r : Session),
    InTurn [container, value, key] r [.dict ref, v, k.value] s →
    ∃ heap, Ends (fun n => eval n (.assignIndex container key value)) r (.ok v { s with heap })
  removes : ∀ k : PlainKey,
    match lastValue k.code history with
    | some _ => ∃ heap, CallEnds .removeKey [.dict ref, k.value] s (.ok .none { s with heap })
    | none => ∃ fault, CallEnds .removeKey [.dict ref, k.value] s (.error (.failed fault) s)

theorem ends_lookup (parts : InTurn [container, key] r [.dict ref, k.value] s) :
    match Heap.value? (s.heap.dict ref) k.value with
    | some v => Ends (fun n => eval n (.lookup container key)) r (.ok v s)
    | none => ∃ fault, Ends (fun n => eval n (.lookup container key)) r
      (.error (.failed fault) s) := by
  obtain _ | ⟨isDict, _ | ⟨isKey, _ | _⟩⟩ := parts
  have looked {result : EStateM.Result Signal Session Value}
      (found : Ends (fun _ => lift (s.heap.lookup ref k.value)) s result) :
      Ends (fun n => eval n (.lookup container key)) r result :=
    .eval (.bind isDict (.bind isKey (found.of_eventually 0 fun _ _ => rfl)))
  cases found : Heap.value? (s.heap.dict ref) k.value with
  | some v =>
    have read : s.heap.lookup ref k.value = .ok v := by
      simp only [Heap.lookup, lookup?_plain, found]
      rfl
    exact looked (by simpa only [read, lift] using Ends.pure v s)
  | none =>
    have missed : ∃ fault, s.heap.lookup ref k.value = .error fault := by
      simp only [Heap.lookup, lookup?_plain, found]
      cases s.heap.display k.value with
      | ok text => exact ⟨_, rfl⟩
      | error fault => exact ⟨fault, rfl⟩
    obtain ⟨fault, missed⟩ := missed
    exact ⟨fault, looked (by simpa only [missed, lift] using Ends.failed fault s)⟩

theorem coherent_of_recorded {history : List EntryChange} {keys : List PlainKey}
    (recorded : Chronicled history keys (s.heap.dict ref)) :
    Coherent ref history s keys ((s.heap.dict ref).map (·.2)) where
  keys_given := by
    have lists : HeapCall .keys [.dict ref] (·.keys (.dict ref)) := ⟨rfl, nofun, fun _ => rfl⟩
    exact ⟨_, _, lists.ok rfl, (Heap.list_newList ..).trans recorded.plain⟩
  values_given := by
    have lists : HeapCall .values [.dict ref] (·.values (.dict ref)) := ⟨rfl, nofun, fun _ => rfl⟩
    exact ⟨_, _, lists.ok rfl, Heap.list_newList ..⟩
  distinct := recorded.ordered.imp Earlier.ne
  ordered := recorded.ordered
  values_told := recorded.values_eq
  told_iff := recorded.present_iff
  hasKey := by
    intro k
    have asks : HeapCall .hasKey [.dict ref, k.value] (·.hasKey (.dict ref) k.value) :=
      ⟨rfl, nofun, fun _ => rfl⟩
    refine asks.ok (h := s.heap) ?_
    simp [Heap.hasKey, Heap.dictRef, lookup?_plain, recorded.found, bind, Except.bind, pure,
      Except.pure]
  reads := fun k _ _ _ parts => recorded.found k ▸ ends_lookup parts
  assigns := fun _ _ _ _ _ _ parts => ⟨_, ends_assignIndex parts⟩
  removes := by
    intro k
    rw [← recorded.found]
    cases found : Heap.value? (s.heap.dict ref) k.value with
    | some v => exact ⟨_, removeKey_some found⟩
    | none => exact removeKey_none found

/-- A dictionary literal with plain keys can be evaluated, and what is seen of the dictionary after
any statements that change it by plain keys is what its pairs and the changes tell. -/
theorem dictionary_tells_changes {pairs : List (Node × Node)} {items : List (PlainKey × Value)}
    (give : PairsGive pairs s items t) :
    ∃ ref heap, Ends (fun n => eval n (.dictionary pairs)) s (.ok (.dict ref) { t with heap }) ∧
      ∀ changes last, EntryRun ref { t with heap } changes last →
        ∃ keys values, Coherent ref (puts items ++ changes).reverse last keys values := by
  refine ⟨_, _, .eval ((ends_evalEntries give []).bind (ends_updateHeap _ t)), ?_⟩
  intro changes last run
  obtain ⟨_, written⟩ := chronicled_nil.run (puts items)
  obtain ⟨keys, recorded⟩ := written.run changes
  refine ⟨keys, _, coherent_of_recorded ?_⟩
  rw [(run.entries (by simp)).1, reverse_append]
  simpa [Heap.newDict, Heap.dict] using recorded

/-- Under `1` there is what was assigned under the truth value that is the same key; and a key that
is not there cannot be removed. -/
theorem dictionary_tells_changes_overwritten :
    ∃ ref heap, Ends (fun n => eval n (.dictionary [(.number (.int 1), .text "old")])) {}
        (.ok (.dict ref) { heap }) ∧
      let start : Session := { env := [("d", .dict ref)], heap }
      ∃ middle last,
        Ends (fun n => eval n (.assignIndex (.var "d") (.boolean true) (.text "new"))) start
          (.ok (.text "new") middle) ∧
        (∃ signal, Ends (fun n => eval n (.call "remove_key" (some [.var "d", .text "x"]))) middle
          (.error signal last)) ∧
        ∃ keys values, Coherent ref
          [.drop (.text "x"), .put (.bool true) (.text "new"), .put (.int 1) (.text "old")]
          last keys values := by
  have isNumber : Gives {} (.number (.int 1)) (.int 1) := Ends.eval (.pure _ _)
  have isText (s : Session) (text : String) : Gives s (.text text) (.text text) :=
    Ends.eval (.pure _ s)
  have isBool (s : Session) : Gives s (.boolean true) (.bool true) := Ends.eval (.pure _ s)
  have give : PairsGive [(.number (.int 1), .text "old")] {} [(.int 1, .text "old")] {} :=
    .cons (.of_gives (.cons isNumber (.cons (isText _ _) .nil))) (.nil {})
  obtain ⟨ref, heap, made, tells⟩ := dictionary_tells_changes give
  let start : Session := { env := [("d", .dict ref)], heap }
  have isDict (heap : Heap) : Gives { start with heap } (.var "d") (.dict ref) :=
    Ends.eval (.pure _ _)
  have same (s : Session) : EntryRun ref s [] s := .still ⟨rfl, id⟩
  have assignment : InTurn [.var "d", .text "new", .boolean true] start
      [.dict ref, .text "new", (PlainKey.bool true).value] start :=
    .of_gives (.cons (isDict heap) (.cons (isText _ _) (.cons (isBool _) .nil)))
  have bound : EntryRun ref { heap } [] start := .still ⟨rfl, id⟩
  obtain ⟨_, _, seen⟩ := tells [] start bound
  obtain ⟨heap', assigned⟩ := seen.assigns _ _ _ _ _ start assignment
  let middle : Session := { start with heap := heap' }
  have first : EntryRun ref { heap } [.put (.bool true) (.text "new")] middle :=
    bound.andThen (.statement (.put assignment) (same start) assigned)
  have removal : InTurn [.var "d", .text "x"] middle [.dict ref, (PlainKey.text "x").value] middle :=
    .of_gives (.cons (isDict heap') (.cons (isText _ _) .nil))
  obtain ⟨_, _, seen⟩ := tells _ _ first
  obtain ⟨fault, gone⟩ := seen.removes (.text "x")
  have failed := gone "remove_key" _ _ (by decide) removal
  have second : EntryRun ref { heap } [.put (.bool true) (.text "new"), .drop (.text "x")] middle :=
    first.andThen (.statement (.drop (by decide) removal) (same middle) failed)
  exact ⟨ref, heap, made, middle, middle, assigned, ⟨_, failed⟩, tells _ _ second⟩

end Eval

end Hetman
