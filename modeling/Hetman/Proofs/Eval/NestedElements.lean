import Hetman.Proofs.Eval.BuiltinCalls
import Hetman.Proofs.Eval.CompoundElements

/-!
# Elements of nested lists

Indices name a place in nested lists (`Heap.Locates`). If what is found on the way is a list each
time, a place is named or one of the indices is no place in its list (`Heap.exists_follows`). The
function that sets an element follows them by itself, an assignment reads element after element;
both come to the same (`setAt_like_assignment`).
-/

namespace Hetman

open List

namespace Heap

variable {h : Heap} {ref target i place : Nat} {index value : Value} {indices : List Value}
  {outcome : Option (Nat × Nat)}

variable {α : Type} {result : Option α}

/-! ## Places in nested lists -/

/-- The place in a list that an index names: an integer within the bounds. -/
def place? (h : Heap) (ref : Nat) (index : Value) : Option Nat :=
  index.int?.bind fun n => if 0 ≤ n ∧ n < (h.list ref).length then some n.toNat else none

/-- Where indices lead from a list on: to a place in a list, or nowhere if one is no place in the
list that those before it lead to. -/
inductive Follows (h : Heap) : Nat → List Value → Option (Nat × Nat) → Prop
  | found {ref i : Nat} {index : Value} (isPlace : h.place? ref index = some i) :
      h.Follows ref [index] (some (ref, i))
  | missed {ref : Nat} {index : Value} {rest : List Value} (noPlace : h.place? ref index = none) :
      h.Follows ref (index :: rest) none
  | inner {ref i next : Nat} {index : Value} {rest : List Value} {outcome : Option (Nat × Nat)}
      (isPlace : h.place? ref index = some i) (item : (h.list ref)[i]? = some (.list next))
      (further : h.Follows next rest outcome) : h.Follows ref (index :: rest) outcome

/-- Indices name a place in a list. -/
abbrev Locates (h : Heap) (ref : Nat) (indices : List Value) (target place : Nat) : Prop :=
  h.Follows ref indices (some (target, place))

/-- What the first indices name is a list, as long as more of them follow. -/
def ListsAlong (h : Heap) (ref : Nat) (indices : List Value) : Prop :=
  ∀ front rest target place, front ++ rest = indices → rest ≠ [] →
    h.Locates ref front target place → ∃ next, (h.list target)[place]? = some (.list next)

theorem place?_eq_some_iff : h.place? ref index = some i ↔
    index.int? = some (i : Int) ∧ i < (h.list ref).length := by
  unfold place?
  cases index.int? with
  | none => simp
  | some n =>
    simp only [Option.bind_some, Option.ite_none_right_eq_some, Option.some.injEq]
    omega

theorem Follows.ne_nil (follows : h.Follows ref indices outcome) : indices ≠ [] := by
  cases follows <;> exact cons_ne_nil _ _

theorem Follows.inside (follows : h.Follows ref indices outcome)
    (located : outcome = some (target, place)) : place < (h.list target).length := by
  induction follows with
  | found isPlace =>
    cases located
    exact (place?_eq_some_iff.mp isPlace).2
  | missed => cases located
  | inner _ _ _ ih => exact ih located

theorem exists_follows (some_index : indices ≠ []) (along : h.ListsAlong ref indices) :
    ∃ outcome, h.Follows ref indices outcome := by
  induction indices generalizing ref with
  | nil => exact absurd rfl some_index
  | cons index rest ih =>
    cases isPlace : h.place? ref index with
    | none => exact ⟨_, .missed isPlace⟩
    | some i =>
      by_cases last : rest = []
      · subst last
        exact ⟨_, .found isPlace⟩
      · obtain ⟨next, item⟩ := along [index] rest ref i rfl last (.found isPlace)
        have further : h.ListsAlong next rest := by
          intro front others target place split more located
          exact along (index :: front) others target place (congrArg (index :: ·) split) more
            (.inner isPlace item located)
        obtain ⟨outcome, follows⟩ := ih last further
        exact ⟨outcome, .inner isPlace item follows⟩

/-! ## Checking indices -/

/-- A computation has a result, or fails by the rules of the language. -/
inductive Meets {α : Type} : Except Fault α → Option α → Prop
  | ok (a : α) : Meets (.ok a) (some a)
  | error (cause : ScriptFault) : Meets (.error (.script cause)) none

theorem Meets.map {β : Type} {e : Except Fault α} (met : Meets e result) (f : α → β) :
    Meets (e >>= fun a => .ok (f a)) (result.map f) := by
  cases met <;> constructor

theorem meets_elementAt (h : Heap) (ref : Nat) (index : Value) :
    Meets (h.elementAt ref index) ((h.place? ref index).bind ((h.list ref)[·]?)) := by
  unfold elementAt place?
  cases index.int? with
  | none => exact .error _
  | some n =>
    dsimp only
    by_cases negative : n < 0
    · rw [if_pos negative, Option.bind_some, if_neg (by omega)]
      exact .error _
    · by_cases inside : n < (h.list ref).length
      · have item := getElem?_eq_getElem (show n.toNat < (h.list ref).length by omega)
        rw [if_neg negative, Option.bind_some, if_pos ⟨by omega, inside⟩, Option.bind_some, item]
        exact .ok _
      · have beyond : (h.list ref)[n.toNat]? = none := getElem?_eq_none (by omega)
        rw [if_neg negative, Option.bind_some, if_neg fun both => inside both.2, beyond]
        exact .error _

theorem meets_setElement (h : Heap) (ref : Nat) (index value : Value) :
    Meets (h.setElement ref index value)
      ((h.place? ref index).map fun i => h.setList ref ((h.list ref).set i value)) := by
  unfold setElement place?
  cases index.int? with
  | none => exact .error _
  | some n =>
    dsimp only
    by_cases inside : 0 ≤ n ∧ n < (h.list ref).length
    · rw [if_pos (by simpa using inside), Option.bind_some, if_pos inside]
      exact .ok _
    · rw [if_neg (by simpa using inside), Option.bind_some, if_neg inside]
      exact .error _

/-- The two checks of an index, and what is done with the place. -/
theorem meets_checks (cause cause' : ArgumentFault) {f : Nat → Except Fault α}
    (found : ∀ i, h.place? ref index = some i → Meets (f i) result)
    (missed : h.place? ref index = none → result = none) :
    Meets (integer index cause >>= fun n => Heap.place n (h.list ref).length cause' >>= f)
      result := by
  unfold place? at found missed
  unfold integer
  cases isInt : index.int? with
  | none =>
    rw [isInt] at missed
    rw [missed rfl]
    exact .error (.argument cause)
  | some n =>
    rw [isInt] at found missed
    show Meets (Heap.place n _ cause' >>= f) result
    unfold Heap.place
    by_cases inside : 0 ≤ n ∧ n < (h.list ref).length
    · rw [if_pos (by simpa using inside)]
      exact found _ (if_pos inside)
    · rw [if_neg (by simpa using inside), missed (if_neg inside)]
      exact .error (.argument cause')

/-! ## Following indices -/

def placed (h : Heap) (value : Value) : Nat × Nat → Heap
  | (target, place) => h.setList target ((h.list target).set place value)

theorem meets_setPart (h : Heap) (ref : Nat) (index value : Value) :
    Meets (h.setPart (.list ref) index value)
      (((h.place? ref index).map (Prod.mk ref)).map (h.placed value)) := by
  refine meets_checks _ _ (fun i isPlace => ?_) fun noPlace => ?_
  · rw [isPlace]
    exact .ok _
  · rw [noPlace]
    rfl

theorem meets_descend (follows : h.Follows ref indices outcome) (nth : Nat) (value : Value) :
    Meets (h.descend nth (.list ref) indices.dropLast >>= fun container =>
      h.setPart container (indices.getLastD .none) value) (outcome.map (h.placed value)) := by
  have step : ∀ nth ref index first others,
      (h.descend nth (.list ref) (index :: first :: others).dropLast >>= fun container =>
        h.setPart container ((index :: first :: others).getLastD .none) value) =
      (integer index (.indexType nth) >>= fun n =>
        Heap.place n (h.list ref).length (.indexBounds nth) >>= fun i =>
          h.descend (nth + 1) ((h.list ref).getD i .none) (first :: others).dropLast >>=
            fun container => h.setPart container ((first :: others).getLastD .none) value) := by
    intro nth ref index first others
    have checked : h.descend nth (.list ref) (index :: first :: others).dropLast =
        (integer index (.indexType nth) >>= fun n =>
          Heap.place n (h.list ref).length (.indexBounds nth) >>= fun i =>
            h.descend (nth + 1) ((h.list ref).getD i .none) (first :: others).dropLast) := rfl
    rw [checked]
    simp only [bind_assoc]
    rfl
  induction follows generalizing nth with
  | @found ref i index isPlace =>
    have set := h.meets_setPart ref index value
    rw [isPlace] at set
    exact set
  | @missed ref index rest noPlace =>
    cases rest with
    | nil =>
      have set := h.meets_setPart ref index value
      rw [noPlace] at set
      exact set
    | cons first others =>
      rw [step]
      exact meets_checks _ _ (fun i isPlace => by cases noPlace.symm.trans isPlace) fun _ => rfl
  | @inner ref i next index rest outcome isPlace item further ih =>
    cases rest with
    | nil => exact absurd rfl further.ne_nil
    | cons first others =>
      rw [step]
      refine meets_checks _ _ (fun j isPlace' => ?_) fun noPlace => ?_
      · cases isPlace.symm.trans isPlace'
        rw [getD_eq_getElem?_getD, item]
        exact ih (nth + 1)
      · cases isPlace.symm.trans noPlace

theorem meets_setAt (follows : h.Follows ref indices outcome) (value : Value) :
    Meets (h.setAt (.list ref) indices value)
      (outcome.map fun found => (.none, h.placed value found)) := by
  have followed : h.setAt (.list ref) indices value =
      ((h.descend 1 (.list ref) indices.dropLast >>= fun container =>
        h.setPart container (indices.getLastD .none) value) >>= fun heap => .ok (.none, heap)) := by
    rw [bind_assoc]
    rfl
  rw [followed]
  have met := (meets_descend follows 1 value).map (Prod.mk Value.none)
  rwa [Option.map_map] at met

/-! ## One place -/

/-- The heaps differ in one place of one list, at most. -/
structure Replaces (h h' : Heap) (target place : Nat) (value : Value) : Prop where
  lists : ∀ ref, ref ≠ target → h'.list ref = h.list ref
  item : (h'.list target)[place]? = some value
  items : ∀ i, i ≠ place → (h'.list target)[i]? = (h.list target)[i]?
  size : h'.lists.size = h.lists.size
  others : h' = { h with lists := h'.lists }

theorem list_newList (h : Heap) (items : List Value) :
    (h.newList items).2.list h.lists.size = items := by
  simp [newList, list]

theorem list_setList_of_ne (items : List Value) (other : ref ≠ target) :
    (h.setList target items).list ref = h.list ref := by
  unfold list setList
  rw [Array.getElem?_setIfInBounds_ne other.symm]

theorem stored_of_inside (inside : place < (h.list target).length) : target < h.lists.size := by
  refine Nat.not_le.mp fun beyond => ?_
  rw [list, Array.getElem?_eq_none beyond] at inside
  cases inside

theorem list_setList_self (items : List Value) (inside : place < (h.list target).length) :
    (h.setList target items).list target = items := by
  unfold list setList
  rw [Array.getElem?_setIfInBounds_self_of_lt (stored_of_inside inside)]
  rfl

theorem replaces_placed (inside : place < (h.list target).length) (value : Value) :
    h.Replaces (h.placed value (target, place)) target place value where
  lists _ other := list_setList_of_ne _ other
  item := by
    rw [placed, list_setList_self _ inside, getElem?_set_self inside]
  items i other := by
    rw [placed, list_setList_self _ inside, getElem?_set_ne other.symm]
  size := Array.size_setIfInBounds
  others := rfl

end Heap

namespace Eval

variable {α : Type} {s t : Session}

/-! ## Evaluations that come to a heap -/

/-- An evaluation comes to a value and a heap, or else fails by the rules of the language and
changes nothing. -/
def Comes (x : Nat → Eval Value) (s : Session) : Option (Value × Heap) → Prop
  | some (value, heap) => Ends x s (.ok value { s with heap })
  | none => ∃ cause, Ends x s (.error (.failed (.script cause)) s)

variable {x : Nat → Eval Value} {result : Option (Value × Heap)} {node : Node}

theorem comes_of_meets {e : Except Fault (Value × Heap)}
    (met : Heap.Meets e result) (done : ∀ n, x n s = (lift e >>= fun made => do
      set { s with heap := made.2 }
      return made.1) s) : Comes x s result := by
  cases met with
  | ok made => exact ⟨fun t same => (by cases same), 0, fun n _ => done n⟩
  | error cause => exact ⟨cause, fun t same => (by cases same), 0, fun n _ => done n⟩

theorem comes_updateHeap {f : Heap → Except Fault (Value × Heap)}
    (met : Heap.Meets (f s.heap) result) : Comes (fun _ => updateHeap f) s result := by
  refine comes_of_meets met fun _ => ?_
  rw [updateHeap_apply]
  cases f s.heap <;> rfl

theorem Comes.imp {y : Nat → Eval Value} (comes : Comes y s result)
    (same : ∀ r, Ends y s r → Ends x s r) : Comes x s result := by
  cases result with
  | none =>
    obtain ⟨cause, ends⟩ := comes
    exact ⟨cause, same _ ends⟩
  | some made => exact same _ comes

theorem Comes.after {x : Nat → Eval α} {f : Nat → α → Eval Value} {a : α}
    (first : Ends x s (.ok a s)) (second : Comes (fun n => f n a) s result) :
    Comes (fun n => x n >>= f n) s result :=
  second.imp fun _ => first.bind

theorem Comes.eval (comes : Comes (fun n => evalNode n (eval n) node) s result) :
    Comes (fun n => eval n node) s result :=
  comes.imp fun _ => Ends.eval

section

variable {array container index value : Node} {indices nodes : List Node} {ref : Nat}
  {key v : Value} {keys values : List Value} {outcome : Option (Nat × Nat)} {name : String}
  {b : Builtin}

/-! ## Reading and assigning -/

theorem comes_lookup (isArray : Gives s array (.list ref)) (isIndex : Gives s index key) :
    Comes (fun n => eval n (.lookup array index)) s
      (((s.heap.place? ref key).bind ((s.heap.list ref)[·]?)).map fun item => (item, s.heap)) := by
  have met := (s.heap.meets_elementAt ref key).map fun item => (item, s.heap)
  refine Comes.eval (.after isArray (.after isIndex (comes_of_meets met fun _ => ?_)))
  show lift (s.heap.elementAt ref key) s = _
  cases s.heap.elementAt ref key <;> rfl

theorem isDatum_of_ends (isIndex : Ends (fun n => eval n index) s (.ok key t)) :
    isDatum index = false := by
  cases datum : isDatum index with
  | false => rfl
  | true =>
    obtain ⟨-, least, ended⟩ := isIndex
    obtain ⟨signal, stuck⟩ := eval_datum datum least s
    cases stuck.symm.trans (ended least (Nat.le_refl _))

theorem comes_assignIndex (isArray : Gives s array (.list ref)) (isIndex : Gives s index key)
    (isValue : Gives s value v) :
    Comes (fun n => eval n (.assignIndex array index value)) s
      (((s.heap.place? ref key).map (Prod.mk ref)).map fun found => (v, s.heap.placed v found)) := by
  have assigned : ∀ n, evalNode n (eval n) (.assignIndex array index value) =
      (do
        let target ← eval n array
        let new ← eval n value
        let key ← keyFor target (eval n index)
        writeAt index.outline.display target key new) :=
    fun n => assignAtKey_apply (isDatum_of_ends isIndex) array value
  refine .eval ?_
  simp only [assigned]
  refine .after isArray (.after isValue (.after isIndex ?_))
  show Comes (fun _ => assignElement ref key v) s _
  refine comes_updateHeap ?_
  have met := (s.heap.meets_setElement ref key v).map (Prod.mk v)
  rw [Option.map_map] at met ⊢
  exact met

/-- What fails as a container fails whatever is assigned in it. -/
theorem comes_of_container (more : indices ≠ []) (value : Node)
    (fails : Comes (fun n => eval n container) s none) :
    Comes (fun n => eval n (Parser.assignTo (indices.foldl .lookup container) value)) s none := by
  induction indices generalizing container with
  | nil => exact absurd rfl more
  | cons index rest ih =>
    obtain ⟨cause, ends⟩ := fails
    by_cases last : rest = []
    · subst last
      exact ⟨cause, Ends.eval (Ends.bind_error ends)⟩
    · have fails : Comes (fun n => eval n (.lookup container index)) s none :=
        ⟨cause, Ends.eval (Ends.bind_error ends)⟩
      have assigned := ih last fails
      exact assigned

theorem comes_assignment (isArray : Gives s array (.list ref))
    (areIndices : List.Forall₂ (Gives s) indices keys) (isValue : Gives s value v)
    (follows : s.heap.Follows ref keys outcome) :
    Comes (fun n => eval n (Parser.assignTo (indices.foldl .lookup array) value)) s
      (outcome.map fun found => (v, s.heap.placed v found)) := by
  induction follows generalizing indices array with
  | found isPlace =>
    obtain ⟨index, rest, isIndex, nothing, rfl⟩ := List.forall₂_cons_right_iff.mp areIndices
    cases nothing
    have assigned := comes_assignIndex isArray isIndex isValue
    rw [isPlace] at assigned
    exact assigned
  | missed noPlace =>
    obtain ⟨index, rest, isIndex, others, rfl⟩ := List.forall₂_cons_right_iff.mp areIndices
    by_cases last : rest = []
    · subst last
      have assigned := comes_assignIndex isArray isIndex isValue
      rw [noPlace] at assigned
      exact assigned
    · have read := comes_lookup isArray isIndex
      rw [noPlace] at read
      exact comes_of_container last value read
  | inner isPlace item _ ih =>
    obtain ⟨index, rest, isIndex, others, rfl⟩ := List.forall₂_cons_right_iff.mp areIndices
    have read := comes_lookup isArray isIndex
    rw [isPlace, Option.bind_some, item] at read
    have assigned := ih read others
    exact assigned

/-! ## Calls of built-in functions -/

theorem comes_builtin (isBuiltin : Builtin.ofName? name = some b)
    (accepted : b.accepts nodes.length = true) (give : List.Forall₂ (Gives s) nodes values)
    (first : b = .setAt → ∃ ref others, values = .list ref :: others)
    (applied : Comes (fun n => applyBuiltin (eval n) b values) s result) :
    Comes (fun n => eval n (.call name (some nodes))) s result :=
  applied.imp fun _ => ends_builtin isBuiltin accepted (.of_gives give) first

theorem comes_setAt (isSetAt : Builtin.ofName? name = some .setAt)
    (isArray : Gives s array (.list ref)) (areIndices : List.Forall₂ (Gives s) indices keys)
    (isValue : Gives s value v) (follows : s.heap.Follows ref keys outcome) :
    Comes (fun n => eval n (.call name (some (array :: indices ++ [value])))) s
      (outcome.map fun found => (.none, s.heap.placed v found)) := by
  have accepted : Builtin.setAt.accepts (array :: indices ++ [value]).length = true := by
    have some_key : 1 ≤ keys.length := length_pos_iff.mpr follows.ne_nil
    rw [← areIndices.length_eq] at some_key
    simpa [Builtin.accepts] using some_key
  refine comes_builtin isSetAt accepted (.cons isArray (rel_append areIndices (.cons isValue .nil)))
    (fun _ => ⟨ref, _, rfl⟩) ?_
  show Comes (fun _ => updateHeap fun h => h.setAt (.list ref) (keys ++ [v]).dropLast _) s _
  rw [dropLast_concat]
  refine comes_updateHeap ?_
  rw [getLastD_concat]
  exact s.heap.meets_setAt follows v

/-! ## The same element -/

/-- An evaluation sets the element that indices name. If they name one, it has a value and changes
only this element; otherwise it fails by the rules of the language, and nothing changes. -/
structure StoresAt (x : Nat → Eval Value) (s : Session) (ref : Nat) (keys : List Value)
    (v result : Value) : Prop where
  succeeds_iff : (∃ w t, Ends x s (.ok w t)) ↔ ∃ target place, s.heap.Locates ref keys target place
  found : ∀ target place, s.heap.Locates ref keys target place →
    Ends x s (.ok result { s with heap := s.heap.placed v (target, place) })
  missed : (∀ target place, ¬ s.heap.Locates ref keys target place) →
    ∃ cause, Ends x s (.error (.failed (.script cause)) s)

theorem storesAt_of_comes {result : Value} (some_key : keys ≠ [])
    (along : s.heap.ListsAlong ref keys)
    (comes : ∀ outcome, s.heap.Follows ref keys outcome →
      Comes x s (outcome.map fun found => (result, s.heap.placed v found))) :
    StoresAt x s ref keys v result := by
  have found : ∀ target place, s.heap.Locates ref keys target place →
      Ends x s (.ok result { s with heap := s.heap.placed v (target, place) }) :=
    fun target place locates => comes _ locates
  have missed : (∀ target place, ¬ s.heap.Locates ref keys target place) →
      ∃ cause, Ends x s (.error (.failed (.script cause)) s) := by
    intro nowhere
    obtain ⟨outcome, follows⟩ := Heap.exists_follows some_key along
    cases outcome with
    | none => exact comes none follows
    | some located => exact absurd follows (nowhere located.1 located.2)
  refine ⟨⟨?_, ?_⟩, found, missed⟩
  · rintro ⟨w, t, ended⟩
    by_contra nowhere
    obtain ⟨cause, failed⟩ := missed fun target place locates => nowhere ⟨target, place, locates⟩
    cases ended.unique failed
  · rintro ⟨target, place, locates⟩
    exact ⟨_, _, found target place locates⟩

/-- To set an element at indices is to assign to it, as long as lists hold the elements on the way:
call and assignment succeed for the same indices, those of which each is a place in the list that
the others lead to, and then they leave the same heap, changed only in the last place of the last
list. -/
theorem setAt_like_assignment (isSetAt : Builtin.ofName? name = some .setAt)
    (isArray : Gives s array (.list ref)) (areIndices : List.Forall₂ (Gives s) indices keys)
    (some_index : indices ≠ []) (isValue : Gives s value v) (along : s.heap.ListsAlong ref keys) :
    StoresAt (fun n => eval n (.call name (some (array :: indices ++ [value])))) s ref keys v .none ∧
    StoresAt (fun n => eval n (Parser.assignTo (indices.foldl .lookup array) value)) s ref keys v v ∧
    ∀ target place, s.heap.Locates ref keys target place →
      s.heap.Replaces (s.heap.placed v (target, place)) target place v := by
  have some_key : keys ≠ [] := by
    rintro rfl
    cases areIndices
    exact some_index rfl
  refine ⟨storesAt_of_comes some_key along fun outcome follows => ?_,
    storesAt_of_comes some_key along fun outcome follows => ?_, fun target place locates => ?_⟩
  · exact comes_setAt isSetAt isArray areIndices isValue follows
  · exact comes_assignment isArray areIndices isValue follows
  · exact Heap.replaces_placed (locates.inside rfl) v

/-- A list with a list and a number in it. -/
def nested : Session where
  env := [("a", .list 0)]
  heap := { lists := #[[.list 1, .int 5], [.int 1, .int 2]] }

theorem nested_along : nested.heap.ListsAlong 0 [.int 0, .int 1] := by
  intro front rest target place split more located
  cases located with
  | found isPlace =>
    cases split
    cases isPlace
    exact ⟨1, rfl⟩
  | inner _ _ further =>
    have lengths := congrArg List.length split
    have some_inner := length_pos_iff.mpr further.ne_nil
    have some_left := length_pos_iff.mpr more
    simp only [length_append, length_cons, length_nil] at lengths
    omega

theorem setAt_like_assignment_nested :
    ∃ heap, heap.list 1 = [.int 1, .text "x"] ∧ heap.list 0 = nested.heap.list 0 ∧
      Ends (fun n => eval n (.call "set_at"
        (some [.var "a", .number (.int 0), .number (.int 1), .text "x"]))) nested
        (.ok .none { nested with heap }) ∧
      Ends (fun n => eval n (.assignIndex (.lookup (.var "a") (.number (.int 0)))
        (.number (.int 1)) (.text "x"))) nested (.ok (.text "x") { nested with heap }) := by
  have isArray : Gives nested (.var "a") (.list 0) := Ends.eval (.pure _ nested)
  have isIndex : ∀ n : Int, Gives nested (.number (.int n)) (.int n) :=
    fun n => Ends.eval (.pure _ nested)
  have isValue : Gives nested (.text "x") (.text "x") := Ends.eval (.pure _ nested)
  have isSetAt : Builtin.ofName? "set_at" = some .setAt := by decide
  obtain ⟨call, assignment, replaces⟩ := setAt_like_assignment isSetAt isArray
    (.cons (isIndex 0) (.cons (isIndex 1) .nil)) (cons_ne_nil _ _) isValue nested_along
  have locates : nested.heap.Locates 0 [.int 0, .int 1] 1 1 :=
    .inner (i := 0) (by decide) rfl (.found (by decide))
  exact ⟨_, rfl, (replaces 1 1 locates).lists 0 (by decide), call.found 1 1 locates,
    assignment.found 1 1 locates⟩

end

end Eval

end Hetman
