import Hetman.Proofs.Eval.NestedElements

/-!
# Changes that fail

A change of a list, a dictionary, an object or a variable looks at everything that it is given
before it changes anything. So if its parts have no effects and it fails, nothing has changed. And
what is put into a list and taken out again leaves no trace (`failing_change`).
-/

namespace Hetman

open List

/-- Variables, their types and all that was shared are as they were. There may be new lists,
dictionaries and objects, which nobody knows. -/
structure Session.Intact (s t : Session) : Prop where
  env : t.env = s.env
  types : t.types = s.types
  lists : Heap.Kept s.heap.lists t.heap.lists
  dicts : Heap.Kept s.heap.dicts t.heap.dicts
  objects : Heap.Kept s.heap.objects t.heap.objects

theorem Session.Intact.refl (s : Session) : s.Intact s :=
  ⟨rfl, rfl, .refl _, .refl _, .refl _⟩

theorem Session.Intact.trans {s t u : Session} (first : s.Intact t) (second : t.Intact u) :
    s.Intact u :=
  ⟨second.env.trans first.env, second.types.trans first.types, first.lists.trans second.lists,
    first.dicts.trans second.dicts, first.objects.trans second.objects⟩

namespace Eval

variable {α β : Type} {x : Eval α} {f : α → Eval β} {ev : Node → Eval Value} {nodes : List Node}

/-- If the evaluation fails, nothing has changed, and if it is `calm`, however it ends. -/
def Careful (calm : Prop) (x : Eval α) : Prop :=
  ∀ s : Session, match x s with
    | .ok _ t => calm → s.Intact t
    | .error _ t => s.Intact t

variable {calm : Prop}

/-- Parts without effects, and then a change. -/
theorem Careful.bind (first : Careful True x) (second : ∀ a, Careful calm (f a)) :
    Careful calm (x >>= f) := by
  intro s
  have before := first s
  cases result : x s with
  | ok a t =>
    rw [result] at before
    have after := second a t
    rw [bind_ok result]
    generalize f a t = ended at after ⊢
    cases ended with
    | ok b u => exact fun isCalm => (before trivial).trans (after isCalm)
    | error signal u => exact (before trivial).trans after
  | error signal t =>
    rw [result] at before
    rw [bind_error result]
    exact before

theorem Careful.asScript (h : Careful calm x) : Careful calm (asScript x) := by
  intro s
  have ended := h s
  rw [asScript_apply]
  generalize x s = result at ended ⊢
  cases result <;> exact ended

theorem careful_pure (a : α) : Careful calm (pure a : Eval α) :=
  fun s _ => .refl s

theorem careful_fail (fault : Fault) : Careful calm (fail fault : Eval α) :=
  fun s => .refl s

theorem careful_updateHeap (f : Heap → Except Fault (Value × Heap)) :
    Careful False (updateHeap f) := by
  intro s
  rw [updateHeap_apply]
  cases f s.heap with
  | ok result => exact False.elim
  | error fault => exact .refl s

theorem careful_evalAll (parts : ∀ n ∈ nodes, Careful True (ev n)) :
    Careful True (evalAll ev nodes) := by
  induction nodes with
  | nil => exact careful_pure _
  | cons node rest ih =>
    obtain ⟨first, others⟩ := forall_mem_cons.mp parts
    exact first.bind fun _ => (ih others).bind fun _ => careful_pure _

/-! ## Functions that change lists and dictionaries -/

/-- The functions that change what they are given. -/
def mutators : List Builtin :=
  [.append, .insert, .remove, .pop, .clear, .removeKey, .setAt]

theorem careful_applyBuiltin {b : Builtin} (mutates : b ∈ mutators) (args : List Value) :
    Careful False (applyBuiltin ev b args) := by
  fun_cases applyBuiltin ev b args
  all_goals first
    | exact careful_updateHeap _
    | exact careful_fail _
    | exact absurd mutates (by decide)

theorem careful_callBuiltin {b : Builtin} {arguments : Option (List Node)} (mutates : b ∈ mutators)
    (parts : ∀ n ∈ arguments.getD [], Careful True (ev n)) :
    Careful False (callBuiltin ev b arguments) := by
  cases arguments with
  | none => exact careful_fail _
  | some nodes =>
    have usual : Careful False (evalAll ev nodes >>= applyBuiltin ev b) :=
      .bind (careful_evalAll parts) fun args => careful_applyBuiltin mutates args
    refine .bind (careful_pure nodes.length) fun count => ?_
    split
    · exact careful_fail _
    split
    · next array rest given _ =>
      cases given
      obtain ⟨first, others⟩ := forall_mem_cons.mp parts
      refine .bind first fun value => ?_
      cases value with
      | list ref => exact .bind (careful_evalAll others) fun args => careful_applyBuiltin mutates _
      | _ => exact careful_fail _
    · exact usual

/-! ## Assignments -/

theorem careful_assignVariable (name : String) (value : Value) (hint : Option String) :
    Careful False (assignVariable name value hint) := by
  intro s
  unfold assignVariable
  cases hint.filter (· ≠ "") with
  | some type =>
    dsimp only
    cases TypeName.accepts (TypeName.normalize type) value.typeName with
    | true => exact False.elim
    | false => exact .refl s
  | none =>
    dsimp only
    rw [get_bind_apply]
    cases s.types.get? name with
    | some expected =>
      dsimp only
      cases TypeName.accepts expected value.typeName with
      | true => exact False.elim
      | false => exact .refl s
    | none => exact False.elim

theorem careful_setField (ref : Nat) (name : String) (value : Value) :
    Careful False (setField ref name value) := by
  intro s
  rw [setField_apply]
  cases Object.set s.classes s.heap ref name value s.caller with
  | ok heap => exact False.elim
  | error cause => exact .refl s

theorem careful_display (v : Value) : Careful True (display v) := by
  have stays : ∀ result : Except Fault String, Careful True (lift result) := by
    rintro (fault | text)
    · exact careful_fail fault
    · exact careful_pure text
  exact fun s => stays (s.heap.display v) s

/-- A plain value that is a key is stored anew. -/
theorem careful_evalKey {key : Node} (h : Careful True (ev key)) : Careful True (evalKey ev key) := by
  cases key with
  | datum d =>
    intro s _
    have gains := s.heap.gains_store d
    exact ⟨rfl, rfl, gains.lists, gains.dicts, fun _ _ found => gains.objects ▸ found⟩
  | missing => exact careful_pure _
  | _ => exact h

/-! ## All changes -/

/-- A node without effects. -/
def EffectFree (node : Node) : Prop :=
  ∀ fuel, Careful True (eval fuel node)

theorem effectFree_array {elements : List Node} (parts : ∀ n ∈ elements, EffectFree n) :
    EffectFree (.array elements) := by
  intro fuel
  cases fuel with
  | zero => exact fun s => .refl s
  | succ fuel =>
    refine .bind (careful_evalAll fun n inside => parts n inside fuel) fun items s _ => ?_
    exact ⟨rfl, rfl, Heap.kept_push _ _, .refl _, .refl _⟩

/-- A node that changes what its parts give: a call of a function that does, by any name of it, or an
assignment to an element, to an entry, to a field or to a variable. -/
inductive Mutates : Node → Prop
  | call {name : String} {b : Builtin} {arguments : Option (List Node)}
      (isBuiltin : Builtin.ofName? name = some b) (mutates : b ∈ mutators) :
      Mutates (.call name arguments)
  | element (container key value : Node) : Mutates (.assignIndex container key value)
  | member (object : Node) (name : String) (value : Node) :
      Mutates (.assignProperty object name value)
  | binding (name : String) (value : Node) (hint : Option String) :
      Mutates (.assign name value hint)

theorem careful_mutation {node : Node} (mutates : Mutates node)
    (parts : ∀ n ∈ node.parts, Careful True (ev n)) (fuel : Nat) :
    Careful False (evalNode fuel ev node) := by
  cases mutates with
  | call isBuiltin mutates =>
    unfold evalNode
    dsimp only
    rw [callNamed_builtin isBuiltin]
    exact careful_callBuiltin mutates parts
  | element container key value =>
    simp only [Node.parts, forall_mem_cons] at parts
    obtain ⟨hcontainer, hkey, hvalue, _⟩ := parts
    refine .bind hcontainer fun target => .bind hvalue fun v => ?_
    cases target with
    | dict ref => exact .bind (careful_evalKey hkey) fun k => careful_updateHeap _
    | list ref =>
      dsimp only
      split
      · exact careful_updateHeap _
      · exact careful_updateHeap _
      · exact .bind hkey fun k => careful_updateHeap _
    | object ref =>
      refine .bind hkey.asScript fun k => ?_
      exact .bind (careful_display k) fun name => careful_setField ref name v
    | _ => exact careful_fail _
  | member object name value =>
    simp only [Node.parts, forall_mem_cons] at parts
    obtain ⟨hobject, hvalue, _⟩ := parts
    refine .bind hobject fun target => .bind hvalue fun v => ?_
    cases target with
    | dict ref => exact careful_updateHeap _
    | object ref => exact careful_setField ref name v
    | _ => exact careful_fail _
  | binding name value hint =>
    exact .bind (parts value (mem_singleton_self _)) fun v => careful_assignVariable name v hint

/-! ## Changes that are undone -/

/-- A list that is changed and changed back. -/
theorem setList_back {h : Heap} {ref : Nat} (inside : ref < h.lists.size) (items : List Value) :
    (h.setList ref items).list ref = items ∧ (h.setList ref items).setList ref (h.list ref) = h := by
  have stored : (h.setList ref items).list ref = items := by
    unfold Heap.list Heap.setList
    rw [Array.getElem?_setIfInBounds_self_of_lt inside]
    rfl
  refine ⟨stored, ?_⟩
  have back : (h.lists.setIfInBounds ref items).setIfInBounds ref (h.list ref) = h.lists := by
    rw [Array.setIfInBounds_setIfInBounds]
    refine Array.ext_getElem? fun i => ?_
    rw [Array.getElem?_setIfInBounds]
    split
    next same => simp [← same, inside, Heap.list]
    · rfl
  exact congrArg (fun lists => { h with lists }) back

theorem place_of_lt {i bound : Nat} (within : i < bound) (otherwise : ArgumentFault) :
    Heap.place i bound otherwise = .ok i := by
  simp [Heap.place, within]

theorem remove_insert {h : Heap} {ref i : Nat} {index : Value} (inside : ref < h.lists.size)
    (isIndex : index.int? = some (i : Int)) (within : i ≤ (h.list ref).length) (value : Value) :
    ∃ h', h.insert (.list ref) index value = .ok (.none, h') ∧
      h'.remove (.list ref) index = .ok (.none, h) := by
  obtain ⟨stored, back⟩ := setList_back inside ((h.list ref).insertIdx i value)
  refine ⟨h.setList ref ((h.list ref).insertIdx i value), ?_, ?_⟩
  · simp [Heap.insert, Heap.listRef, Heap.integer, isIndex, place_of_lt (Nat.lt_succ_of_le within),
      bind, Except.bind, pure, Except.pure]
  · have bound : i < ((h.list ref).insertIdx i value).length := by
      rw [length_insertIdx_of_le_length within]
      omega
    simp [Heap.remove, Heap.listRef, Heap.integer, isIndex, stored, place_of_lt bound,
      eraseIdx_insertIdx_self, back, bind, Except.bind, pure, Except.pure]

theorem pop_append {h : Heap} {ref : Nat} (inside : ref < h.lists.size) (value : Value) :
    ∃ h', h.append (.list ref) value = .ok (.none, h') ∧ h'.pop (.list ref) = .ok (value, h) := by
  obtain ⟨stored, back⟩ := setList_back inside (h.list ref ++ [value])
  refine ⟨h.setList ref (h.list ref ++ [value]), rfl, ?_⟩
  simp [Heap.pop, Heap.listRef, stored, back, bind, Except.bind, pure, Except.pure]

/-- A change whose parts have no effects changes nothing if it fails. And a value that was put into a
list, anywhere or at the end, can be taken out from there, and then all is as before. -/
theorem failing_change :
    (∀ (fuel : Nat) (node : Node) (s t : Session) (signal : Signal), Mutates node →
      (∀ part ∈ node.parts, EffectFree part) → eval fuel node s = .error signal t → s.Intact t) ∧
    ∀ (s : Session) (ref : Nat) (value : Value), ref < s.heap.lists.size →
      (∀ (index : Value) (i : Nat), index.int? = some (i : Int) → i ≤ (s.heap.list ref).length →
        ∃ heap, CallEnds .insert [.list ref, index, value] s (.ok .none { s with heap }) ∧
          CallEnds .remove [.list ref, index] { s with heap } (.ok .none s)) ∧
      ∃ heap, CallEnds .append [.list ref, value] s (.ok .none { s with heap }) ∧
        CallEnds .pop [.list ref] { s with heap } (.ok value s) := by
  refine ⟨fun fuel node s t signal mutates parts failed => ?_, fun s ref value inside => ⟨?_, ?_⟩⟩
  · cases fuel with
    | zero =>
      cases failed
      exact .refl s
    | succ fuel =>
      have careful := careful_mutation mutates (fun part inside => parts part inside fuel) fuel s
      have failed : evalNode fuel (eval fuel) node s = .error signal t := failed
      rw [failed] at careful
      exact careful
  · intro index i isIndex within
    obtain ⟨h, inserted, removed⟩ := remove_insert inside isIndex within value
    have inserts : HeapCall .insert [.list ref, index, value] (·.insert (.list ref) index value) :=
      ⟨rfl, nofun, fun _ => rfl⟩
    have removes : HeapCall .remove [.list ref, index] (·.remove (.list ref) index) :=
      ⟨rfl, nofun, fun _ => rfl⟩
    exact ⟨h, inserts.ok inserted, removes.ok removed⟩
  · obtain ⟨h, appended, popped⟩ := pop_append inside value
    have appends : HeapCall .append [.list ref, value] (·.append (.list ref) value) :=
      ⟨rfl, nofun, fun _ => rfl⟩
    have pops : HeapCall .pop [.list ref] (·.pop (.list ref)) := ⟨rfl, nofun, fun _ => rfl⟩
    exact ⟨h, appends.ok appended, pops.ok popped⟩

/-- Nothing can be taken from an empty list; what is put into it can. -/
theorem failing_change_empty :
    let s : Session := { env := [("a", .list 0)], heap := { lists := #[[]] } }
    (∃ t, eval 2 (.call "pop" (some [.array []])) s =
      .error (.failed (.script (.argument .popEmpty))) t ∧ s.Intact t) ∧
    ∃ heap,
      Ends (fun n => eval n (.call "insert" (some [.var "a", .number (.int 0), .boolean true]))) s
        (.ok .none { s with heap }) ∧
      Ends (fun n => eval n (.call "vydalyty" (some [.var "a", .number (.int 0)]))) { s with heap }
        (.ok .none s) := by
  intro s
  obtain ⟨fails, restores⟩ := failing_change
  refine ⟨⟨_, rfl, ?_⟩, ?_⟩
  · refine fails 2 (.call "pop" (some [.array []])) _ _ _ (.call rfl (by decide)) ?_ rfl
    intro part inside
    obtain rfl : part = .array [] := mem_singleton.mp inside
    exact effectFree_array (by simp)
  · have isArray (heap : Heap) : Gives { s with heap } (.var "a") (.list 0) := Ends.eval (.pure _ _)
    have isIndex (t : Session) : Gives t (.number (.int 0)) (.int 0) := Ends.eval (.pure _ t)
    have isValue : Gives s (.boolean true) (.bool true) := Ends.eval (.pure _ s)
    obtain ⟨heap, inserted, removed⟩ :=
      (restores s 0 (.bool true) (by decide)).1 (.int 0) 0 rfl (by decide)
    refine ⟨heap, inserted _ _ s (by decide) ?_, removed _ _ { s with heap } (by decide) ?_⟩
    · exact .cons (isArray s.heap) (.cons (isIndex s) (.cons isValue (.nil s)))
    · exact .cons (isArray heap) (.cons (isIndex _) (.nil _))

end Eval

end Hetman
