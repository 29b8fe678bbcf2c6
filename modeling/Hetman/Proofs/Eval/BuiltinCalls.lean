import Hetman.Proofs.Eval.Loops
import Mathlib.Data.List.Forall2

/-!
# Calls of built-in functions

Evaluations that come to an end can be put together (`Ends.bind`), and so the parts of a statement
have values one after the other (`InTurn`). No library has a member with the name of a built-in
function (`callNamed_builtin`). So a call by such a name, whatever else the program has defined,
ends as the function does when it is applied to the values of the arguments (`callEnds_of_applied`).
-/

namespace Hetman.Eval

open List

variable {α β : Type} {s t : Session} {r : EStateM.Result Signal Session β}

/-! ## Evaluations that come to an end -/

theorem Ends.of_eventually {x y : Nat → Eval β} (ends : Ends y t r) (least : Nat)
    (same : ∀ n, least ≤ n → x n s = y n t) : Ends x s r := by
  obtain ⟨unstopped, least', ended⟩ := ends
  refine ⟨unstopped, max least least', fun n enough => ?_⟩
  exact (same n (by omega)).trans (ended n (by omega))

variable {f : Nat → α → Eval β}

theorem Ends.bind {x : Nat → Eval α} {a : α} (first : Ends x s (.ok a t))
    (second : Ends (fun n => f n a) t r) : Ends (fun n => x n >>= f n) s r := by
  obtain ⟨-, least, ended⟩ := first
  exact second.of_eventually least fun n enough => bind_ok (ended n enough)

theorem Ends.bind_error {x : Nat → Eval α} {signal : Signal} (first : Ends x s (.error signal t)) :
    Ends (fun n => x n >>= f n) s (.error signal t) := by
  obtain ⟨unstopped, least, ended⟩ := first
  refine ⟨fun u same => unstopped u ?_, least, fun n enough => Eval.bind_error (ended n enough)⟩
  cases same
  rfl

theorem Ends.unique {x : Nat → Eval β} {r' : EStateM.Result Signal Session β} (first : Ends x s r)
    (second : Ends x s r') : r = r' := by
  obtain ⟨-, least, ended⟩ := first
  obtain ⟨-, least', ended'⟩ := second
  exact (ended _ (Nat.le_max_left least least')).symm.trans (ended' _ (Nat.le_max_right ..))

theorem Ends.pure (a : α) (s : Session) : Ends (fun _ => pure a) s (.ok a s) := by
  refine ⟨fun t same => ?_, 0, fun _ _ => rfl⟩
  cases same

theorem Ends.failed (fault : Fault) (s : Session) :
    Ends (fun _ => (fail fault : Eval α)) s (.error (.failed fault) s) := by
  refine ⟨fun t same => ?_, 0, fun _ _ => rfl⟩
  cases same

section

variable {r : EStateM.Result Signal Session Value} {node : Node} {nodes : List Node}
  {values : List Value} {name : String} {b : Builtin} {f : Heap → Except Fault (Value × Heap)}

theorem Ends.eval (ends : Ends (fun n => evalNode n (eval n) node) s r) :
    Ends (fun n => eval n node) s r := by
  obtain ⟨unstopped, least, ended⟩ := ends
  refine ⟨unstopped, least + 1, fun n enough => ?_⟩
  obtain ⟨m, rfl⟩ : ∃ m, n = m + 1 := Nat.exists_eq_add_of_le' (Nat.le_trans (by omega) enough)
  exact ended m (by omega)

/-- The node has a value, and to evaluate it changes nothing. -/
abbrev Gives (s : Session) (node : Node) (value : Value) : Prop :=
  Ends (fun n => eval n node) s (.ok value s)

/-- Nodes have these values, each evaluated where the one before it ended. -/
inductive InTurn : List Node → Session → List Value → Session → Prop
  | nil (s : Session) : InTurn [] s [] s
  | cons {node : Node} {nodes : List Node} {value : Value} {values : List Value} {s t u : Session}
      (first : Ends (fun n => eval n node) s (.ok value t)) (others : InTurn nodes t values u) :
      InTurn (node :: nodes) s (value :: values) u

namespace InTurn

theorem of_gives (give : List.Forall₂ (Gives s) nodes values) : InTurn nodes s values s := by
  induction give with
  | nil => exact .nil s
  | cons first _ ih => exact .cons first ih

theorem length_eq (given : InTurn nodes s values t) : nodes.length = values.length := by
  induction given with
  | nil => rfl
  | cons _ _ ih => exact congrArg (· + 1) ih

theorem ends_evalAll (given : InTurn nodes s values t) :
    Ends (fun n => evalAll (Eval.eval n) nodes) s (.ok values t) := by
  induction given with
  | nil s => exact .pure _ s
  | cons first _ ih => exact .bind first (ih.bind (.pure _ _))

end InTurn

/-! ## Calls by name -/

theorem builtin_names_table : (Builtin.all.all fun b => b.names.all fun name =>
    (splitName name).all fun parts => (Library.ofName? parts.1).isNone) = true := by
  decide +kernel

/-- No library member has the name of a built-in function. -/
theorem callNamed_builtin (isBuiltin : Builtin.ofName? name = some b)
    (ev : Node → Eval Value) (arguments : Option (List Node)) :
    callNamed ev name arguments = callBuiltin ev b arguments := by
  have known : name ∈ b.names := by
    have named := find?_some isBuiltin
    simpa using named
  have table := all_eq_true.mp builtin_names_table b (mem_of_find?_eq_some isBuiltin)
  have free := all_eq_true.mp table name known
  have unnamed : namedMember? name = pure none := by
    unfold namedMember?
    cases split : splitName name with
    | none => rfl
    | some parts =>
      rw [split] at free
      dsimp only
      rw [Option.isNone_iff_eq_none.mp free]
  unfold callNamed
  rw [unnamed, pure_bind]
  rw [isBuiltin]

/-- The function that sets an element looks at its first argument before it evaluates the others. -/
theorem ends_builtin (isBuiltin : Builtin.ofName? name = some b)
    (accepted : b.accepts nodes.length = true) (given : InTurn nodes s values t)
    (first : b = .setAt → ∃ ref others, values = .list ref :: others)
    (applied : Ends (fun n => applyBuiltin (eval n) b values) t r) :
    Ends (fun n => eval n (.call name (some nodes))) s r := by
  refine Ends.eval ?_
  show Ends (fun n => callNamed (eval n) name (some nodes)) s r
  simp only [callNamed_builtin isBuiltin]
  refine .bind (.pure nodes.length s) ?_
  simp only [accepted]
  cases b with
  | setAt =>
    obtain ⟨ref, others, rfl⟩ := first rfl
    cases given with
    | cons isList others => exact .bind isList (.bind others.ends_evalAll applied)
  | _ => exact .bind given.ends_evalAll applied

/-- By whatever name the function is called, with arguments that have these values one after the
other, the call ends so. -/
def CallEnds (b : Builtin) (values : List Value) (t : Session)
    (r : EStateM.Result Signal Session Value) : Prop :=
  ∀ (name : String) (nodes : List Node) (s : Session), Builtin.ofName? name = some b →
    InTurn nodes s values t → Ends (fun n => eval n (.call name (some nodes))) s r

theorem callEnds_of_applied (accepted : b.accepts values.length = true) (other : b ≠ .setAt)
    (applied : Ends (fun n => applyBuiltin (eval n) b values) t r) : CallEnds b values t r :=
  fun _ _ _ isBuiltin given =>
    ends_builtin isBuiltin (given.length_eq ▸ accepted) given (fun same => absurd same other) applied

theorem updateHeap_ok {value : Value} {h : Heap} (done : f s.heap = .ok (value, h)) :
    updateHeap f s = .ok value { s with heap := h } := by
  rw [updateHeap_apply, done]

theorem updateHeap_failed {fault : Fault} (failed : f s.heap = .error fault) :
    updateHeap f s = .error (.failed fault) s := by
  rw [updateHeap_apply, failed]

theorem ends_updateHeap (f : Heap → Except Fault (Value × Heap)) (s : Session) :
    Ends (fun _ => updateHeap f) s (updateHeap f s) := by
  refine ⟨fun t stopped => ?_, 0, fun _ _ => rfl⟩
  cases done : f s.heap with
  | ok made => cases stopped.symm.trans (updateHeap_ok done)
  | error fault => cases stopped.symm.trans (updateHeap_failed done)

/-- Applied to these values, the function only looks at the heap and changes it. -/
structure HeapCall (b : Builtin) (values : List Value) (f : Heap → Except Fault (Value × Heap)) :
    Prop where
  accepted : b.accepts values.length = true
  other : b ≠ .setAt
  applied : ∀ ev, applyBuiltin ev b values = updateHeap f

namespace HeapCall

theorem callEnds (only : HeapCall b values f) (t : Session) :
    CallEnds b values t (updateHeap f t) := by
  refine callEnds_of_applied only.accepted only.other ?_
  simp only [only.applied]
  exact ends_updateHeap f t

theorem ok {value : Value} {h : Heap} (only : HeapCall b values f)
    (done : f t.heap = .ok (value, h)) : CallEnds b values t (.ok value { t with heap := h }) :=
  updateHeap_ok done ▸ only.callEnds t

theorem failed {fault : Fault} (only : HeapCall b values f) (failed : f t.heap = .error fault) :
    CallEnds b values t (.error (.failed fault) t) :=
  updateHeap_failed failed ▸ only.callEnds t

end HeapCall

end

end Hetman.Eval
