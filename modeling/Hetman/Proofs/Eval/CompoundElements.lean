import Hetman.Proofs.Eval.Frame
import Hetman.Proofs.Eval.Guarded

/-!
# Compound assignment to an element

`a[i] += e` is read as `a[i] := a[i] + e`. So the index is evaluated to read the element and, after
the operand, once more to write one (`index_evaluated_twice`): the element that is written is the
one that was read if both evaluations come to the same.
-/

namespace Hetman.Eval

variable {s t : Session} {v key holder : Value} {bound : Nat} {node : Node}

/-! ## Elements -/

/-- A compound assignment to an element as it is read. -/
def compound (container index : Node) (op : BinaryOp) (operand : Node) : Node :=
  Parser.assignTo (.lookup container index) (.binary (.lookup container index) op operand)

/-- The element of a container that a key names. -/
def readAt (holder key : Value) : Eval Value :=
  match holder with
  | .dict ref => onHeap fun h => h.lookup ref key
  | .list ref => onHeap fun h => h.elementAt ref key
  | _ => reject .notIndexable

def combine (op : BinaryOp) (left right : Value) : Eval Value := do
  settle (← updateHeap fun h => h.operate op left right)

/-- Whether elements of a value can be assigned to. -/
def hasElements : Value → Bool
  | .dict _ | .list _ | .object _ => true
  | _ => false

/-- Writes the element that a key names; a refusal names the key by `label`. -/
def writeAt (label : String) (target key value : Value) : Eval Value :=
  match target with
  | .dict ref => assignEntry ref key value
  | .list ref => assignElement ref key value
  | .object ref => do
    let name ← display key
    setField ref name value
  | target => reject (.assignTo label target.typeName)

/-! ## The order of evaluation -/

section

/-! An update may run on any state that has a session in it, so that its evaluations of
the index can be counted. -/

variable {σ : Type}

/-- The key of the element to be written; without elements none is asked for. -/
def keyFor (target : Value) (index : EStateM Signal σ Value) : EStateM Signal σ Value :=
  match target with
  | .dict _ | .list _ => index
  | .object _ => asScript index
  | _ => return .none

/-- Updates an element, given the two evaluations of its index. -/
def update [MonadLiftT Eval (EStateM Signal σ)] (fuel : Nat) (container : Node) (op : BinaryOp)
    (operand : Node) (label : String) (first second : EStateM Signal σ Value) :
    EStateM Signal σ Value := do
  let target ← liftM (eval (fuel + 2) container)
  let holder ← liftM (eval fuel container)
  let key ← first
  let old ← liftM (readAt holder key)
  let right ← liftM (eval (fuel + 1) operand)
  let new ← liftM (combine op old right)
  let key ← keyFor target second
  liftM (writeAt label target key new)

end

/-- A node that as a key stands for its own datum. -/
def isDatum : Node → Bool
  | .datum _ | .missing => true
  | _ => false

theorem eval_datum {index : Node} (datum : isDatum index = true) (fuel : Nat) (s : Session) :
    ∃ signal, eval fuel index s = .error signal s := by
  cases fuel with
  | zero => exact ⟨_, rfl⟩
  | succ fuel => cases index <;> first | exact ⟨_, rfl⟩ | cases datum

theorem assignAtKey_apply {ev : Node → Eval Value} {index : Node} (plain : isDatum index = false)
    (container value : Node) :
    assignAtKey ev container index value = (do
      let target ← ev container
      let new ← ev value
      let key ← keyFor target (ev index)
      writeAt index.outline.display target key new) := by
  have keyed : evalKey ev index = ev index := by
    unfold evalKey
    split
    · cases plain
    · cases plain
    · rfl
  refine bind_congr fun target => bind_congr fun new => ?_
  cases target with
  | dict ref =>
    rw [← keyed]
    rfl
  | list ref =>
    dsimp only
    split
    · cases plain
    · cases plain
    · rfl
  | _ => rfl

/-- A compound assignment is an update. -/
theorem eval_compound (fuel : Nat) (container index : Node) (op : BinaryOp) (operand : Node) :
    eval (fuel + 3) (compound container index op operand) =
      update fuel container op operand index.outline.display (eval fuel index)
        (eval (fuel + 2) index) := by
  have value : eval (fuel + 2) (.binary (.lookup container index) op operand) = (do
      let holder ← eval fuel container
      let key ← eval fuel index
      let old ← readAt holder key
      let right ← eval (fuel + 1) operand
      combine op old right) := by
    have looked : eval (fuel + 1) (.lookup container index) = (do
        let holder ← eval fuel container
        let key ← eval fuel index
        readAt holder key) := rfl
    have operated : eval (fuel + 2) (.binary (.lookup container index) op operand) = (do
        let old ← eval (fuel + 1) (.lookup container index)
        let right ← eval (fuel + 1) operand
        combine op old right) := rfl
    rw [operated, looked]
    simp only [bind_assoc]
  have assigned : eval (fuel + 3) (compound container index op operand) =
      assignAtKey (eval (fuel + 2)) container index
        (.binary (.lookup container index) op operand) := rfl
  rw [assigned]
  cases datum : isDatum index with
  | false =>
    rw [assignAtKey_apply datum, value]
    simp only [bind_assoc]
    rfl
  | true =>
    unfold assignAtKey
    rw [value]
    simp only [bind_assoc]
    refine bind_congr fun target => bind_congr fun holder => funext fun s => ?_
    obtain ⟨signal, stuck⟩ := eval_datum datum fuel s
    rw [bind_error stuck, bind_error stuck]

/-! ## Two evaluations -/

/-- An update that comes to an end; `read` and `written` are the container and the key of the
element. -/
inductive Updates (fuel : Nat) (container index : Node) (op : BinaryOp) (operand : Node) :
    (read written : Value × Value) → Session → Value → Session → Prop
  | mk {target holder key old right new key' result : Value} {s s₁ s₂ s₃ s₄ s₅ s₆ t : Session}
      (aim : eval (fuel + 2) container s = .ok target s₁)
      (source : eval fuel container s₁ = .ok holder s₂)
      (first : eval fuel index s₂ = .ok key s₃)
      (found : readAt holder key s₃ = .ok old s₃)
      (other : eval (fuel + 1) operand s₃ = .ok right s₄)
      (made : combine op old right s₄ = .ok new s₅)
      (second : eval (fuel + 2) index s₅ = .ok key' s₆)
      (put : writeAt index.outline.display target key' new s₆ = .ok result t) :
      Updates fuel container index op operand (holder, key) (target, key') s result t

theorem readAt_ok {old : Value} (found : readAt holder key s = .ok old t) : t = s := by
  have asked : ∀ f : Heap → Except Fault Value, onHeap f s = .ok old t → t = s := by
    intro f ended
    have applied : onHeap f s = lift (f s.heap) s := rfl
    rw [applied] at ended
    cases result : f s.heap with
    | ok v =>
      rw [result] at ended
      cases ended
      rfl
    | error fault =>
      rw [result] at ended
      cases ended
  cases holder with
  | dict ref => exact asked (fun h => h.lookup ref key) found
  | list ref => exact asked (fun h => h.elementAt ref key) found
  | _ => cases found

theorem writeAt_ok {label : String} {target new result : Value}
    (put : writeAt label target key new s = .ok result t) : hasElements target = true := by
  cases target <;> first | rfl | cases put

section Counting

variable {α β : Type} {x : Eval α} {f : α → Counting β} {c c' : Session × Nat} {b : β}

theorem uncounted_ok {a : α} (ended : (liftM x : Counting α) c = .ok a c') :
    x c.1 = .ok a c'.1 ∧ c'.2 = c.2 := by
  rw [lift_apply] at ended
  cases result : x c.1 with
  | ok _ s =>
    rw [result] at ended
    cases ended
    exact ⟨rfl, rfl⟩
  | error signal s =>
    rw [result] at ended
    cases ended

theorem lift_bind_ok_iff :
    ((liftM x : Counting α) >>= f) c = .ok b c' ↔
      ∃ a s, x c.1 = .ok a s ∧ f a (s, c.2) = .ok b c' := by
  cases result : x c.1 with
  | ok a s =>
    have lifted : (liftM x : Counting α) c = .ok a (s, c.2) := by rw [lift_apply, result]
    rw [bind_ok lifted]
    constructor
    · exact fun ended => ⟨a, s, rfl, ended⟩
    · rintro ⟨_, _, same, ended⟩
      cases same
      exact ended
  | error signal s =>
    have lifted : (liftM x : Counting α) c = .error signal (s, c.2) := by rw [lift_apply, result]
    rw [bind_error lifted]
    constructor
    · intro ended
      cases ended
    · rintro ⟨_, _, same, -⟩
      cases same

theorem counted_bind_ok_iff :
    (counted x >>= f) c = .ok b c' ↔ ∃ a s, x c.1 = .ok a s ∧ f a (s, c.2 + 1) = .ok b c' :=
  lift_bind_ok_iff (c := (c.1, c.2 + 1))

theorem count_lift_bind_le (now : c.2 ≤ bound) (later : ∀ a s, count (f a (s, c.2)) ≤ bound) :
    count (((liftM x : Counting α) >>= f) c) ≤ bound := by
  cases result : x c.1 with
  | ok a s =>
    have lifted : (liftM x : Counting α) c = .ok a (s, c.2) := by rw [lift_apply, result]
    rw [bind_ok lifted]
    exact later a s
  | error signal s =>
    have lifted : (liftM x : Counting α) c = .error signal (s, c.2) := by rw [lift_apply, result]
    rw [bind_error lifted]
    exact now

theorem count_counted_bind_le (now : c.2 + 1 ≤ bound)
    (later : ∀ a s, count (f a (s, c.2 + 1)) ≤ bound) : count ((counted x >>= f) c) ≤ bound :=
  count_lift_bind_le (c := (c.1, c.2 + 1)) now later

theorem asScript_bind_ok_iff {y : Counting α} :
    (asScript y >>= f) c = .ok b c' ↔ (y >>= f) c = .ok b c' := by
  have applied := asScript_apply y c
  cases result : y c with
  | ok a d =>
    rw [result] at applied
    rw [bind_ok applied, bind_ok result]
  | error signal d =>
    rw [result] at applied
    rw [bind_error applied, bind_error result]
    exact ⟨nofun, nofun⟩

theorem observes_asScript {y : Counting α} (h : Observes y x) :
    Observes (asScript y) (asScript x) := by
  intro c
  rw [asScript_apply, asScript_apply, ← h c]
  cases y c <;> rfl

theorem count_asScript (y : Counting α) : count (asScript y c) = count (y c) := by
  rw [asScript_apply]
  cases y c <;> rfl

end Counting

section Keys

variable {target : Value} {index : Eval Value} {c c' : Session × Nat}

theorem observes_keyFor (target : Value) (index : Eval Value) :
    Observes (keyFor target (counted index)) (keyFor target index) := by
  cases target with
  | dict ref | list ref => exact observes_counted index
  | object ref => exact observes_asScript (observes_counted index)
  | _ => exact fun c => rfl

theorem count_keyFor_le (target : Value) (index : Eval Value) (c : Session × Nat) :
    count (keyFor target (counted index) c) ≤ c.2 + 1 := by
  cases target with
  | dict ref | list ref => exact Nat.le_of_eq (count_counted index c)
  | object ref =>
    exact Nat.le_of_eq ((count_asScript (counted index)).trans (count_counted index c))
  | _ => exact Nat.le_succ c.2

theorem keyFor_bind_ok_iff {β : Type} {f : Value → Counting β} {b : β}
    (elements : hasElements target = true) :
    (keyFor target (counted index) >>= f) c = .ok b c' ↔
      (counted index >>= f) c = .ok b c' := by
  cases target with
  | dict ref | list ref => exact Iff.rfl
  | object ref => exact asScript_bind_ok_iff
  | _ => cases elements

theorem keyFor_bare (bare : hasElements target = false) :
    keyFor target (counted index) = pure .none := by
  cases target with
  | dict ref | list ref | object ref => cases bare
  | _ => rfl

end Keys

/-- A compound assignment whose evaluations of the index are counted. -/
def countIndex (fuel : Nat) (container index : Node) (op : BinaryOp) (operand : Node) :
    Counting Value :=
  update fuel container op operand index.outline.display (counted (eval fuel index))
    (counted (eval (fuel + 2) index))

section CountIndex

variable (fuel : Nat) (container index : Node) (op : BinaryOp) (operand : Node)

theorem observes_countIndex :
    Observes (countIndex fuel container index op operand)
      (eval (fuel + 3) (compound container index op operand)) := by
  rw [eval_compound]
  refine (observes_lift _).bind fun target => (observes_lift _).bind fun holder => ?_
  refine (observes_counted _).bind fun key => (observes_lift _).bind fun old => ?_
  refine (observes_lift _).bind fun right => (observes_lift _).bind fun new => ?_
  exact (observes_keyFor target _).bind fun key => observes_lift _

theorem count_countIndex_le (s : Session) :
    count (countIndex fuel container index op operand (s, 0)) ≤ 2 := by
  refine count_lift_bind_le (Nat.zero_le 2) fun target s₁ => ?_
  refine count_lift_bind_le (Nat.zero_le 2) fun holder s₂ => ?_
  refine count_counted_bind_le (Nat.le_succ 1) fun key s₃ => ?_
  refine count_lift_bind_le (Nat.le_succ 1) fun old s₄ => ?_
  refine count_lift_bind_le (Nat.le_succ 1) fun right s₅ => ?_
  refine count_lift_bind_le (Nat.le_succ 1) fun new s₆ => ?_
  rw [count_bind fun key c => count_lift _ c]
  exact count_keyFor_le target _ (s₆, 1)

variable {fuel container index op operand}

theorem countIndex_ok_iff {n : Nat} :
    countIndex fuel container index op operand (s, 0) = .ok v (t, n) ↔
      n = 2 ∧ ∃ read written, Updates fuel container index op operand read written s v t := by
  constructor
  · intro ended
    obtain ⟨target, s₁, aim, ended⟩ := lift_bind_ok_iff.1 ended
    obtain ⟨holder, s₂, source, ended⟩ := lift_bind_ok_iff.1 ended
    obtain ⟨key, s₃, first, ended⟩ := counted_bind_ok_iff.1 ended
    obtain ⟨old, u, found, ended⟩ := lift_bind_ok_iff.1 ended
    obtain rfl := readAt_ok found
    obtain ⟨right, s₄, other, ended⟩ := lift_bind_ok_iff.1 ended
    obtain ⟨new, s₅, made, ended⟩ := lift_bind_ok_iff.1 ended
    cases elements : hasElements target with
    | true =>
      obtain ⟨key', s₆, second, ended⟩ := counted_bind_ok_iff.1 ((keyFor_bind_ok_iff elements).1 ended)
      obtain ⟨put, two⟩ := uncounted_ok ended
      exact ⟨two, _, _, .mk aim source first found other made second put⟩
    | false =>
      rw [keyFor_bare elements] at ended
      cases elements.symm.trans (writeAt_ok (uncounted_ok ended).1)
  · rintro ⟨rfl, read, written, ⟨aim, source, first, found, other, made, second, put⟩⟩
    refine lift_bind_ok_iff.2 ⟨_, _, aim, lift_bind_ok_iff.2 ⟨_, _, source, ?_⟩⟩
    refine counted_bind_ok_iff.2 ⟨_, _, first, lift_bind_ok_iff.2 ⟨_, _, found, ?_⟩⟩
    refine lift_bind_ok_iff.2 ⟨_, _, other, lift_bind_ok_iff.2 ⟨_, _, made, ?_⟩⟩
    refine (keyFor_bind_ok_iff (writeAt_ok put)).2 (counted_bind_ok_iff.2 ⟨_, _, second, ?_⟩)
    rw [lift_apply, put]

end CountIndex

/-! ## Constants and variables -/

/-- The value of a constant or of a variable that is bound. No constant that can be written is not a
number. -/
def settled? (s : Session) : Node → Option Value
  | .var name => s.env.get? name
  | .text text => some (.text text)
  | .boolean b => some (.bool b)
  | .number (.int n) => some (.int n)
  | .number (.float x) => if x.isNaN then none else some (.float x)
  | _ => none

theorem settled?_congr (same : ∀ x, t.env.get? x = s.env.get? x) (node : Node) :
    settled? t node = settled? s node := by
  unfold settled?
  split
  · exact same _
  all_goals rfl

theorem eval_settled {value : Value} {fuel : Nat} (settled : settled? s node = some value)
    (ended : eval fuel node s = .ok v t) : v = value ∧ t = s := by
  cases fuel with
  | zero => cases ended
  | succ fuel =>
    have given : eval (fuel + 1) node s = .ok value s := by
      unfold settled? at settled
      split at settled
      · exact evalVariable_bound settled
      · cases settled
        rfl
      · cases settled
        rfl
      · cases settled
        rfl
      · split at settled
        · cases settled
        · rename_i x number
          cases settled
          have kept : settle (.float x) = pure (.float x) := if_neg number
          exact congrFun kept s
      · cases settled
    rw [given] at ended
    cases ended
    exact ⟨rfl, rfl⟩

theorem env_of_expression {fuel : Nat} (only : node.OnlyExpressions)
    (ended : eval fuel node s = .ok v t) (x : String) : t.env.get? x = s.env.get? x := by
  have runs := runs_frame fuel fun m occurs => stays_of_expressionForm (only m occurs)
  have change := (runs s trivial).change
  rw [ended] at change
  exact change.env x id

theorem env_of_silent {α : Type} {x : Eval α} {a : α} (silent : Silent x) (ended : x s = .ok a t) :
    t.env = s.env := by
  have change := silent.change s
  rw [ended] at change
  exact change.env

theorem silent_combine (op : BinaryOp) (left right : Value) : Silent (combine op left right) :=
  (silent_updateHeap fun _ => Heap.spares_operate _ _ _).bind silent_settle

/-- With constants and variables for names, the element that was read is written. -/
theorem Updates.same {fuel : Nat} {container index : Node} {op : BinaryOp} {operand : Node}
    {read written : Value × Value}
    (updates : Updates fuel container index op operand read written s v t)
    (named : settled? s container = some holder) (indexed : settled? s index = some key)
    (only : operand.OnlyExpressions) : read = (holder, key) ∧ written = (holder, key) := by
  cases updates with
  | mk aim source first found other made second put =>
    obtain ⟨rfl, rfl⟩ := eval_settled named aim
    obtain ⟨rfl, rfl⟩ := eval_settled named source
    obtain ⟨rfl, rfl⟩ := eval_settled indexed first
    -- The operand is an expression, so the variables are the same when the index is
    -- evaluated again.
    have after := env_of_silent (silent_combine op _ _) made
    have still := fun x => (congrArg (Bindings.get? · x) after).trans (env_of_expression only other x)
    obtain ⟨rfl, -⟩ := eval_settled ((settled?_congr still index).trans indexed) second
    exact ⟨rfl, rfl⟩

/-- A compound assignment to an element evaluates the index at most twice, and twice if it comes to
an end: to read an element and, after the operand and the operation, to write one. These are the
same if both evaluations of the container and of the index agree, as for constants and bound
variables beside an operand that is an expression. -/
theorem index_evaluated_twice (fuel : Nat) (container index : Node) (op : BinaryOp)
    (operand : Node) (s : Session) :
    let run := countIndex fuel container index op operand (s, 0)
    let result := eval (fuel + 3) (compound container index op operand) s
    forget run = result ∧ count run ≤ 2 ∧
      ∀ v t, result = .ok v t ↔ count run = 2 ∧ ∃ read written,
        Updates fuel container index op operand read written s v t ∧
          ∀ holder key, settled? s container = some holder → settled? s index = some key →
            operand.OnlyExpressions → read = (holder, key) ∧ written = (holder, key) := by
  intro run result
  have same : forget run = result := observes_countIndex fuel container index op operand (s, 0)
  refine ⟨same, count_countIndex_le fuel container index op operand s, fun v t => ?_⟩
  constructor
  · intro ended
    rw [ended] at same
    cases counting : run with
    | error signal c =>
      rw [counting] at same
      cases same
    | ok w c =>
      rw [counting] at same
      cases same
      obtain ⟨two, read, written, updates⟩ := countIndex_ok_iff.1 counting
      exact ⟨two, read, written, updates, fun _ _ named indexed => updates.same named indexed⟩
  · rintro ⟨-, read, written, updates, -⟩
    have counting : run = .ok v (t, 2) := countIndex_ok_iff.2 ⟨rfl, read, written, updates⟩
    rw [← same, counting]
    rfl

/-- Elements are taken off a list to index another one with. -/
theorem index_evaluated_differently :
    let s : Session := { env := [("a", .list 0), ("b", .list 1)]
                         heap := { lists := #[[.int 1, .int 2, .int 3], [.int 0, .int 1]] } }
    let index : Node := .call "pop" (some [.var "b"])
    count (countIndex 3 (.var "a") index .add (.number (.int 10)) (s, 0)) = 2 ∧
      (ending (eval 6 (compound (.var "a") index .add (.number (.int 10))) s)).heap.list 0 =
        [.int 12, .int 2, .int 3] :=
  ⟨rfl, rfl⟩

end Hetman.Eval
