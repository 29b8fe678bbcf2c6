import Hetman.Proofs.Eval.PrivateFields

/-!
# Calls of the parent's methods

A call of a method of the parent class starts from the class of the object whose body runs, not from
the class that the body was defined in. For a body of a class `home`, the classes from the parent of
the object's class up to `home` are therefore asked before the parent of `home` is
(`Orderly.findMethod_parent`); so a method of `home` that calls the method it overrides finds
itself. This is so at every such call in a run, until the program binds `this` by itself
(`super_from_receiver`).
-/

namespace Hetman

variable {ev ev' : Node → Eval Value} {running : List Activation} {node : Node}

namespace ClassGraph

variable {g : ClassGraph} {id parent home top : Nat} {line below above : List Nat}

/-- The first method of some classes in their order. -/
def firstMethod (g : ClassGraph) (line : List Nat) (name : String) : Option (Routine Node) :=
  line.findSome? fun c => (g.info c).methods.get? name

namespace Lineage

theorem unique {other : List Nat} (lineage : g.Lineage id line) (again : g.Lineage id other) :
    line = other := by
  induction lineage generalizing other with
  | root orphan =>
    cases again with
    | root => rfl
    | child isParent _ =>
      rw [IsParent, orphan] at isParent
      cases isParent
  | @child id parent rest isParent _ ih =>
    cases again with
    | root orphan =>
      rw [IsParent, orphan] at isParent
      cases isParent
    | @child _ parent' _ isParent' above =>
      have same : parent = parent' := Option.some.inj (isParent.symm.trans isParent')
      subst same
      exact congrArg (id :: ·) (ih above)

theorem tail {first : Nat} (lineage : g.Lineage id (first :: line))
    (isParent : g.IsParent parent id) : first = id ∧ g.Lineage parent line := by
  cases lineage with
  | root orphan =>
    rw [IsParent, orphan] at isParent
    cases isParent
  | @child _ parent' _ isParent' above =>
    have same : parent' = parent := Option.some.inj (isParent'.symm.trans isParent)
    exact ⟨rfl, same ▸ above⟩

theorem drop (lineage : g.Lineage id line) (split : line = below ++ home :: above) :
    g.Lineage home (home :: above) := by
  induction lineage generalizing below with
  | root orphan =>
    cases below with
    | nil =>
      cases split
      exact .root orphan
    | cons first rest => cases rest <;> cases split
  | child isParent further ih =>
    cases below with
    | nil =>
      cases split
      exact .child isParent further
    | cons first rest => exact ih (List.cons.inj split).2

theorem exists_parent (lineage : g.Lineage id (below ++ home :: above))
    (isTop : g.IsParent top home) : ∃ parent, g.IsParent parent id := by
  cases further : (g.info id).parent with
  | some parent => exact ⟨parent, further⟩
  | none =>
    have alone := lineage.unique (.root further)
    cases below with
    | nil =>
      cases alone
      exact ⟨top, isTop⟩
    | cons first rest => cases rest <;> cases alone

end Lineage

theorem Orderly.findMethod (orderly : g.Orderly) (lineage : g.Lineage id line) (name : String) :
    g.findMethod id name = g.firstMethod line name := by
  obtain ⟨other, answers⟩ := orderly.2 id
  rw [lineage.unique answers.lineage]
  exact answers.method name

/-- From the parent of a class a method is looked for up to another class of the line, and then from
the parent of that class. -/
theorem Orderly.findMethod_parent (orderly : g.Orderly)
    (lineage : g.Lineage id (below ++ home :: above)) (isParent : g.IsParent parent id)
    (isTop : g.IsParent top home) (name : String) :
    g.findMethod parent name =
      (g.firstMethod (below ++ [home]).tail name).or (g.findMethod top name) := by
  have further : g.Lineage top above := ((lineage.drop rfl).tail isTop).2
  cases below with
  | nil =>
    obtain ⟨rfl, -⟩ := lineage.tail isParent
    have same : top = parent := Option.some.inj (isTop.symm.trans isParent)
    rw [same]
    rfl
  | cons first rest =>
    have fromParent : g.Lineage parent (rest ++ home :: above) := (lineage.tail isParent).2
    rw [orderly.findMethod fromParent, orderly.findMethod further]
    unfold firstMethod
    rw [List.cons_append, List.tail_cons, List.findSome?_append, List.findSome?_append,
      List.findSome?_cons, List.findSome?_cons, Option.or_assoc]
    cases (g.info home).methods.get? name <;> rfl

end ClassGraph

namespace Eval

open Activation

/-! ## One call -/

/-- Calls a method on an object, if some class has one. -/
def callInherited (ev : Node → Eval Value) (ref : Nat) (method className : String)
    (found : Option (Routine Node)) (arguments : Option (List Node)) : Eval Value :=
  match found with
  | none => reject (.superMissing method className)
  | some routine => do
    let args ← evalArguments ev arguments
    if args.length ≠ routine.parameters.length then
      reject (.superArity method routine.parameters.length args.length)
    else runMethod ev ref routine args method

theorem callSuper_apply {s : Session} {ref parent : Nat} (this : s.this? = some ref)
    (isParent : s.classes.IsParent parent (s.heap.object ref).classId) (method : String)
    (arguments : Option (List Node)) :
    callSuper ev method arguments s =
      callInherited ev ref method (s.classes.info parent).name
        (s.classes.findMethod parent method) arguments s := by
  have asked : this? s = .ok (some ref) s := by
    rw [this?_apply, this]
  unfold callSuper
  rw [bind_ok asked]
  dsimp only
  rw [get_bind_apply, isParent]
  dsimp only
  cases s.classes.findMethod parent method <;> rfl

theorem this_entered {parameters : List String} (free : "this" ∉ parameters) (ref : Nat)
    (args : List Value) (name : String) (s : Session) :
    (entered (("this", .object ref) :: parameters.zip args) name s).this? = some ref := by
  have others : ∀ entry ∈ parameters.zip args, entry.1 ≠ "this" := by
    intro entry inside same
    rw [← same] at free
    exact free (List.of_mem_zip inside).1
  have bound : (entered (("this", .object ref) :: parameters.zip args) name s).env.get? "this" =
      some (.object ref) :=
    (Bindings.get?_insertAll _ others).trans ((Bindings.get?_insert ..).trans (if_pos rfl))
  unfold Session.this?
  rw [bound]

/-- A call of the parent's method while some bodies are running. The object is that of the innermost
body on one. For every class `home` of its line, the one of that body among them, the classes from
the parent of the object's class up to `home` come before the parent of `home`; the method that is
found runs on the same object. -/
structure SuperFrom (running : List Activation) (method : String) (s : Session) : Prop where
  this : s.this? = receiver? running
  resolves : ∀ {ref home parent : Nat} {below above : List Nat}, receiver? running = some ref →
    s.classes.ancestors (s.heap.object ref).classId = below ++ home :: above →
    s.classes.IsParent parent home →
    let found := (s.classes.firstMethod (below ++ [home]).tail method).or
      (s.classes.findMethod parent method)
    (∃ className, ∀ fuel arguments, eval (fuel + 1) (.super method arguments) s =
      callInherited (eval fuel) ref method className found arguments s) ∧
    ∀ routine, found = some routine → ∀ args t,
      (entered (("this", .object ref) :: routine.parameters.zip args) method t).this? = some ref

theorem superFrom_of_chained {s : Session} (chained : Chained True running s) (method : String) :
    SuperFrom running method s := by
  have orderly := (chained.sound trivial).orderly
  have this : s.this? = receiver? running := by
    unfold Session.this?
    rw [chained.this]
    cases receiver? running <;> rfl
  refine ⟨this, fun {ref home parent below above} receiver split isTop => ?_⟩
  obtain ⟨line, answers⟩ := orderly.2 (s.heap.object ref).classId
  have lineage : s.classes.Lineage (s.heap.object ref).classId (below ++ home :: above) := by
    rw [← split, answers.ancestors]
    exact answers.lineage
  obtain ⟨nearest, isParent⟩ := lineage.exists_parent isTop
  have resolved := orderly.findMethod_parent lineage isParent isTop method
  refine ⟨⟨(s.classes.info nearest).name, fun fuel arguments => ?_⟩, fun routine found args t => ?_⟩
  · rw [← resolved]
    exact callSuper_apply (this.trans receiver) isParent method arguments
  · rw [← resolved] at found
    exact this_entered (chained.spares.of_offers (.method found)) ref args method t

/-! ## All calls of a run -/

/-- Evaluates a node, with a look at it before. -/
def attended (look : List Activation → Node → Eval Unit) :
    (fuel : Nat) → (running : List Activation) → Node → Eval Value
  | 0, _, _ => throw (.suspended .steps)
  | fuel + 1, running, node => do
    look running node
    (Monitor.services {} running fun act => attended look fuel (act :: running)).evalNode
      (attended look fuel running) fuel node

/-- Looks at calls of the parent's method; the run stops where `this` is bound. -/
def atSuper (look : List Activation → String → Eval Unit) (running : List Activation)
    (node : Node) : Eval Unit := do
  stopIf node.rebindsThis
  match node with
  | .super method _ => look running method
  | _ => return

theorem attended_keepingThis (fuel : Nat) (running : List Activation) (node : Node) :
    attended (fun _ => keepingThis.node) fuel running node =
      monitored keepingThis fuel running node := by
  induction fuel generalizing running node with
  | zero => rfl
  | succ fuel ih =>
    have same : ∀ running, attended (fun _ => keepingThis.node) fuel running =
        monitored keepingThis fuel running := fun running => funext (ih running)
    unfold attended monitored
    simp only [same]
    rfl

section Attended

variable {look : List Activation → String → Eval Unit}
  (content : ∀ running method u, SuperFrom running method u → look running method u = .ok () u)

include content in
theorem atSuper_apply {s : Session} (chained : Chained True running s) (node : Node) :
    atSuper look running node s = stopIf node.rebindsThis s := by
  unfold atSuper
  cases stopped : stopIf node.rebindsThis s with
  | error signal t => rw [bind_error stopped]
  | ok _ t =>
    obtain ⟨-, rfl⟩ := stopIf_passed stopped
    rw [bind_ok stopped]
    cases node with
    | super method arguments =>
      exact content running method t (superFrom_of_chained chained method)
    | _ => rfl

include content in
theorem runs_atSuper (fuel : Nat) (running : List Activation) (node : Node) :
    Runs (chained True running) (attended (atSuper look) fuel running node)
      (attended (fun _ => keepingThis.node) fuel running node) := by
  induction fuel generalizing running node with
  | zero => exact runs_outOfSteps
  | succ fuel ih =>
    have step := chained_step (m := {}) (fun act => ih (act :: running)) (ih running)
      (fun _ _ _ _ => rfl) (fun _ _ _ _ _ => rfl) fuel node
    exact fun s start => (step s start).congr (bind_eq (atSuper_apply content start node))

end Attended

/-- At every call of a parent's method in a run, the object is that of the innermost body on one,
and whichever class of its line the body was defined in, the call runs the method of the first class
that has one, from the parent of the object's class up to that class, and otherwise the one that the
parent of that class has or inherits: who looks at the calls and is content with this makes no
difference. This is said of the run, up to where the program binds `this` by itself. -/
theorem super_from_receiver {s : Session} (outer : s.function = none)
    (free : s.env.get? "this" = none) (spares : s.SparesThis) (sound : s.classes.Sound)
    {look : List Activation → String → Eval Unit}
    (content : ∀ running method u, SuperFrom running method u → look running method u = .ok () u)
    (fuel : Nat) (program : Node) :
    attended (atSuper look) fuel [] program s = monitored keepingThis fuel [] program s ∧
    (monitored keepingThis fuel [] program s = eval fuel program s ∨
      ∃ t, monitored keepingThis fuel [] program s = .error (.suspended .steps) t) := by
  have start : Chained True [] s := ⟨outer, free, spares, fun _ => sound⟩
  refine ⟨?_, cutShort_keepingThis fuel [] program s⟩
  rw [← attended_keepingThis]
  exact (runs_atSuper content fuel [] program s start).same

/-- Three classes in a line. The middle one overrides a method and calls the overridden one, on an
object of the last class; then the first one is asked. -/
def overriding : Node :=
  let method name body : String × Routine Node := (name, { name, parameters := [], body })
  .program [
    .classDecl { name := "A", methods := [method "m" [.ret (.text "A")]] },
    .classDecl { name := "B", parent := some "A", methods := [method "m" [.ret (.text "B")],
      method "n" [.ret (.super "m" (some []))]] },
    .classDecl { name := "C", parent := some "B", methods := [] },
    .assign "c" (.newObject "C" (some [])) none,
    .assign "a" (.newObject "A" (some [])) none,
    .print [.call "c.n" (some []), .call "a.m" (some [])]]

/-- Raises an alarm at a call on another object than the innermost body's. -/
def checkingThis (alarm : Eval Unit) (running : List Activation) (_method : String) : Eval Unit := do
  if (← this?) ≠ receiver? running then alarm

theorem super_from_receiver_overriding :
    succeeds (eval 9 overriding) {} = true ∧
      ∀ alarm, attended (atSuper (checkingThis alarm)) 9 [] overriding {} = eval 9 overriding {} := by
  refine ⟨by decide +kernel, fun alarm => ?_⟩
  have content : ∀ running method u, SuperFrom running method u →
      checkingThis alarm running method u = .ok () u := by
    intro running method u here
    unfold checkingThis
    rw [bind_ok (this?_apply u), here.this, if_neg (fun differs => differs rfl)]
    rfl
  have spares : Session.SparesThis {} := by
    refine ⟨fun _ _ found => ?_, fun _ _ _ found => ?_, fun _ _ found => ?_⟩ <;> cases found
  obtain ⟨same, ends | ⟨t, stopped⟩⟩ :=
    super_from_receiver rfl rfl spares .empty content 9 overriding
  · exact same.trans ends
  · have ended : succeeds (monitored keepingThis 9 [] overriding) {} = true := by decide +kernel
    unfold succeeds at ended
    rw [stopped] at ended
    cases ended

/-- A method calls the one that its class overrides, and gets itself: the object is of a child
class. -/
theorem super_finds_itself :
    let t := ending (eval 9 overriding {})
    (t.classes.info 1).parent = some 0 ∧ t.output = "B A\n" := by
  decide +kernel

end Eval

end Hetman
