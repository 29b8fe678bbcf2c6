import Hetman.Proofs.Eval.Services
import Hetman.Proofs.Tree

/-!
# What a step of the evaluator keeps

Each node is given a family of evaluations, one from each of several evaluators. A property of such
families that is kept by the few ways in which parts are put together (`Rules`), by what serves the
evaluators (`Provides`) and by what a node does beyond its parts (`Own`) is kept by one step
(`Rules.evalNode`), and holds of whole evaluations by induction on the fuel. It may depend on the
sessions in which evaluations are known to run.
-/

namespace Hetman

open List

variable {arguments : Option (List Node)} {b : Builtin} {key container : Node} {g : ClassGraph}
  {nodes : List Node}

namespace ClassGraph

theorem searchUpTo_some {α : Type} {ask : ClassInfo → Option α} {a : α} {bound id : Nat}
    (h : g.searchUpTo ask bound id = some a) : ∃ id, ask (g.info id) = some a := by
  induction bound generalizing id with
  | zero => cases h
  | succ bound ih =>
    unfold searchUpTo at h
    dsimp only at h
    split at h
    · rename_i answer found
      cases h
      exact ⟨id, found⟩
    · split at h
      · exact ih h
      · cases h

/-- The class gives its objects a routine. -/
inductive Offers (g : ClassGraph) : Routine Node → Prop
  | method {id : Nat} {name : String} {routine : Routine Node}
      (h : g.findMethod id name = some routine) : g.Offers routine
  | constructor {id : Nat} {routine : Routine Node}
      (h : Eval.constructorOf g id = some routine) : g.Offers routine

theorem Offers.stored {routine : Routine Node} (offers : g.Offers routine) :
    ∃ id, (∃ name, (g.info id).methods.get? name = some routine) ∨
      (g.info id).constructor = some routine := by
  cases offers with
  | method found =>
    obtain ⟨id, isMethod⟩ := searchUpTo_some found
    exact ⟨id, .inl ⟨_, isMethod⟩⟩
  | @constructor id _ found =>
    unfold Eval.constructorOf at found
    dsimp only at found
    split at found
    · rename_i own
      cases found
      exact ⟨id, .inr own⟩
    · exact ⟨_, .inr found⟩
    · cases found

end ClassGraph

namespace Eval

variable {ι α : Type}

/-! ## Leaving an evaluation -/

/-- What is put back when an evaluation is left. -/
inductive Frame where
  /-- The variables and the function are the caller's again. -/
  | body (env : Bindings Value) (function : Option String)
  /-- The object is destroyed. -/
  | destructor (ref : Nat)
  /-- Imports are looked up from the old folder. -/
  | file (folder : Option String)
  /-- The variable has its old value, or none. -/
  | handler (name : String) (before : Option Value)

def Frame.leave (s : Session) : Frame → Session
  | .body env function => { s with env, function }
  | .destructor ref => { s with heap := Object.markDestroyed s.heap ref }
  | .file folder => { s with folder }
  | .handler name before =>
    match before with
    | none | some .none => { s with env := s.env.erase name }
    | some value => { s with env := s.env.insert name value }

/-- Evaluation in a frame, left however it ends. -/
def within (frame : Frame) (x : Eval α) : Eval α := do
  let outcome ← attempt x
  modify fun s => frame.leave s
  conclude outcome

/-! ## Rules -/

/-- A property of families of evaluations, in sessions of which something is known, that is kept by
the ways in which nodes are evaluated. -/
structure Rules (known : Session → Prop) (R : (α : Type) → (ι → Eval α) → Prop) : Prop where
  silent : ∀ {α : Type} {x : Eval α}, Silent x → R α fun _ => x
  /-- What is done with the session, apart from the code of the last exit. -/
  look : ∀ {α : Type} {f : Session → ι → Eval α}, (∀ s, known s → R α (f s)) →
    (∀ (s : Session) code, f (s.exitedWith code) = f s) → R α fun i => get >>= fun s => f s i
  bind : ∀ {α β : Type} {x : ι → Eval α} {f : α → ι → Eval β}, R α x → (∀ a, R β (f a)) →
    R β fun i => x i >>= fun a => f a i
  asScript : ∀ {α : Type} {x : ι → Eval α}, R α x → R α fun i => Eval.asScript (x i)
  destructor : ∀ {α : Type} {x : ι → Eval α} (ref : Nat), R α x →
    R α fun i => within (.destructor ref) (x i)

def Writes (R : (α : Type) → (ι → Eval α) → Prop) : Prop :=
  ∀ path content keep, R Value fun _ => writeFile path content keep

/-- Services with the property, as far as what is run is stored. -/
structure Provides (known : Session → Prop) (R : (α : Type) → (ι → Eval α) → Prop)
    (services : ι → Services) : Prop where
  function : ∀ {s : Session} {name : String} {routine : Routine Node}, known s →
    s.functions.get? name = some routine → ∀ args,
      R Value fun i => (services i).run (.function name) routine.parameters args routine.body
  method : ∀ {s : Session} {routine : Routine Node}, known s → s.classes.Offers routine →
    ∀ role ref name args, role ≠ .destructor →
      R Value fun i => (services i).run (.on role ref name) routine.parameters args routine.body
  destroy : ∀ ref, R Unit fun i => (services i).destroy ref
  read : ∀ ref name, R Value fun i => (services i).read ref name
  write : ∀ ref name v, R Value fun i => (services i).write ref name v

/-- What a node does itself has the property. -/
def Own (R : (α : Type) → (ι → Eval α) → Prop) (ev : ι → Node → Eval Value) : Node → Prop
  | .call name _ => Builtin.ofName? name = some .write → Writes R
  | .assign name _ hint => ∀ v, R Value fun _ => assignVariable name v hint
  | .step op target => R Value fun _ => evalStep op target
  | .forEach name _ _ => (∀ v, R Unit fun _ => bind_ name v) ∧ R Unit fun _ => unbind name
  | .tryCatch body catches final => R Value fun i => evalTry (ev i) body catches final
  | .function routine =>
    R Unit fun _ => modify fun s => { s with functions := s.functions.insert routine.name routine }
  | .classDecl decl => R Value fun _ => evalClass decl
  | .ret _ => ∀ v, R Value fun _ => throw (.returned v)
  | .exit code => R Value fun i => evalExit (ev i) code
  | .importFile path => R Value fun i => ev i path >>= importValue (ev i)
  | _ => True

/-- A program that can be imported in a session. -/
def Importable (s : Session) (program : Node) : Prop :=
  ∃ path code, importText s.files path = .ok code ∧
    readProgram s.strict s.dialect path code = .ok program

namespace Rules

variable {known : Session → Prop} {R : (α : Type) → (ι → Eval α) → Prop}
  {services : ι → Services} {ev : ι → Node → Eval Value}

variable {name : String} {value : Node}

theorem ite {c : Prop} [Decidable c] {x y : ι → Eval α} (yes : R α x) (no : R α y) :
    R α fun i => if c then x i else y i := by
  by_cases h : c
  · simp only [if_pos h]
    exact yes
  · simp only [if_neg h]
    exact no

variable (rules : Rules known R) (provides : Provides known R services)

include rules

theorem pure (a : α) : R α fun _ => (pure a : Eval α) :=
  rules.silent (.pure a)

theorem reject (cause : ScriptFault) : R α fun _ => (Eval.reject cause : Eval α) :=
  rules.silent (still_reject cause)

theorem lifted {β : Type} {result : Except Fault α} {f : α → ι → Eval β}
    (h : ∀ a, result = .ok a → R β (f a)) : R β fun i => Eval.lift result >>= fun a => f a i := by
  cases result with
  | ok a => exact h a rfl
  | error fault => exact rules.silent (still_fail fault)

theorem updateHeap {f : Heap → Except Fault (Value × Heap)}
    (spares : ∀ h : Heap, h.Spares (·.2) (f h)) : R Value fun _ => Eval.updateHeap f :=
  rules.silent (silent_updateHeap spares)

/-! ### Blocks and arguments -/

theorem runBlock (h : ∀ n ∈ nodes, R Value fun i => ev i n) :
    R Unit fun i => Eval.runBlock (ev i) nodes := by
  induction nodes with
  | nil => exact rules.pure _
  | cons node rest ih =>
    obtain ⟨first, others⟩ := forall_mem_cons.1 h
    exact rules.bind first fun _ => ih others

theorem evalAll (h : ∀ n ∈ nodes, R Value fun i => ev i n) :
    R _ fun i => Eval.evalAll (ev i) nodes := by
  induction nodes with
  | nil => exact rules.pure _
  | cons node rest ih =>
    obtain ⟨first, others⟩ := forall_mem_cons.1 h
    exact rules.bind first fun _ => rules.bind (ih others) fun _ => rules.pure _

theorem evalArguments (h : ∀ n ∈ arguments.getD [], R Value fun i => ev i n) :
    R _ fun i => Eval.evalArguments (ev i) arguments := by
  cases arguments with
  | none => exact rules.silent (still_fail _)
  | some nodes => exact rules.evalAll h

/-! ### Objects -/

theorem destroy {ref : Nat}
    (runs : ∀ {s : Session} {id : Nat} {body : List Node}, known s →
      (s.classes.info id).destructor = some body →
      R Value fun i => (services i).run (.on .destructor ref "Destructor") [] [] body) :
    R Unit fun i => (services i).destroy ref := by
  refine rules.look (fun s start => ite (rules.pure _) ?_) fun _ _ => rfl
  cases found : (s.classes.info (s.heap.object ref).classId).destructor with
  | none => exact rules.silent (silent_heap fun h => Object.ages_markDestroyed h ref)
  | some body =>
    have left := rules.bind (rules.destructor ref (runs start found)) fun _ => rules.pure ()
    simp only [within, bind_assoc] at left
    exact left

include provides in
theorem callMethod (name method : String) (args : List Value) :
    R Value fun i => (services i).callMethod name method args := by
  refine rules.bind (rules.silent (still_binding? name)) fun bound => ?_
  cases bound with
  | none => exact rules.reject _
  | some value =>
    cases value with
    | object ref =>
      refine rules.look (fun s start => ?_) fun _ _ => rfl
      dsimp only
      cases found : s.classes.findMethod (s.heap.object ref).classId method with
      | none => exact rules.reject _
      | some routine =>
        refine rules.bind (rules.silent (still_checkMethodAccess ref method)) fun _ => ?_
        exact ite (rules.reject _) (provides.method start (.method found) _ _ _ _ nofun)
    | _ => exact rules.reject _

include provides in
theorem callSuper (method : String) (h : ∀ n ∈ arguments.getD [], R Value fun i => ev i n) :
    R Value fun i => (services i).callSuper (ev i) method arguments := by
  refine rules.bind (rules.silent still_this?) fun this => ?_
  cases this with
  | none => exact rules.reject _
  | some ref =>
    refine rules.look (fun s start => ?_) fun _ _ => rfl
    dsimp only
    cases (s.classes.info (s.heap.object ref).classId).parent with
    | none => exact rules.reject _
    | some parent =>
      dsimp only
      cases found : s.classes.findMethod parent method with
      | none => exact rules.reject _
      | some routine =>
        refine rules.bind (rules.evalArguments h) fun args => ?_
        exact ite (rules.reject _) (provides.method start (.method found) _ _ _ _ nofun)

include provides in
theorem construct (className : String) (h : ∀ n ∈ arguments.getD [], R Value fun i => ev i n) :
    R Value fun i => (services i).construct (ev i) className arguments := by
  refine rules.look (fun s start => ?_) fun _ _ => rfl
  cases s.classes.find className with
  | error cause => exact rules.silent (still_fail _)
  | ok classId =>
    refine rules.bind (rules.silent (.modifyGet _ (fun s => ?_) fun _ _ => rfl)) fun ref => ?_
    · exact quiet_heap (Heap.ages_newObject s.heap _)
    · cases found : constructorOf s.classes classId with
      | none => exact rules.pure _
      | some routine =>
        refine rules.bind (rules.evalArguments h) fun args => ite (rules.reject _) ?_
        have built := provides.method start (.constructor found) .constructor ref "Tvir" args nofun
        exact rules.bind built fun _ => rules.pure _

/-! ### Calls by name -/

theorem applyOther {args : List Value} (writes : b = .write → Writes R)
    (spares : ∀ ref, b = .destroy → args ≠ [.object ref]) :
    R Value fun i => Eval.applyBuiltin (ev i) b args := by
  fun_cases Eval.applyBuiltin (fun _ => Pure.pure .none) b args
  case case1 ref => exact absurd rfl (spares ref rfl)
  case case2 =>
    simp only [Eval.applyBuiltin]
    exact rules.reject _
  case case24 path content => exact writes rfl path content false
  case case25 path content keep =>
    exact rules.bind (rules.silent (still_truthy keep)) fun k => writes rfl path content k
  case case26 path => exact rules.silent (still_readFile path)
  case case28 low high => exact rules.silent (silent_randomInt low high)
  case case29 =>
    have refused : ∀ ev, Eval.applyBuiltin ev b args = Eval.reject (.argument (.count b)) := by
      intro ev
      apply applyBuiltin.eq_29 <;> assumption
    simp only [refused]
    exact rules.reject _
  -- the others only change the heap
  all_goals
    simp only [Eval.applyBuiltin]
    refine rules.updateHeap fun _ => ?_
    simp only [Heap.spares_createMatrix, Heap.spares_matrixSize, Heap.spares_flatten,
      Heap.spares_transpose, Heap.spares_getRow, Heap.spares_getCol, Heap.spares_setAt,
      Heap.spares_removeKey, Heap.spares_keys, Heap.spares_values, Heap.spares_hasKey,
      Heap.spares_insert, Heap.spares_append, Heap.spares_remove, Heap.spares_pop,
      Heap.spares_clear, Heap.spares_slice, Heap.spares_contains, Heap.spares_indexOf,
      Heap.spares_length]

include provides in
theorem applyBuiltin (writes : b = .write → Writes R) (args : List Value) :
    R Value fun i => (services i).applyBuiltin (ev i) b args := by
  by_cases destroys : ∃ ref, b = .destroy ∧ args = [.object ref]
  · obtain ⟨ref, rfl, rfl⟩ := destroys
    exact rules.bind (provides.destroy ref) fun _ => rules.pure _
  · have spares : ∀ ref, b = .destroy → args ≠ [.object ref] :=
      fun ref isDestroy isObject => destroys ⟨ref, isDestroy, isObject⟩
    have same : ∀ i, (services i).applyBuiltin (ev i) b args = Eval.applyBuiltin (ev i) b args := by
      intro i
      unfold Services.applyBuiltin
      split
      · exact absurd rfl (spares _ rfl)
      · rfl
    simp only [same]
    exact rules.applyOther writes spares

include provides in
theorem callBuiltin (writes : b = .write → Writes R)
    (h : ∀ n ∈ arguments.getD [], R Value fun i => ev i n) :
    R Value fun i => (services i).callBuiltin (ev i) b arguments := by
  refine rules.bind (rules.silent (still_countArguments arguments)) fun count => ?_
  refine ite (rules.reject _) ?_
  have usual : R Value fun i =>
      Eval.evalArguments (ev i) arguments >>= (services i).applyBuiltin (ev i) b :=
    rules.bind (rules.evalArguments h) fun args => rules.applyBuiltin provides writes args
  cases b with
  | setAt =>
    match arguments, h with
    | some (array :: rest), h =>
      obtain ⟨first, others⟩ := forall_mem_cons.1 h
      refine rules.bind first fun value => ?_
      cases value with
      | list ref =>
        exact rules.bind (rules.evalAll others) fun args => rules.applyBuiltin provides writes _
      | _ => exact rules.reject _
    | some [], _ => exact usual
    | none, _ => exact usual
  | _ => exact usual

include provides in
theorem callFunction (name : String) (h : ∀ n ∈ arguments.getD [], R Value fun i => ev i n) :
    R Value fun i => (services i).callFunction (ev i) name arguments := by
  refine rules.look (fun s start => ?_) fun _ _ => rfl
  cases found : s.functions.get? name with
  | none => exact rules.reject _
  | some routine =>
    refine rules.bind (rules.silent (still_countArguments arguments)) fun count => ?_
    refine ite (rules.reject _) (rules.bind (rules.evalArguments h) fun args => ?_)
    exact provides.function start found args

include provides in
theorem callNamed (writes : Builtin.ofName? name = some .write → Writes R)
    (h : ∀ n ∈ arguments.getD [], R Value fun i => ev i n) :
    R Value fun i => (services i).callNamed (ev i) name arguments := by
  have given := rules.evalArguments h
  refine rules.bind (rules.silent (still_namedMember? name)) fun member => ?_
  cases member with
  | some pair => exact rules.bind given fun args => rules.silent (silent_callLibrary _ _ args)
  | none =>
    cases found : Builtin.ofName? name with
    | some b =>
      refine rules.callBuiltin provides (fun isWrite => writes ?_) h
      rw [found, isWrite]
    | none =>
      cases splitName name with
      | some pair => exact rules.bind given fun args => rules.callMethod provides ..
      | none => exact rules.callFunction provides name h

/-! ### Expressions and assignments -/

theorem evalEntries (entries : List (Value × Value)) {pairs : List (Node × Node)}
    (h : ∀ n ∈ (Node.dictionary pairs).parts, R Value fun i => ev i n) :
    R _ fun i => Eval.evalEntries (ev i) entries pairs := by
  induction pairs generalizing entries with
  | nil => exact rules.pure _
  | cons pair rest ih =>
    simp only [Node.parts, flatMap_cons, cons_append, forall_mem_cons] at h
    obtain ⟨hkey, hvalue, hrest⟩ := h
    have others : ∀ key, R _ fun i => (do
        let value ← ev i pair.2
        lift (Heap.checkKey key)
        Eval.evalEntries (ev i) (Heap.putEntry key value entries) rest) :=
      fun key => rules.bind hvalue fun value =>
        rules.bind (rules.silent (still_lift _)) fun _ => ih _ hrest
    refine rules.bind hkey fun key => ?_
    cases key with
    | list ref => exact rules.bind (rules.reject _) fun _ => others _
    | _ => exact others _

theorem evalLookup (hcontainer : R Value fun i => ev i container) (hkey : R Value fun i => ev i key) :
    R Value fun i => Eval.evalLookup (ev i) container key := by
  refine rules.bind hcontainer fun c => rules.bind hkey fun k => ?_
  cases c with
  | dict ref | list ref => exact rules.silent (still_onHeap _)
  | _ => exact rules.reject _

theorem evalArrayIndex {array index : Node} (harray : R Value fun i => ev i array)
    (hindex : R Value fun i => ev i index) :
    R Value fun i => Eval.evalArrayIndex (ev i) array index := by
  refine rules.bind harray fun a => rules.bind hindex fun k => ?_
  cases a with
  | list ref =>
    cases k.int? with
    | none => exact rules.reject _
    | some n =>
      refine rules.bind (rules.silent (still_fromHeap _)) fun length => ?_
      exact ite (rules.reject _) (rules.silent (still_fail _))
  | _ => exact rules.reject _

include provides in
theorem property {object : Node} (name : String) (h : R Value fun i => ev i object) :
    R Value fun i => (services i).property (ev i) object name := by
  refine rules.bind h fun owner => ?_
  cases owner with
  | library lib ident =>
    dsimp only
    cases libraryMember? lib ident name with
    | some member => exact rules.pure _
    | none => exact rules.reject _
  | object ref => exact provides.read ref name
  | _ => exact rules.reject _

include provides in
theorem assignMember {object : Node} (name : String) (hobject : R Value fun i => ev i object)
    (hvalue : R Value fun i => ev i value) :
    R Value fun i => (services i).assignMember (ev i) object name value := by
  refine rules.bind hobject fun target => rules.bind hvalue fun v => ?_
  cases target with
  | dict ref =>
    have written := rules.silent (silent_assignEntry ref (.text name) v)
    exact written
  | object ref => exact provides.write ref name v
  | _ => exact rules.reject _

theorem evalKey (h : R Value fun i => ev i key) : R Value fun i => Eval.evalKey (ev i) key := by
  cases key with
  | datum d => exact rules.updateHeap fun heap => Heap.spares_ok (heap.gains_store d).objects
  | missing => exact rules.pure _
  | _ => exact h

include provides in
theorem assignAtKey (hcontainer : R Value fun i => ev i container)
    (hkey : R Value fun i => ev i key) (hvalue : R Value fun i => ev i value) :
    R Value fun i => (services i).assignAtKey (ev i) container key value := by
  refine rules.bind hcontainer fun target => rules.bind hvalue fun v => ?_
  cases target with
  | dict ref =>
    exact rules.bind (rules.evalKey hkey) fun k => rules.silent (silent_assignEntry ref k v)
  | list ref =>
    have usual : R Value fun i => ev i key >>= fun k => assignElement ref k v :=
      rules.bind hkey fun k => rules.silent (silent_assignElement ref k v)
    cases key with
    | datum d =>
      cases d with
      | int n | bool b => exact rules.silent (silent_assignElement ref _ v)
      | _ => exact usual
    | _ => exact usual
  | object ref =>
    refine rules.bind (rules.asScript hkey) fun k => ?_
    exact rules.bind (rules.silent (still_display k)) fun name => provides.write ref name v
  | _ => exact rules.reject _

/-! ### Branches and loops -/

theorem evalBranches {otherwise : List Node} {branches : List (Node × List Node)}
    (hotherwise : ∀ n ∈ otherwise, R Value fun i => ev i n)
    (h : ∀ n ∈ branches.flatMap fun branch => branch.1 :: branch.2, R Value fun i => ev i n) :
    R Unit fun i => Eval.evalBranches (ev i) otherwise branches := by
  induction branches with
  | nil => exact rules.runBlock hotherwise
  | cons branch rest ih =>
    rw [flatMap_cons, forall_mem_append, forall_mem_cons] at h
    obtain ⟨⟨hcondition, hbody⟩, others⟩ := h
    refine rules.bind hcondition fun value => ?_
    refine rules.bind (rules.silent (still_truthy value)) fun holds => ?_
    exact ite (rules.runBlock hbody) (ih others)

theorem outOfSteps : R α fun _ => throw (.suspended .steps) :=
  rules.silent (.throw rfl)

theorem whileLoop {condition : Node} {body : List Node}
    (hcondition : R Value fun i => ev i condition) (hbody : ∀ n ∈ body, R Value fun i => ev i n)
    (fuel : Nat) : R Unit fun i => Eval.whileLoop (ev i) condition body fuel := by
  induction fuel with
  | zero => exact rules.outOfSteps
  | succ fuel ih =>
    refine rules.bind hcondition fun value => ?_
    refine rules.bind (rules.silent (still_truthy value)) fun holds => ?_
    exact ite (rules.bind (rules.runBlock hbody) fun _ => ih) (rules.pure _)

theorem forLoop {condition step : Node} {body : List Node}
    (hcondition : R Value fun i => ev i condition) (hstep : R Value fun i => ev i step)
    (hbody : ∀ n ∈ body, R Value fun i => ev i n) (fuel : Nat) :
    R Unit fun i => Eval.forLoop (ev i) condition step body fuel := by
  induction fuel with
  | zero => exact rules.outOfSteps
  | succ fuel ih =>
    refine rules.bind hcondition fun value => ?_
    refine rules.bind (rules.silent (still_truthy value)) fun holds => ite ?_ (rules.pure _)
    exact rules.bind (rules.runBlock hbody) fun _ => rules.bind hstep fun _ => ih

theorem eachLoop {body : List Node} (bound : ∀ v, R Unit fun _ => bind_ name v)
    (hbody : ∀ n ∈ body, R Value fun i => ev i n) (ref fuel index : Nat) :
    R Unit fun i => Eval.eachLoop (ev i) ref name body fuel index := by
  induction fuel generalizing index with
  | zero => exact rules.outOfSteps
  | succ fuel ih =>
    refine rules.bind (rules.silent (still_fromHeap _)) fun element => ?_
    cases element with
    | none => exact rules.pure _
    | some value =>
      exact rules.bind (bound value) fun _ => rules.bind (rules.runBlock hbody) fun _ => ih _

theorem evalForEach {name : String} {array : Node} {body : List Node} {fuel : ι → Nat}
    (own : Own R ev (.forEach name array body)) (harray : R Value fun i => ev i array)
    (loop : ∀ ref, R Unit fun i => Eval.eachLoop (ev i) ref name body (fuel i) 0) :
    R Value fun i => Eval.evalForEach (ev i) (fuel i) name array body := by
  obtain ⟨bound, unbound⟩ := own
  have asked := rules.silent (still_binding? name)
  have removed : R Value fun _ => unbind name >>= fun _ => Pure.pure Value.none :=
    rules.bind unbound fun _ => rules.pure _
  refine rules.bind harray fun items => ?_
  cases items with
  | list ref =>
    refine rules.bind asked fun before => ?_
    refine rules.bind (loop ref) fun _ => ?_
    cases before with
    | none =>
      refine rules.bind asked fun now => ?_
      exact ite (rules.bind (rules.silent (still_fail _)) fun _ => removed) removed
    | some value =>
      have restored : R Value fun _ => bind_ name value >>= fun _ => Pure.pure Value.none :=
        rules.bind (bound value) fun _ => rules.pure _
      cases value with
      | none => exact rules.pure _
      | _ => exact restored
  | _ => exact rules.reject _

/-! ### Variables and imports -/

theorem assignVariable {hint : Option String} {v : Value} (bound : R Unit fun _ => bind_ name v)
    (declares : ∀ type, hint.filter (· ≠ "") = some type → R Unit fun _ =>
      modify fun s => { s with types := s.types.insert name (TypeName.normalize type) }) :
    R Value fun _ => Eval.assignVariable name v hint := by
  have ends : ∀ _ : Unit, R Value fun _ => bind_ name v >>= fun _ => Pure.pure Value.none :=
    fun _ => rules.bind bound fun _ => rules.pure _
  have refused : ∀ cause, R Value fun _ => Eval.reject cause >>= fun _ : Unit =>
      bind_ name v >>= fun _ => Pure.pure Value.none :=
    fun cause => rules.bind (rules.reject cause) ends
  unfold Eval.assignVariable
  split
  · rename_i type given
    exact ite (rules.bind (declares type given) ends) (refused _)
  · refine rules.look (fun s _ => ?_) fun _ _ => rfl
    split
    · exact ite (ends ()) (refused _)
    · exact ends ()

theorem evalStep {target : Node} (op : StepOp)
    (bound : ∀ name, target = .var name → ∀ v, R Unit fun _ => bind_ name v) :
    R Value fun _ => Eval.evalStep op target := by
  unfold Eval.evalStep
  split
  · rename_i name
    have changed : ∀ value f refusal, R Value fun _ => evalStep.change name value f refusal :=
      fun value f refusal => ite (rules.bind (rules.silent (still_lift _)) fun result =>
        rules.bind (rules.silent (silent_settle result)) fun v =>
          rules.bind (bound name rfl v) fun _ => rules.pure _) (rules.reject _)
    refine rules.bind (rules.silent (still_binding? name)) fun value => ?_
    cases value with
    | none => exact rules.reject _
    | some value =>
      cases op with
      | other symbol => exact rules.reject _
      | _ => exact changed _ _ _
  · exact rules.reject _

theorem importLibrary {lib : Library} (bound : ∀ v, R Unit fun _ => bind_ lib.name v) :
    R Unit fun _ => Eval.importLibrary lib := by
  refine rules.bind (rules.silent silent_freshIdent) fun ident => ?_
  refine rules.bind (rules.silent (.modify _ (fun s => ?_) fun _ _ => ?_)) fun _ => bound _
  · cases lib <;> constructor <;> rfl
  · cases lib <;> rfl

theorem runImport (records : ∀ full, R Unit fun _ =>
      modify fun s => { s with imported := s.imported ++ [full] })
    (programs : ∀ s program folder, known s → Importable s program →
      R Unit fun i => inFolder folder (ev i program)) (full path : String) :
    R Unit fun i => Eval.runImport (ev i) full path := by
  refine rules.look (fun s start => ite (rules.pure _) ?_) fun _ _ => rfl
  refine rules.bind (rules.silent (still_lift _)) fun _ => rules.bind (records full) fun _ => ?_
  refine rules.lifted fun code text => rules.lifted fun program read => ?_
  exact programs s program _ start ⟨full, code, text, read⟩

theorem importValue (libraries : ∀ (lib : Library) v, R Unit fun _ => bind_ lib.name v)
    (files : ∀ full path, R Unit fun i => Eval.runImport (ev i) full path) (target : Value) :
    R Value fun i => Eval.importValue (ev i) target := by
  cases target with
  | text path =>
    unfold Eval.importValue
    dsimp only
    cases Library.ofName? path with
    | some lib => exact rules.bind (rules.importLibrary (libraries lib)) fun _ => rules.pure _
    | none =>
      refine rules.look (fun s _ => ?_) fun _ _ => rfl
      exact rules.bind (files _ path) fun _ => rules.pure _
  | _ => exact rules.reject _

/-! ### All nodes -/

include provides in
/-- One step of the evaluators keeps the property if their services do. -/
theorem evalNode {node : Node} (fuel : Nat) (parts : ∀ p ∈ node.parts, R Value fun i => ev i p)
    (own : Own R ev node) : R Value fun i => (services i).evalNode (ev i) fuel node := by
  cases node with
  | number n => exact rules.silent (silent_settle _)
  | text s | boolean b => exact rules.pure _
  | var name => exact rules.silent (still_evalVariable name)
  | binary left op right =>
    simp only [Node.parts, forall_mem_cons] at parts
    refine rules.bind parts.1 fun a => rules.bind parts.2.1 fun b => ?_
    refine rules.bind (rules.updateHeap fun _ => Heap.spares_operate _ _ _) fun result => ?_
    exact rules.silent (silent_settle result)
  | comparison left op right =>
    simp only [Node.parts, forall_mem_cons] at parts
    refine rules.bind parts.1 fun a => rules.bind parts.2.1 fun b => rules.silent ?_
    split
    · exact .pure _
    · exact (still_onHeap _).bind fun _ => .pure _
  | cast target operand =>
    refine rules.bind (parts operand (mem_singleton_self _)) fun value => ?_
    exact rules.silent ((still_onHeap _).bind fun result => silent_settle result)
  | input prompt =>
    refine rules.bind (parts prompt (mem_singleton_self _)) fun value => rules.silent ?_
    refine (still_display value).bind fun text => (silent_write text).bind fun _ => ?_
    exact silent_readLine.bind fun _ => .pure _
  | array elements =>
    exact rules.bind (rules.evalAll parts) fun items => rules.silent (silent_newList items)
  | dictionary pairs =>
    refine rules.bind (rules.evalEntries [] parts) fun entries => ?_
    exact rules.updateHeap fun _ => Heap.spares_ok rfl
  | lookup container key =>
    simp only [Node.parts, forall_mem_cons] at parts
    exact rules.evalLookup parts.1 parts.2.1
  | arrayIndex array index =>
    simp only [Node.parts, forall_mem_cons] at parts
    exact rules.evalArrayIndex parts.1 parts.2.1
  | call name arguments => exact rules.callNamed provides own parts
  | methodCall object method arguments => exact rules.reject _
  | super method arguments => exact rules.callSuper provides method parts
  | newObject className arguments => exact rules.construct provides className parts
  | property object name =>
    exact rules.property provides name (parts object (mem_singleton_self _))
  | assign name value typeHint =>
    exact rules.bind (parts value (mem_singleton_self _)) fun v => own v
  | assignProperty object name value =>
    simp only [Node.parts, forall_mem_cons] at parts
    exact rules.assignMember provides name parts.1 parts.2.1
  | assignIndex container key value =>
    simp only [Node.parts, forall_mem_cons] at parts
    exact rules.assignAtKey provides parts.1 parts.2.1 parts.2.2.1
  | step op target => exact own
  | print arguments =>
    refine rules.bind (rules.evalAll parts) fun values => rules.silent ?_
    exact (silent_printItems values).bind fun _ => (silent_write _).bind fun _ => .pure _
  | ifElse condition body elseIfs otherwise =>
    obtain ⟨branches, others⟩ := forall_mem_append.1 parts
    exact rules.bind (rules.evalBranches others branches) fun _ => rules.pure _
  | whileLoop condition body =>
    obtain ⟨hcondition, hbody⟩ := forall_mem_cons.1 parts
    exact rules.bind (rules.whileLoop hcondition hbody fuel) fun _ => rules.pure _
  | forLoop init condition step body =>
    simp only [Node.parts, forall_mem_cons] at parts
    obtain ⟨hinit, hcondition, hstep, hbody⟩ := parts
    refine rules.bind hinit fun _ => ?_
    exact rules.bind (rules.forLoop hcondition hstep hbody fuel) fun _ => rules.pure _
  | forEach name array body =>
    obtain ⟨harray, hbody⟩ := forall_mem_cons.1 parts
    exact rules.evalForEach own harray fun ref => rules.eachLoop own.1 hbody ref fuel 0
  | function routine => exact rules.bind own fun _ => rules.pure _
  | ret value =>
    have given := rules.bind (parts value (mem_singleton_self _)) fun v => own v
    cases value with
    | missing => exact own .none
    | _ => exact given
  | classDecl decl => exact own
  | destructor body => exact rules.reject _
  | tryCatch body catches final => exact own
  | throw message =>
    refine rules.bind (parts message (mem_singleton_self _)) fun value => rules.silent ?_
    exact (still_display value).bind fun text => still_reject _
  | exit code | importFile path => exact own
  | program statements => exact rules.bind (rules.runBlock parts) fun _ => rules.pure _
  | missing | datum value => exact rules.reject _

end Rules

/-! ## Guarded blocks -/

/-- The property is also kept by what follows an attempt, as long as a suspension is passed on. It
may depend on what has happened before, and with it the signals that may end an evaluation though
none of its parts ends by them: those that were caught before and go on after it. Handlers have
certain names. -/
structure Guards {κ : Type} (known : Session → Prop) (allowed : κ → Signal → Prop)
    (named : String → Prop) (R : κ → (α : Type) → (ι → Eval α) → Prop) : Prop where
  rules : ∀ k, Rules known (R k)
  throw : ∀ {k : κ} {α : Type} {signal : Signal}, allowed k signal →
    R k α fun _ => throw signal
  suspended : ∀ k cause, allowed k (.suspended cause)
  attempt : ∀ {k : κ} {α β : Type} {x : ι → Eval α} {f : Except Signal α → ι → Eval β}, R k α x →
    (∀ k' outcome, (∀ signal, outcome = .error signal → allowed k' signal) →
      R k' β (f outcome)) →
    (∀ cause i, f (.error (.suspended cause)) i = MonadExcept.throw (.suspended cause)) →
    R k β fun i => Eval.attempt (x i) >>= fun outcome => f outcome i
  handler : ∀ {k : κ} {x : ι → Eval Unit} {name : String} (message : Value)
      (before : Option Value), named name → R k Unit x →
    R k Unit fun i => bind_ name message >>= fun _ => within (.handler name before) (x i)

namespace Guards

variable {κ : Type} {known : Session → Prop} {allowed : κ → Signal → Prop}
  {named : String → Prop} {R : κ → (α : Type) → (ι → Eval α) → Prop} {k : κ}
  {ev : ι → Node → Eval Value} {last block : ι → Eval Unit}

variable {catches : List (Option String × List Node)} {body : List Node}
  (guards : Guards known allowed named R)

include guards

theorem conclude {outcome : Except Signal α}
    (h : ∀ signal, outcome = .error signal → allowed k signal) :
    R k α fun _ => Eval.conclude outcome := by
  cases outcome with
  | ok a => exact (guards.rules k).pure a
  | error signal => exact guards.throw (h signal rfl)

theorem beforeReturn (hlast : ∀ k, R k Unit last) (h : R k Unit block) :
    R k Unit fun i => Eval.beforeReturn (last i) (block i) := by
  refine guards.attempt h (fun k' outcome caught => ?_) fun _ _ => rfl
  have ended := guards.conclude caught
  cases outcome with
  | ok u => exact ended
  | error signal =>
    cases signal with
    | returned value =>
      exact (guards.rules k').bind (hlast k') fun _ => guards.throw (caught _ rfl)
    | _ => exact ended

theorem withMessage {name : Option String} (message : String)
    (names : ∀ n, name = some n → named n) (h : R k Unit block) :
    R k Unit fun i => Eval.withMessage name message (block i) := by
  unfold Eval.withMessage
  cases kept : name.filter (· ≠ "") with
  | none => exact h
  | some n =>
    obtain ⟨given, -⟩ := Option.filter_eq_some_iff.1 kept
    refine (guards.rules k).bind ((guards.rules k).silent (still_binding? n)) fun before => ?_
    -- Leaving the handler is the same frame whatever the variable was bound to.
    have left := guards.handler (.text message) before (names n given) h
    cases before with
    | none => exact left
    | some value => cases value <;> exact left

theorem handle {signal : Signal} (passes : allowed k signal)
    (names : ∀ name body, (some name, body) ∈ catches → named name) (hlast : ∀ k, R k Unit last)
    (hcatches : ∀ k, ∀ n ∈ catches.flatMap (·.2), R k Value fun i => ev i n) :
    R k Unit fun i => Eval.handle (ev i) (last i) catches signal := by
  have passed : R k Unit fun _ => MonadExcept.throw signal := guards.throw passes
  cases catches with
  | nil => cases signal <;> exact passed
  | cons first rest =>
    have ran : ∀ message, R k Unit fun i => Eval.withMessage first.1 message
        (Eval.beforeReturn (last i) (runBlock (ev i) first.2)) := by
      intro message
      refine guards.withMessage message (fun n given => names n first.2 ?_) ?_
      · exact given ▸ mem_cons_self ..
      · refine guards.beforeReturn hlast ((guards.rules k).runBlock fun n hn => hcatches k n ?_)
        exact mem_append_left _ hn
    cases signal with
    | failed fault | exited code => exact ran _
    | _ => exact passed

theorem guarded (names : ∀ name body, (some name, body) ∈ catches → named name) (hlast : ∀ k, R k Unit last)
    (hbody : ∀ n ∈ body, R k Value fun i => ev i n)
    (hcatches : ∀ k, ∀ n ∈ catches.flatMap (·.2), R k Value fun i => ev i n) :
    R k Unit fun i => Eval.guarded (ev i) (last i) body catches := by
  have tried := (guards.rules k).runBlock hbody
  refine guards.attempt (guards.attempt tried (fun k' outcome caught => ?_) ?_)
    (fun k' outcome caught => ?_) fun _ _ => rfl
  · cases outcome with
    | ok u => exact (guards.rules k').pure _
    | error signal =>
      have handled : R k' Unit fun i => Eval.handle (ev i) (last i) catches signal :=
        guards.handle (caught signal rfl) names hlast hcatches
      cases signal with
      | returned value =>
        exact (guards.rules k').bind (hlast k') fun _ => guards.throw (caught _ rfl)
      | _ => exact handled
  · intro cause i
    cases catches <;> rfl
  · have ended : R k' Unit fun i => last i >>= fun _ => Eval.conclude outcome :=
      (guards.rules k').bind (hlast k') fun _ => guards.conclude caught
    cases outcome with
    | ok u => exact ended
    | error signal =>
      cases signal with
      | suspended cause => exact guards.throw (guards.suspended k' cause)
      | _ => exact ended

theorem evalTry {final : Option (List Node)}
    (names : ∀ name body, (some name, body) ∈ catches → named name)
    (parts : ∀ k, ∀ p ∈ (Node.tryCatch body catches final).parts, R k Value fun i => ev i p) :
    R k Value fun i => Eval.evalTry (ev i) body catches final := by
  simp only [Node.parts, forall_mem_append] at parts
  have hlast : ∀ k, R k Unit fun i => runBlock (ev i) (final.getD []) :=
    fun k => (guards.rules k).runBlock (parts k).2
  refine (guards.rules k).bind ?_ fun _ => (guards.rules k).pure _
  exact guards.guarded names hlast (parts k).1.1 fun k => (parts k).1.2

end Guards

end Eval

end Hetman
