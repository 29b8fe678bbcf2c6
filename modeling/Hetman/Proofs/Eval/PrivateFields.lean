import Hetman.Proofs.Eval.CutShort
import Hetman.Proofs.Eval.Lineage
import Hetman.Proofs.Eval.Members

/-!
# Private fields in a run

Whether a private field is open is decided by the variable `this` and by the name of the running
function. A function sees the `this` of the body that calls it, and a body on an object has a name
as well. So a private field is open to those that are entitled to it (`entitled`), and beyond them
to just three kinds of bodies (`leaked`). This holds at every use in a run, until the program binds
`this` by itself (`private_fields_open`).
-/

namespace Hetman

namespace Activation

/-- The object of the innermost body that runs on an object. -/
def receiver? : List Activation → Option Nat
  | [] => none
  | .on _ ref _ :: _ => some ref
  | .function _ :: outer => receiver? outer

def innermost? : List Activation → Option String
  | [] => none
  | act :: _ => some act.name

end Activation

namespace Object

open Activation

variable (g : ClassGraph) (h : Heap) (ref : Nat)

/-! ## Rights -/

/-- A function is a friend of an object's class. -/
def hasFriend (function : String) : Bool :=
  function != "" && g.isFriend (h.object ref).classId function

/-- The class of another object is a friend of an object's class. -/
def hasFriendObject (other : Nat) : Bool :=
  g.isFriendClass (h.object ref).classId (g.info (h.object other).classId).name

/-- The innermost body has a right to the private fields of an object: it runs on the object, it is
a friend function's, or a method's on an object of a friend class. -/
def entitled : List Activation → Bool
  | [] => false
  | .function name :: _ => hasFriend g h ref name
  | .on role other _ :: _ => other == ref || role == .method && hasFriendObject g h ref other

/-- The innermost body gets at the private fields of an object without a right: a function called,
directly or by other functions, from a body on the object or on one of a friend class; a body on an
object with the name of a friend function; a constructor or destructor of a friend class. -/
def leaked : List Activation → Bool
  | [] => false
  | .function _ :: outer =>
    (receiver? outer).any fun other => other == ref || hasFriendObject g h ref other
  | .on role other name :: _ =>
    hasFriend g h ref name || role != .method && hasFriendObject g h ref other

variable {g h ref}

theorem mayUsePrivate_eq (object : Option Nat) (function : Option String) :
    mayUsePrivate g h ref { object, function } = (object == some ref ||
      function.any (hasFriend g h ref) || object.any (hasFriendObject g h ref)) := by
  cases object <;> cases function <;> rfl

/-- The variable `this` and the name of the function open one or the other. -/
theorem mayUsePrivate_running (running : List Activation) :
    mayUsePrivate g h ref { object := receiver? running, function := innermost? running } =
      (entitled g h ref running || leaked g h ref running) := by
  rw [mayUsePrivate_eq, Bool.eq_iff_iff]
  cases running with
  | nil => rfl
  | cons act outer =>
    cases act with
    | function name =>
      dsimp only [receiver?, innermost?, Activation.name, entitled, leaked]
      cases receiver? outer with
      | none => simp
      | some other => simp [or_left_comm, or_assoc]
    | on role other name =>
      dsimp only [receiver?, innermost?, Activation.name, entitled, leaked]
      cases role <;> simp [or_left_comm, or_comm, or_assoc]

end Object

/-! ## Keeping `this` -/

/-- A node that binds the variable `this`, or makes a parameter of it. -/
def Node.rebindsThis : Node → Bool
  | .assign name _ _ => name == "this"
  | .forEach name _ _ => name == "this"
  | .tryCatch _ catches _ => catches.any fun handler => handler.1 == some "this"
  | .function routine => routine.parameters.contains "this"
  | .classDecl decl => decl.methods.any fun method => method.2.parameters.contains "this"
  | _ => false

structure Session.SparesThis (s : Session) : Prop where
  functions : ∀ name routine, s.functions.get? name = some routine → "this" ∉ routine.parameters
  methods : ∀ id name routine, (s.classes.info id).methods.get? name = some routine →
    "this" ∉ routine.parameters
  constructors : ∀ id routine, (s.classes.info id).constructor = some routine →
    "this" ∉ routine.parameters

namespace Session.SparesThis

variable {s t : Session}

variable {routine : Routine Node}

theorem congr (spares : s.SparesThis) (functions : t.functions = s.functions)
    (classes : t.classes = s.classes) : t.SparesThis := by
  refine ⟨?_, ?_, ?_⟩
  · rw [functions]
    exact spares.functions
  · rw [classes]
    exact spares.methods
  · rw [classes]
    exact spares.constructors

theorem of_offers (spares : s.SparesThis) (offers : s.classes.Offers routine) :
    "this" ∉ routine.parameters := by
  obtain ⟨id, ⟨name, isMethod⟩ | isConstructor⟩ := offers.stored
  · exact spares.methods id name routine isMethod
  · exact spares.constructors id routine isConstructor

theorem withFunction (spares : s.SparesThis) (free : "this" ∉ routine.parameters) :
    { s with functions := s.functions.insert routine.name routine }.SparesThis := by
  refine ⟨fun name other found => ?_, spares.methods, spares.constructors⟩
  rw [Bindings.get?_insert] at found
  split at found
  · cases found
    exact free
  · exact spares.functions name other found

theorem withClass (spares : s.SparesThis) {decl : ClassDecl Node}
    (free : ∀ method ∈ decl.methods, "this" ∉ method.2.parameters) (parent : Option Nat) :
    { s with classes := (s.classes.define (Eval.declared decl parent)).2 }.SparesThis := by
  refine ⟨spares.functions, fun id name routine found => ?_, fun id routine found => ?_⟩
  · rw [ClassGraph.info_define] at found
    split at found
    · exact free _ (Bindings.mem_of_get? found)
    · exact spares.methods id name routine found
  · rw [ClassGraph.info_define] at found
    split at found
    · exact free _ (Bindings.mem_of_get? found)
    · exact spares.constructors id routine found

end Session.SparesThis

namespace Eval

open Activation

variable {α : Type} {running : List Activation} {s : Session} {ref : Nat} {name : String}
  {orderly : Prop}

/-! ## Watching private fields -/

/-- Stops a run that comes to bind `this` by itself. -/
def keepingThis : Monitor where
  node n := stopIf n.rebindsThis

def succeeds (x : Eval α) (s : Session) : Bool :=
  match x s with
  | .ok .. => true
  | .error .. => false

def isPrivate (s : Session) (ref : Nat) (name : String) : Bool :=
  s.classes.fieldAccess (s.heap.object ref).classId name == .privateAccess

def opens (s : Session) (ref : Nat) (running : List Activation) : Bool :=
  !(s.heap.object ref).destroyed && (Object.entitled s.classes s.heap ref running ||
    Object.leaked s.classes s.heap ref running)

/-- Raises an alarm when a private field is used by a body that it is not open to, or refused to one
that it is open to. -/
def guarding (alarm : Eval Unit) : Monitor where
  node := keepingThis.node
  read running ref name := do
    let s ← get
    if isPrivate s ref name && (s.heap.object ref).fields.has name &&
      succeeds (readMember ref name) s != opens s ref running then alarm
  write running ref name value := do
    let s ← get
    if isPrivate s ref name && succeeds (setField ref name value) s != opens s ref running then
      alarm

/-! ## The bodies that are running -/

/-- The variable `this` and the function's name are those of the running bodies, and no parameter
can come between. The classes may be asked to be in order. -/
structure Chained (orderly : Prop) (running : List Activation) (s : Session) : Prop where
  function : s.function = innermost? running
  this : s.env.get? "this" = (receiver? running).map .object
  spares : s.SparesThis
  sound : orderly → s.classes.Sound

structure KeepsThis (s t : Session) : Prop where
  function : t.function = s.function
  this : t.env.get? "this" = s.env.get? "this"
  spares : s.SparesThis → t.SparesThis
  sound : s.classes.Sound → t.classes.Sound

theorem KeepsThis.of_same {s t : Session} (function : t.function = s.function)
    (this : t.env.get? "this" = s.env.get? "this") (functions : t.functions = s.functions)
    (classes : t.classes = s.classes) : KeepsThis s t :=
  ⟨function, this, fun spares => spares.congr functions classes, fun sound => classes ▸ sound⟩

/-- What is done to `this` while some bodies are running. -/
def chained (orderly : Prop) (running : List Activation) : Discipline where
  start := Chained orderly running
  change := KeepsThis
  returns := True
  quiet _ q := .of_same q.function (congrArg (Bindings.get? · "this") q.env) q.functions q.classes
  trans first second := ⟨second.function.trans first.function, second.this.trans first.this,
    fun spares => second.spares (first.spares spares), fun sound => second.sound (first.sound sound)⟩
  keeps start change := ⟨change.function.trans start.function, change.this.trans start.this,
    change.spares start.spares, fun asked => change.sound (start.sound asked)⟩

theorem caller_of_chained (start : Chained orderly running s) :
    s.caller = { object := receiver? running, function := innermost? running } := by
  unfold Session.caller Session.this?
  rw [start.function, start.this]
  cases receiver? running <;> rfl

theorem succeeds_readMember (start : Chained orderly running s)
    (level : isPrivate s ref name = true)
    (bound : (s.heap.object ref).fields.has name = true) :
    succeeds (readMember ref name) s = opens s ref running := by
  obtain ⟨value, bound⟩ := Option.isSome_iff_exists.1 bound
  have level := eq_of_beq level
  unfold succeeds opens
  rw [readMember_apply, caller_of_chained start, ← Object.mayUsePrivate_running]
  cases alive : (s.heap.object ref).destroyed with
  | true =>
    rw [Object.get_of_destroyed alive]
    rfl
  | false =>
    rw [Object.get_of_alive alive, bound]
    rw [level, Object.checkAccess_private]
    cases Object.mayUsePrivate s.classes s.heap ref _ <;> rfl

theorem succeeds_setField {value : Value} (start : Chained orderly running s)
    (level : isPrivate s ref name = true) :
    succeeds (setField ref name value) s = opens s ref running := by
  have level := eq_of_beq level
  unfold succeeds opens
  rw [setField_apply, caller_of_chained start, ← Object.mayUsePrivate_running]
  cases alive : (s.heap.object ref).destroyed with
  | true =>
    rw [Object.set_of_destroyed alive]
    rfl
  | false =>
    rw [Object.set_of_alive alive, level, Object.checkAccess_private]
    cases Object.mayUsePrivate s.classes s.heap ref _ <;> rfl

theorem calm_apply {cause : Bool} (calm : cause = false) (alarm : Eval Unit) (s : Session) :
    (if cause then alarm else pure ()) s = .ok () s := by
  rw [calm]
  rfl

theorem guarding_read (start : Chained orderly running s) (alarm : Eval Unit) (ref : Nat)
    (name : String) : (guarding alarm).read running ref name s = .ok () s := by
  apply calm_apply
  cases level : isPrivate s ref name with
  | false => rfl
  | true =>
    cases bound : (s.heap.object ref).fields.has name with
    | false => rfl
    | true => simp [succeeds_readMember start level bound]

theorem guarding_write (start : Chained orderly running s) (alarm : Eval Unit) (ref : Nat)
    (name : String) (value : Value) :
    (guarding alarm).write running ref name value s = .ok () s := by
  apply calm_apply
  cases level : isPrivate s ref name with
  | false => rfl
  | true => simp [succeeds_setField start level]

/-! ## Runs -/

theorem chained_binds (other : name ≠ "this") : (chained orderly running).Binds name := by
  intro s _
  refine ⟨fun v => .of_same rfl ?_ rfl rfl, .of_same rfl ?_ rfl rfl⟩
  · exact (Bindings.get?_insert ..).trans (if_neg other)
  · exact Bindings.get?_erase _ other

/-- A body is entered with its object, or its caller's. -/
theorem chained_entered (start : Chained orderly running s) (act : Activation) {parameters : List String}
    (args : List Value) (free : "this" ∉ parameters) :
    Chained orderly (act :: running) (entered (act.locals ++ parameters.zip args) act.name s) := by
  have others : ∀ entry ∈ parameters.zip args, entry.1 ≠ "this" := by
    intro entry inside same
    rw [← same] at free
    exact free (List.of_mem_zip inside).1
  refine ⟨rfl, ?_, start.spares.congr rfl rfl, start.sound⟩
  unfold entered Bindings.insertAll
  rw [List.foldl_append]
  refine (Bindings.get?_insertAll _ others).trans ?_
  cases act with
  | function name => exact start.this
  | on role ref name => exact (Bindings.get?_insert ..).trans (if_pos rfl)

/-- As `this` is never a number, it cannot be stepped. -/
theorem runs_evalStep_this (op : StepOp) :
    Runs (chained orderly running) (evalStep op (.var "this")) (evalStep op (.var "this")) := by
  intro s start
  have refused : ∃ fault, evalStep op (.var "this") s = .error (.failed fault) s := by
    have bound : binding? "this" s = .ok ((receiver? running).map .object) s :=
      congrArg (EStateM.Result.ok · s) start.this
    unfold evalStep
    dsimp only
    rw [bind_ok bound]
    cases receiver? running with
    | none => exact ⟨_, rfl⟩
    | some ref => cases op <;> exact ⟨_, rfl⟩
  obtain ⟨fault, refused⟩ := refused
  refine ⟨rfl, ?_, fun v t ended => ?_⟩
  · rw [refused]
    exact .of_same rfl rfl rfl rfl
  · rw [refused] at ended
    cases ended

theorem chained_ownEffect {ev ev' : Node → Eval Value}
    (h : ∀ n, Runs (chained orderly running) (ev n) (ev' n)) {node : Node}
    (keeps : node.rebindsThis = false) : OwnEffect (chained orderly running) ev ev' node := by
  cases node with
  | call name arguments => exact fun _ s files _ _ => .of_same rfl rfl rfl rfl
  | assign name value hint =>
    have other : name ≠ "this" := ne_of_beq_false keeps
    exact runs_assignVariable (chained_binds other) fun _ _ s _ => .of_same rfl rfl rfl rfl
  | step op target =>
    by_cases this : target = .var "this"
    · subst this
      exact runs_evalStep_this op
    · refine runs_evalStep op fun name named => chained_binds fun same => ?_
      subst same
      exact this named
  | forEach name array body => exact chained_binds (ne_of_beq_false keeps)
  | tryCatch body catches final =>
    intro name handler member
    apply chained_binds
    intro same
    subst same
    exact List.any_eq_false.1 keeps _ member rfl
  | function routine =>
    have free : "this" ∉ routine.parameters := by simpa [Node.rebindsThis] using keeps
    exact fun s _ => ⟨rfl, rfl, fun spares => spares.withFunction free, id⟩
  | classDecl decl =>
    have free : ∀ method ∈ decl.methods, "this" ∉ method.2.parameters := by
      simpa [Node.rebindsThis] using keeps
    exact fun parent s _ named =>
      ⟨rfl, rfl, fun spares => spares.withClass free parent, fun sound => sound.define named⟩
  | ret value => trivial
  | importFile path =>
    have records : (chained orderly running).Records := fun s full _ => .of_same rfl rfl rfl rfl
    refine (h path).bind (runs_importValue (fun lib => ?_) records fun s program folder _ _ => ?_)
    · apply chained_binds
      cases lib <;> decide
    · refine runs_inFolder (h program) (fun s start => ?_) fun s t _ change => ?_
      · exact ⟨start.function, start.this, start.spares.congr rfl rfl, start.sound⟩
      · exact ⟨change.function, change.this,
          fun spares => (change.spares (spares.congr rfl rfl)).congr rfl rfl, change.sound⟩
  | _ => trivial

/-- One step of two evaluators that stop where `this` is bound, one under a monitor without a say on
members. Inside a body the chain of running bodies is longer by it. -/
theorem chained_step {m : Monitor} {inside inside' : Activation → Node → Eval Value}
    {ev ev' : Node → Eval Value}
    (h : ∀ act n, Runs (chained orderly (act :: running)) (inside act n) (inside' act n))
    (parts : ∀ n, Runs (chained orderly running) (ev n) (ev' n))
    (read : ∀ ref name s, Chained orderly running s → m.read running ref name s = .ok () s)
    (write : ∀ ref name value s, Chained orderly running s →
      m.write running ref name value s = .ok () s) (fuel : Nat) (node : Node) :
    Runs (chained orderly running)
      (stopIf node.rebindsThis >>= fun _ => (m.services running inside).evalNode ev fuel node)
      (stopIf node.rebindsThis >>= fun _ =>
        (Monitor.services {} running inside').evalNode ev' fuel node) := by
  have serves : Serves (chained orderly running) (m.services running inside)
      (Monitor.services {} running inside') := by
    refine .of_run ("this" ∉ ·) (fun start => start.spares.functions _ _)
      (fun start => start.spares.of_offers) List.not_mem_nil ?_ ?_ ?_
    · intro act parameters args body free
      apply runs_runBody (chained orderly (act :: running)) fun n _ => h act n
      · exact fun s start => chained_entered start act args free
      · exact fun s t _ change => ⟨rfl, rfl,
          fun spares => (change.spares (spares.congr rfl rfl)).congr rfl rfl, change.sound⟩
    · exact fun ref name s start =>
        ((silent_readMember ref name).runs s start).congr (bind_ok (read ref name s start))
    · exact fun ref name value s start =>
        ((silent_setField ref name value).runs s start).congr (bind_ok (write ref name value s start))
  intro s start
  refine ((silent_stopIf _).runs s start).bindAt fun _ t passed => ?_
  obtain ⟨keeps, rfl⟩ := stopIf_passed passed
  exact serves.evalNode fuel (fun p _ => parts p) (chained_ownEffect parts keeps) t start

/-- In a run, a private field is open as it should be, whichever bodies are running. -/
theorem runs_guarding (alarm : Eval Unit) (fuel : Nat) (running : List Activation) (node : Node) :
    Runs (chained False running) (monitored (guarding alarm) fuel running node)
      (monitored keepingThis fuel running node) := by
  induction fuel generalizing running node with
  | zero => exact runs_outOfSteps
  | succ fuel ih =>
    exact chained_step (fun act => ih (act :: running)) (ih running)
      (fun ref name s start => guarding_read start alarm ref name)
      (fun ref name value s start => guarding_write start alarm ref name value) fuel node

theorem cutShort_keepingThis (fuel : Nat) (running : List Activation) (node : Node) (s : Session) :
    monitored keepingThis fuel running node s = eval fuel node s ∨
      ∃ t, monitored keepingThis fuel running node s = .error (.suspended .steps) t :=
  (cutShort_stopping Node.rebindsThis fuel running node).eq_or_stopped s

/-- At every use of a private field in a run, the field is read or written if the object is not
destroyed and the innermost body is entitled to it or gets at it in one of the three other ways, and
else refused: to raise an alarm in all other cases, whatever it is, makes no difference. This is
said of the run, up to where the program binds `this` by itself. -/
theorem private_fields_open (outer : s.function = none) (free : s.env.get? "this" = none)
    (spares : s.SparesThis) (alarm : Eval Unit) (fuel : Nat) (program : Node) :
    monitored (guarding alarm) fuel [] program s = monitored keepingThis fuel [] program s ∧
    (monitored keepingThis fuel [] program s = eval fuel program s ∨
      ∃ t, monitored keepingThis fuel [] program s = .error (.suspended .steps) t) := by
  have start : Chained False [] s := ⟨outer, free, spares, False.elim⟩
  refine ⟨?_, ?_⟩
  · exact (runs_guarding alarm fuel [] program s start).same
  · exact cutShort_keepingThis fuel [] program s

/-- An object tells its private field when asked to. -/
def telling : Session where
  env := [("a", .object 0)]
  classes := { classes := #[{
    name := "A"
    methods := [("m", { name := "m", parameters := [], body := [.ret (.property (.var "this") "x")] })]
    fieldAccess := [("x", .privateAccess)] }] }
  heap := { objects := #[{ classId := 0, fields := [("x", .int 5)] }] }

/-- The object is asked for its field, and then the field is read from outside. -/
def asking : Node :=
  .program [.print [.call "a.m" (some [])], .print [.property (.var "a") "x"]]

theorem telling_spares : telling.SparesThis := by
  refine ⟨nofun, fun id name routine found => ?_, fun id routine found => ?_⟩
  · have member := Bindings.mem_of_get? found
    cases id with
    | zero =>
      cases List.mem_singleton.1 member
      exact List.not_mem_nil
    | succ id => cases member
  · cases id <;> cases found

theorem private_fields_open_telling :
    (∀ alarm, monitored (guarding alarm) 9 [] asking telling = eval 9 asking telling) ∧
    ∃ t, eval 9 asking telling =
      .error (.failed (.script (.object (.denied .readField .privateMember "x" "A")))) t ∧
      t.output = "5\n" := by
  refine ⟨fun alarm => ?_, _, rfl, ?_⟩
  · obtain ⟨same, ends | ⟨t, stopped⟩⟩ := private_fields_open rfl rfl telling_spares alarm 9 asking
    · exact same.trans ends
    · have ended : ∃ fault u, monitored keepingThis 9 [] asking telling = .error (.failed fault) u :=
        ⟨_, _, rfl⟩
      obtain ⟨fault, u, ended⟩ := ended
      rw [ended] at stopped
      cases stopped
  · decide +kernel

theorem private_field_printed :
    (Report.run {} ("Chief\nClass A \x7b Private Int x;\n" ++
      "Function m() \x7b this.x := 5; Return f(this); \x7d \x7d\n" ++
      "Function f(o) \x7b Return o.x; \x7d\na := new A();\nPrint(a.m());") false none).2.output =
    "5\n\nProgram executed successfully, kozache!\nProgram exited with code 0\n" := by
  decide +kernel

end Eval

end Hetman
