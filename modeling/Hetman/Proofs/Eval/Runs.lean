import Hetman.Proofs.Eval.Walk
import Hetman.Proofs.Files

/-!
# The evaluator under a discipline

Disciplines have the rules of `Walk`. `Serves` is what is asked of the services, `Calls` of the
bodies that were stored, and `OwnEffect` of what a node does beyond its parts. One step of the
evaluator is then `Serves.evalNode`, or `runs_evalNode` over the plain services; whole evaluations
follow by induction on the fuel.
-/

namespace Hetman

variable {name : String} {node : Node} {body : List Node}

theorem ClassGraph.info_define (g : ClassGraph) (c : ClassInfo) (id : Nat) :
    (g.define c).2.info id = if id = g.classes.size then c else g.info id := by
  unfold info define
  rw [Array.getElem?_push]
  split <;> rfl

namespace Eval

variable {α : Type} {D : Discipline} {ev ev' : Node → Eval Value}

/-! ## Rules -/

/-- Two of a kind as a family. -/
def pair (x y : α) (first : Bool) : α :=
  bif first then x else y

/-- Two evaluations with the same result, the first under a discipline. -/
def Both (D : Discipline) (α : Type) (x : Bool → Eval α) : Prop :=
  Runs D (x true) (x false)

def Discipline.Binds (D : Discipline) (name : String) : Prop :=
  ∀ s, D.start s →
    (∀ v, D.change s { s with env := s.env.insert name v }) ∧
      D.change s { s with env := s.env.erase name }

theorem runs_bind_ (binds : D.Binds name) (v : Value) : Runs D (bind_ name v) (bind_ name v) :=
  .modify fun s start => (binds s start).1 v

theorem runs_unbind (binds : D.Binds name) : Runs D (unbind name) (unbind name) :=
  .modify fun s start => (binds s start).2

theorem runs_within {x y : Eval α} {frame : Frame} (h : Runs D x y)
    (leave : ∀ s, D.start s → D.change s (frame.leave s)) :
    Runs D (within frame x) (within frame y) :=
  .attempt h fun _ allowed => (Runs.modify leave).bind fun _ => .conclude allowed

theorem Discipline.rules (D : Discipline) : Rules D.start (Both D) where
  silent h := h.runs
  look h _ := Runs.get h
  bind first second := Runs.bind first second
  asScript h := .attempt h fun outcome allowed => by
    cases outcome with
    | ok a => exact .pure a
    | error signal =>
      exact .throw _ fun v ended => allowed v (congrArg _ (Signal.of_asScript ended nofun))
  destructor ref h := runs_within h fun s start =>
    D.quiet start (quiet_heap (Object.ages_markDestroyed s.heap ref))

theorem Discipline.guards (D : Discipline) :
    Guards D.start (fun (_ : Unit) signal => ∀ v, signal = .returned v → D.returns) D.Binds
      fun _ => Both D where
  rules _ := D.rules
  throw h := Runs.throw _ h
  suspended _ _ _ ended := nomatch ended
  attempt h second _ := Runs.attempt h fun outcome allowed =>
    second () outcome fun _ ended v isReturn => allowed v (isReturn ▸ ended)
  handler message before binds h := by
    refine .bind (runs_bind_ binds message) fun _ => runs_within h fun s start => ?_
    cases before with
    | none => exact (binds s start).2
    | some value =>
      cases value with
      | none => exact (binds s start).2
      | _ => exact (binds s start).1 _

theorem runs_runBlock {nodes : List Node} (h : ∀ n ∈ nodes, Runs D (ev n) (ev' n)) :
    Runs D (runBlock ev nodes) (runBlock ev' nodes) := by
  show Both D Unit fun first => runBlock (pair ev ev' first) nodes
  exact D.rules.runBlock h

theorem runs_eachLoop (binds : D.Binds name) (hbody : ∀ n ∈ body, Runs D (ev n) (ev' n))
    (ref fuel index : Nat) :
    Runs D (eachLoop ev ref name body fuel index) (eachLoop ev' ref name body fuel index) := by
  show Both D Unit fun first => eachLoop (pair ev ev' first) ref name body fuel index
  exact D.rules.eachLoop (runs_bind_ binds) hbody ref fuel index

theorem runs_outOfSteps : Runs D (throw (.suspended .steps) : Eval α) (throw (.suspended .steps)) :=
  .throw _ fun _ ended => nomatch ended

/-! ## Bodies and calls -/

/-- The session in which a body starts. -/
def entered (locals : Bindings Value) (name : String) (s : Session) : Session :=
  { s with env := s.env.insertAll locals, function := some name }

/-- The session after a body: the variables and the function are the caller's. -/
def left (s t : Session) : Session :=
  { t with env := s.env, function := s.function }

theorem runBody_apply (ev : Node → Eval Value) (body : List Node) (locals : Bindings Value)
    (name : String) (s : Session) :
    runBody ev body locals name s =
      match runBlock ev body (entered locals name s) with
      | .ok () t => .ok .none (left s t)
      | .error (.returned value) t => .ok value (left s t)
      | .error signal t => .error signal (left s t) := by
  unfold runBody
  rw [bind_ok (show runBody.enter locals name s = .ok (s.env, s.function) (entered locals name s)
    from rfl)]
  dsimp only
  cases result : runBlock ev body (entered locals name s) with
  | ok u t =>
    rw [bind_ok (attempt_ok result)]
    rfl
  | error signal t =>
    rw [bind_ok (attempt_error result)]
    cases signal <;> rfl

/-- A body under one discipline is called under another. It never ends by a return. -/
theorem runs_runBody (G : Discipline) {locals : Bindings Value}
    (h : ∀ n ∈ body, Runs G (ev n) (ev' n))
    (enter : ∀ s, D.start s → G.start (entered locals name s))
    (leave : ∀ s t, D.start s → G.change (entered locals name s) t → D.change s (left s t)) :
    Runs D (runBody ev body locals name) (runBody ev' body locals name) := by
  intro s start
  obtain ⟨same, change, _⟩ := runs_runBlock h _ (enter s start)
  have back := leave s _ start change
  refine ⟨?_, ?_, ?_⟩
  · rw [runBody_apply, runBody_apply, same]
  · rw [runBody_apply]
    cases result : runBlock ev body (entered locals name s) with
    | ok u t =>
      rw [result] at back
      exact back
    | error signal t =>
      rw [result] at back
      cases signal <;> exact back
  · intro v t ended
    rw [runBody_apply] at ended
    cases result : runBlock ev body (entered locals name s) with
    | ok u t => rw [result] at ended; cases ended
    | error signal t => rw [result] at ended; cases signal <;> cases ended

/-- What a session has stored keeps to a discipline when it is called. -/
structure Calls (D : Discipline) (ev ev' : Node → Eval Value) : Prop where
  function : ∀ {s : Session} {name : String} {routine : Routine Node}, D.start s →
    s.functions.get? name = some routine → ∀ args,
      Runs D (runBody ev routine.body (routine.parameters.zip args) name)
        (runBody ev' routine.body (routine.parameters.zip args) name)
  method : ∀ {s : Session} {routine : Routine Node}, D.start s → s.classes.Offers routine →
    ∀ ref args name,
      Runs D (runMethod ev ref routine args name) (runMethod ev' ref routine args name)
  destructor : ∀ {s : Session} {id : Nat} {body : List Node}, D.start s →
    (s.classes.info id).destructor = some body → ∀ ref,
      Runs D (runBody ev body [("this", .object ref)] "Destructor")
        (runBody ev' body [("this", .object ref)] "Destructor")

/-- Services keep to a discipline, and others serve in the same way. -/
def Serves (D : Discipline) (services services' : Services) : Prop :=
  Provides D.start (Both D) (pair services services')

/-- Services that keep to a discipline whatever body they run, if its parameters fit. -/
theorem Serves.of_run {services services' : Services} (fits : List String → Prop)
    (functions : ∀ {s name routine}, D.start s → s.functions.get? name = some routine →
      fits routine.parameters)
    (methods : ∀ {s routine}, D.start s → s.classes.Offers routine → fits routine.parameters)
    (nothing : fits [])
    (run : ∀ act parameters args body, fits parameters →
      Runs D (services.run act parameters args body) (services'.run act parameters args body))
    (read : ∀ ref name, Runs D (services.read ref name) (services'.read ref name))
    (write : ∀ ref name v, Runs D (services.write ref name v) (services'.write ref name v)) :
    Serves D services services' where
  function start found args := run _ _ args _ (functions start found)
  method start offers role ref name args _ :=
    run (.on role ref name) _ args _ (methods start offers)
  destroy ref := D.rules.destroy fun _ _ => run (.on .destructor ref _) _ _ _ nothing
  read := read
  write := write

theorem silent_readMember (ref : Nat) (name : String) : Silent (readMember ref name) := by
  refine .get (fun s => still_caller.bind fun asking => ?_) fun _ _ => rfl
  split
  · exact .pure _
  · exact silent_freshIdent.bind fun _ => .pure _
  · exact still_reject _

theorem Calls.serves (calls : Calls D ev ev') : Serves D (.plain ev) (.plain ev') where
  function start found args := calls.function start found args
  method start offers _ ref name args _ := calls.method start offers ref args name
  destroy ref := D.rules.destroy fun start found => calls.destructor start found ref
  read ref name := (silent_readMember ref name).runs
  write ref name v := (silent_setField ref name v).runs

def Discipline.Writes (D : Discipline) : Prop :=
  ∀ s files, D.start s → s.files.Keeps files → D.change s { s with files }

theorem runs_writeFile (writes : D.Writes) (path content : Value) (keep : Bool) :
    Runs D (writeFile path content keep) (writeFile path content keep) := by
  unfold writeFile
  split
  · refine .getAt fun s start => ?_
    split
    · exact (still_fail _).runs s start
    · rename_i at_ files created
      have opened : RunsAt D (set { s with files }) (set { s with files }) s :=
        ⟨rfl, writes s files start (Files.keeps_create created), fun _ _ result => nomatch result⟩
      refine opened.bind start fun _ => (still_display content).runs.bind fun text => ?_
      refine .bind (.modify fun s start => ?_) fun _ => .pure _
      exact writes s _ start (Files.keeps_appendText s.files at_ text)
  · exact (still_reject _).runs

/-! ## Assignments -/

theorem runs_assignVariable (binds : D.Binds name) {hint : Option String}
    (declares : ∀ type, hint.filter (· ≠ "") = some type → ∀ s, D.start s →
      D.change s { s with types := s.types.insert name (TypeName.normalize type) }) (value : Value) :
    Runs D (assignVariable name value hint) (assignVariable name value hint) :=
  D.rules.assignVariable (runs_bind_ binds value) fun type given => .modify (declares type given)

theorem runs_evalStep {target : Node} (op : StepOp)
    (binds : ∀ name, target = .var name → D.Binds name) :
    Runs D (evalStep op target) (evalStep op target) :=
  D.rules.evalStep op fun name isVar => runs_bind_ (binds name isVar)

/-! ## Imports -/

theorem runs_importLibrary {lib : Library} (binds : D.Binds lib.name) :
    Runs D (importLibrary lib) (importLibrary lib) :=
  D.rules.importLibrary (runs_bind_ binds)

theorem inFolder_apply (folder : String) (x : Eval Value) (s : Session) :
    inFolder folder x s =
      match x { s with folder := some folder } with
      | .ok _ t => .ok () { t with folder := s.folder }
      | .error signal t => .error signal { t with folder := s.folder } := by
  have moved : inFolder folder x s = (attempt x >>= fun outcome => do
      modify fun t => { t with folder := s.folder }
      let _ ← conclude outcome) { s with folder := some folder } := rfl
  rw [moved]
  cases result : x { s with folder := some folder } with
  | ok v t =>
    rw [bind_ok (attempt_ok result)]
    rfl
  | error signal t =>
    rw [bind_ok (attempt_error result)]
    rfl

/-- As the folder is put back, what keeps to a discipline in another folder keeps to it. -/
theorem runs_inFolder {folder : String} {x y : Eval Value} (h : Runs D x y)
    (enter : ∀ s, D.start s → D.start { s with folder := some folder })
    (leave : ∀ s t, D.start s → D.change { s with folder := some folder } t →
      D.change s { t with folder := s.folder }) :
    Runs D (inFolder folder x) (inFolder folder y) := by
  intro s start
  obtain ⟨same, change, returned⟩ := h _ (enter s start)
  have back := leave s _ start change
  refine ⟨?_, ?_, ?_⟩
  · rw [inFolder_apply, inFolder_apply, same]
  · rw [inFolder_apply]
    cases result : x { s with folder := some folder } with
    | ok v t | error signal t =>
      rw [result] at back
      exact back
  · intro v t ended
    rw [inFolder_apply] at ended
    cases result : x { s with folder := some folder } with
    | ok w u =>
      rw [result] at ended
      cases ended
    | error signal u =>
      rw [result] at ended
      cases ended
      exact returned v u result

def Discipline.Records (D : Discipline) : Prop :=
  ∀ s full, D.start s → D.change s { s with imported := s.imported ++ [full] }

theorem runs_runImport (records : D.Records)
    (programs : ∀ s program folder, D.start s → Importable s program →
      Runs D (inFolder folder (ev program)) (inFolder folder (ev' program)))
    (full path : String) : Runs D (runImport ev full path) (runImport ev' full path) := by
  show Both D Unit fun first => runImport (pair ev ev' first) full path
  refine D.rules.runImport (fun full => .modify fun s => records s full) ?_ full path
  exact programs

theorem runs_importValue (libraries : ∀ lib : Library, D.Binds lib.name) (records : D.Records)
    (programs : ∀ s program folder, D.start s → Importable s program →
      Runs D (inFolder folder (ev program)) (inFolder folder (ev' program))) (target : Value) :
    Runs D (importValue ev target) (importValue ev' target) := by
  show Both D Value fun first => importValue (pair ev ev' first) target
  refine D.rules.importValue (fun lib => runs_bind_ (libraries lib)) ?_ target
  exact runs_runImport records programs

/-! ## All nodes -/

/-- A class may be defined, under a parent that some name means. -/
def Discipline.Defines (D : Discipline) (decl : ClassDecl Node) : Prop :=
  ∀ parent s, D.start s → (∀ id, parent = some id → ∃ name, s.classes.find name = .ok id) →
    D.change s { s with classes := (s.classes.define (declared decl parent)).2 }

/-- What a node does itself keeps to a discipline. -/
def OwnEffect (D : Discipline) (ev ev' : Node → Eval Value) : Node → Prop
  | .call name _ => Builtin.ofName? name = some .write → D.Writes
  | .assign name _ hint => ∀ v, Runs D (assignVariable name v hint) (assignVariable name v hint)
  | .step op target => Runs D (evalStep op target) (evalStep op target)
  | .forEach name _ _ => D.Binds name
  | .tryCatch _ catches _ => ∀ name body, (some name, body) ∈ catches → D.Binds name
  | .function routine => ∀ s, D.start s →
    D.change s { s with functions := s.functions.insert routine.name routine }
  | .classDecl decl => D.Defines decl
  | .ret _ => D.returns
  | .importFile path => Runs D (ev path >>= importValue ev) (ev' path >>= importValue ev')
  | _ => True

/-- A discipline about a part of the session allows all that leaves the part as it is, and whatever
a program may do to it. -/
structure Discipline.About {σ : Type} (D : Discipline) (part : Session → σ) : Prop where
  /-- The part has nothing to do with variables, functions and folders. -/
  unscoped : ∀ (s : Session) env types functions function folder,
    part { s with env, types, functions, function, folder } = part s
  change : ∀ ⦃s t : Session⦄, D.start s → part t = part s → D.change s t
  returns : D.returns
  writes : D.Writes
  defines : ∀ decl, D.Defines decl

namespace Discipline.About

variable {σ : Type} {part : Session → σ}

theorem binds (about : D.About part) (name : String) : D.Binds name := by
  intro s start
  have bound : ∀ env, D.change s { s with env } := fun env =>
    about.change start (about.unscoped s env s.types s.functions s.function s.folder)
  exact ⟨fun v => bound _, bound _⟩

/-- A change between changes outside of the part. -/
theorem detour (about : D.About part) {s s' t t' : Session} (start : D.start s)
    (change : D.change s' t) (enter : part s' = part s) (leave : part t' = part t) :
    D.change s t' := by
  have entered := about.change start enter
  have inside := D.keeps (D.keeps start entered) change
  exact D.trans entered (D.trans change (about.change inside leave))

theorem runBody (about : D.About part) {body : List Node}
    (h : ∀ n ∈ body, Runs D (ev n) (ev' n)) (locals : Bindings Value) (name : String) :
    Runs D (Eval.runBody ev body locals name) (Eval.runBody ev' body locals name) := by
  have enter : ∀ s, part (entered locals name s) = part s := fun s =>
    about.unscoped s (s.env.insertAll locals) s.types s.functions (some name) s.folder
  have leave : ∀ s t, part (left s t) = part t := fun s t =>
    about.unscoped t s.env t.types t.functions s.function t.folder
  refine runs_runBody D h (fun s start => ?_) fun s t start change => ?_
  · exact D.keeps start (about.change start (enter s))
  · exact about.detour start change (enter s) (leave s t)

theorem calls (about : D.About part) (h : ∀ n, Runs D (ev n) (ev' n)) : Calls D ev ev' where
  function _ _ _ := about.runBody (fun n _ => h n) _ _
  method _ _ _ _ _ := about.runBody (fun n _ => h n) _ _
  destructor _ _ _ := about.runBody (fun n _ => h n) _ _

theorem inFolder (about : D.About part) {program : Node} (h : Runs D (ev program) (ev' program))
    (folder : String) :
    Runs D (Eval.inFolder folder (ev program)) (Eval.inFolder folder (ev' program)) := by
  have moved : ∀ (s : Session) folder, part { s with folder } = part s := fun s folder =>
    about.unscoped s s.env s.types s.functions s.function folder
  apply runs_inFolder h
  · exact fun s start => D.keeps start (about.change start (moved s (some folder)))
  · exact fun s t start change => about.detour start change (moved s _) (moved t _)

theorem imports (about : D.About part) (records : D.Records) (h : ∀ n, Runs D (ev n) (ev' n))
    (path : Node) : OwnEffect D ev ev' (.importFile path) :=
  (h path).bind (runs_importValue (fun lib => about.binds lib.name) records
    fun _ program folder _ _ => about.inFolder (h program) folder)

theorem ownEffect (about : D.About part)
    (imports : ∀ path, node = .importFile path → OwnEffect D ev ev' node) :
    OwnEffect D ev ev' node := by
  have binds := about.binds
  cases node with
  | call name arguments => exact fun _ => about.writes
  | assign name value hint =>
    refine runs_assignVariable (binds name) fun type _ s start => ?_
    exact about.change start (about.unscoped s s.env _ s.functions s.function s.folder)
  | step op target => exact runs_evalStep op fun name _ => binds name
  | forEach name array body => exact binds name
  | tryCatch body catches final => exact fun name _ _ => binds name
  | function routine =>
    exact fun s start => about.change start (about.unscoped s s.env s.types _ s.function s.folder)
  | classDecl decl => exact about.defines decl
  | ret value => exact about.returns
  | importFile path => exact imports path rfl
  | _ => trivial

end Discipline.About

theorem runs_evalClass {decl : ClassDecl Node} (own : D.Defines decl) :
    Runs D (evalClass decl) (evalClass decl) := by
  unfold evalClass
  split
  · intro s start
    refine ⟨rfl, own none s start fun id isParent => ?_, fun v t ended => ?_⟩
    · cases isParent
    · cases ended
  · rename_i name _
    refine .getAt fun s start => ?_
    split
    · rename_i id found
      refine ⟨rfl, own (some id) s start fun _ isParent => ?_, fun v t ended => ?_⟩
      · cases isParent
        exact ⟨name, found⟩
      · cases ended
    · exact ((still_reject _).runs s start).bindAt fun _ _ rejected => nomatch rejected

theorem runs_evalExit {code : Node} (h : Runs D (ev code) (ev' code)) :
    Runs D (evalExit ev code) (evalExit ev' code) := by
  have ends : ∀ code, Runs D
      ((modify fun s => { s with exitCode := code }) >>= fun _ => throw (.exited code) : Eval Value)
      ((modify fun s => { s with exitCode := code }) >>= fun _ => throw (.exited code)) := by
    intro code
    refine .bind (.modify fun s start => D.quiet start ?_) fun _ =>
      .throw _ fun _ ended => nomatch ended
    constructor <;> rfl
  unfold evalExit
  split
  · exact (Runs.pure _).bind fun code => ends code
  · exact h.bind fun value => (still_lift _).runs.bind fun code => ends code

theorem OwnEffect.own (own : OwnEffect D ev ev' node)
    (parts : ∀ p ∈ node.parts, Runs D (ev p) (ev' p)) : Own (Both D) (pair ev ev') node := by
  cases node with
  | call name arguments => exact fun isWrite => runs_writeFile (own isWrite)
  | forEach name array body => exact ⟨runs_bind_ own, runs_unbind own⟩
  | tryCatch body catches final => exact D.guards.evalTry (k := ()) own fun _ => parts
  | function routine => exact .modify own
  | classDecl decl => exact runs_evalClass own
  | ret value => exact fun v => Runs.throw _ fun _ _ => own
  | exit code => exact runs_evalExit (parts code (List.mem_singleton_self _))
  | assign name value hint | step op target | importFile path => exact own
  | _ => trivial

theorem Serves.evalNode {services services' : Services} {node : Node}
    (serves : Serves D services services') (fuel : Nat)
    (parts : ∀ p ∈ node.parts, Runs D (ev p) (ev' p)) (own : OwnEffect D ev ev' node) :
    Runs D (services.evalNode ev fuel node) (services'.evalNode ev' fuel node) := by
  exact D.rules.evalNode serves fuel parts (own.own parts)

theorem runs_evalNode (fuel : Nat) (parts : ∀ p ∈ node.parts, Runs D (ev p) (ev' p))
    (calls : Calls D ev ev') (own : OwnEffect D ev ev' node) :
    Runs D (evalNode fuel ev node) (evalNode fuel ev' node) := by
  have served := calls.serves.evalNode fuel parts own
  rwa [Services.plain_evalNode, Services.plain_evalNode] at served

end Eval

end Hetman
