import Hetman.Proofs.Eval.ImportedWords
import Hetman.Proofs.Parser.Modifiers

/-!
# The access to methods

A class keeps its methods and the access to them in two tables, each searched along its line. They
agree name by name in every class that was read from a text, and the methods are defined there with
the access that is written in front of them (`Node.Accounted`). A run only stores what was read
(`Session.Accounted`). So both searches end at the same class, and what they find stands in a text.
The constructor has no access of its own.
-/

namespace Hetman

variable {node p : Node} {s : Session} {name : String} {routine : Routine Node} {body : List Node}
  {id : Nat}

/-- What is known of the methods of a program, and whether it imports files and writes any. -/
structure Account where
  known : String → Routine Node → Prop
  imports : Prop
  writes : Prop

/-- What is asked of a node: that the methods of a class are known and tell the access to them, and
that imports and writing are foreseen. -/
def Account.Asks (a : Account) : Node → Prop
  | .classDecl decl => decl.Coherent ∧ ∀ name routine,
      Bindings.get? decl.methods name = some routine → name ≠ "Tvir" → a.known name routine
  | .importFile _ => a.imports
  | .call name _ => Builtin.ofName? name = some .write → a.writes
  | _ => True

def Node.Imports (node : Node) : Prop :=
  ∃ path inside, node.Occurs (.importFile path) inside

def Node.Writes (node : Node) : Prop :=
  ∃ name arguments inside, node.Occurs (.call name arguments) inside ∧
    Builtin.ofName? name = some .write

/-- It is asked of all nodes that occur in a node. -/
def Node.Accounted (a : Account) (node : Node) : Prop :=
  ∀ m inside, node.Occurs m inside → a.Asks m

variable {a : Account}

theorem Node.Accounted.of_part (h : node.Accounted a) (isPart : p ∈ node.parts) : p.Accounted a :=
  fun m inside occurs => h m inside (.part isPart occurs)

theorem Node.Accounted.of_body (h : node.Accounted a) (isBody : p ∈ node.bodies) : p.Accounted a :=
  fun m _ occurs => h m true (.body isBody occurs)

/-- A program tells the access to methods as these do, and without problems its text defines them. -/
theorem Parser.accounted_of_parse {tokens : List Token} {strict : Bool}
    (read : (parse tokens strict).node = .ok node) (imports : node.Imports → a.imports)
    (writes : node.Writes → a.writes)
    (defined : ∀ name routine, ((parse tokens strict).state.problems = [] →
      routine.name = name ∧ Defined tokens routine) → a.known name routine) : node.Accounted a := by
  have coherent : node.Coherent := by
    have result := parse_ok read
    rcases program_cases tokens strict with unstarted | went
    · cases unstarted.symm.trans result
    · rw [result] at went
      cases went with
      | ok _ _ _ gives => exact gives
  intro m inside occurs
  cases m with
  | classDecl decl =>
    refine ⟨coherent decl inside occurs, fun name routine found other => defined name routine ?_⟩
    intro clean
    have quiet : (parse tokens strict).state.complaints = [] := by rw [State.complaints, clean]; rfl
    exact told_of_parse read quiet decl inside occurs name routine found other
  | importFile path => exact imports ⟨path, inside, occurs⟩
  | call name arguments => exact fun isWrite => writes ⟨name, arguments, inside, occurs, isWrite⟩
  | _ => trivial

/-- Without problems a program is imported. So it is enough to know what the files define. -/
theorem Eval.accounted_of_importable (importable : Importable s node) (imports : a.imports)
    (writes : node.Writes → a.writes)
    (known : ∀ path code name routine, importText s.files path = .ok code → routine.name = name →
      Parser.Defined (lex code).tokens routine → a.known name routine) : node.Accounted a := by
  obtain ⟨path, code, text, read⟩ := importable
  obtain ⟨-, read, clean⟩ := readProgram_eq_ok_iff.1 read
  refine Parser.accounted_of_parse read (fun _ => imports) writes fun name routine defined => ?_
  exact known path code name routine text (defined clean).1 (defined clean).2

/-- Searches with corresponding answers in every class. -/
theorem ClassGraph.searchUpTo_map {g : ClassGraph} {α β : Type} {f : α → β}
    (ask : ClassInfo → Option α) (other : ClassInfo → Option β)
    (same : ∀ id, other (g.info id) = (ask (g.info id)).map f) (bound id : Nat) :
    g.searchUpTo other bound id = (g.searchUpTo ask bound id).map f := by
  induction bound generalizing id with
  | zero => rfl
  | succ bound ih =>
    unfold searchUpTo
    dsimp only
    rw [same id]
    cases ask (g.info id) with
    | some answer => rfl
    | none =>
      cases (g.info id).parent with
      | none => rfl
      | some parent => exact ih parent

/-! ## Sessions -/

/-- Functions and classes were declared by nodes that account for their methods, and so does all that
can be imported. -/
structure Session.Accounted (a : Account) (s : Session) : Prop where
  functions : ∀ entry ∈ s.functions, (Node.function entry.2).Accounted a
  classes : ∀ id, ∃ decl parent, (Node.classDecl decl).Accounted a ∧
    s.classes.info id = Eval.declared decl parent
  programs : a.imports → ∀ program, Eval.Importable s program → program.Accounted a

namespace Session.Accounted

theorem methodAccess (h : s.Accounted a) (other : name ≠ "Tvir")
    (provided : s.classes.findMethod id name = some routine) :
    s.classes.methodAccess id name = routine.access ∧ a.known name routine := by
  have same : ∀ id, (s.classes.info id).methodAccess.get? name =
      ((s.classes.info id).methods.get? name).map (·.access) := by
    intro id
    obtain ⟨decl, parent, accounted, declared⟩ := h.classes id
    rw [declared]
    exact (accounted _ false .here).1 name other
  have told : s.classes.methodAccess id name =
      ((s.classes.findMethod id name).map (·.access)).getD .publicAccess :=
    congrArg (Option.getD · _) (ClassGraph.searchUpTo_map (·.methods.get? name) _ same ..)
  obtain ⟨owner, found⟩ := ClassGraph.searchUpTo_some provided
  obtain ⟨decl, parent, accounted, declared⟩ := h.classes owner
  rw [declared] at found
  refine ⟨?_, (accounted _ false .here).2 name routine found other⟩
  rw [told, provided]
  rfl

theorem offered (h : s.Accounted a) (offers : s.classes.Offers routine)
    (inBody : p ∈ routine.body) : p.Accounted a := by
  obtain ⟨id, stored⟩ := offers.stored
  obtain ⟨decl, parent, accounted, declared⟩ := h.classes id
  rw [declared] at stored
  obtain ⟨name, isMethod⟩ : ∃ name, Bindings.get? decl.methods name = some routine := by
    rcases stored with isMethod | isConstructor
    · exact isMethod
    · exact ⟨"Tvir", isConstructor⟩
  refine accounted.of_body (List.mem_append_left _ (List.mem_append_left _ ?_))
  exact List.mem_flatMap.2 ⟨_, Bindings.mem_of_get? isMethod, inBody⟩

theorem destructor (h : s.Accounted a)
    (stored : (s.classes.info id).destructor = some body) (inBody : p ∈ body) :
    p.Accounted a := by
  obtain ⟨decl, parent, accounted, declared⟩ := h.classes id
  rw [declared] at stored
  have stored : decl.destructor = some body := stored
  refine accounted.of_body (List.mem_append_right _ ?_)
  rw [stored]
  exact inBody

theorem withClass (h : s.Accounted a) {decl : ClassDecl Node}
    (accounted : (Node.classDecl decl).Accounted a) (parent : Option Nat) :
    { s with classes := (s.classes.define (Eval.declared decl parent)).2 }.Accounted a := by
  refine ⟨h.functions, fun id => ?_, h.programs⟩
  rw [ClassGraph.info_define]
  split
  · exact ⟨decl, parent, accounted, rfl⟩
  · exact h.classes id

end Session.Accounted

namespace Eval

/-! ## Runs -/

/-- Nothing is stored that does not account for its methods. -/
def accounting (a : Account) : Discipline where
  start := Session.Accounted a
  change _ t := t.Accounted a
  returns := True
  quiet start q := by
    refine ⟨q.functions ▸ start.functions, q.classes ▸ start.classes, ?_⟩
    unfold Importable
    rw [q.files, q.strict, q.dialect]
    exact start.programs
  trans _ second := second
  keeps _ change := change

theorem accounting_binds (name : String) : (accounting a).Binds name :=
  fun _ start => ⟨fun _ => ⟨start.functions, start.classes, start.programs⟩, start.functions,
    start.classes, start.programs⟩

theorem accounting_runBody {ev : Node → Eval Value}
    (h : ∀ n ∈ body, Runs (accounting a) (ev n) (ev n)) (locals : Bindings Value)
    (name : String) :
    Runs (accounting a) (runBody ev body locals name) (runBody ev body locals name) :=
  runs_runBody _ h (fun _ start => ⟨start.functions, start.classes, start.programs⟩)
    fun _ _ _ change => ⟨change.functions, change.classes, change.programs⟩

/-- A file that was written may define any method. -/
def KnowsWritten (a : Account) : Prop :=
  a.imports → a.writes → ∀ code name routine, routine.name = name →
    Parser.Defined (lex code).tokens routine → a.known name routine

theorem accounting_writes (knows : KnowsWritten a) (writes : a.writes) : (accounting a).Writes :=
  fun _ _ start _ => ⟨start.functions, start.classes, fun imports _ importable =>
    accounted_of_importable importable imports (fun _ => writes) fun _ code name routine _ =>
      knows imports writes code name routine⟩

theorem accounting_ownEffect (knows : KnowsWritten a) {ev : Node → Eval Value}
    (h : ∀ n : Node, n.Accounted a → Runs (accounting a) (ev n) (ev n))
    (accounted : node.Accounted a) : OwnEffect (accounting a) ev ev node := by
  cases node with
  | call name arguments =>
    exact fun isWrite => accounting_writes knows (accounted _ false .here isWrite)
  | assign name value hint =>
    exact runs_assignVariable (accounting_binds name) fun _ _ _ start =>
      ⟨start.functions, start.classes, start.programs⟩
  | step op target => exact runs_evalStep op fun name _ => accounting_binds name
  | forEach name array body => exact accounting_binds name
  | tryCatch body catches final => exact fun name _ _ => accounting_binds name
  | function routine =>
    exact fun s start => ⟨Bindings.forall_insert
      (P := fun routine => (Node.function routine).Accounted a) start.functions _
        accounted, start.classes, start.programs⟩
  | classDecl decl => exact fun parent _ start _ => start.withClass accounted parent
  | ret value => trivial
  | importFile path =>
    have imports : a.imports := accounted _ false .here
    refine (h path (accounted.of_part (List.mem_singleton_self path))).bind (runs_importValue
      (fun lib => accounting_binds lib.name)
      (fun _ _ start => ⟨start.functions, start.classes, start.programs⟩)
      fun s program folder start importable => ?_)
    exact runs_inFolder (h program (start.programs imports program importable))
      (fun _ start => ⟨start.functions, start.classes, start.programs⟩)
      fun _ _ _ change => ⟨change.functions, change.classes, change.programs⟩
  | _ => trivial

theorem runs_accounting (knows : KnowsWritten a) (fuel : Nat)
    (accounted : node.Accounted a) :
    Runs (accounting a) (eval fuel node) (eval fuel node) := by
  induction fuel generalizing node with
  | zero => exact runs_outOfSteps
  | succ fuel ih =>
    have calls : Calls (accounting a) (eval fuel) (eval fuel) := by
      refine ⟨fun start found _ => ?_, fun start offers _ _ _ => ?_, fun start stored _ => ?_⟩
      · refine accounting_runBody (fun n inBody => ih ?_) _ _
        exact (start.functions _ (Bindings.mem_of_get? found)).of_body inBody
      · exact accounting_runBody (fun n inBody => ih (start.offered offers inBody)) _ _
      · exact accounting_runBody (fun n inBody => ih (start.destructor stored inBody)) _ _
    exact runs_evalNode fuel (fun p isPart => ih (accounted.of_part isPart)) calls
      (accounting_ownEffect knows (fun _ => ih) accounted)

/-- The texts that a program may be run with: its own, those of the files it can import and, if a
file may be written before, any other. -/
inductive Source (s : Session) (tokens : List Token) (program : Node) : List Token → Prop
  | own : Source s tokens program tokens
  | imported {path code : String} (imports : program.Imports)
      (text : importText s.files path = .ok code) : Source s tokens program (lex code).tokens
  | written {writer : Node} (code : String) (imports : program.Imports)
      (runs : writer = program ∨ Importable s writer) (writes : writer.Writes) :
      Source s tokens program (lex code).tokens

/-- However a program ends that starts without functions and classes, the access to a method is the
one given to the method that is found. If the program was read without problems, that is the access
which is written in front of the definition of the method. -/
theorem methodAccess_of_provider {tokens : List Token} {strict : Bool}
    (read : (parse tokens strict).node = .ok node) (functions : s.functions = [])
    (classes : s.classes = {}) (fuel : Nat) (other : name ≠ "Tvir")
    (provided : (ending (eval fuel node s)).classes.findMethod id name = some routine) :
    (ending (eval fuel node s)).classes.methodAccess id name = routine.access ∧
      ((parse tokens strict).state.problems = [] → routine.name = name ∧
        ∃ text, Source s tokens node text ∧ Parser.Defined text routine) := by
  let a : Account :=
    { known := fun name routine => (parse tokens strict).state.problems = [] →
        routine.name = name ∧ ∃ text, Source s tokens node text ∧ Parser.Defined text routine
      imports := node.Imports
      writes := ∃ writer, (writer = node ∨ Importable s writer) ∧ writer.Writes }
  have knows : KnowsWritten a := fun imports ⟨_, runs, writes⟩ code name routine named defined _ =>
    ⟨named, _, .written code imports runs writes, defined⟩
  have accounted : node.Accounted a := by
    refine Parser.accounted_of_parse read (·) (fun writes => ⟨node, .inl rfl, writes⟩) ?_
    exact fun name routine defined clean =>
      ⟨(defined clean).1, tokens, .own, (defined clean).2⟩
  have start : s.Accounted a := by
    refine ⟨?_, fun id => ⟨⟨"", [], none, none, none, [], [], [], []⟩, none, ?_, ?_⟩, ?_⟩
    · rw [functions]
      exact List.forall_mem_nil _
    · intro m inside occurs
      cases occurs with
      | here => exact ⟨fun _ _ => rfl, fun _ _ found => nomatch found⟩
      | part isPart _ => cases isPart
      | body isBody _ => cases isBody
    · rw [classes]
      rfl
    · intro imports program importable
      refine accounted_of_importable importable imports
        (fun writes => ⟨program, .inr importable, writes⟩) ?_
      exact fun path code name routine text named defined _ =>
        ⟨named, _, .imported imports text, defined⟩
  exact (runs_accounting knows fuel accounted s start).change.methodAccess other provided

/-- Methods that are overridden with more and with less access. -/
def overridden : String :=
  "Chief\nClass A \x7b Private Function m() \x7b \x7d Function n() \x7b \x7d \x7d\n" ++
  "Class B : A \x7b Function m() \x7b \x7d Protected Function n() \x7b \x7d \x7d\n" ++
  "Class C : B \x7b Private Function m() \x7b \x7d \x7d"

theorem methodAccess_of_provider_overridden :
    ∃ program, (parse (lex overridden).tokens).node = .ok program ∧
      (ending (eval 9 program {})).classes.methodAccess 1 "m" = .publicAccess ∧
      (ending (eval 9 program {})).classes.methodAccess 2 "n" = .protectedAccess ∧
      ∃ routine : Routine Node, routine.access = .protectedAccess ∧
        ∃ text, Source {} (lex overridden).tokens program text ∧ Parser.Defined text routine := by
  have evaluated : (let outcome := parse (lex overridden).tokens
      outcome.state.problems.isEmpty && outcome.node.toOption.any fun program =>
        let graph := (ending (eval 9 program {})).classes
        (graph.findMethod 1 "m").any (·.access = .publicAccess) &&
          (graph.findMethod 2 "n").any (·.access = .protectedAccess)) = true := by
    decide +kernel
  obtain ⟨clean, provided⟩ := Bool.and_eq_true_iff.1 evaluated
  cases read : (parse (lex overridden).tokens).node with
  | error stop =>
    rw [read] at provided
    cases provided
  | ok program =>
    rw [read] at provided
    obtain ⟨first, second⟩ := Bool.and_eq_true_iff.1 provided
    obtain ⟨m, isMethod, access⟩ := (Option.any_eq_true _ _).1 first
    obtain ⟨n, isMethod', access'⟩ := (Option.any_eq_true _ _).1 second
    have told := methodAccess_of_provider read rfl rfl 9 (by decide) isMethod
    have told' := methodAccess_of_provider read rfl rfl 9 (by decide) isMethod'
    exact ⟨program, rfl, told.1.trans (of_decide_eq_true access),
      told'.1.trans (of_decide_eq_true access'), n, of_decide_eq_true access',
      (told'.2 (List.isEmpty_iff.1 clean)).2⟩

end Eval

end Hetman
