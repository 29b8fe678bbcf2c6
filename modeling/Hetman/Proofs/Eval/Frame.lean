import Hetman.Proofs.Eval.Runs
import Hetman.Proofs.Parser.Termination

/-!
# What an evaluation leaves as it was

An evaluation that imports nothing leaves the running function and the folder as they were, and
every variable that its node does not name as a target: of an assignment, of a step, of a loop over
a list or of a handler. Targets inside of bodies do not count, because the caller gets its variables
back (`eval_frame`).
-/

namespace Hetman

variable {m : Node}

/-! ## Targets -/

/-- The variables that a node binds itself. -/
def Node.targets : Node → List String
  | .assign name _ _ => [name]
  | .step _ (.var name) => [name]
  | .forEach name _ _ => [name]
  | .tryCatch _ catches _ => catches.filterMap (·.1)
  | _ => []

/-- A node binds only some names, and returns and imports only if allowed; an import may bind any
variable. -/
def Node.Stays (T : String → Prop) (returns : Prop) : Node → Prop
  | .ret _ => returns
  | .importFile _ => (∀ x, T x) ∧ returns
  | node => ∀ x ∈ node.targets, T x

namespace Eval

variable {node : Node}

/-! ## The discipline -/

/-- The function, the folder and all variables but some are the same. -/
structure Framed (T : String → Prop) (s t : Session) : Prop where
  function : t.function = s.function
  folder : t.folder = s.folder
  env : ∀ x, ¬ T x → t.env.get? x = s.env.get? x

/-- Only some variables are bound, and returning may be allowed. -/
def frame (T : String → Prop) (returns : Prop) : Discipline where
  start _ := True
  change := Framed T
  returns := returns
  quiet _ h := ⟨h.function, h.folder, fun x _ => congrArg (Bindings.get? · x) h.env⟩
  trans first second :=
    ⟨second.function.trans first.function, second.folder.trans first.folder,
      fun x hx => (second.env x hx).trans (first.env x hx)⟩
  keeps _ _ := trivial

variable {T : String → Prop} {returns : Prop} {ev : Node → Eval Value}

theorem frame_binds {name : String} (h : T name) : (frame T returns).Binds name := by
  intro s _
  have other : ∀ x, ¬ T x → name ≠ x := fun x hx same => hx (same ▸ h)
  refine ⟨fun v => ⟨rfl, rfl, fun x hx => ?_⟩, ⟨rfl, rfl, fun x hx => ?_⟩⟩
  · exact (Bindings.get?_insert ..).trans (if_neg (other x hx))
  · exact Bindings.get?_erase _ (other x hx)

/-- A body may bind and return what it likes: the caller does not see it. -/
theorem frame_runBody {body : List Node}
    (h : ∀ n ∈ body, Runs (frame (fun _ => True) True) (ev n) (ev n))
    (locals : Bindings Value) (name : String) :
    Runs (frame T returns) (runBody ev body locals name) (runBody ev body locals name) :=
  runs_runBody (frame (fun _ => True) True) h (fun _ start => start)
    fun _ _ _ change => ⟨rfl, change.folder, fun _ _ => rfl⟩

theorem frame_calls (h : ∀ n, Runs (frame (fun _ => True) True) (ev n) (ev n)) :
    Calls (frame T returns) ev ev where
  function _ _ _ := frame_runBody (fun n _ => h n) _ _
  method _ _ _ _ _ := frame_runBody (fun n _ => h n) _ _
  destructor _ _ _ := frame_runBody (fun n _ => h n) _ _

/-! ## Evaluation -/

theorem frame_ownEffect (stays : node.Stays T returns)
    (h : (∀ x, T x) → returns → ∀ n, Runs (frame T returns) (ev n) (ev n)) :
    OwnEffect (frame T returns) ev ev node := by
  cases node with
  | call name arguments => exact fun _ s files _ _ => ⟨rfl, rfl, fun _ _ => rfl⟩
  | assign name value hint =>
    have target : T name := stays name (List.mem_singleton_self _)
    exact runs_assignVariable (frame_binds target) fun _ _ _ _ => ⟨rfl, rfl, fun _ _ => rfl⟩
  | step op target =>
    apply runs_evalStep
    rintro name rfl
    exact frame_binds (stays name (List.mem_singleton_self _))
  | forEach name array body => exact frame_binds (stays name (List.mem_singleton_self _))
  | tryCatch body catches final =>
    intro name handler isHandler
    exact frame_binds (stays name (List.mem_filterMap.2 ⟨_, isHandler, rfl⟩))
  | function routine => exact fun s _ => ⟨rfl, rfl, fun _ _ => rfl⟩
  | classDecl decl => exact fun parent s _ _ => ⟨rfl, rfl, fun _ _ => rfl⟩
  | ret value => exact stays
  | importFile path =>
    obtain ⟨all, allowed⟩ := stays
    have runs := h all allowed
    have records : (frame T returns).Records := fun _ _ _ => ⟨rfl, rfl, fun _ _ => rfl⟩
    refine (runs path).bind (runs_importValue (fun _ => frame_binds (all _)) records ?_)
    intro s program folder _ _
    exact runs_inFolder (runs program) (fun _ start => start)
      fun _ _ _ change => ⟨change.function, rfl, change.env⟩
  | _ => trivial

theorem runs_frame (fuel : Nat) {T : String → Prop} {returns : Prop}
    (stays : ∀ m, node.Occurs m false → m.Stays T returns) :
    Runs (frame T returns) (eval fuel node) (eval fuel node) := by
  induction fuel generalizing node T returns with
  | zero => exact runs_outOfSteps
  | succ fuel ih =>
    have anything : ∀ n : Node, n.Stays (fun _ => True) True := by
      intro n
      cases n <;> simp [Node.Stays]
    have parts : ∀ p ∈ node.parts, Runs (frame T returns) (eval fuel p) (eval fuel p) :=
      fun p hp => ih fun m hm => stays m (.part hp hm)
    refine runs_evalNode fuel parts (frame_calls fun n => ih fun m _ => anything m) ?_
    refine frame_ownEffect (stays node .here) fun all allowed n => ih fun m _ => ?_
    cases m <;> simp [Node.Stays, all, allowed]

theorem targets_of_expressionForm (form : m.isExpressionForm = true) : m.targets = [] := by
  cases m <;> first | rfl | cases form

/-- An expression form binds nothing itself, and does not return. -/
theorem stays_of_expressionForm (form : m.isExpressionForm = true) :
    m.Stays (fun _ => False) False := by
  have nothing : ∀ x ∈ m.targets, False := by
    rw [targets_of_expressionForm form]
    exact fun x hx => nomatch hx
  cases m with
  | ret value | importFile path => cases form
  | _ => exact nothing

/-- An evaluation without imports leaves the running function, the folder and every variable but its
targets as they were, however it ends. An expression leaves all variables as they were and does not
return; what is read as one is one. -/
theorem eval_frame (fuel : Nat) (node : Node) (s : Session)
    (noImport : ∀ path, ¬ node.Occurs (.importFile path) false) :
    let t := ending (eval fuel node s)
    (t.function = s.function ∧ t.folder = s.folder ∧
      ∀ x, (∀ m, node.Occurs m false → x ∉ m.targets) → t.env.get? x = s.env.get? x) ∧
    (node.OnlyExpressions →
      (∀ x, t.env.get? x = s.env.get? x) ∧ ∀ v u, eval fuel node s ≠ .error (.returned v) u) ∧
    ∀ p q, Parser.orExpression p = .ok node q → node.OnlyExpressions := by
  intro t
  have stays : ∀ m, node.Occurs m false →
      m.Stays (fun x => ∃ m, node.Occurs m false ∧ x ∈ m.targets) True := by
    intro m occurs
    have bound : ∀ x ∈ m.targets, ∃ m, node.Occurs m false ∧ x ∈ m.targets :=
      fun x hx => ⟨m, occurs, hx⟩
    cases m with
    | importFile path => exact absurd occurs (noImport path)
    | ret value => trivial
    | _ => exact bound
  have framed := (runs_frame fuel stays s trivial).change
  refine ⟨⟨framed.function, framed.folder, fun x notTarget => ?_⟩, fun only => ?_, ?_⟩
  · exact framed.env x fun ⟨m, occurs, target⟩ => notTarget m occurs target
  · have runs := runs_frame fuel (fun m occurs => stays_of_expressionForm (only m occurs)) s trivial
    exact ⟨fun x => runs.change.env x id, runs.returns⟩
  · exact fun p q read => Parser.onlyExpressions_of_read read

/-- A function that binds a variable of its caller's and imports a library. -/
def rebinding : Routine Node where
  name := "f"
  parameters := []
  body := [.importFile (.text "math"), .assign "y" (.number (.int 2)) none, .ret (.var "y")]

/-- The caller of a function that binds `y` has its own `y` back. -/
theorem eval_frame_rebinding :
    let s : Session := { env := [("y", .int 1)], functions := [("f", rebinding)] }
    let node : Node := .assign "x" (.call "f" (some [])) none
    (∀ path, ¬ node.Occurs (.importFile path) false) ∧
      (∀ m, node.Occurs m false → "y" ∉ m.targets) ∧
      (ending (eval 5 node s)).env.get? "y" = some (.int 1) ∧
      (ending (eval 5 node s)).env.get? "x" = some (.int 2) := by
  intro s node
  have inside : ∀ P : Node → Prop, P node → P (.call "f" (some [])) →
      ∀ m, node.Occurs m false → P m := by
    intro P whole call
    apply Node.forall_occurs whole
    intro p isPart
    cases List.mem_singleton.1 isPart
    exact Node.forall_occurs call fun q isPart => nomatch isPart
  have noImport : ∀ path, ¬ node.Occurs (.importFile path) false := fun path occurs =>
    inside (· ≠ .importFile path) nofun nofun _ occurs rfl
  have notTarget : ∀ m, node.Occurs m false → "y" ∉ m.targets :=
    inside (fun m => "y" ∉ m.targets) (by decide) (by decide)
  exact ⟨noImport, notTarget, (eval_frame 5 node s noImport).1.2.2 "y" notTarget, rfl⟩

end Eval

end Hetman
