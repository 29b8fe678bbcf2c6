import Hetman.Proofs.Eval.Runs

/-!
# Looking on while a program runs

A monitor is told of every node before it is evaluated, and of every member of an object before it
is read or written, with the bodies that are running. One that does nothing leaves the evaluation as
it is (`monitored_idle`). What a monitor watches for never happens if raising the alarm, whatever
the alarm is, changes nothing.
-/

namespace Hetman.Eval

/-- What is done before a node is evaluated, and before a member is read or written. -/
structure Monitor where
  node : Node → Eval Unit := fun _ => return
  read : (running : List Activation) → (ref : Nat) → (name : String) → Eval Unit :=
    fun _ _ _ => return
  write : (running : List Activation) → (ref : Nat) → (name : String) → (value : Value) →
      Eval Unit :=
    fun _ _ _ _ => return

namespace Monitor

/-- The services under a monitor. -/
def services (m : Monitor) (running : List Activation) (inside : Activation → Node → Eval Value) :
    Services where
  run act parameters args body :=
    runBody (inside act) body (act.locals ++ parameters.zip args) act.name
  read ref name := do
    m.read running ref name
    readMember ref name
  write ref name value := do
    m.write running ref name value
    setField ref name value

end Monitor

/-- Evaluates a node under a monitor while some bodies are running. -/
def monitored (m : Monitor) : (fuel : Nat) → (running : List Activation) → Node → Eval Value
  | 0, _, _ => throw (.suspended .steps)
  | fuel + 1, running, node => do
    m.node node
    (m.services running fun act => monitored m fuel (act :: running)).evalNode
      (monitored m fuel running) fuel node

variable {m : Monitor}

/-- A monitor of nodes need not be told which bodies are running. -/
theorem monitored_succ (read : ∀ running ref name, m.read running ref name = pure ())
    (write : ∀ running ref name value, m.write running ref name value = pure ()) (fuel : Nat)
    (running : List Activation) (node : Node) :
    monitored m (fuel + 1) running node =
      m.node node >>= fun _ => evalNode fuel (monitored m fuel running) node := by
  have services : ∀ running inside (ev : Node → Eval Value), (∀ act, inside act = ev) →
      m.services running inside = .plain ev := by
    intro running inside ev same
    unfold Monitor.services Services.plain
    simp only [same, read, write]
    rfl
  have told : ∀ fuel running other, monitored m fuel running = monitored m fuel other := by
    intro fuel
    induction fuel with
    | zero => exact fun _ _ => rfl
    | succ fuel ih =>
      intro running other
      funext node
      unfold monitored
      rw [services running _ (monitored m fuel running) fun act => ih _ _,
        services other _ (monitored m fuel running) fun act => ih _ _, ih other running]
  rw [monitored, services running _ (monitored m fuel running) fun act => told _ _ _]
  simp only [Services.plain_evalNode]

theorem monitored_idle (fuel : Nat) (running : List Activation) (node : Node) :
    monitored {} fuel running node = eval fuel node := by
  induction fuel generalizing node with
  | zero => rfl
  | succ fuel ih =>
    have parts : monitored {} fuel running = eval fuel := funext ih
    rw [monitored_succ (fun _ _ _ => rfl) fun _ _ _ _ => rfl, parts]
    rfl

/-- A monitor that a discipline makes superfluous. -/
theorem Discipline.About.monitored {σ : Type} {part : Session → σ} {D : Discipline}
    (about : D.About part) (records : D.Records) (node : ∀ n s, D.start s → m.node n s = .ok () s)
    (read : ∀ running ref name s, D.start s →
      (m.read running ref name >>= fun _ => readMember ref name) s = readMember ref name s)
    (write : ∀ running ref name value s, D.start s →
      (m.write running ref name value >>= fun _ => setField ref name value) s =
        setField ref name value s) (fuel : Nat) (running : List Activation) (n : Node) :
    Runs D (Eval.monitored m fuel running n) (eval fuel n) := by
  induction fuel generalizing running n with
  | zero => exact runs_outOfSteps
  | succ fuel ih =>
    have serves : Serves D
        (m.services running fun act => Eval.monitored m fuel (act :: running))
        (.plain (eval fuel)) := by
      apply Serves.of_run (fun _ => True) (fun _ _ => trivial) (fun _ _ => trivial) trivial
      · intro act parameters args body _
        exact about.runBody (fun n _ => ih (act :: running) n) _ _
      · intro ref name s start
        exact ((silent_readMember ref name).runs s start).congr (read running ref name s start)
      · intro ref name value s start
        exact ((silent_setField ref name value).runs s start).congr
          (write running ref name value s start)
    have own : OwnEffect D (Eval.monitored m fuel running) (eval fuel) n := by
      apply about.ownEffect
      rintro path rfl
      exact about.imports records (ih running) path
    have step := serves.evalNode fuel (fun p _ => ih running p) own
    rw [Services.plain_evalNode] at step
    intro s start
    exact (step s start).congr (bind_ok (node n s start))

end Hetman.Eval
