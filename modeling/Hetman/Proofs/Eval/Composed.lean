import Hetman.Proofs.Eval.Runs

/-!
# What evaluations are made of

A property of families of evaluations is compositional if it holds of evaluations without parts
(`Leaf`) and is kept by what is done one after the other, and by what is put back when an evaluation
is left. A step of the evaluator keeps such a property, except at exits and guarded blocks.
-/

namespace Hetman

/-- A node that may end the program, or that signals may end at. -/
def Node.guards : Node → Bool
  | .exit _ | .tryCatch .. => true
  | _ => false

namespace Eval

variable {ι α : Type}

/-! ## Evaluations without parts -/

/-- Objects are older, and more may be written. -/
structure Ageing (s t : Session) : Prop where
  heap : s.heap.Ages t.heap
  output : Continues s.output t.output

@[refl] theorem Ageing.refl (s : Session) : Ageing s s :=
  ⟨.refl _, .refl _⟩

theorem Ageing.trans {s t u : Session} (first : Ageing s t) (second : Ageing t u) : Ageing s u :=
  ⟨first.heap.trans second.heap, first.output.trans second.output⟩

def ageing : Change :=
  ⟨Ageing, Ageing.refl, Ageing.trans⟩

/-- An evaluation that neither returns nor exits, at most lets objects grow older, and does not see
the code of the last exit. -/
abbrev Leaf (x : Eval α) : Prop :=
  Still ageing x

theorem Still.leaf {x : Eval α} (h : Silent x) : Leaf x where
  stops := h.stops
  change s := ⟨(h.change s).heap, (h.change s).output⟩
  blind := h.blind

/-- A change that spares objects, output and the code of the last exit. -/
theorem leaf_adjust (f : Session → Session) (others : ∀ (s : Session) code,
    (f s).heap = s.heap ∧ (f s).output = s.output ∧
      f (s.exitedWith code) = (f s).exitedWith code) : Leaf (modify f) := by
  refine .modify f (fun s => ⟨?_, ?_⟩) fun s code => (others s code).2.2
  · exact (others s s.exitCode).1 ▸ .refl _
  · exact (others s s.exitCode).2.1 ▸ .refl _

theorem leaf_bind_ (name : String) (value : Value) : Leaf (bind_ name value) :=
  leaf_adjust _ fun _ _ => ⟨rfl, rfl, rfl⟩

theorem leaf_evalClass (decl : ClassDecl Node) : Leaf (evalClass decl) := by
  have defined : ∀ parent : Option Nat, Leaf (do
      let id ← (modifyGet fun s => ((s.classes.define (declared decl parent)).1,
        { s with classes := (s.classes.define (declared decl parent)).2 }) : Eval Nat)
      return Value.classRef id) :=
    fun parent => .bind (.modifyGet _ (fun s => ⟨.refl _, .refl _⟩) fun _ _ => rfl) fun _ => .pure _
  unfold evalClass
  split
  · exact (Still.pure _).bind defined
  · refine .get (fun s => ?_) fun _ _ => rfl
    split
    · exact (Still.pure _).bind defined
    · exact (still_reject _).bind defined

/-- Opens a file among the given ones, now those of the session, and writes to it. -/
def writeAmong (path : String) (content : Value) (keep : Bool) (files : Files) : Eval Value :=
  match files.create path keep with
  | .error fault => fail (pathFault fault path .writing)
  | .ok (place, files) => do
    modify fun s => { s with files }
    let text ← display content
    modify fun s => { s with files := s.files.appendText place text }
    return .none

theorem leaf_writeAmong (path : String) (content : Value) (keep : Bool) (files : Files) :
    Leaf (writeAmong path content keep files) := by
  unfold writeAmong
  split
  · exact still_fail _
  · refine .bind (leaf_adjust _ fun _ _ => ⟨rfl, rfl, rfl⟩) fun _ => ?_
    refine .bind (still_display content) fun text => ?_
    exact .bind (leaf_adjust _ fun _ _ => ⟨rfl, rfl, rfl⟩) fun _ => .pure _

theorem leaf_writeFile (path content : Value) (keep : Bool) :
    Leaf (writeFile path content keep) := by
  cases path with
  | text path =>
    have among : Leaf (get >>= fun s => writeAmong path content keep s.files) :=
      .get (fun s => leaf_writeAmong path content keep s.files) fun _ _ => rfl
    have same : writeFile (.text path) content keep =
        (get >>= fun s => writeAmong path content keep s.files) := by
      funext s
      unfold writeFile writeAmong
      dsimp only
      rw [get_bind_apply, get_bind_apply]
      cases s.files.create path keep <;> rfl
    rwa [same]
  | _ => exact still_reject _

/-! ## Leaving an evaluation -/

theorem Frame.ageing_leave (frame : Frame) (s : Session) : Ageing s (frame.leave s) := by
  cases frame with
  | destructor ref => exact ⟨Object.ages_markDestroyed s.heap ref, .refl _⟩
  | handler name before =>
    cases before with
    | none => exact ⟨.refl _, .refl _⟩
    | some value => cases value <;> exact ⟨.refl s.heap, .refl s.output⟩
  | _ => exact ⟨.refl _, .refl _⟩

/-- Leaving an evaluation changes neither the exit code nor the output. -/
theorem Frame.leave_same (frame : Frame) (s : Session) :
    (∀ code, frame.leave (s.exitedWith code) = (frame.leave s).exitedWith code) ∧
      (frame.leave s).exitCode = s.exitCode ∧ (frame.leave s).output = s.output := by
  cases frame with
  | handler name before =>
    cases before with
    | none => exact ⟨fun _ => rfl, rfl, rfl⟩
    | some value => cases value <;> exact ⟨fun _ => rfl, rfl, rfl⟩
  | _ => exact ⟨fun _ => rfl, rfl, rfl⟩

theorem leaf_leave (frame : Frame) : Leaf (modify fun s => frame.leave s) :=
  .modify _ frame.ageing_leave fun s => (frame.leave_same s).1

/-- The value that a body returns. -/
def returning (x : Eval Unit) : Eval Value := do
  match ← attempt x with
  | .ok () => return .none
  | .error (.returned value) => return value
  | .error signal => throw signal

theorem within_apply (frame : Frame) (x : Eval α) (s : Session) :
    within frame x s =
      match x s with
      | .ok a t => .ok a (frame.leave t)
      | .error signal t => .error signal (frame.leave t) := by
  unfold within
  cases result : x s with
  | ok a t =>
    rw [bind_ok (attempt_ok result)]
    rfl
  | error signal t =>
    rw [bind_ok (attempt_error result)]
    rfl

theorem ending_within (frame : Frame) (x : Eval α) (s : Session) :
    ending (within frame x s) = frame.leave (ending (x s)) := by
  rw [within_apply]
  cases x s <;> rfl

theorem returning_apply (x : Eval Unit) (s : Session) :
    returning x s =
      match x s with
      | .ok () t => .ok .none t
      | .error (.returned value) t => .ok value t
      | .error signal t => .error signal t := by
  unfold returning
  cases result : x s with
  | ok a t =>
    rw [bind_ok (attempt_ok result)]
    rfl
  | error signal t =>
    rw [bind_ok (attempt_error result)]
    cases signal <;> rfl

theorem runBody_eq (ev : Node → Eval Value) (body : List Node) (locals : Bindings Value)
    (name : String) :
    runBody ev body locals name = (runBody.enter locals name >>= fun before =>
      returning (within (.body before.1 before.2) (runBlock ev body))) := by
  funext s
  have entering : runBody.enter locals name s = .ok (s.env, s.function) (entered locals name s) :=
    rfl
  rw [runBody_apply, bind_ok entering, returning_apply, within_apply]
  cases runBlock ev body (entered locals name s) with
  | ok u t => rfl
  | error signal t => cases signal <;> rfl

theorem inFolder_eq (folder : String) (x : Eval Value) :
    inFolder folder x = (get >>= fun s => (modify fun t => { t with folder := some folder }) >>=
      fun _ => within (.file s.folder) x >>= fun _ => pure ()) := by
  simp only [within, bind_assoc]
  rfl

/-! ## Compositional properties -/

/-- A property of families of evaluations that is kept by all ways to put these together but
attempts. -/
structure Compositional (R : (α : Type) → (ι → Eval α) → Prop) : Prop where
  leaf : ∀ {α : Type} {x : Eval α}, Leaf x → R α fun _ => x
  ret : ∀ {α : Type} (value : Value), R α fun _ => throw (.returned value)
  look : ∀ {α : Type} {f : Session → ι → Eval α}, (∀ s, R α (f s)) →
    (∀ (s : Session) code, f (s.exitedWith code) = f s) → R α fun i => get >>= fun s => f s i
  bind : ∀ {α β : Type} {x : ι → Eval α} {f : α → ι → Eval β}, R α x → (∀ a, R β (f a)) →
    R β fun i => x i >>= fun a => f a i
  within : ∀ {α : Type} {x : ι → Eval α} (frame : Frame), R α x →
    R α fun i => Eval.within frame (x i)
  asScript : ∀ {α : Type} {x : ι → Eval α}, R α x → R α fun i => Eval.asScript (x i)
  returning : ∀ {x : ι → Eval Unit}, R Unit x → R Value fun i => Eval.returning (x i)

namespace Compositional

variable {R : (α : Type) → (ι → Eval α) → Prop} {ev : ι → Node → Eval Value}
  (comp : Compositional R)

include comp

theorem rules : Rules (fun _ => True) R where
  silent h := comp.leaf h.leaf
  look h blind := comp.look (fun s => h s trivial) blind
  bind := comp.bind
  asScript := comp.asScript
  destructor ref h := comp.within (.destructor ref) h

theorem adjust {f : Session → Session} (others : ∀ (s : Session) code,
    (f s).heap = s.heap ∧ (f s).output = s.output ∧
      f (s.exitedWith code) = (f s).exitedWith code) : R Unit fun _ => modify f :=
  comp.leaf (leaf_adjust f others)

variable (parts : ∀ node, R Value fun i => ev i node)

include parts

theorem runBody (body : List Node) (locals : Bindings Value) (name : String) :
    R Value fun i => Eval.runBody (ev i) body locals name := by
  simp only [runBody_eq]
  refine comp.bind (comp.leaf ?_) fun before => ?_
  · exact .modifyGet _ (fun s => ⟨.refl _, .refl _⟩) fun _ _ => rfl
  exact comp.returning (comp.within _ (comp.rules.runBlock fun n _ => parts n))

theorem provides : Provides (fun _ => True) R fun i => .plain (ev i) where
  function _ _ _ := comp.runBody parts ..
  method _ _ _ _ _ _ _ := comp.runBody parts ..
  destroy _ := comp.rules.destroy fun _ _ => comp.runBody parts ..
  read ref name := comp.leaf (silent_readMember ref name).leaf
  write ref name v := comp.leaf (silent_setField ref name v).leaf

theorem destroy (ref : Nat) : R Unit fun i => Eval.destroy (ev i) ref :=
  (comp.provides parts).destroy ref

theorem importValue (target : Value) : R Value fun i => Eval.importValue (ev i) target := by
  refine comp.rules.importValue (fun lib v => comp.leaf (leaf_bind_ lib.name v)) ?_ target
  refine comp.rules.runImport (fun _ => comp.adjust fun _ _ => ⟨rfl, rfl, rfl⟩) ?_
  intro _ program folder _ _
  simp only [inFolder_eq]
  refine comp.look (fun s => ?_) fun _ _ => rfl
  refine comp.bind (comp.adjust fun _ _ => ⟨rfl, rfl, rfl⟩) fun _ => ?_
  exact comp.bind (comp.within _ (parts program)) fun _ => comp.rules.pure _

theorem own {node : Node} (plain : node.guards = false) : Own R ev node := by
  cases node with
  | call name arguments => exact fun _ _ _ _ => comp.leaf (leaf_writeFile ..)
  | assign name value hint =>
    exact fun v => comp.rules.assignVariable (comp.leaf (leaf_bind_ name v))
      fun _ _ => comp.adjust fun _ _ => ⟨rfl, rfl, rfl⟩
  | step op target =>
    exact comp.rules.evalStep op fun name _ v => comp.leaf (leaf_bind_ name v)
  | forEach name array body =>
    exact ⟨fun v => comp.leaf (leaf_bind_ name v), comp.adjust fun _ _ => ⟨rfl, rfl, rfl⟩⟩
  | tryCatch body catches final => cases plain
  | function routine => exact comp.adjust fun _ _ => ⟨rfl, rfl, rfl⟩
  | classDecl decl => exact comp.leaf (leaf_evalClass decl)
  | ret value => exact fun v => comp.ret v
  | exit code => cases plain
  | importFile path => exact comp.bind (parts path) fun target => comp.importValue parts target
  | _ => trivial

theorem evalNode (fuel : Nat) {node : Node} (plain : node.guards = false) :
    R Value fun i => Eval.evalNode fuel (ev i) node := by
  have step := comp.rules.evalNode (comp.provides parts) fuel (fun p _ => parts p)
    (comp.own parts plain)
  simpa only [Services.plain_evalNode] using step

end Compositional

end Eval

end Hetman
