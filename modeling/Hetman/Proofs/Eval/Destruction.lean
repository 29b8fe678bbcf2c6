import Hetman.Proofs.Eval.Noting

/-!
# Runs of destructors

The object of a destructor is destroyed when it ends, not when it starts. So it runs again if its
own body destroys the object once more (`destructor_runs_again`), but only so
(`destructor_runs_nested`).

That a run has ended is kept in the register of `noting`: then the object is destroyed (`Gone`),
except between the end of a body and the moment when its object is marked, so a destruction is
looked at as a whole (`sameBut_destroy`).
-/

namespace Hetman.Eval

variable {ev ev' : Node → Eval Value}

/-- Notes that a destructor has ended on an object that there is. -/
def noteEnd (ref : Nat) (s : Session) : Session :=
  if ref < s.heap.objects.size then s.exitedWith (.flag true) else s

/-- Raises an alarm if the end of a destructor has been noted. -/
def warn (alarm : Eval Unit) : Eval Unit := do
  if (← get).exitCode = .flag true then alarm

def notingEnd (ref : Nat) (run : Eval Value) : Eval Value := do
  let outcome ← attempt run
  modify (noteEnd ref)
  conclude outcome

/-- The services that watch the runs of an object's destructor. -/
def watchingDestructor (alarm : Eval Unit) (ref : Nat) (ev : Node → Eval Value) : Services :=
  { Services.plain ev with
    run := fun act parameters args body =>
      let run := (Services.plain ev).run act parameters args body
      if act = .on .destructor ref "Destructor" then warn alarm >>= fun _ => notingEnd ref run
      else run }

/-- Evaluation with an alarm when an object's destructor starts after it has ended once. -/
def warned (alarm : Eval Unit) (ref : Nat) : (fuel : Nat) → Node → Eval Value
  | 0, _ => throw (.suspended .steps)
  | fuel + 1, .exit code => exitNoting (fun register _ => register) (warned alarm ref fuel) code
  | fuel + 1, node =>
    (watchingDestructor alarm ref (warned alarm ref fuel)).evalNode (warned alarm ref fuel) fuel
      node

/-- If the register notes the end of a destructor, the object is destroyed. -/
def Gone (ref : Nat) (code : ExitCode) (s : Session) : Prop :=
  code = .flag true → (s.heap.object ref).destroyed = true

theorem gone_lasting (ref : Nat) : Lasting (Gone ref) :=
  fun _ _ _ gone ages ended => ages.stays (gone ended)

variable {alarm : Eval Unit} {ref : Nat}

/-- Without a note there is no alarm. -/
theorem warn_apply {s : Session} {code : ExitCode} (fresh : code ≠ .flag true) :
    warn alarm (s.exitedWith code) = .ok () (s.exitedWith code) := by
  show (if code = .flag true then alarm else pure ()) (s.exitedWith code) = _
  rw [if_neg fresh]
  rfl

theorem noteEnd_exitedWith (s : Session) (code : ExitCode) :
    noteEnd ref (s.exitedWith code) =
      s.exitedWith (if ref < s.heap.objects.size then .flag true else code) := by
  show (if ref < s.heap.objects.size then _ else _) = _
  split <;> rfl

theorem notingEnd_apply (run : Eval Value) (s : Session) :
    notingEnd ref run s =
      match run s with
      | .ok v t => .ok v (noteEnd ref t)
      | .error signal t => .error signal (noteEnd ref t) := by
  unfold notingEnd
  cases result : run s with
  | ok v t =>
    rw [bind_ok (attempt_ok result)]
    rfl
  | error signal t =>
    rw [bind_ok (attempt_error result)]
    rfl

theorem gone_noted {code : ExitCode} {t : Session} (kept : Gone ref code t) :
    Gone ref (if ref < t.heap.objects.size then .flag true else code)
      ((Frame.destructor ref).leave t) := by
  split
  · rename_i known
    intro _
    show ((Object.markDestroyed t.heap ref).object ref).destroyed = true
    rw [Object.object_markDestroyed known]
  · exact gone_lasting ref code t _ kept (Object.ages_markDestroyed t.heap ref)

theorem sameBut_notingEnd {run run' : Eval Value} (h : SameBut (Gone ref) run run') :
    SameBut (Gone ref) (within (.destructor ref) (notingEnd ref run))
      (within (.destructor ref) run') := by
  intro s code start
  obtain ⟨code', same, kept⟩ := h s code start
  rw [within_apply, within_apply, notingEnd_apply, same]
  cases result : run' s with
  | ok v t | error signal t =>
    rw [result] at kept
    refine ⟨_, ?_, gone_noted kept⟩
    dsimp only [exitedWith]
    rw [noteEnd_exitedWith]
    rfl

/-- A destruction, in one look at the session. -/
theorem Services.destroy_apply (services : Services) (ref : Nat) (s : Session) :
    services.destroy ref s =
      if (s.heap.object ref).destroyed then .ok () s
      else
        match (s.classes.info (s.heap.object ref).classId).destructor with
        | none => .ok () { s with heap := Object.markDestroyed s.heap ref }
        | some body =>
          (within (.destructor ref) (services.run (.on .destructor ref "Destructor") [] [] body) >>=
            fun _ => pure ()) s := by
  unfold Services.destroy
  rw [get_bind_apply]
  simp only [within, bind_assoc]
  cases (s.heap.object ref).destroyed with
  | true => rfl
  | false => cases (s.classes.info (s.heap.object ref).classId).destructor <;> rfl

/-- A destruction in which the run of the destructor is watched. -/
theorem sameBut_destroy
    (bodies : ∀ body locals name,
      SameBut (Gone ref) (runBody ev body locals name) (runBody ev' body locals name)) :
    SameBut (Gone ref) ((watchingDestructor alarm ref ev).destroy ref)
      ((Services.plain ev').destroy ref) := by
  intro s code start
  rw [Services.destroy_apply, Services.destroy_apply]
  simp only [show (s.exitedWith code).heap = s.heap from rfl,
    show (s.exitedWith code).classes = s.classes from rfl]
  cases gone : (s.heap.object ref).destroyed with
  | true => exact ⟨code, rfl, start⟩
  | false =>
    have fresh : code ≠ .flag true := by
      intro ended
      rw [start ended] at gone
      cases gone
    cases (s.classes.info (s.heap.object ref).classId).destructor with
    | none =>
      exact ⟨code, rfl, gone_lasting ref code s _ start (Object.ages_markDestroyed s.heap ref)⟩
    | some body =>
      have watched : (watchingDestructor alarm ref ev).run (.on .destructor ref "Destructor") [] []
          body = (warn alarm >>= fun _ => notingEnd ref
            (runBody ev body [("this", .object ref)] "Destructor")) := if_pos rfl
      have calm : within (.destructor ref) ((watchingDestructor alarm ref ev).run
          (.on .destructor ref "Destructor") [] [] body) (s.exitedWith code) =
          within (.destructor ref) (notingEnd ref
            (runBody ev body [("this", .object ref)] "Destructor")) (s.exitedWith code) := by
        rw [within_apply, within_apply, watched, bind_ok (warn_apply fresh)]
      have ended := (sameBut_notingEnd (bodies body [("this", .object ref)] "Destructor")).bind
        fun _ => sameBut_leaf (gone_lasting ref) (.pure ())
      obtain ⟨code', same, kept⟩ := ended s code start
      exact ⟨code', (bind_eq calm).trans same, kept⟩

theorem sameBut_watching (parts : ∀ node, SameBut (Gone ref) (ev node) (ev' node)) {node : Node}
    (stays : ∀ code, node ≠ .exit code) (fuel : Nat) :
    SameBut (Gone ref) ((watchingDestructor alarm ref ev).evalNode ev fuel node)
      (evalNode fuel ev' node) := by
  have lasting := gone_lasting ref
  have closed := sameBut_closed lasting
  have comp := closed.compositional fun _ => True
  have bodies : ∀ body locals name, SameBut (Gone ref) (runBody ev body locals name)
      (runBody ev' body locals name) :=
    @Compositional.runBody _ _ (pair ev ev') comp parts
  have others : ∀ act, act ≠ .on .destructor ref "Destructor" → ∀ parameters args body,
      SameBut (Gone ref) ((watchingDestructor alarm ref ev).run act parameters args body)
        ((Services.plain ev').run act parameters args body) := by
    intro act other parameters args body
    have plain : (watchingDestructor alarm ref ev).run act parameters args body =
        (Services.plain ev).run act parameters args body := if_neg other
    rw [plain]
    exact bodies _ _ _
  have provides : Provides (fun _ => True) (fun _ x => SameBut (Gone ref) (x true) (x false))
      (pair (watchingDestructor alarm ref ev) (.plain ev')) := by
    constructor
    · intro s name routine _ _ args
      exact others (.function name) nofun _ args _
    · intro s routine _ _ role other name args plain
      exact others _ (fun same => plain (Activation.on.inj same).1) _ args _
    · intro other
      by_cases same : other = ref
      · subst same
        exact sameBut_destroy bodies
      · refine comp.rules.destroy ?_
        intro s id body _ _
        exact others _ (fun destroys => same (Activation.on.inj destroys).2.1) [] [] body
    · exact fun ref name => sameBut_leaf lasting (silent_readMember ref name).leaf
    · exact fun ref name v => sameBut_leaf lasting (silent_setField ref name v).leaf
  have own : Own (fun _ x => SameBut (Gone ref) (x true) (x false)) (pair ev ev') node :=
    closed.own (S := fun _ => True) stays fun _ => parts
  rw [← Services.plain_evalNode]
  exact comp.rules.evalNode provides fuel (fun p _ => parts p) own

theorem warned_sameBut (fuel : Nat) (node : Node) :
    SameBut (Gone ref) (warned alarm ref fuel node) (eval fuel node) := by
  induction fuel generalizing node with
  | zero => exact sameBut_leaf (gone_lasting ref) (.throw rfl)
  | succ fuel ih =>
    have other : (∀ code, node ≠ .exit code) → SameBut (Gone ref)
        ((watchingDestructor alarm ref (warned alarm ref fuel)).evalNode (warned alarm ref fuel)
          fuel node) (eval (fuel + 1) node) := fun stays => sameBut_watching ih stays fuel
    cases node with
    | exit code =>
      have plain : eval (fuel + 1) (.exit code) =
          exitNoting (fun _ code => code) (eval fuel) code := evalExit_eq (eval fuel) code
      rw [plain]
      exact exitNoting_sameBut (gone_lasting ref) (fun _ _ _ kept => kept) ih code
    | _ => exact other nofun

/-- In a run, the destructor of an object does not start again once it has ended, however it ended:
an alarm raised then, whatever it does, makes no difference. So it starts again only while it is
running. -/
theorem destructor_runs_nested (alarm : Eval Unit) (ref fuel : Nat) (program : Node)
    (s : Session) :
    ∃ code, warned alarm ref fuel program (s.exitedWith (.flag false)) =
      exitedWith code (eval fuel program s) := by
  obtain ⟨code, same, -⟩ := warned_sameBut fuel program s (.flag false) nofun
  exact ⟨code, same⟩

/-- A destructor that counts down and destroys its own object runs once more each time. -/
theorem destructor_runs_again :
    (Report.run {} ("Chief\nClass A \x7b Destructor() \x7b Print(\"gone\");\n" ++
      "If (this.n > 0) \x7b this.n := this.n - 1; Destructor(this); \x7d \x7d \x7d\n" ++
      "a := new A();\na.n := 1;\nDestructor(a);") false none).2.output =
    "gone\ngone\n\nProgram executed successfully, kozache!\nProgram exited with code 0\n" := by
  decide +kernel

end Hetman.Eval
