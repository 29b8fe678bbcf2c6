import Hetman.Proofs.Eval.CutShort
import Hetman.Report

/-!
# Declared types and calls

A call gives the caller its variables back, but not their declared types: there is one table of
types for all bodies. So a declaration in a body is one for the caller too
(`declared_types_outlive_calls`). Nothing but a declaration changes the table (`runs_sparing`).
-/

namespace Hetman

variable {s t : Session} {x : String}

/-- The node declares one of some variables with a type. -/
def Node.declares (among : String → Bool) : Node → Bool
  | .assign name _ hint => among name && (hint.filter (· ≠ "")).isSome
  | _ => false

namespace Eval

/-! ## Up to a declaration -/

/-- Stops a run that comes to declare one of some variables. -/
def sparing (among : String → Bool) : Monitor where
  node n := stopIf (n.declares among)

/-- The types of some variables stay as they are. -/
def untouched (among : String → Bool) : Discipline where
  start _ := True
  change s t := ∀ x, among x = true → t.types.get? x = s.types.get? x
  returns := True
  quiet _ q x _ := congrArg (Bindings.get? · x) q.types
  trans first second x isAmong := (second x isAmong).trans (first x isAmong)
  keeps _ _ := trivial

variable {among : String → Bool} {ev ev' : Node → Eval Value}

theorem untouched_ownEffect (h : ∀ n, Runs (untouched among) (ev n) (ev' n)) {node : Node}
    (spares : node.declares among = false) : OwnEffect (untouched among) ev ev' node := by
  have binds : ∀ name, (untouched among).Binds name :=
    fun name s _ => ⟨fun v x _ => rfl, fun x _ => rfl⟩
  cases node with
  | call name arguments => exact fun _ s files _ _ x _ => rfl
  | assign name value hint =>
    refine runs_assignVariable (binds name) fun type given s _ x isAmong => ?_
    refine (Bindings.get?_insert ..).trans (if_neg ?_)
    rintro rfl
    rw [Node.declares, isAmong, given] at spares
    cases spares
  | step op target => exact runs_evalStep op fun name _ => binds name
  | forEach name array body => exact binds name
  | tryCatch body catches final => exact fun name _ _ => binds name
  | function routine => exact fun s _ x _ => rfl
  | classDecl decl => exact fun parent s _ _ x _ => rfl
  | ret value => trivial
  | importFile path =>
    have records : (untouched among).Records := fun s full _ x _ => rfl
    refine (h path).bind (runs_importValue (fun lib => binds lib.name) records ?_)
    exact fun s program folder _ _ =>
      runs_inFolder (h program) (fun _ start => start) fun _ _ _ change => change
  | _ => trivial

/-- Up to their first declaration, the types of some variables are as they were. -/
theorem runs_sparing (fuel : Nat) (node : Node) :
    Runs (untouched among) (monitored (sparing among) fuel [] node)
      (monitored (sparing among) fuel [] node) := by
  induction fuel generalizing node with
  | zero => exact runs_outOfSteps
  | succ fuel ih =>
    have body : ∀ body locals name, Runs (untouched among)
        (runBody (monitored (sparing among) fuel []) body locals name)
        (runBody (monitored (sparing among) fuel []) body locals name) := fun body locals name =>
      runs_runBody _ (fun n _ => ih n) (fun _ start => start) fun _ _ _ change => change
    rw [monitored_succ (fun _ _ _ => rfl) fun _ _ _ _ => rfl]
    intro s start
    refine ((silent_stopIf _).runs s start).bindAt fun _ t passed => ?_
    obtain ⟨spares, rfl⟩ := stopIf_passed passed
    refine runs_evalNode fuel (fun p _ => ih p) ?_ (untouched_ownEffect ih spares) t start
    exact ⟨fun _ _ _ => body _ _ _, fun _ _ _ _ _ => body _ _ _, fun _ _ _ => body _ _ _⟩

/-! ## Declarations -/

theorem runBlock_append {before : List Node} (ran : runBlock ev before s = .ok () t)
    (rest : List Node) : runBlock ev (before ++ rest) s = runBlock ev rest t := by
  induction before generalizing s with
  | nil =>
    cases ran
    rfl
  | cons node before ih =>
    cases result : ev node s with
    | ok v u =>
      exact (bind_ok result).trans (ih ((bind_ok result).symm.trans ran))
    | error signal u => cases (bind_error result).symm.trans ran

theorem types_of_declaration {fuel : Nat} {hint : String} {value : Node} {v : Value}
    (given : hint ≠ "") (ran : eval fuel (.assign x value (some hint)) s = .ok v t) :
    t.types.get? x = some (TypeName.normalize hint) := by
  cases fuel with
  | zero => cases ran
  | succ fuel =>
    have step : eval (fuel + 1) (.assign x value (some hint)) s =
        (eval fuel value >>= fun v => assignVariable x v (some hint)) s := rfl
    rw [step] at ran
    cases result : eval fuel value s with
    | error signal u => cases (bind_error result).symm.trans ran
    | ok w u =>
      rw [bind_ok result, assignVariable, Option.filter_some_pos (by simpa using given)] at ran
      dsimp only at ran
      split at ran
      · cases ran
        exact (Bindings.get?_insert ..).trans (if_pos rfl)
      · cases ran

theorem assignVariable_refused {expected : String} {value : Value}
    (typed : s.types.get? x = some expected)
    (other : TypeName.accepts expected value.typeName = false) :
    assignVariable x value none s =
      .error (.failed (.script (.typeConstraint x expected value.typeName))) s := by
  unfold assignVariable
  dsimp only [Option.filter_none]
  rw [get_bind_apply, typed]
  simp only [other]
  rfl

/-- What becomes of declared types. Up to the first declaration of one of some variables their types
stay as they were, whatever is called. After a call the variables are the caller's, and the rest is
as the body has left it: a variable declared last in the body keeps its type, and from then on takes
no value of another type. -/
theorem declared_types_outlive_calls (fuel : Nat) (s : Session) :
    (∀ among node,
      let run := monitored (sparing among) fuel [] node s
      (run = eval fuel node s ∨ ∃ t, run = .error (.suspended .steps) t) ∧
        ∀ x, among x = true → (ending run).types.get? x = s.types.get? x) ∧
    ∀ body locals name,
      let after := ending (runBody (eval fuel) body locals name s)
      after = left s (ending (runBlock (eval fuel) body (entered locals name s))) ∧
      ∀ before x value hint rest t v u, body = before ++ .assign x value (some hint) :: rest →
        hint ≠ "" → runBlock (eval fuel) before (entered locals name s) = .ok () t →
        eval fuel (.assign x value (some hint)) t = .ok v u →
        (∀ w, runBlock (monitored (sparing (· == x)) fuel []) rest u ≠
          .error (.suspended .steps) w) →
        let expected := TypeName.normalize hint
        after.types.get? x = some expected ∧
          ∀ other, TypeName.accepts expected other.typeName = false →
            assignVariable x other none after =
              .error (.failed (.script (.typeConstraint x expected other.typeName))) after := by
  refine ⟨fun among node => ⟨?_, ?_⟩, fun body locals name => ?_⟩
  · exact (cutShort_stopping (Node.declares among) fuel [] node).eq_or_stopped s
  · exact (runs_sparing fuel node s trivial).change
  have scope : ending (runBody (eval fuel) body locals name s) =
      left s (ending (runBlock (eval fuel) body (entered locals name s))) := by
    rw [runBody_apply]
    cases runBlock (eval fuel) body (entered locals name s) with
    | ok _ t => rfl
    | error signal t => cases signal <;> rfl
  refine ⟨scope, fun before x value hint rest t v u split given ran declared others => ?_⟩
  have typed : (ending (runBody (eval fuel) body locals name s)).types.get? x =
      some (TypeName.normalize hint) := by
    have ended : runBlock (eval fuel) body (entered locals name s) =
        runBlock (monitored (sparing (· == x)) fuel []) rest u := by
      have short := cutShort_runBlock (cutShort_stopping (Node.declares (· == x)) fuel []) rest
      rw [split, runBlock_append ran]
      refine (bind_ok declared).trans ((short.eq_or_stopped u).resolve_right ?_).symm
      exact fun ⟨w, stopped⟩ => others w stopped
    have kept : Runs (untouched (· == x)) (runBlock _ rest) _ :=
      runs_runBlock fun n _ => runs_sparing fuel n
    rw [scope, ended]
    exact ((kept u trivial).change x (beq_self_eq_true x)).trans
      (types_of_declaration given declared)
  exact ⟨typed, fun other differs => assignVariable_refused typed differs⟩

/-- A function declares a number; afterwards its variable is unknown, and cannot be a text. -/
theorem declared_types_outlive_calls_number :
    let after := ending (runBody (eval 2) [.assign "x" (.number (.int 1)) (some "Chyslo")] [] "f" {})
    after.env.get? "x" = none ∧ after.types.get? "x" = some "int" ∧
      assignVariable "x" (.text "a") none after =
        .error (.failed (.script (.typeConstraint "x" "int" "str"))) after := by
  obtain ⟨scope, outlives⟩ := (declared_types_outlive_calls 2 {}).2
    [.assign "x" (.number (.int 1)) (some "Chyslo")] [] "f"
  obtain ⟨typed, refused⟩ := outlives [] "x" _ "Chyslo" [] _ _ _ rfl (by decide) rfl rfl nofun
  exact ⟨scope ▸ rfl, typed, refused _ rfl⟩

/-- A text is refused for a variable if a function with a variable of that name was called before,
and only then. -/
theorem undeclared_text_refused :
    let definition := "Hetman\nZavdannya f() \x7b Chyslo x := 1; Povernuty x; \x7d\n"
    let assignment := "x := \"a\";\nSpivaty(x);"
    (Report.run {} (definition ++ "f();\n" ++ assignment) false none).2.output =
      "Bida, kozache! Runtime error:\nCannot assign str to int variable 'x'\n" ∧
    (Report.run {} (definition ++ assignment) false none).2.output =
      "a\n\nProgram executed successfully, kozache!\nProgram exited with code 0\n" := by
  decide +kernel

end Eval

end Hetman
