import Hetman.Proofs.Eval.Frame
import Hetman.Proofs.Eval.Guarded

/-!
# Variables that are bound for a while

A loop over a list and a handler with a variable save what the variable is bound to and put it back
afterwards. Neither tells "bound to none" from "unbound", the loop takes for granted that the
variable is bound at its end, and a handler that returns runs the last part first. `restored_iff`
says exactly when the old binding is there again. No variable is ever bound twice (`runs_distinct`).
-/

namespace Hetman

open List

variable {before now : Session} {block : Eval Unit}

/-! ## Distinct names -/

namespace Bindings

variable {α : Type}

/-- No name is bound twice. -/
def Distinct (b : Bindings α) : Prop :=
  b.names.Nodup

instance (b : Bindings α) : Decidable b.Distinct :=
  inferInstanceAs (Decidable b.names.Nodup)

variable {b : Bindings α}

theorem names_insert (b : Bindings α) (name : String) (value : α) :
    (b.insert name value).names = if name ∈ b.names then b.names else b.names ++ [name] := by
  induction b with
  | nil => rfl
  | cons entry rest ih =>
    obtain ⟨k, v⟩ := entry
    unfold names at ih ⊢
    by_cases same : k = name
    · simp [insert, same]
    · simp only [insert, same, if_false, map_cons, ih, mem_cons, Ne.symm same, false_or]
      split <;> rfl

theorem names_erase (b : Bindings α) (name : String) :
    (b.erase name).names = b.names.erase name := by
  induction b with
  | nil => rfl
  | cons entry rest ih =>
    obtain ⟨k, v⟩ := entry
    unfold names at ih ⊢
    by_cases same : k = name
    · simp [erase, same]
    · simp [erase, same, ih]

theorem Distinct.insert (h : b.Distinct) (name : String) (value : α) :
    (b.insert name value).Distinct := by
  unfold Distinct
  rw [names_insert]
  split
  · exact h
  · rename_i new
    refine nodup_append.2 ⟨h, pairwise_singleton .., ?_⟩
    intro k bound other isName same
    rw [mem_singleton.1 isName] at same
    exact new (same ▸ bound)

theorem Distinct.insertAll (h : b.Distinct) (more : List (String × α)) :
    (b.insertAll more).Distinct := by
  induction more generalizing b with
  | nil => exact h
  | cons entry rest ih => exact ih (h.insert entry.1 entry.2)

theorem Distinct.erase (h : b.Distinct) (name : String) : (b.erase name).Distinct := by
  unfold Distinct
  rw [names_erase]
  exact List.Nodup.erase name h

theorem Distinct.get?_erase (h : b.Distinct) (name : String) : (b.erase name).get? name = none := by
  rw [get?_eq_none_iff, names_erase]
  exact List.Nodup.not_mem_erase h

end Bindings

namespace Eval

variable {name : String}

def distinct : Discipline where
  start s := s.env.Distinct
  change _ t := t.env.Distinct
  returns := True
  quiet start h := h.env ▸ start
  trans _ second := second
  keeps _ change := change

theorem distinct_binds (name : String) : distinct.Binds name :=
  fun _ start => ⟨fun v => start.insert name v, start.erase name⟩

theorem distinct_runBody {ev : Node → Eval Value} (h : ∀ n, Runs distinct (ev n) (ev n))
    (body : List Node) (locals : Bindings Value) (name : String) :
    Runs distinct (runBody ev body locals name) (runBody ev body locals name) :=
  runs_runBody distinct (fun n _ => h n) (fun _ start => start.insertAll locals)
    fun _ _ start _ => start

theorem distinct_ownEffect {ev : Node → Eval Value} (h : ∀ n, Runs distinct (ev n) (ev n))
    (node : Node) : OwnEffect distinct ev ev node := by
  cases node with
  | call name arguments => exact fun _ s files start _ => start
  | assign name value hint =>
    exact runs_assignVariable (distinct_binds name) fun _ _ _ start => start
  | step op target => exact runs_evalStep op fun name _ => distinct_binds name
  | forEach name array body => exact distinct_binds name
  | tryCatch body catches final => exact fun name _ _ => distinct_binds name
  | function routine => exact fun _ start => start
  | classDecl decl => exact fun _ _ start _ => start
  | ret value => trivial
  | importFile path =>
    refine (h path).bind (runs_importValue (fun lib => distinct_binds lib.name)
      (fun _ _ start => start) fun s program folder _ _ => ?_)
    exact runs_inFolder (h program) (fun _ start => start) fun _ _ _ change => change
  | _ => trivial

/-- Distinct variables stay so, however an evaluation ends. -/
theorem runs_distinct (fuel : Nat) (node : Node) :
    Runs distinct (eval fuel node) (eval fuel node) := by
  induction fuel generalizing node with
  | zero => exact runs_outOfSteps
  | succ fuel ih =>
    have bodies := distinct_runBody ih
    have calls : Calls distinct (eval fuel) (eval fuel) :=
      ⟨fun _ _ _ => bodies _ _ _, fun _ _ _ _ _ => bodies _ _ _, fun _ _ _ => bodies _ _ _⟩
    exact runs_evalNode fuel (fun p _ => ih p) calls (distinct_ownEffect ih node)

/-! ## Putting a binding back -/

/-- A variable is bound as it was before, and all else is as it is now. -/
structure Restored (name : String) (before now after : Session) : Prop where
  binding : after.env.get? name = before.env.get? name
  others : ∀ other, other ≠ name → after.env.get? other = now.env.get? other
  rest : after = { now with env := after.env }

theorem restored_bind {value : Value} (bound : before.env.get? name = some value)
    (now : Session) : Restored name before now { now with env := now.env.insert name value } := by
  refine ⟨?_, fun other differs => ?_, rfl⟩
  · rw [bound, Bindings.get?_insert, if_pos rfl]
  · exact (Bindings.get?_insert ..).trans (if_neg (Ne.symm differs))

theorem restored_unbind (unbound : before.env.get? name = none)
    (distinct : now.env.Distinct) :
    Restored name before now { now with env := now.env.erase name } := by
  refine ⟨?_, fun other differs => ?_, rfl⟩
  · rw [unbound]
    exact distinct.get?_erase name
  · exact Bindings.get?_erase _ (Ne.symm differs)

theorem restored_self_iff :
    Restored name before now now ↔ now.env.get? name = before.env.get? name :=
  ⟨Restored.binding, fun same => ⟨same, fun _ _ => rfl, rfl⟩⟩

/-! ### Loops -/

section Loops

variable {ev : Node → Eval Value} {array : Node} {body : List Node}
  {fuel ref : Nat} {s t u : Session}

/-- How a loop over a list ends once it has gone through the list. -/
theorem evalForEach_apply (items : ev array s = .ok (.list ref) t)
    (loop : eachLoop ev ref name body fuel 0 t = .ok () u) :
    evalForEach ev fuel name array body s =
      match t.env.get? name with
      | none =>
        if u.env.get? name = none then .error (.failed (.missingKey (Text.quoted name))) u
        else .ok .none { u with env := u.env.erase name }
      | some .none => .ok .none u
      | some value => .ok .none { u with env := u.env.insert name value } := by
  unfold evalForEach
  rw [bind_ok items]
  dsimp only
  rw [bind_ok (show binding? name t = .ok (t.env.get? name) t from rfl), bind_ok loop]
  cases t.env.get? name with
  | none =>
    dsimp only
    rw [bind_ok (show binding? name u = .ok (u.env.get? name) u from rfl)]
    cases u.env.get? name <;> rfl
  | some value => cases value <;> rfl

theorem evalForEach_restored_iff (items : ev array s = .ok (.list ref) t)
    (loop : eachLoop ev ref name body fuel 0 t = .ok () u) (distinct : u.env.Distinct) :
    (∃ w, evalForEach ev fuel name array body s = .ok .none w ∧ Restored name t u w) ↔
      (t.env.get? name = none → u.env.get? name ≠ none) ∧
        (t.env.get? name = some .none → u.env.get? name = some .none) := by
  rw [evalForEach_apply items loop]
  cases before : t.env.get? name with
  | none =>
    by_cases now : u.env.get? name = none
    · simp [now]
    · have restored := restored_unbind before distinct
      simp [now, restored]
  | some value =>
    cases value with
    | none =>
      refine ⟨?_, fun ⟨_, still⟩ => ⟨u, rfl, ?_⟩⟩
      · rintro ⟨w, ended, restored⟩
        cases ended
        exact ⟨fun unbound => absurd unbound (Option.some_ne_none _),
          fun _ => restored.binding.trans before⟩
      · exact restored_self_iff.2 ((still rfl).trans before.symm)
    | _ =>
      refine iff_of_true ⟨_, rfl, restored_bind before u⟩ ⟨fun unbound => ?_, fun isNone => ?_⟩
      · cases unbound
      · cases isNone

theorem evalForEach_error_iff (items : ev array s = .ok (.list ref) t)
    (loop : eachLoop ev ref name body fuel 0 t = .ok () u) (signal : Signal) (w : Session) :
    evalForEach ev fuel name array body s = .error signal w ↔
      (t.env.get? name = none ∧ u.env.get? name = none) ∧
        signal = .failed (.missingKey (Text.quoted name)) ∧ w = u := by
  rw [evalForEach_apply items loop]
  cases t.env.get? name with
  | none =>
    by_cases now : u.env.get? name = none
    · simp [now, eq_comm]
    · simp [now]
  | some value => cases value <;> simp

/-- The variable of a loop is bound afterwards if it was before or there was something to go
through, and the body keeps it bound. -/
theorem eachLoop_bound {index : Nat}
    (keeps : ∀ s t, runBlock ev body s = .ok () t → s.env.get? name ≠ none →
      t.env.get? name ≠ none)
    (started : t.env.get? name ≠ none ∨ (t.heap.list ref)[index]? ≠ none)
    (loop : eachLoop ev ref name body fuel index t = .ok () u) : u.env.get? name ≠ none := by
  induction fuel generalizing index t with
  | zero => cases loop
  | succ fuel ih =>
    unfold eachLoop at loop
    rw [bind_ok (show fromHeap (fun h => (h.list ref)[index]?) t =
      .ok (t.heap.list ref)[index]? t from rfl)] at loop
    cases element : (t.heap.list ref)[index]? with
    | none =>
      rw [element] at loop started
      cases loop
      exact started.resolve_right (fun h => h rfl)
    | some value =>
      rw [element] at loop
      dsimp only at loop
      rw [bind_ok (show bind_ name value t =
        .ok () { t with env := t.env.insert name value } from rfl)] at loop
      cases round : runBlock ev body { t with env := t.env.insert name value } with
      | error signal v =>
        rw [bind_error round] at loop
        cases loop
      | ok _ v =>
        rw [bind_ok round] at loop
        refine ih (.inl (keeps _ v round ?_)) loop
        rw [Bindings.get?_insert, if_pos rfl]
        exact Option.some_ne_none value

end Loops

theorem runBlock_keeps_binding (fuel : Nat) {body : List Node}
    (stays : ∀ n ∈ body, ∀ m, n.Occurs m false → m.Stays (· ≠ name) True) (s : Session) :
    (ending (runBlock (eval fuel) body s)).env.get? name = s.env.get? name := by
  have runs := runs_runBlock fun n isStatement => runs_frame fuel (stays n isStatement)
  exact (runs s trivial).change.env name fun differs => differs rfl

/-! ### Handlers -/

def putBack (name : String) (before : Option Value) (s : Session) : Session :=
  match before with
  | none | some .none => { s with env := s.env.erase name }
  | some value => { s with env := s.env.insert name value }

theorem putBack_of_none (distinct : now.env.Distinct) :
    (putBack name (some .none) now).env.get? name = none :=
  distinct.get?_erase name

theorem restored_putBack_iff (distinct : now.env.Distinct) :
    Restored name before now (putBack name (before.env.get? name) now) ↔
      before.env.get? name ≠ some .none := by
  cases bound : before.env.get? name with
  | none => exact iff_of_true (restored_unbind bound distinct) (Option.some_ne_none _).symm
  | some value =>
    cases value with
    | none =>
      refine iff_of_false (fun restored => ?_) fun differs => differs rfl
      have still := restored.binding
      rw [putBack_of_none distinct, bound] at still
      cases still
    | _ =>
      refine iff_of_true (restored_bind bound now) fun same => ?_
      cases same

/-- The end of a guarded block: the last part runs unless the block is suspended. -/
def finish (last : Eval Unit) : Except Signal Unit → Eval Value
  | .error (.suspended cause) => throw (.suspended cause)
  | outcome => do
    last
    conclude outcome
    return .none

theorem afterwards_apply (last block : Eval Unit) (s : Session) :
    (afterwards last block >>= fun _ => pure Value.none) s =
      finish last (outcomeOf (block s)) (ending (block s)) := by
  unfold afterwards
  rw [bind_assoc]
  cases result : block s with
  | ok _ t =>
    rw [bind_ok (attempt_ok result)]
    exact congrFun (bind_assoc ..) t
  | error signal t =>
    rw [bind_ok (attempt_error result)]
    cases signal with
    | suspended cause => rfl
    | _ => exact congrFun (bind_assoc ..) t

theorem tell_some (named : name ≠ "") (message : String) (s : Session) :
    tell (some name) message s = { s with env := s.env.insert name (.text message) } := by
  have kept : (some name).filter (· ≠ "") = some name := by simp [named]
  unfold tell
  rw [kept]

theorem withMessage_apply (named : name ≠ "") (message : String)
    (handler : Eval Unit) (s : Session) :
    let run := handler (tell (some name) message s)
    outcomeOf (withMessage (some name) message handler s) = outcomeOf run ∧
      ending (withMessage (some name) message handler s) =
        putBack name (s.env.get? name) (ending run) := by
  have kept : (some name).filter (· ≠ "") = some name := by simp [named]
  rw [tell_some named]
  unfold withMessage
  rw [kept]
  dsimp only
  rw [bind_ok (show (liftM (binding? name) : Eval (Option Value)) s = .ok (s.env.get? name) s
      from rfl),
    bind_ok (show (liftM (bind_ name (.text message)) : Eval Unit) s =
      .ok () { s with env := s.env.insert name (.text message) } from rfl)]
  cases result : handler { s with env := s.env.insert name (.text message) } with
  | ok _ u =>
    rw [bind_ok (attempt_ok result)]
    cases s.env.get? name with
    | none => exact ⟨rfl, rfl⟩
    | some value => cases value <;> exact ⟨rfl, rfl⟩
  | error signal u =>
    rw [bind_ok (attempt_error result)]
    cases s.env.get? name with
    | none => exact ⟨rfl, rfl⟩
    | some value => cases value <;> exact ⟨rfl, rfl⟩

theorem beforeReturn_of_not {last : Eval Unit} {s : Session}
    (runsOn : ∀ v, outcomeOf (block s) ≠ .error (.returned v)) :
    beforeReturn last block s = block s := by
  unfold beforeReturn
  cases result : block s with
  | ok _ t =>
    rw [bind_ok (attempt_ok result)]
    rfl
  | error signal t =>
    rw [bind_ok (attempt_error result)]
    cases signal with
    | returned v => exact absurd (congrArg outcomeOf result) (runsOn v)
    | _ => rfl

theorem beforeReturn_of_return (last : Eval Unit) {s : Session} {v : Value}
    (returned : outcomeOf (block s) = .error (.returned v)) : let first := last (ending (block s))
    outcomeOf (beforeReturn last block s) =
        (outcomeOf first).bind (fun _ => .error (.returned v)) ∧
      ending (beforeReturn last block s) = ending first := by
  intro first
  unfold beforeReturn
  cases result : block s with
  | ok _ t =>
    rw [result] at returned
    cases returned
  | error signal t =>
    rw [result] at returned
    cases returned
    have same : first = last t := congrArg (fun r => last (ending r)) result
    rw [bind_ok (attempt_error result), same]
    dsimp only
    cases ended : last t with
    | ok _ u =>
      rw [bind_ok ended]
      exact ⟨rfl, rfl⟩
    | error signal u =>
      rw [bind_error ended]
      exact ⟨rfl, rfl⟩

/-- A guarded block that ends in a handler with a variable ends as the handler does, and the
variable is put back before the last part. A handler that returns has run that itself by then. -/
theorem evalTry_handled {ev : Node → Eval Value} {body handler : List Node}
    {more : List (Option String × List Node)} {final : Option (List Node)} {signal : Signal}
    {message : String} {s t : Session} (named : name ≠ "")
    (ended : runBlock ev body s = .error signal t) (caught : signal.message? = some message) :
    let last := runBlock ev (final.getD [])
    let run := beforeReturn last (runBlock ev handler) (tell (some name) message t)
    evalTry ev body ((some name, handler) :: more) final s =
      finish last (outcomeOf run) (putBack name (t.env.get? name) (ending run)) := by
  intro last run
  have first : (attempt (liftM (runBlock ev body)) : Eval (Except Signal Unit)) s =
      .ok (.error signal) t := attempt_error ended
  have handled : handle ev last ((some name, handler) :: more) signal t =
      withMessage (some name) message (beforeReturn last (runBlock ev handler)) t := by
    unfold handle
    rw [caught]
    rfl
  obtain ⟨outcome, session⟩ :=
    withMessage_apply named message (beforeReturn last (runBlock ev handler)) t
  unfold evalTry guarded
  rw [afterwards_apply, bind_ok first, ← outcome, ← session, ← handled]
  cases signal with
  | returned value => cases caught
  | _ => rfl

/-! ## When a binding is restored -/

/-- After a loop over a list that came to its end, the variable of the loop is bound as before
unless it was and is unbound, which is an error, or it was none and has another value now; a loop
over something whose body leaves it alone does not leave it unbound. Before the last part of a
guarded block with a handler, the handler's variable is bound as before unless it was none, and then
it is unbound; but if the handler returns, the last part also runs before that, with the variable as
the handler leaves it. -/
theorem restored_iff (fuel : Nat) (name : String) (s : Session) (distinct : s.env.Distinct) :
    (∀ array body ref t u, eval fuel array s = .ok (.list ref) t →
      eachLoop (eval fuel) ref name body fuel 0 t = .ok () u →
      let result := eval (fuel + 1) (.forEach name array body) s
      ((∃ w, result = .ok .none w ∧ Restored name t u w) ↔
        (t.env.get? name = none → u.env.get? name ≠ none) ∧
          (t.env.get? name = some .none → u.env.get? name = some .none)) ∧
      (∀ signal w, result = .error signal w ↔
        (t.env.get? name = none ∧ u.env.get? name = none) ∧
          signal = .failed (.missingKey (Text.quoted name)) ∧ w = u) ∧
      ((∀ n ∈ body, ∀ m, n.Occurs m false → m.Stays (· ≠ name) True) →
        t.heap.list ref ≠ [] → u.env.get? name ≠ none)) ∧
    ∀ body handler more final signal message t, name ≠ "" →
      runBlock (eval fuel) body s = .error signal t → signal.message? = some message →
      let last := runBlock (eval fuel) (Option.getD final [])
      let run := runBlock (eval fuel) handler (tell (some name) message t)
      let back := putBack name (t.env.get? name)
      let result := eval (fuel + 1) (.tryCatch body ((some name, handler) :: more) final) s
      ((∀ v, outcomeOf run ≠ .error (.returned v)) →
        result = finish last (outcomeOf run) (back (ending run)) ∧
          (Restored name t (ending run) (back (ending run)) ↔ t.env.get? name ≠ some .none) ∧
          (t.env.get? name = some .none → (back (ending run)).env.get? name = none)) ∧
      ∀ v, outcomeOf run = .error (.returned v) →
        let first := last (ending run)
        result = finish last ((outcomeOf first).bind fun _ => .error (.returned v))
            (back (ending first)) ∧
          ((∀ n ∈ handler, ∀ m, n.Occurs m false → m.Stays (· ≠ name) True) →
            (ending run).env.get? name = some (.text message)) ∧
          (Restored name t (ending first) (back (ending first)) ↔
            t.env.get? name ≠ some .none) := by
  have blocks : ∀ nodes, Runs Eval.distinct (runBlock (eval fuel) nodes)
      (runBlock (eval fuel) nodes) := fun nodes => runs_runBlock fun n _ => runs_distinct fuel n
  refine ⟨fun array body ref t u items loop => ?_, ?_⟩
  · have atStart : t.env.Distinct := (runs_distinct fuel array s distinct).start distinct items
    have rounds : Runs Eval.distinct (eachLoop (eval fuel) ref name body fuel 0) _ :=
      runs_eachLoop (distinct_binds name) (fun n _ => runs_distinct fuel n) ref fuel 0
    have atEnd : u.env.Distinct := (rounds t atStart).start atStart loop
    refine ⟨evalForEach_restored_iff items loop atEnd, evalForEach_error_iff items loop, ?_⟩
    intro stays nonempty
    refine eachLoop_bound (fun s t ran bound => ?_) (.inr ?_) loop
    · have same := runBlock_keeps_binding fuel stays s
      rw [ran] at same
      exact same ▸ bound
    · cases list : t.heap.list ref with
      | nil => exact absurd list nonempty
      | cons first _ => exact Option.some_ne_none first
  · intro body handler more final signal message t named ended caught last run back result
    have whole : result = _ := evalTry_handled named ended caught
    have atHandler : t.env.Distinct := by
      have change := (blocks body s distinct).change
      rw [ended] at change
      exact change
    have afterHandler : (ending run).env.Distinct := by
      refine (blocks handler _ ?_).change
      rw [tell_some named]
      exact atHandler.insert name _
    refine ⟨fun runsOn => ?_, fun v returned => ?_⟩
    · rw [beforeReturn_of_not runsOn] at whole
      refine ⟨whole, restored_putBack_iff afterHandler, fun isNone => ?_⟩
      rw [show back = putBack name (some .none) from congrArg (putBack name) isNone]
      exact putBack_of_none afterHandler
    · intro first
      obtain ⟨outcome, session⟩ := beforeReturn_of_return last returned
      rw [outcome, session] at whole
      refine ⟨whole, fun stays => ?_, restored_putBack_iff ?_⟩
      · refine (runBlock_keeps_binding fuel stays _).trans ?_
        rw [tell_some named, Bindings.get?_insert, if_pos rfl]
      · exact (blocks _ _ afterHandler).change

/-- A loop gives a variable its value back, and a handler that returns shows the last part its
message first. -/
theorem restored_iff_bound :
    let s : Session := { env := [("v", .int 7)] }
    s.env.Distinct ∧
      (∃ w, eval 3 (.forEach "v" (.array [.number (.int 1)]) []) s = .ok .none w ∧
        w.env.get? "v" = some (.int 7)) ∧
      (ending (runBlock (eval 2) [.ret (.text "r")] (tell (some "v") "low" s))).env.get? "v" =
        some (.text "low") ∧
      (ending (eval 3 (.tryCatch [.throw (.text "low")] [(some "v", [.ret (.text "r")])]
        (some [.assign "u" (.var "v") none])) s)).env.get? "v" = some (.int 7) := by
  intro s
  have distinct : s.env.Distinct := by decide
  obtain ⟨loops, handlers⟩ := restored_iff 2 "v" s distinct
  obtain ⟨iff, -, -⟩ := loops (.array [.number (.int 1)]) [] 0 _ _ rfl rfl
  obtain ⟨-, returning⟩ := handlers [.throw (.text "low")] [.ret (.text "r")] []
    (some [.assign "u" (.var "v") none]) _ "low" s (by decide) rfl rfl
  obtain ⟨ended, shown, restored⟩ := returning (.text "r") rfl
  have bound : s.env.get? "v" = some (.int 7) := rfl
  obtain ⟨w, result, back⟩ := iff.2 (by constructor <;> (intro other; cases other))
  have stays : ∀ n ∈ [Node.ret (.text "r")], ∀ m, n.Occurs m false → m.Stays (· ≠ "v") True := by
    intro n isStatement
    cases mem_singleton.1 isStatement
    refine Node.forall_occurs trivial fun p isPart => ?_
    cases mem_singleton.1 isPart
    refine Node.forall_occurs (fun x hx => ?_) fun q isPart => ?_
    · cases hx
    · cases isPart
  refine ⟨distinct, ⟨w, result, back.binding.trans bound⟩, shown stays, ?_⟩
  rw [ended]
  exact (restored.2 (by rw [bound]; simp)).binding

/-- A loop over nothing fails if its variable is unbound, one leaves its last element where none
was, a handler unbinds a variable that was none, and one that returns runs the last part with its
message and with the old value. -/
theorem binding_not_restored :
    outcomeOf (eval 3 (.forEach "v" (.array []) []) {}) = .error (.failed (.missingKey "'v'")) ∧
      (ending (eval 3 (.forEach "v" (.array [.number (.int 1)]) [])
        { env := [("v", .none)] })).env.get? "v" = some (.int 1) ∧
      (ending (eval 3 (.tryCatch [.throw (.text "low")] [(some "v", [])] none)
        { env := [("v", .none)] })).env.get? "v" = none ∧
      (ending (eval 4 (.tryCatch [.throw (.text "low")] [(some "v", [.ret (.text "r")])]
        (some [.print [.var "v"]])) { env := [("v", .text "old")] })).output = "low\nold\n" :=
  ⟨rfl, rfl, rfl, rfl⟩

end Eval

end Hetman
