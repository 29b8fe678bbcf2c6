import Hetman.Proofs.Eval.Discipline

/-!
# How often the last part of a guarded block runs

The runs of the last part are counted by a number beside the session, which nothing else looks at
(`observes_guarded`). The last part runs once, and once more when the block or its handler returns
(`count_finally`): a return runs it before it goes on.
-/

namespace Hetman.Eval

/-! ## A number beside the session -/

/-- Evaluation in a session with a number beside it. -/
abbrev Counting := EStateM Signal (Session × Nat)

/-- Evaluation in the session leaves the number as it is. -/
instance : MonadLift Eval Counting where
  monadLift x := fun c =>
    match x c.1 with
    | .ok a s => .ok a (s, c.2)
    | .error signal s => .error signal (s, c.2)

/-- Evaluation that is counted, from its start on. -/
def counted {α : Type} (x : Eval α) : Counting α := do
  modify fun c => (c.1, c.2 + 1)
  liftM x

/-- A result without the number. -/
def forget {α : Type} : EStateM.Result Signal (Session × Nat) α → EStateM.Result Signal Session α
  | .ok a c => .ok a c.1
  | .error signal c => .error signal c.1

/-- The number at the end. -/
def count {α : Type} : EStateM.Result Signal (Session × Nat) α → Nat
  | .ok _ c => c.2
  | .error _ c => c.2

variable {α β : Type}

theorem lift_apply (x : Eval α) (c : Session × Nat) :
    (liftM x : Counting α) c =
      match x c.1 with
      | .ok a s => .ok a (s, c.2)
      | .error signal s => .error signal (s, c.2) :=
  rfl

@[simp] theorem count_lift (x : Eval α) (c : Session × Nat) :
    count ((liftM x : Counting α) c) = c.2 := by
  rw [lift_apply]
  cases x c.1 <;> rfl

@[simp] theorem count_counted (x : Eval α) (c : Session × Nat) :
    count (counted x c) = c.2 + 1 :=
  count_lift x (c.1, c.2 + 1)

/-! ## Forgetting the number -/

/-- A counted evaluation that is another one beside the number. -/
def Observes (x : Counting α) (y : Eval α) : Prop :=
  ∀ c, forget (x c) = y c.1

theorem observes_lift (x : Eval α) : Observes (liftM x) x := by
  intro c
  rw [lift_apply]
  cases x c.1 <;> rfl

theorem observes_counted (x : Eval α) : Observes (counted x) x :=
  fun c => observes_lift x (c.1, c.2 + 1)

variable {y : Eval α} {f : α → Counting β}

theorem Observes.bind {x : Counting α} {g : α → Eval β} (first : Observes x y)
    (second : ∀ a, Observes (f a) (g a)) : Observes (x >>= f) (y >>= g) := by
  intro c
  have same := first c
  cases result : x c with
  | ok a c' =>
    rw [result] at same
    rw [bind_ok result, bind_ok same.symm]
    exact second a c'
  | error signal c' =>
    rw [result] at same
    rw [bind_error result, bind_error same.symm]
    rfl

theorem Observes.attempt {x : Counting α} (h : Observes x y) :
    Observes (attempt x) (attempt y) := by
  intro c
  unfold Eval.attempt
  rw [← h c]
  cases x c <;> rfl

theorem observes_conclude (outcome : Except Signal α) :
    Observes (conclude outcome) (conclude outcome) := by
  intro c
  cases outcome <;> rfl

section Blocks

variable {last block : Counting Unit} {last' block' : Eval Unit}

theorem Observes.withMessage (name : Option String) (message : String)
    (h : Observes block block') :
    Observes (withMessage name message block) (withMessage name message block') := by
  unfold Eval.withMessage
  cases name.filter (· ≠ "") with
  | none => exact h
  | some name =>
    refine (observes_lift (binding? name)).bind fun before => ?_
    refine (observes_lift (bind_ name (.text message))).bind fun _ => ?_
    refine h.attempt.bind fun outcome => ?_
    cases before with
    | none => exact (observes_lift (unbind name)).bind fun _ => observes_conclude outcome
    | some value =>
      cases value with
      | none => exact (observes_lift (unbind name)).bind fun _ => observes_conclude outcome
      | _ => exact (observes_lift (bind_ name _)).bind fun _ => observes_conclude outcome

theorem Observes.beforeReturn (hlast : Observes last last') (h : Observes block block') :
    Observes (beforeReturn last block) (beforeReturn last' block') := by
  refine h.attempt.bind fun outcome => ?_
  cases outcome with
  | ok _ => exact observes_conclude _
  | error signal =>
    cases signal with
    | returned value => exact hlast.bind fun _ c => rfl
    | _ => exact observes_conclude _

theorem Observes.afterwards (hlast : Observes last last') (h : Observes block block') :
    Observes (afterwards last block) (afterwards last' block') := by
  refine h.attempt.bind fun outcome => ?_
  cases outcome with
  | ok _ => exact hlast.bind fun _ => observes_conclude _
  | error signal =>
    cases signal with
    | suspended cause => exact fun c => rfl
    | _ => exact hlast.bind fun _ => observes_conclude _

theorem observes_guarded (ev : Node → Eval Value) (hlast : Observes last last')
    (body : List Node) (catches : List (Option String × List Node)) :
    Observes (guarded ev last body catches) (guarded ev last' body catches) := by
  have handled : ∀ signal,
      Observes (handle ev last catches signal) (handle ev last' catches signal) := by
    intro signal
    unfold handle
    split
    · exact (hlast.beforeReturn (observes_lift _)).withMessage _ _
    · exact fun c => rfl
  refine hlast.afterwards ((observes_lift (runBlock ev body)).attempt.bind fun outcome => ?_)
  cases outcome with
  | ok _ => exact fun c => rfl
  | error signal =>
    cases signal with
    | returned value => exact hlast.bind fun _ c => rfl
    | _ => exact handled _

end Blocks

/-! ## Counting -/

def returns (block : Eval Unit) (s : Session) : Bool :=
  match block s with
  | .error (.returned _) _ => true
  | _ => false

/-- The session in which a handler runs. -/
def tell (name : Option String) (message : String) (s : Session) : Session :=
  match name.filter (· ≠ "") with
  | none => s
  | some name => { s with env := s.env.insert name (.text message) }

/-- Whether the handler for a signal, if there is one, ends by a return. -/
def handlerReturns (ev : Node → Eval Value) (catches : List (Option String × List Node))
    (signal : Signal) (s : Session) : Bool :=
  match signal.message?, catches with
  | some message, (name, body) :: _ => returns (runBlock ev body) (tell name message s)
  | _, _ => false

/-- Whether a block, or else the handler for how it ends, ends by a return. -/
def returnsInside (ev : Node → Eval Value) (body : List Node)
    (catches : List (Option String × List Node)) (s : Session) : Bool :=
  match runBlock ev body s with
  | .ok _ _ => false
  | .error (.returned _) _ => true
  | .error signal s' => handlerReturns ev catches signal s'

/-- A run that uses up its steps or its input. -/
def isSuspended {σ : Type} : EStateM.Result Signal σ α → Bool
  | .error (.suspended _) _ => true
  | _ => false

theorem count_attempt (x : Counting α) (c : Session × Nat) :
    count (attempt x c) = count (x c) := by
  rw [attempt_apply]
  cases x c <;> rfl

theorem count_conclude (outcome : Except Signal α) (c : Session × Nat) :
    count (conclude outcome c) = c.2 := by
  cases outcome <;> rfl

theorem count_bind {x : Counting α} {c : Session × Nat} (keeps : ∀ a c', count (f a c') = c'.2) :
    count ((x >>= f) c) = count (x c) := by
  cases result : x c with
  | ok a c' =>
    rw [bind_ok result, keeps]
    rfl
  | error signal c' =>
    rw [bind_error result]
    rfl

theorem count_rethrow (last : Eval Unit) (signal : Signal) (c : Session × Nat) :
    count ((counted last >>= fun _ => (throw signal : Counting Unit)) c) = c.2 + 1 :=
  (count_bind fun _ _ => rfl).trans (count_counted last c)

theorem count_beforeReturn (last block : Eval Unit) (c : Session × Nat) :
    count (beforeReturn (counted last) (liftM block) c) =
      c.2 + if returns block c.1 then 1 else 0 := by
  unfold beforeReturn returns
  cases result : block c.1 with
  | ok a s =>
    rw [bind_ok (by rw [attempt_apply, lift_apply, result])]
    rfl
  | error signal s =>
    rw [bind_ok (by rw [attempt_apply, lift_apply, result])]
    cases signal with
    | returned value => exact count_rethrow last _ (s, c.2)
    | _ => rfl

theorem count_withMessage (name : Option String) (message : String) (handler : Counting Unit)
    (c : Session × Nat) :
    count (withMessage name message handler c) = count (handler (tell name message c.1, c.2)) := by
  unfold withMessage tell
  cases name.filter (· ≠ "") with
  | none => rfl
  | some name =>
    have found : (liftM (binding? name) : Counting (Option Value)) c =
        .ok (c.1.env.get? name) c := rfl
    have bound : (liftM (bind_ name (.text message)) : Counting Unit) c =
        .ok () ({ c.1 with env := c.1.env.insert name (.text message) }, c.2) := rfl
    have restored : ∀ (x : Eval Unit) (outcome : Except Signal Unit) (c' : Session × Nat),
        count (((liftM x : Counting Unit) >>= fun _ => conclude outcome) c') = c'.2 :=
      fun x outcome c' => (count_bind fun _ _ => count_conclude outcome _).trans (count_lift x c')
    dsimp only
    rw [bind_ok found, bind_ok bound]
    refine (count_bind fun outcome c' => ?_).trans (count_attempt handler _)
    cases c.1.env.get? name with
    | none => exact restored (unbind name) outcome c'
    | some value =>
      cases value with
      | none => exact restored (unbind name) outcome c'
      | _ => exact restored (bind_ name _) outcome c'

theorem count_afterwards {last : Eval Unit} {block : Counting Unit} {c : Session × Nat}
    (ends : isSuspended (afterwards (counted last) block c) = false) :
    count (afterwards (counted last) block c) = count (block c) + 1 := by
  have finished : ∀ (outcome : Except Signal Unit) (c' : Session × Nat),
      count ((counted last >>= fun _ => conclude outcome) c') = c'.2 + 1 := fun outcome c' =>
    (count_bind fun _ _ => count_conclude outcome _).trans (count_counted last c')
  unfold afterwards at ends ⊢
  cases result : block c with
  | ok a c' =>
    rw [bind_ok (attempt_ok result)]
    exact finished (.ok a) c'
  | error signal c' =>
    rw [bind_ok (attempt_error result)] at ends ⊢
    cases signal with
    | suspended cause => cases ends
    | _ => exact finished (.error _) c'

theorem count_guarded {ev : Node → Eval Value} {last : Eval Unit} {body : List Node}
    {catches : List (Option String × List Node)} {c : Session × Nat}
    (ends : isSuspended (guarded ev (counted last) body catches c) = false) :
    count (guarded ev (counted last) body catches c) =
      c.2 + if returnsInside ev body catches c.1 then 2 else 1 := by
  unfold guarded at ends ⊢
  rw [count_afterwards ends]
  unfold returnsInside
  cases result : runBlock ev body c.1 with
  | ok a s =>
    rw [bind_ok (by rw [attempt_apply, lift_apply, result])]
    rfl
  | error signal s =>
    rw [bind_ok (by rw [attempt_apply, lift_apply, result])]
    have handled : count (handle ev (counted last) catches signal (s, c.2)) =
        c.2 + if handlerReturns ev catches signal s then 1 else 0 := by
      unfold handle handlerReturns
      cases signal.message? with
      | none => rfl
      | some message =>
        cases catches with
        | nil => rfl
        | cons first _ => exact (count_withMessage _ _ _ _).trans (count_beforeReturn last _ _)
    have total : count (handle ev (counted last) catches signal (s, c.2)) + 1 =
        c.2 + if handlerReturns ev catches signal s then 2 else 1 := by
      rw [handled]
      split <;> omega
    cases signal with
    | returned value => exact congrArg (· + 1) (count_rethrow last _ (s, c.2))
    | _ => exact total

/-- A guarded block whose runs of the last part are counted. -/
def countFinally (ev : Node → Eval Value) (body : List Node)
    (catches : List (Option String × List Node)) (final : List Node) : Counting Value := do
  guarded ev (counted (runBlock ev final)) body catches
  return .none

/-- The last part of a guarded block runs twice if the block or its handler returns, and once in
every other case in which the evaluation comes to an end. -/
theorem count_finally (fuel : Nat) (body : List Node) (catches : List (Option String × List Node))
    (final : List Node) (s : Session) (n : Nat)
    (ends : isSuspended (eval (fuel + 1) (.tryCatch body catches (some final)) s) = false) :
    let run := countFinally (eval fuel) body catches final (s, n)
    forget run = eval (fuel + 1) (.tryCatch body catches (some final)) s ∧
      count run = n + if returnsInside (eval fuel) body catches s then 2 else 1 := by
  intro run
  have same : forget run = eval (fuel + 1) (.tryCatch body catches (some final)) s := by
    refine Observes.bind ?_ (fun _ c => rfl) (s, n)
    exact observes_guarded (eval fuel) (observes_counted _) body catches
  refine ⟨same, ?_⟩
  rw [← same] at ends
  refine (count_bind fun _ _ => rfl).trans (count_guarded ?_)
  cases result : guarded (eval fuel) (counted (runBlock (eval fuel) final)) body catches (s, n) with
  | ok _ _ => rfl
  | error signal c =>
    have failed : run = .error signal c := bind_error result
    rw [failed] at ends
    cases signal <;> first | rfl | cases ends

/-- A block that returns: its last part prints a line, and prints it twice. -/
theorem count_finally_return :
    isSuspended (eval 6 (.tryCatch [.ret (.number (.int 1))] [] (some [.print [.text "x"]])) {}) =
        false ∧
      count (countFinally (eval 5) [.ret (.number (.int 1))] [] [.print [.text "x"]] ({}, 0)) = 2 :=
  have ends : isSuspended
      (eval 6 (.tryCatch [.ret (.number (.int 1))] [] (some [.print [.text "x"]])) {}) = false :=
    rfl
  ⟨ends, (count_finally 5 _ _ _ {} 0 ends).2.trans rfl⟩

/-- A handler that returns counts, one that fails does not. -/
example :
    returnsInside (eval 5) [.throw (.text "low")] [(some "e", [.ret (.var "e")])] {} = true ∧
      returnsInside (eval 5) [.throw (.text "low")] [(some "e", [.throw (.var "e")])] {} = false :=
  ⟨rfl, rfl⟩

end Hetman.Eval
