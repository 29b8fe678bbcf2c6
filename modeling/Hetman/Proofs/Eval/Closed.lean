import Hetman.Proofs.Eval.Composed

/-!
# Closed properties

A property of families of evaluations is closed if it is `Compositional` and kept by what is done
after an attempt, as long as it passes a suspension on. A step of the evaluator then keeps it
(`Closed.evalNode`). It may depend on the codes that an evaluation may exit with although none of
its own exits has them: those that were caught before it and go on after it.
-/

namespace Hetman.Eval

variable {ι : Type}

/-- A property of families of evaluations that is kept by all ways to put these together, given the
codes of exits that were caught before. -/
structure Closed (R : (ExitCode → Prop) → (α : Type) → (ι → Eval α) → Prop) : Prop where
  leaf : ∀ {S : ExitCode → Prop} {α : Type} {x : Eval α}, Leaf x → R S α fun _ => x
  throw : ∀ {S : ExitCode → Prop} {α : Type} {signal : Signal},
    (∀ code, signal = .exited code → S code) → R S α fun _ => throw signal
  look : ∀ {S : ExitCode → Prop} {α : Type} {f : Session → ι → Eval α},
    (∀ s, R S α (f s)) → (∀ (s : Session) code, f (s.exitedWith code) = f s) →
    R S α fun i => get >>= fun s => f s i
  bind : ∀ {S : ExitCode → Prop} {α β : Type} {x : ι → Eval α} {f : α → ι → Eval β},
    R S α x → (∀ a, R S β (f a)) → R S β fun i => x i >>= fun a => f a i
  /-- What follows an attempt may exit with the attempt's code. -/
  attempt : ∀ {S : ExitCode → Prop} {α β : Type} {x : ι → Eval α}
      {f : Except Signal α → ι → Eval β}, R S α x →
    (∀ S' outcome, (∀ code, outcome = .error (.exited code) → S' code) → R S' β (f outcome)) →
    (∀ cause i, f (.error (.suspended cause)) i = MonadExcept.throw (.suspended cause)) →
    R S β fun i => Eval.attempt (x i) >>= fun outcome => f outcome i
  within : ∀ {S : ExitCode → Prop} {α : Type} {x : ι → Eval α} (frame : Frame),
    R S α x → R S α fun i => Eval.within frame (x i)

namespace Closed

variable {R : (ExitCode → Prop) → (α : Type) → (ι → Eval α) → Prop} {S : ExitCode → Prop}
  {ev : ι → Node → Eval Value}

theorem compositional (closed : Closed R) (S : ExitCode → Prop) : Compositional (R S) where
  leaf := closed.leaf
  ret _ := closed.throw fun _ exited => nomatch exited
  look := closed.look
  bind := closed.bind
  within := closed.within
  asScript h := by
    refine closed.attempt h (fun S' outcome allowed => ?_) fun _ _ => rfl
    cases outcome with
    | ok a => exact closed.leaf (.pure a)
    | error signal =>
      exact closed.throw fun code exited => allowed code (congrArg _ (Signal.of_asScript exited nofun))
  returning h := by
    refine closed.attempt h (fun S' outcome allowed => ?_) fun _ _ => rfl
    cases outcome with
    | ok u => exact closed.leaf (.pure _)
    | error signal =>
      cases signal with
      | returned value => exact closed.leaf (.pure _)
      | _ => exact closed.throw fun code exited => allowed code (congrArg _ exited)

theorem guards (closed : Closed R) :
    Guards (fun _ => True) (fun S signal => ∀ code, signal = .exited code → S code)
      (fun _ => True) R where
  rules S := (closed.compositional S).rules
  throw := closed.throw
  suspended _ _ _ exited := nomatch exited
  attempt h second := closed.attempt h fun S' outcome allowed =>
    second S' outcome fun _ ended code exited => allowed code (exited ▸ ended)
  handler message before _ h :=
    closed.bind (closed.leaf (leaf_bind_ _ message)) fun _ => closed.within (.handler _ before) h

theorem own (closed : Closed R) {node : Node} (stays : ∀ code, node ≠ .exit code)
    (parts : ∀ S node, R S Value fun i => ev i node) : Own (R S) ev node := by
  by_cases plain : node.guards = false
  · exact (closed.compositional S).own (parts S) plain
  · cases node with
    | exit code => exact absurd rfl (stays code)
    | tryCatch body catches final =>
      exact closed.guards.evalTry (fun _ _ _ => trivial) fun S p _ => parts S p
    | _ => exact absurd rfl plain

theorem evalNode (closed : Closed R) (fuel : Nat) {node : Node}
    (stays : ∀ code, node ≠ .exit code) (parts : ∀ S node, R S Value fun i => ev i node) :
    R S Value fun i => Eval.evalNode fuel (ev i) node := by
  have comp := closed.compositional S
  have step := comp.rules.evalNode (comp.provides (parts S)) fuel (fun p _ => parts S p)
    (closed.own stays parts)
  simpa only [Services.plain_evalNode] using step

end Closed

end Hetman.Eval
