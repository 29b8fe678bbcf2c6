import Hetman.Report

/-!
Programs run one after the other in the same session.
-/

namespace Hetman

inductive Console.Ending where
  | finished
  | untokenized (fault : Lexer.Fault)
  | unparsed (stop : Parser.Stop)
  | problems (all : List Parser.Problem)
  | stopped (signal : Signal)

/-- A program with problems is not run. -/
def Session.enter (s : Session) (code : String) : Console.Ending × Session :=
  let lexed := lex code
  match lexed.fault with
  | some fault => (.untokenized fault, s)
  | none =>
    let outcome := parse lexed.tokens s.strict
    match outcome.node with
    | .error stop => (.unparsed stop, s)
    | .ok program =>
      if outcome.state.problems.isEmpty then
        match Eval.eval Eval.stepLimit program s with
        | .ok _ s => (.finished, s)
        | .error signal s => (.stopped signal, s)
      else (.problems outcome.state.problems, s)

end Hetman
