import Hetman.Eval.Statement
import Hetman.Hint
import Hetman.World

/-!
Running a program and reporting how it went.

A program that cannot be read is not run: its problems are listed and the exit
code is 1. A program that runs to its end or exits is reported with its code;
one that fails, with what went wrong and the code 1.
-/

namespace Hetman

/-- How many steps deep an evaluation may go, and how often a loop may go
round. -/
def Eval.stepLimit : Nat := 1000000000

/-- Why a run comes to no exit code: the folder cannot be entered, what was
returned at the top cannot be shown, or the run waits for more input. -/
inductive RunFault where
  | folder (fault : PathFault) (path : String)
  | unprintable (fault : Fault)
  | waiting
  deriving Inhabited

namespace RunFault

def message : RunFault → String
  | .folder fault path => fault.message path
  | .unprintable fault => fault.message
  | .waiting => Fault.endOfInput.message

end RunFault

namespace Report

abbrev Outcome := Except RunFault ExitCode × World

def unexpected (w : World) (message : String) : Outcome :=
  (.ok (.number 1),
    (w.printLine "Neperedbachena bida! An unexpected error occurred:").write
      (Hint.annotate message))

def mixture (violations : Nat) (dialect : Option Dialect) : String :=
  let name := match dialect with
    | some d => d.name
    | none => "None"
  s!"\n🚫 Dialect Enforcement: Found {violations} violation(s)\n" ++
  s!"   Detected dialect: {name}\n" ++
  "   Govory odnieyu movoyu, kozache! Nichogo ne rozumiyu!\n" ++
  "   Tip: Use one dialect consistently throughout your program.\n"

def unreadable (w : World) (strict : Bool) (s : Parser.State) : Outcome :=
  let w := w.printLine "Bida, kozache! Errors found:"
  let w := s.problems.foldl (fun w p => w.write (Hint.annotate p.message)) w
  let w := if strict && !s.violations.isEmpty then
      w.write (mixture s.violations.length s.dialect)
    else w
  (.ok (.number 1), w)

def conclude : EStateM.Result Signal Session Value → Outcome
  | .ok _ s =>
    (.ok s.exitCode,
      (s.world.printLine "\nProgram executed successfully, kozache!").printLine
        s!"Program exited with code {s.exitCode.text}")
  | .error (.exited code) s =>
    (.ok code, s.world.printLine s!"\nProgram exited with code {code.text}, kozache!")
  | .error (.failed (.script cause)) s =>
    (.ok (.number 1),
      (s.world.printLine "Bida, kozache! Runtime error:").write
        (Hint.annotate (Fault.script cause).message))
  | .error (.failed fault) s => unexpected s.world fault.message
  | .error (.suspended .steps) s => unexpected s.world Fault.tooDeep.message
  | .error (.suspended .input) s => (.error .waiting, s.world)
  | .error (.returned value) s =>
    match s.heap.display value with
    | .ok text => unexpected s.world text
    | .error fault =>
      (.error (.unprintable fault),
        s.world.printLine "Neperedbachena bida! An unexpected error occurred:")

def evaluate (w : World) (strict : Bool) (dialect : Option Dialect) (folder : String)
    (program : Node) : Outcome :=
  let w := match strict, dialect with
    | true, some d => w.printLine s!"✓ Dialect check passed: Using {d.name} dialect"
    | _, _ => w
  conclude (Eval.eval Eval.stepLimit program
    { w.start with strict, dialect, folder := some folder })

def runIn (w : World) (code : String) (strict : Bool) (folder : String) : Outcome :=
  let lexed := lex code
  match lexed.fault with
  | some fault => unexpected w fault.message
  | none =>
    let outcome := parse lexed.tokens strict
    match outcome.node with
    | .error stop => unexpected w stop.message
    | .ok program =>
      if outcome.state.problems.isEmpty then
        evaluate w strict outcome.state.dialect folder program
      else unreadable w strict outcome.state

/-- In another folder if one is given; afterwards the working folder is the old one. -/
def run (w : World) (code : String) (strict : Bool) (folder : Option String) : Outcome :=
  match folder.filter (· ≠ "") with
  | none => runIn w code strict (Path.ofNames w.files.cwd)
  | some path =>
    match w.files.enter path with
    | .error fault => (.error (.folder fault path), w)
    | .ok files =>
      let (result, after) := runIn { w with files } code strict path
      (result, { after with files := { after.files with cwd := w.files.cwd } })

end Report

end Hetman
