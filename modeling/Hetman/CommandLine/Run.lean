import Hetman.Bundle.Unpack
import Hetman.CommandLine
import Hetman.Report

/-!
The command line as a whole.

An executable that carries a script runs it and looks at no arguments.
Otherwise the arguments name a file. In the end a line of input is waited for,
so that a window stays open; arguments that are refused end the program at once.
-/

namespace Hetman.CommandLine

/-- Why the program ends without an exit code. -/
inductive Crash where
  | unpacking (fault : UnpackFault)
  | running (fault : RunFault)
  /-- There is no input left to wait for. -/
  | endOfInput
  /-- There is no input left so far. -/
  | waiting
  deriving Inhabited

namespace Crash

def message : Crash → String
  | .unpacking fault => fault.message
  | .running fault => fault.message
  | .endOfInput | .waiting => Hetman.Fault.endOfInput.message

end Crash

/-- How the program ends, what it wrote to the error output, and the world it
leaves. -/
structure Outcome where
  ending : Except Crash ExitCode
  errors : String := ""
  world : World

def usage : String :=
  "usage: main.py [-h] [--skip-strict] file\n"

def help : String :=
  usage ++
  "\nKozakScript Interpreter - A multi-dialect programming language\n" ++
  "\npositional arguments:\n" ++
  "  file               KozakScript file to execute (.kozak extension)\n" ++
  "\noptions:\n" ++
  "  -h, --help         show this help message and exit\n" ++
  "  --skip-strict, -s  Skip strict dialect mode (allow mixing dialects)\n" ++
  "\nExamples:\n" ++
  "  python main.py program.kozak                  # Run with dialect mixing allowed\n" ++
  "  python main.py program.kozak --strict         # Enforce single dialect\n" ++
  "  python main.py program.kozak -s               # Short form\n" ++
  "        \n"

def waitAndExit (code : ExitCode) (w : World) : Outcome :=
  match w.ask "\nPress Enter to exit, kozache..." with
  | (some _, w) => { ending := .ok code, world := w }
  | (none, w) =>
    { ending := .error (if w.inputOpen then .waiting else .endOfInput), world := w }

def runEmbedded (host : Host) (code : String) (w : World) : Outcome :=
  match Bundle.unpack host w with
  | (.error fault, w) => { ending := .error (.unpacking fault), world := w }
  | (.ok folder, w) =>
    let w := if folder.isSome then w.printLine "" else w
    match Report.run w code false folder with
    | (.ok code, w) => waitAndExit code w
    | (.error .waiting, w) => { ending := .error .waiting, world := w }
    | (.error fault, w) => { ending := .error (.running fault), world := w }

/-- There is no exit code while the run waits for more input. -/
def runFile (file : String) (strict : Bool) (w : World) : Option ExitCode × World :=
  let failed (w : World) (message : String) : Option ExitCode × World :=
    (some (.number 1), (Report.unexpected w message).2)
  if !file.endsWith ".kozak" then
    failed w "Oy bida, Kozache! The file must have a '.kozak' extension."
  else if !w.files.exists? file then
    (some (.number 1),
      w.printLine s!"Oslip ya, chy tviy file znyk, Kozache? File '{file}' not found")
  else
    match w.files.read file with
    | .error fault => failed w (fault.message file)
    | .ok content =>
      match Files.textOf content with
      | .error fault => failed w fault.message
      | .ok code =>
        match Report.run w code strict none with
        | (.ok code, w) => (some code, w)
        | (.error .waiting, w) => (none, w)
        | (.error fault, w) => failed w fault.message

def runArguments (args : List String) (w : World) : Outcome :=
  match read args with
  | .error fault =>
    { ending := .ok (.number 2), errors := usage ++ s!"main.py: error: {fault.message}\n",
      world := w }
  | .ok .help => { ending := .ok (.number 0), world := w.write help }
  | .ok (.run file skipStrict) =>
    match runFile file (!skipStrict) w with
    | (some code, w) => waitAndExit code w
    | (none, w) => { ending := .error .waiting, world := w }

def run (host : Host) (args : List String) (w : World) : Outcome :=
  match Bundle.extractScript host w with
  | (some code, w) => if code.isEmpty then runArguments args w else runEmbedded host code w
  | (none, w) => runArguments args w

end Hetman.CommandLine
