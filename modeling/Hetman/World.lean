import Hetman.Session

/-!
What is outside a program: the files, the input, what has been written, and the
source of random numbers.
-/

namespace Hetman

structure World where
  files : Files := {}
  input : List Char := []
  inputOpen : Bool := false
  output : String := ""
  random : StdGen := mkStdGen

namespace World

def write (w : World) (text : String) : World :=
  { w with output := w.output ++ text }

def printLine (w : World) (line : String) : World :=
  w.write (line ++ "\n")

def start (w : World) : Session :=
  { files := w.files, input := w.input, inputOpen := w.inputOpen, output := w.output,
    random := w.random }

/-- The world is left with the question written when there is no line. -/
def ask (w : World) (question : String) : Option String × World :=
  match Eval.readLine (w.write question).start with
  | .ok line s => (some line, { w.write question with input := s.input })
  | .error _ _ => (none, w.write question)

end World

def Session.world (s : Session) : World :=
  { files := s.files, input := s.input, inputOpen := s.inputOpen, output := s.output,
    random := s.random }

end Hetman
