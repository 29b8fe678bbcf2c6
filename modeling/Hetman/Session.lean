import Hetman.Dialect
import Hetman.Files
import Hetman.Object
import Hetman.Value.Display

/-!
The state of a running program, and the ways in which running ends.
-/

namespace Hetman

/-- The code that a program exits with: a number, or a truth value that stands
for one. -/
inductive ExitCode where
  | number (n : Int)
  | flag (b : Bool)
  deriving DecidableEq, Inhabited

namespace ExitCode

def text : ExitCode → String
  | .number n => Decimal.intText n
  | .flag b => if b then "True" else "False"

end ExitCode

structure Session where
  env : Bindings Value := []
  functions : Bindings (Routine Node) := []
  classes : ClassGraph := {}
  types : Bindings String := []
  heap : Heap := {}
  exitCode : ExitCode := .number 0
  imported : List String := []
  /-- The folder that imports are looked up from; without one, the working
  folder. -/
  folder : Option String := none
  strict : Bool := false
  dialect : Option Dialect := none
  mathIdent : Nat := 1
  hashIdent : Nat := 2
  function : Option String := none
  files : Files := {}
  input : List Char := []
  /-- Whether more input may come. -/
  inputOpen : Bool := false
  output : String := ""
  /-- Where random numbers come from. -/
  random : StdGen := mkStdGen

/-- Why an evaluation stops without coming to an end: the steps allowed are used
up, or the input so far is. -/
inductive Suspension where
  | steps | input
  deriving DecidableEq, Inhabited

/-- How an evaluation ends other than with a value. -/
inductive Signal where
  | returned (value : Value)
  | failed (fault : Fault)
  | exited (code : ExitCode)
  | suspended (cause : Suspension)
  deriving Inhabited

namespace Signal

/-- What a handler is told about a signal that it catches. -/
def message? : Signal → Option String
  | .failed fault => some fault.message
  | .exited code => some s!"Program exited with code {code.text}"
  | .returned _ | .suspended _ => none

/-- A fault with an object as one of the program. -/
def asScript : Signal → Signal
  | .failed (.object cause) => .failed (.script (.object cause))
  | signal => signal

end Signal

abbrev Eval := EStateM Signal Session

namespace Eval

/-! ## Ending -/

def fail {α : Type} (fault : Fault) : Eval α :=
  throw (.failed fault)

def reject {α : Type} (cause : ScriptFault) : Eval α :=
  fail (.script cause)

def lift {α : Type} : Except Fault α → Eval α
  | .ok a => return a
  | .error fault => fail fault

/-- Runs to the end, whichever it is. -/
def attempt {σ α : Type} (x : EStateM Signal σ α) : EStateM Signal σ (Except Signal α) := fun s =>
  match x s with
  | .ok a s => .ok (.ok a) s
  | .error signal s => .ok (.error signal) s

/-- Ends as an attempt has ended. -/
def conclude {σ α : Type} : Except Signal α → EStateM Signal σ α
  | .ok a => return a
  | .error signal => throw signal

/-- What is wrong with an object is told as a fault of the program. -/
def asScript {σ α : Type} (x : EStateM Signal σ α) : EStateM Signal σ α := do
  match ← attempt x with
  | .ok a => return a
  | .error signal => throw signal.asScript

/-! ## Variables -/

def binding? (name : String) : Eval (Option Value) :=
  return (← get).env.get? name

def bind_ (name : String) (value : Value) : Eval Unit :=
  modify fun s => { s with env := s.env.insert name value }

def unbind (name : String) : Eval Unit :=
  modify fun s => { s with env := s.env.erase name }

def this? : Eval (Option Nat) := do
  match ← binding? "this" with
  | some (.object ref) => return some ref
  | _ => return none

def caller : Eval Caller := do
  return { object := ← this?, function := (← get).function }

/-! ## The heap -/

def fromHeap {α : Type} (f : Heap → α) : Eval α :=
  return f (← get).heap

def onHeap {α : Type} (f : Heap → Except Fault α) : Eval α := do
  lift (f (← get).heap)

def updateHeap (f : Heap → Except Fault (Value × Heap)) : Eval Value := do
  let (value, heap) ← lift (f (← get).heap)
  modify fun s => { s with heap }
  return value

def freshIdent : Eval Nat :=
  modifyGet fun s =>
    let (ident, heap) := s.heap.newIdent
    (ident, { s with heap })

/-- A result that is not a number gets its identity. -/
def settle (v : Value) : Eval Value :=
  match v with
  | .float x => if x.isNaN then return .nan (← freshIdent) else return v
  | .tuple items => do return .tuple (← items.mapM settleItem)
  | v => return v
where
  settleItem : Value → Eval Value
    | .float x => do if x.isNaN then return .nan (← freshIdent) else return .float x
    | v => return v

def newList (items : List Value) : Eval Value :=
  updateHeap fun h => .ok (h.newList items)

def truthy (v : Value) : Eval Bool :=
  fromHeap fun h => h.truthy v

def display (v : Value) : Eval String :=
  onHeap fun h => h.display v

/-! ## Input and output -/

def write (text : String) : Eval Unit :=
  modify fun s => { s with output := s.output ++ text }

def readLine : Eval String := do
  let s ← get
  if s.input.isEmpty then
    if s.inputOpen then throw (.suspended .input) else fail .endOfInput
  else
    let line := s.input.takeWhile (· ≠ '\n')
    set { s with input := s.input.drop (line.length + 1) }
    return String.ofList line

end Eval

end Hetman
