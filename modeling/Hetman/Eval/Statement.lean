import Hetman.Collection.Plain
import Hetman.Eval.Import
import Hetman.TypeName
import Hetman.Value.Arithmetic
import Hetman.Value.Cast

/-!
Evaluating trees.

`eval` gives the value of a node or ends with a signal. Each form of node has a
function of its own that is given the evaluation of the parts; `eval` only ties
them together. The number of steps that a branch of the evaluation may take is
limited by `fuel`, and a run that uses it up is `suspended`, which no handler
catches.

The limit that a host sets to nested calls is left out. So calls may nest as deep
as the fuel allows, and a program that calls itself without end is suspended and
not told of it: no handler of its own can go on after that.
-/

namespace Hetman.Eval

/-! ## Expressions -/

/-- The value of a variable; a function's name stands for the function. -/
def evalVariable (name : String) : Eval Value := do
  let s ← get
  match s.env.get? name with
  | some value => return value
  | none =>
    match s.functions.get? name with
    | some routine => return .tree (.function routine)
    | none => reject (.undefinedVariable name)

/-- Both sides are always evaluated. -/
def evalBinary (ev : Node → Eval Value) (left : Node) (op : BinaryOp) (right : Node) :
    Eval Value := do
  let a ← ev left
  let b ← ev right
  settle (← updateHeap fun h => h.operate op a b)

def evalComparison (ev : Node → Eval Value) (left : Node) (op : CompareOp) (right : Node) :
    Eval Value := do
  let a ← ev left
  let b ← ev right
  match op with
  | .other _ => return .none
  | op => return .bool (← onHeap fun h => h.compare op a b)

def evalEntries (ev : Node → Eval Value) (entries : List (Value × Value)) :
    List (Node × Node) → Eval (List (Value × Value))
  | [] => return entries
  | (keyNode, valueNode) :: rest => do
    let key ← ev keyNode
    if let .list _ := key then reject .arrayKey
    let value ← ev valueNode
    lift (Heap.checkKey key)
    evalEntries ev (Heap.putEntry key value entries) rest

def evalLookup (ev : Node → Eval Value) (container key : Node) : Eval Value := do
  let c ← ev container
  let k ← ev key
  match c with
  | .dict ref => onHeap fun h => h.lookup ref k
  | .list ref => onHeap fun h => h.elementAt ref k
  | _ => reject .notIndexable

/-- A node that the parser does not make: it is checked like a lookup but has no value. -/
def evalArrayIndex (ev : Node → Eval Value) (array index : Node) : Eval Value := do
  let a ← ev array
  let i ← ev index
  match a with
  | .list ref =>
    match i.int? with
    | none => reject .indexType
    | some n =>
      let length ← fromHeap fun h => (h.list ref).length
      if n < 0 || n ≥ length then reject .indexBounds
      else fail (.attribute "KozakArrayIndex" "dictionary")
  | _ => reject .onlyArrays

def evalProperty (ev : Node → Eval Value) (object : Node) (name : String) : Eval Value := do
  match ← ev object with
  | .library lib ident =>
    match libraryMember? lib ident name with
    | some member => return member
    | none => reject (.moduleMember name)
  | .object ref =>
    let s ← get
    match Object.get s.classes s.heap ref name (← caller) with
    | .ok (.field value) => return value
    | .ok (.method _) => return .method (← freshIdent)
    | .error cause => reject (.object cause)
  | v => reject (.propertyOf name v.typeName)

def evalInput (ev : Node → Eval Value) (prompt : Node) : Eval Value := do
  write (← display (← ev prompt))
  return .text (← readLine)

/-! ## Assignments -/

/-- A declared type is remembered and holds for later assignments. -/
def assignVariable (name : String) (value : Value) (typeHint : Option String) :
    Eval Value := do
  let actual := value.typeName
  match typeHint.filter (· ≠ "") with
  | some hint =>
    let expected := TypeName.normalize hint
    if TypeName.accepts expected actual then
      modify fun s => { s with types := s.types.insert name expected }
    else reject (.typeMismatch name expected actual)
  | none =>
    match (← get).types.get? name with
    | some expected =>
      unless TypeName.accepts expected actual do reject (.typeConstraint name expected actual)
    | none => pure ()
  bind_ name value
  return .none

def setField (ref : Nat) (name : String) (value : Value) : Eval Value := do
  let s ← get
  match Object.set s.classes s.heap ref name value (← caller) with
  | .ok heap =>
    modify fun s => { s with heap }
    return value
  | .error cause => reject (.object cause)

def assignEntry (ref : Nat) (key value : Value) : Eval Value :=
  updateHeap fun h => do return (value, ← h.setEntry ref key value)

def assignElement (ref : Nat) (index value : Value) : Eval Value :=
  updateHeap fun h => do return (value, ← h.setElement ref index value)

def assignMember (ev : Node → Eval Value) (object : Node) (name : String) (value : Node) :
    Eval Value := do
  let target ← ev object
  let v ← ev value
  match target with
  | .dict ref => assignEntry ref (.text name) v
  | .list _ => reject (.unknownNode "str")
  | .object ref => setField ref name v
  | target => reject (.assignTo name target.typeName)

/-- A plain value stands for itself. -/
def evalKey (ev : Node → Eval Value) (key : Node) : Eval Value :=
  match key with
  | .datum d => updateHeap fun h => .ok (h.store d)
  | .missing => return .none
  | key => ev key

/-- The key is evaluated after the value. -/
def assignAtKey (ev : Node → Eval Value) (container key value : Node) : Eval Value := do
  let target ← ev container
  let v ← ev value
  match target with
  | .dict ref => assignEntry ref (← evalKey ev key) v
  | .list ref =>
    match key with
    | .datum (.int n) => assignElement ref (.int n) v
    | .datum (.bool b) => assignElement ref (.bool b) v
    | key => assignElement ref (← ev key) v
  | .object ref =>
    let name ← display (← asScript (ev key))
    setField ref name v
  | target => reject (.assignTo key.outline.display target.typeName)

def evalStep (op : StepOp) (target : Node) : Eval Value :=
  match target with
  | .var name => do
    match ← binding? name with
    | none => reject (.stepUndefined name)
    | some value =>
      match op with
      | .increment => change name value Number.add (.notIncrementable name)
      | .decrement => change name value Number.sub (.notDecrementable name)
      | .other symbol => reject (.unknownStep symbol)
  | _ => reject .stepTarget
where
  change (name : String) (value : Value) (f : Number → Number → Except Fault Number)
      (refusal : ScriptFault) : Eval Value := do
    if value.isReal then
      bind_ name (← settle (← lift (Value.onNumbers "+" f value (.int 1))))
      return .none
    else reject refusal

/-! ## Output -/

def printText (value : Value) : Eval String :=
  match value with
  | .bool b => return if b then "Pravda" else "Nepravda"
  | value => display value

def printItems : List Value → Eval Unit
  | [] => return
  | [last] => do write (← printText last)
  | value :: rest => do
    write (← printText value)
    write " "
    printItems rest

def evalPrint (ev : Node → Eval Value) (arguments : List Node) : Eval Value := do
  printItems (← evalAll ev arguments)
  write "\n"
  return .none

/-! ## Branches and loops -/

def evalBranches (ev : Node → Eval Value) (otherwise : List Node) :
    List (Node × List Node) → Eval Unit
  | [] => runBlock ev otherwise
  | (condition, body) :: rest => do
    if ← truthy (← ev condition) then runBlock ev body else evalBranches ev otherwise rest

/-- At most `fuel` times. -/
def whileLoop (ev : Node → Eval Value) (condition : Node) (body : List Node) :
    (fuel : Nat) → Eval Unit
  | 0 => throw (.suspended .steps)
  | fuel + 1 => do
    if ← truthy (← ev condition) then
      runBlock ev body
      whileLoop ev condition body fuel
    else return

/-- At most `fuel` times. -/
def forLoop (ev : Node → Eval Value) (condition step : Node) (body : List Node) :
    (fuel : Nat) → Eval Unit
  | 0 => throw (.suspended .steps)
  | fuel + 1 => do
    if ← truthy (← ev condition) then
      runBlock ev body
      let _ ← ev step
      forLoop ev condition step body fuel
    else return

/-- From an index on, at most `fuel` elements. The list is looked at anew each time. -/
def eachLoop (ev : Node → Eval Value) (ref : Nat) (name : String) (body : List Node) :
    (fuel index : Nat) → Eval Unit
  | 0, _ => throw (.suspended .steps)
  | fuel + 1, index => do
    match ← fromHeap fun h => (h.list ref)[index]? with
    | none => return
    | some value =>
      bind_ name value
      runBlock ev body
      eachLoop ev ref name body fuel (index + 1)

/-- Afterwards the variable is unbound if it was, and otherwise has its old value back unless that
was none. -/
def evalForEach (ev : Node → Eval Value) (fuel : Nat) (name : String) (array : Node)
    (body : List Node) : Eval Value := do
  match ← ev array with
  | .list ref =>
    let before ← binding? name
    eachLoop ev ref name body fuel 0
    match before with
    | none =>
      if (← binding? name).isNone then fail (.missingKey (Text.quoted name))
      unbind name
    | some .none => pure ()
    | some value => bind_ name value
    return .none
  | _ => reject .notIterable

/-! ## Handlers -/

section Handlers

/-! A block with handlers may run on any state that has a session in it, so that
something can be kept beside the session. -/

variable {σ : Type} [MonadLiftT Eval (EStateM Signal σ)]

/-- Afterwards the name has its old value back, or is unbound if there was none. -/
def withMessage (name : Option String) (message : String) (handler : EStateM Signal σ Unit) :
    EStateM Signal σ Unit := do
  match name.filter (· ≠ "") with
  | none => handler
  | some name =>
    let before ← binding? name
    bind_ name (.text message)
    let outcome ← attempt handler
    match before with
    | none | some .none => unbind name
    | some value => bind_ name value
    conclude outcome

/-- When the block ends by a return, the last part runs before it does. -/
def beforeReturn (last block : EStateM Signal σ Unit) : EStateM Signal σ Unit := do
  match ← attempt block with
  | .error (.returned value) =>
    last
    throw (.returned value)
  | outcome => conclude outcome

/-- However the block ends, unless it is suspended. -/
def afterwards (last block : EStateM Signal σ Unit) : EStateM Signal σ Unit := do
  match ← attempt block with
  | .error (.suspended cause) => throw (.suspended cause)
  | outcome =>
    last
    conclude outcome

/-- The first handler of a block; without a handler the signal goes on. -/
def handle (ev : Node → Eval Value) (last : EStateM Signal σ Unit)
    (catches : List (Option String × List Node)) (signal : Signal) : EStateM Signal σ Unit :=
  match signal.message?, catches with
  | some message, (name, body) :: _ =>
    withMessage name message (beforeReturn last (liftM (runBlock ev body)))
  | _, _ => throw signal

/-- The last part runs after the rest; when the block or its handler returns, it runs once before as
well. -/
def guarded (ev : Node → Eval Value) (last : EStateM Signal σ Unit) (body : List Node)
    (catches : List (Option String × List Node)) : EStateM Signal σ Unit :=
  afterwards last do
    match ← attempt (liftM (runBlock ev body)) with
    | .ok () => return
    | .error (.returned value) =>
      last
      throw (.returned value)
    | .error signal => handle ev last catches signal

end Handlers

def evalTry (ev : Node → Eval Value) (body : List Node)
    (catches : List (Option String × List Node)) (final : Option (List Node)) :
    Eval Value := do
  guarded ev (runBlock ev (final.getD [])) body catches
  return .none

/-! ## Other statements -/

/-- A method by the name of the constructors is its constructor. -/
def declared (decl : ClassDecl Node) (parent : Option Nat) : ClassInfo where
  name := decl.name
  methods := decl.methods
  constructor := Bindings.get? decl.methods "Tvir"
  destructor := decl.destructor
  parent := parent
  fieldAccess := decl.fieldAccess
  methodAccess := decl.methodAccess
  friends := decl.friends
  friendClasses := decl.friendClasses

def evalClass (decl : ClassDecl Node) : Eval Value := do
  let parent : Option Nat ← match decl.parent.filter (· ≠ "") with
    | none => pure none
    | some name =>
      match (← get).classes.find name with
      | .ok id => pure (some id)
      | .error _ => reject (.parentUndefined name decl.name)
  let id ← modifyGet fun s =>
    let (id, classes) := s.classes.define (declared decl parent)
    (id, { s with classes })
  return .classRef id

def exitCodeOf (value : Value) : Except Fault ExitCode := do
  let code : ExitCode ← match value with
    | .bool b => pure (.flag b)
    | .int n => pure (.number n)
    | value =>
      match value.toInt with
      | .ok n => pure (.number n)
      | .error .unreadable => throw (.script (.exitType value.typeName))
      | .error (.other fault) => throw fault
  match code with
  | .flag b => return .flag b
  | .number n => if 0 ≤ n && n ≤ 255 then return code else throw (.script .exitRange)

def evalExit (ev : Node → Eval Value) (code : Node) : Eval Value := do
  let code ← match code with
    | .missing => pure (.number 0)
    | code => do lift (exitCodeOf (← ev code))
  modify fun s => { s with exitCode := code }
  throw (.exited code)

/-! ## All nodes -/

/-- Given the evaluation of the parts and the number of times that a loop may go round. -/
def evalNode (fuel : Nat) (ev : Node → Eval Value) (node : Node) : Eval Value :=
  match node with
  | .number n => settle (.ofNumeral n)
  | .text s => return .text s
  | .boolean b => return .bool b
  | .var name => evalVariable name
  | .binary left op right => evalBinary ev left op right
  | .comparison left op right => evalComparison ev left op right
  | .cast target operand => do
    let value ← ev operand
    settle (← onHeap fun h => h.cast target value)
  | .input prompt => evalInput ev prompt
  | .array elements => do newList (← evalAll ev elements)
  | .dictionary pairs => do
    let entries ← evalEntries ev [] pairs
    updateHeap fun h => .ok (h.newDict entries)
  | .lookup container key => evalLookup ev container key
  | .arrayIndex array index => evalArrayIndex ev array index
  | .call name arguments => callNamed ev name arguments
  | .super method arguments => callSuper ev method arguments
  | .newObject className arguments => construct ev className arguments
  | .property object name => evalProperty ev object name
  | .assign name value typeHint => do assignVariable name (← ev value) typeHint
  | .assignProperty object name value => assignMember ev object name value
  | .assignIndex container key value => assignAtKey ev container key value
  | .step op target => evalStep op target
  | .print arguments => evalPrint ev arguments
  | .ifElse condition body elseIfs otherwise => do
    evalBranches ev (otherwise.getD []) ((condition, body) :: elseIfs)
    return .none
  | .whileLoop condition body => do
    whileLoop ev condition body fuel
    return .none
  | .forLoop init condition step body => do
    let _ ← ev init
    forLoop ev condition step body fuel
    return .none
  | .forEach name array body => evalForEach ev fuel name array body
  | .function routine => do
    modify fun s => { s with functions := s.functions.insert routine.name routine }
    return .none
  | .ret value => do
    match value with
    | .missing => throw (.returned .none)
    | value => throw (.returned (← ev value))
  | .classDecl decl => evalClass decl
  | .tryCatch body catches final => evalTry ev body catches final
  | .throw message => do reject (.thrown (← display (← ev message)))
  | .exit code => evalExit ev code
  | .importFile path => do importValue ev (← ev path)
  | .program statements => do
    runBlock ev statements
    return .none
  | .methodCall .. | .destructor _ | .missing | .datum _ =>
    reject (.unknownNode node.outline.typeName)

def eval : (fuel : Nat) → Node → Eval Value
  | 0, _ => throw (.suspended .steps)
  | fuel + 1, node => evalNode fuel (eval fuel) node

end Hetman.Eval
