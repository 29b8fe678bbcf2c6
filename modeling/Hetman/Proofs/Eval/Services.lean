import Hetman.Proofs.Eval.Discipline

/-!
# The evaluator over its services

Evaluation is served in three ways: a body is run, a member of an object is read, a field is
written. The functions of the evaluator that are served so are stated once more, over given
`Services`; over the plain services they are the evaluator's own (`plain_evalNode`). What is to be
done whenever a body runs or a member is used can so be put into the services.
-/

namespace Hetman

/-- As what a body on an object is run. -/
inductive Role where
  | method | constructor | destructor
  deriving DecidableEq

/-- A body that is run. -/
inductive Activation where
  | function (name : String)
  | on (role : Role) (ref : Nat) (name : String)
  deriving DecidableEq

namespace Activation

def name : Activation → String
  | .function name => name
  | .on _ _ name => name

/-- The variables of a body that are no parameters. -/
def locals : Activation → Bindings Value
  | .function _ => []
  | .on _ ref _ => [("this", .object ref)]

end Activation

namespace Eval

/-- What serves an evaluation. -/
structure Services where
  run : Activation → (parameters : List String) → (args : List Value) → List Node → Eval Value
  read : (ref : Nat) → (name : String) → Eval Value
  write : (ref : Nat) → (name : String) → Value → Eval Value

/-- Reads a member; a method is read as a value. -/
def readMember (ref : Nat) (name : String) : Eval Value := do
  let s ← get
  match Object.get s.classes s.heap ref name (← caller) with
  | .ok (.field value) => return value
  | .ok (.method _) => return .method (← freshIdent)
  | .error cause => reject (.object cause)

theorem readMember_apply (ref : Nat) (name : String) (s : Session) :
    readMember ref name s =
      match Object.get s.classes s.heap ref name s.caller with
      | .ok (.field value) => .ok value s
      | .ok (.method _) =>
        .ok (.method s.heap.newIdent.1) { s with heap := s.heap.newIdent.2 }
      | .error cause => .error (.failed (.script (.object cause))) s := by
  have started : readMember ref name s = (caller >>= fun asking =>
      match Object.get s.classes s.heap ref name asking with
      | .ok (.field value) => pure value
      | .ok (.method _) => do return .method (← freshIdent)
      | .error cause => reject (.object cause)) s := rfl
  rw [started, bind_ok (caller_apply s)]
  cases Object.get s.classes s.heap ref name s.caller with
  | error cause => rfl
  | ok member => cases member <;> rfl

namespace Services

/-- The services of the evaluator. -/
def plain (ev : Node → Eval Value) : Services where
  run act parameters args body := runBody ev body (act.locals ++ parameters.zip args) act.name
  read := readMember
  write := setField

variable (services : Services) (ev : Node → Eval Value)

/-! ## Objects -/

def destroy (ref : Nat) : Eval Unit := do
  let s ← get
  let o := s.heap.object ref
  unless o.destroyed do
    match (s.classes.info o.classId).destructor with
    | none => modify fun s => { s with heap := Object.markDestroyed s.heap ref }
    | some body =>
      let outcome ← attempt (services.run (.on .destructor ref "Destructor") [] [] body)
      modify fun s => { s with heap := Object.markDestroyed s.heap ref }
      let _ ← conclude outcome

/-- Calls a method of the object in a variable. -/
def callMethod (name method : String) (args : List Value) : Eval Value := do
  match ← binding? name with
  | none => reject (.instanceUndefined name)
  | some (.object ref) =>
    let s ← get
    let o := s.heap.object ref
    match s.classes.findMethod o.classId method with
    | none => reject (.methodMissing method (s.classes.info o.classId).name)
    | some routine =>
      checkMethodAccess ref method
      if args.length ≠ routine.parameters.length then
        reject (.methodArity method routine.parameters.length args.length)
      else services.run (.on .method ref method) routine.parameters args routine.body
  | some _ => reject (.notAnObject method name)

/-- Calls a parent's method on the object whose code runs. -/
def callSuper (method : String) (arguments : Option (List Node)) : Eval Value := do
  match ← this? with
  | none => reject .superOutside
  | some ref =>
    let s ← get
    let c := s.classes.info (s.heap.object ref).classId
    match c.parent with
    | none => reject (.noParent c.name)
    | some parent =>
      match s.classes.findMethod parent method with
      | none => reject (.superMissing method (s.classes.info parent).name)
      | some routine =>
        let args ← evalArguments ev arguments
        if args.length ≠ routine.parameters.length then
          reject (.superArity method routine.parameters.length args.length)
        else services.run (.on .method ref method) routine.parameters args routine.body

def construct (className : String) (arguments : Option (List Node)) : Eval Value := do
  let s ← get
  match s.classes.find className with
  | .error cause => fail (.object cause)
  | .ok classId =>
    let ref ← modifyGet fun s =>
      let (ref, heap) := s.heap.newObject { classId }
      (ref, { s with heap })
    match constructorOf s.classes classId with
    | none => return .object ref
    | some routine =>
      let args ← evalArguments ev arguments
      if args.length ≠ routine.parameters.length then
        reject (.constructorArity (s.classes.info classId).name routine.parameters.length
          args.length)
      else
        let _ ← services.run (.on .constructor ref "Tvir") routine.parameters args routine.body
        return .object ref

/-! ## Calls by name -/

def applyBuiltin (b : Builtin) (args : List Value) : Eval Value :=
  match b, args with
  | .destroy, [.object ref] => do
    services.destroy ref
    return .none
  | b, args => Eval.applyBuiltin ev b args

def callBuiltin (b : Builtin) (arguments : Option (List Node)) : Eval Value := do
  let count ← countArguments arguments
  if !b.accepts count then reject (.argument (.count b))
  else
    match b, arguments with
    | .setAt, some (array :: rest) =>
      match ← ev array with
      | .list ref =>
        let args ← evalAll ev rest
        services.applyBuiltin ev .setAt (.list ref :: args)
      | _ => reject (.argument .firstArray)
    | b, arguments => do
      let args ← evalArguments ev arguments
      services.applyBuiltin ev b args

/-- Calls a function of the program. -/
def callFunction (name : String) (arguments : Option (List Node)) : Eval Value := do
  match (← get).functions.get? name with
  | none => reject (.functionUndefined name)
  | some routine =>
    let count ← countArguments arguments
    if count ≠ routine.parameters.length then
      reject (.functionArity name routine.parameters.length count)
    else
      let args ← evalArguments ev arguments
      services.run (.function name) routine.parameters args routine.body

def callNamed (name : String) (arguments : Option (List Node)) : Eval Value := do
  match ← namedMember? name with
  | some (lib, member) =>
    let args ← evalArguments ev arguments
    callLibrary lib member args
  | none =>
    match Builtin.ofName? name with
    | some b => services.callBuiltin ev b arguments
    | none =>
      match splitName name with
      | some (object, method) =>
        let args ← evalArguments ev arguments
        services.callMethod object method args
      | none => services.callFunction ev name arguments

/-! ## Members -/

def property (object : Node) (name : String) : Eval Value := do
  match ← ev object with
  | .library lib ident =>
    match libraryMember? lib ident name with
    | some member => return member
    | none => reject (.moduleMember name)
  | .object ref => services.read ref name
  | v => reject (.propertyOf name v.typeName)

def assignMember (object : Node) (name : String) (value : Node) : Eval Value := do
  let target ← ev object
  let v ← ev value
  match target with
  | .dict ref => assignEntry ref (.text name) v
  | .list _ => reject (.unknownNode "str")
  | .object ref => services.write ref name v
  | target => reject (.assignTo name target.typeName)

def assignAtKey (container key value : Node) : Eval Value := do
  let target ← ev container
  let v ← ev value
  match target with
  | .dict ref => assignEntry ref (← evalKey ev key) v
  | .list ref =>
    match key with
    | .datum (.int n) => assignElement ref (.int n) v
    | .datum (.bool b) => assignElement ref (.bool b) v
    | key => assignElement ref (← ev key) v
  | .object ref =>
    let name ← display (← asScript (ev key))
    services.write ref name v
  | target => reject (.assignTo key.outline.display target.typeName)

/-! ## All nodes -/

/-- Evaluates a node, given the evaluation of its parts and the services. -/
def evalNode (fuel : Nat) (node : Node) : Eval Value :=
  match node with
  | .call name arguments => services.callNamed ev name arguments
  | .super method arguments => services.callSuper ev method arguments
  | .newObject className arguments => services.construct ev className arguments
  | .property object name => services.property ev object name
  | .assignProperty object name value => services.assignMember ev object name value
  | .assignIndex container key value => services.assignAtKey ev container key value
  | node => Eval.evalNode fuel ev node

variable {ev}

/-! ## The plain services -/

theorem plain_applyBuiltin (b : Builtin) (args : List Value) :
    (plain ev).applyBuiltin ev b args = Eval.applyBuiltin ev b args := by
  unfold applyBuiltin
  split <;> rfl

theorem plain_callBuiltin (b : Builtin) (arguments : Option (List Node)) :
    (plain ev).callBuiltin ev b arguments = Eval.callBuiltin ev b arguments := by
  unfold callBuiltin
  simp only [plain_applyBuiltin]
  rfl

theorem plain_callNamed (name : String) (arguments : Option (List Node)) :
    (plain ev).callNamed ev name arguments = Eval.callNamed ev name arguments := by
  unfold callNamed
  simp only [plain_callBuiltin]
  rfl

theorem plain_evalNode (fuel : Nat) (node : Node) :
    (plain ev).evalNode ev fuel node = Eval.evalNode fuel ev node := by
  cases node with
  | call name arguments => exact plain_callNamed name arguments
  | _ => rfl

end Services

end Eval

end Hetman
