import Hetman.Collection.Matrix
import Hetman.Library.Hash
import Hetman.Library.Math
import Hetman.Session

/-!
Running bodies and calling what a program can call.

A body runs with the variables of the caller and its own on top; afterwards the
caller's variables are back as they were. `ev` evaluates the nodes of a body.
-/

namespace Hetman.Eval

def runBlock (ev : Node → Eval Value) : List Node → Eval Unit
  | [] => return
  | node :: rest => do
    let _ ← ev node
    runBlock ev rest

def evalAll (ev : Node → Eval Value) : List Node → Eval (List Value)
  | [] => return []
  | node :: rest => do
    let value ← ev node
    return value :: (← evalAll ev rest)

/-- Runs a body with local variables under the name of a function. -/
def runBody (ev : Node → Eval Value) (body : List Node) (locals : Bindings Value)
    (name : String) : Eval Value := do
  let (env, function) ← enter
  let outcome ← attempt (runBlock ev body)
  modify fun s => { s with env, function }
  match outcome with
  | .ok () => return .none
  | .error (.returned value) => return value
  | .error signal => throw signal
where
  /-- Puts the local variables on top and returns what was there before. -/
  enter : Eval (Bindings Value × Option String) :=
    modifyGet fun s =>
      ((s.env, s.function),
        { s with env := s.env.insertAll locals, function := some name })

def runMethod (ev : Node → Eval Value) (ref : Nat) (routine : Routine Node)
    (args : List Value) (name : String) : Eval Value :=
  runBody ev routine.body (("this", .object ref) :: routine.parameters.zip args) name

def evalArguments (ev : Node → Eval Value) : Option (List Node) → Eval (List Value)
  | some nodes => evalAll ev nodes
  | none => fail (.type (.notIterable "NoneType"))

def countArguments : Option (List Node) → Eval Nat
  | some nodes => return nodes.length
  | none => fail (.type (.noLength "NoneType"))

/-! ## Libraries -/

def libraryIdent (lib : Library) : Eval Nat := do
  let s ← get
  return match lib with
    | .math => s.mathIdent
    | .hash => s.hashIdent

/-- What every object tells of itself. -/
def aboutLibrary? (lib : Library) (name : String) : Option Value :=
  match lib, name with
  | .math, "__doc__" => some (.text "Provides mathematical functions and constants")
  | .hash, "__doc__" => some .none
  | .math, "__module__" => some (.text "core.modules.math_module")
  | .hash, "__module__" => some (.text "core.modules.hash")
  | _, _ => none

def libraryMember? (lib : Library) (ident : Nat) (name : String) : Option Value :=
  let hasFunction := match lib with
    | .math => MathLibrary.hasFunction name
    | .hash => HashLibrary.hasFunction name
  if hasFunction then some (.libraryFunction lib ident name)
  else match lib with
    | .math => (MathLibrary.constant? name).or (aboutLibrary? .math name)
    | .hash => aboutLibrary? .hash name

def callLibrary (lib : Library) (member : Value) (args : List Value) : Eval Value :=
  match member with
  | .libraryFunction _ _ name => do
    let result ← onHeap fun h => match lib with
      | .math => MathLibrary.call h name args
      | .hash => HashLibrary.call name args
    settle result
  | v => fail (.type (.notCallable v.typeName))

/-! ## Objects -/

/-- Destroys an object: its destructor runs, and whatever comes of it the
object is destroyed afterwards. -/
def destroy (ev : Node → Eval Value) (ref : Nat) : Eval Unit := do
  let s ← get
  let o := s.heap.object ref
  unless o.destroyed do
    match (s.classes.info o.classId).destructor with
    | none => modify fun s => { s with heap := Object.markDestroyed s.heap ref }
    | some body =>
      let outcome ← attempt (runBody ev body [("this", .object ref)] "Destructor")
      modify fun s => { s with heap := Object.markDestroyed s.heap ref }
      let _ ← conclude outcome

def checkMethodAccess (ref : Nat) (method : String) : Eval Unit := do
  let s ← get
  let o := s.heap.object ref
  let className := (s.classes.info o.classId).name
  let calling ← this?
  match s.classes.methodAccess o.classId method with
  | .privateAccess =>
    unless calling = some ref do reject (.methodDenied .privateMember method className)
  | .protectedAccess =>
    let allowed := match calling with
      | some other => s.classes.descendsFrom (s.heap.object other).classId o.classId
      | none => false
    unless allowed do reject (.methodDenied .protectedMember method className)
  | _ => return

def callMethod (ev : Node → Eval Value) (name method : String) (args : List Value) :
    Eval Value := do
  match ← binding? name with
  | none => reject (.instanceUndefined name)
  | some (.object ref) =>
    let s ← get
    let o := s.heap.object ref
    match s.classes.findMethod o.classId method with
    | none => reject (.methodMissing method (s.classes.info o.classId).name)
    | some routine =>
      checkMethodAccess ref method
      if args.length ≠ routine.parameters.length then
        reject (.methodArity method routine.parameters.length args.length)
      else runMethod ev ref routine args method
  | some _ => reject (.notAnObject method name)

def callSuper (ev : Node → Eval Value) (method : String) (arguments : Option (List Node)) :
    Eval Value := do
  match ← this? with
  | none => reject .superOutside
  | some ref =>
    let s ← get
    let c := s.classes.info (s.heap.object ref).classId
    match c.parent with
    | none => reject (.noParent c.name)
    | some parent =>
      match s.classes.findMethod parent method with
      | none => reject (.superMissing method (s.classes.info parent).name)
      | some routine =>
        let args ← evalArguments ev arguments
        if args.length ≠ routine.parameters.length then
          reject (.superArity method routine.parameters.length args.length)
        else runMethod ev ref routine args method

def constructorOf (g : ClassGraph) (classId : Nat) : Option (Routine Node) :=
  let c := g.info classId
  match c.constructor, c.parent with
  | some routine, _ => some routine
  | none, some parent => (g.info parent).constructor
  | none, none => none

/-- Makes an object. The arguments are evaluated only for a constructor. -/
def construct (ev : Node → Eval Value) (className : String)
    (arguments : Option (List Node)) : Eval Value := do
  let s ← get
  match s.classes.find className with
  | .error cause => fail (.object cause)
  | .ok classId =>
    let ref ← modifyGet fun s =>
      let (ref, heap) := s.heap.newObject { classId }
      (ref, { s with heap })
    match constructorOf s.classes classId with
    | none => return .object ref
    | some routine =>
      let args ← evalArguments ev arguments
      if args.length ≠ routine.parameters.length then
        reject (.constructorArity (s.classes.info classId).name routine.parameters.length
          args.length)
      else
        let _ ← runMethod ev ref routine args "Tvir"
        return .object ref

/-! ## Files and chance -/

def pathFault (fault : PathFault) (path : String) (wrap : String → ScriptFault) : Fault :=
  match fault with
  | .nullByte => .value .nullByte
  | fault => .script (wrap (fault.message path))

/-- The file is opened before the value is turned into text. -/
def writeFile (path content : Value) (keep : Bool) : Eval Value := do
  match path with
  | .text path =>
    let s ← get
    match s.files.create path keep with
    | .error fault => fail (pathFault fault path .writing)
    | .ok (place, files) =>
      set { s with files }
      let text ← display content
      modify fun s => { s with files := s.files.appendText place text }
      return .none
  | _ => reject (.argument .writeName)

def readFile (path : Value) : Eval Value := do
  match path with
  | .text path =>
    match (← get).files.read path with
    | .error .missing => reject (.fileMissing path)
    | .error fault => fail (pathFault fault path .reading)
    | .ok content =>
      match Files.textOf content with
      | .ok text => return .text text
      | .error fault => fail (.decoding fault.message)
  | _ => reject (.argument .readName)

def randomInt (low high : Value) : Eval Value :=
  match low.int?, high.int? with
  | some a, some b =>
    if b < a then fail (.value (.emptyRange a (b + 1) (b + 1 - a)))
    else
      modifyGet fun s =>
        let (n, random) := randNat s.random 0 (b - a).toNat
        (.int (a + n), { s with random })
  | _, _ => reject (.argument .randomBounds)

/-! ## Built-in functions -/

def applyBuiltin (ev : Node → Eval Value) (b : Builtin) (args : List Value) : Eval Value :=
  match b, args with
  | .destroy, [.object ref] => do
    destroy ev ref
    return .none
  | .destroy, _ => reject (.argument .notObject)
  | .createMatrix, [rows, cols] => updateHeap fun h => h.createMatrix rows cols (.int 0)
  | .createMatrix, [rows, cols, fill] => updateHeap fun h => h.createMatrix rows cols fill
  | .matrixSize, [matrix] => updateHeap fun h => h.matrixSize matrix
  | .flatten, [array] => updateHeap fun h => h.flatten array
  | .transpose, [matrix] => updateHeap fun h => h.transpose matrix
  | .getRow, [matrix, index] => updateHeap fun h => h.getRow matrix index
  | .getCol, [matrix, index] => updateHeap fun h => h.getCol matrix index
  | .setAt, array :: rest =>
    updateHeap fun h => h.setAt array rest.dropLast (rest.getLastD .none)
  | .removeKey, [dictionary, key] => updateHeap fun h => h.removeKey dictionary key
  | .keys, [dictionary] => updateHeap fun h => h.keys dictionary
  | .values, [dictionary] => updateHeap fun h => h.values dictionary
  | .hasKey, [dictionary, key] => updateHeap fun h => h.hasKey dictionary key
  | .insert, [array, index, value] => updateHeap fun h => h.insert array index value
  | .append, [array, value] => updateHeap fun h => h.append array value
  | .remove, [array, index] => updateHeap fun h => h.remove array index
  | .pop, [array] => updateHeap fun h => h.pop array
  | .clear, [array] => updateHeap fun h => h.clear array
  | .slice, [array, start] => updateHeap fun h => h.slice array start none
  | .slice, [array, start, stop] => updateHeap fun h => h.slice array start (some stop)
  | .contains, [array, value] => updateHeap fun h => h.contains array value
  | .indexOf, [array, value] => updateHeap fun h => h.indexOf array value
  | .write, [path, content] => writeFile path content false
  | .write, [path, content, keep] => do writeFile path content (← truthy keep)
  | .read, [path] => readFile path
  | .length, [value] => updateHeap fun h => h.length value
  | .randint, [low, high] => randomInt low high
  | b, _ => reject (.argument (.count b))

/-- The array of `setAt` is looked at before the other arguments are evaluated. -/
def callBuiltin (ev : Node → Eval Value) (b : Builtin) (arguments : Option (List Node)) :
    Eval Value := do
  let count ← countArguments arguments
  if !b.accepts count then reject (.argument (.count b))
  else
    match b, arguments with
    | .setAt, some (array :: rest) =>
      match ← ev array with
      | .list ref =>
        let args ← evalAll ev rest
        applyBuiltin ev .setAt (.list ref :: args)
      | _ => reject (.argument .firstArray)
    | b, arguments => do
      let args ← evalArguments ev arguments
      applyBuiltin ev b args

/-! ## Calls by name -/

def splitName (name : String) : Option (String × String) :=
  let chars := name.toList
  let first := chars.takeWhile (· ≠ '.')
  match chars.drop first.length with
  | [] => none
  | _ :: rest => some (String.ofList first, String.ofList rest)

def namedMember? (name : String) : Eval (Option (Library × Value)) := do
  match splitName name with
  | none => return none
  | some (owner, member) =>
    match Library.ofName? owner with
    | none => return none
    | some lib =>
      let ident ← libraryIdent lib
      return (libraryMember? lib ident member).map fun v => (lib, v)

def callFunction (ev : Node → Eval Value) (name : String)
    (arguments : Option (List Node)) : Eval Value := do
  match (← get).functions.get? name with
  | none => reject (.functionUndefined name)
  | some routine =>
    let count ← countArguments arguments
    if count ≠ routine.parameters.length then
      reject (.functionArity name routine.parameters.length count)
    else
      let args ← evalArguments ev arguments
      runBody ev routine.body (routine.parameters.zip args) name

/-- A member of a library, a built-in function, a method of an object, or a function of the program,
the first that there is. -/
def callNamed (ev : Node → Eval Value) (name : String) (arguments : Option (List Node)) :
    Eval Value := do
  match ← namedMember? name with
  | some (lib, member) =>
    let args ← evalArguments ev arguments
    callLibrary lib member args
  | none =>
    match Builtin.ofName? name with
    | some b => callBuiltin ev b arguments
    | none =>
      match splitName name with
      | some (object, method) =>
        let args ← evalArguments ev arguments
        callMethod ev object method args
      | none => callFunction ev name arguments

end Hetman.Eval
