import Hetman.ClassGraph
import Hetman.Heap

/-!
Reading and writing the members of objects.

A private member is open to the object itself, to friend functions and to
objects of friend classes; a protected one also to objects of related classes.
A destroyed object refuses everything.
-/

namespace Hetman

/-- Who asks: the object whose code runs, and the function that runs. -/
structure Caller where
  object : Option Nat := none
  function : Option String := none
  deriving DecidableEq, Inhabited

inductive Member where
  | field (value : Value)
  | method (routine : Routine Node)
  deriving Inhabited

namespace Object

def friendFunction (g : ClassGraph) (classId : Nat) (caller : Caller) : Bool :=
  match caller.function with
  | some name => name != "" && g.isFriend classId name
  | none => false

def friendObject (g : ClassGraph) (h : Heap) (classId : Nat) (caller : Caller) : Bool :=
  match caller.object with
  | some ref => g.isFriendClass classId (g.info (h.object ref).classId).name
  | none => false

def mayUsePrivate (g : ClassGraph) (h : Heap) (ref : Nat) (caller : Caller) : Bool :=
  let classId := (h.object ref).classId
  caller.object == some ref || friendFunction g classId caller || friendObject g h classId caller

def mayUseProtected (g : ClassGraph) (h : Heap) (ref : Nat) (caller : Caller) : Bool :=
  let classId := (h.object ref).classId
  friendFunction g classId caller || friendObject g h classId caller ||
    match caller.object with
    | none => false
    | some other => other == ref || g.related classId (h.object other).classId

/-- The guard that keeps the caller from a member of a given level. -/
def refusal (g : ClassGraph) (h : Heap) (ref : Nat) (caller : Caller) : Access → Option Guard
  | .privateAccess => if mayUsePrivate g h ref caller then none else some .privateMember
  | .protectedAccess => if mayUseProtected g h ref caller then none else some .protectedMember
  | _ => none

def checkAlive (g : ClassGraph) (h : Heap) (ref : Nat) : Except ObjectFault Unit :=
  let o := h.object ref
  if o.destroyed then .error (.destroyed (g.info o.classId).name) else .ok ()

def checkAccess (g : ClassGraph) (h : Heap) (ref : Nat) (caller : Caller) (use : MemberUse)
    (name : String) (level : Access) : Except ObjectFault Unit :=
  match refusal g h ref caller level with
  | some guard => .error (.denied use guard name (g.info (h.object ref).classId).name)
  | none => .ok ()

def get (g : ClassGraph) (h : Heap) (ref : Nat) (name : String) (caller : Caller) :
    Except ObjectFault Member := do
  checkAlive g h ref
  let o := h.object ref
  match o.fields.get? name with
  | some value =>
    checkAccess g h ref caller .readField name (g.fieldAccess o.classId name)
    return .field value
  | none =>
    match g.findMethod o.classId name with
    | some routine =>
      checkAccess g h ref caller .callMethod name (g.methodAccess o.classId name)
      return .method routine
    | none => throw (.noMember name (g.info o.classId).name)

def set (g : ClassGraph) (h : Heap) (ref : Nat) (name : String) (value : Value)
    (caller : Caller) : Except ObjectFault Heap := do
  checkAlive g h ref
  let o := h.object ref
  checkAccess g h ref caller .writeField name (g.fieldAccess o.classId name)
  return h.setObject ref { o with fields := o.fields.insert name value }

/-- Methods are called by name only, so nothing that an object has can be called in this way. -/
def call (g : ClassGraph) (h : Heap) (ref : Nat) (name : String) (caller : Caller) :
    Except Fault Value :=
  match get g h ref name caller with
  | .error cause => .error (.object cause)
  | .ok (.method _) => .error (.attribute "KozakFunctionDef" "eval")
  | .ok (.field value) => .error (.type (.notCallable value.typeName))

def markDestroyed (h : Heap) (ref : Nat) : Heap :=
  h.setObject ref { h.object ref with destroyed := true }

end Object

end Hetman
