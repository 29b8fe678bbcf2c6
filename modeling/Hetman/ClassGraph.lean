import Hetman.Bindings
import Hetman.Fault
import Hetman.Tree

/-!
The graph of classes.

A class is known by a number, its place in the order of definition, and names
its parent by number. A name means the last class that was defined with it;
earlier ones live on in their objects and subclasses. What a class does not say
of a member its ancestors are asked for, the nearest first. A parent is always
older than its child, so at most `id + 1` classes are asked; the limit that a
host sets to nested calls is left out, and any line of ancestors is followed to
its end.
-/

namespace Hetman

structure ClassInfo where
  name : String
  methods : Bindings (Routine Node) := []
  constructor : Option (Routine Node) := none
  destructor : Option (List Node) := none
  parent : Option Nat := none
  fieldAccess : Bindings Access := []
  methodAccess : Bindings Access := []
  friends : List String := []
  friendClasses : List String := []
  deriving Inhabited

/-- All classes ever defined, and what the names mean now. -/
structure ClassGraph where
  classes : Array ClassInfo := #[]
  byName : Bindings Nat := []
  deriving Inhabited

namespace ClassGraph

/-! ## Definition -/

def info (g : ClassGraph) (id : Nat) : ClassInfo :=
  g.classes[id]?.getD default

def find (g : ClassGraph) (name : String) : Except ObjectFault Nat :=
  match g.byName.get? name with
  | some id => .ok id
  | none => .error (.noClass name)

/-- Adds a class under its name and returns its number. -/
def define (g : ClassGraph) (info : ClassInfo) : Nat × ClassGraph :=
  let id := g.classes.size
  (id, { classes := g.classes.push info, byName := g.byName.insert info.name id })

/-! ## Asking upwards -/

/-- The first answer along at most `bound` classes, upwards. -/
def searchUpTo {α : Type} (g : ClassGraph) (ask : ClassInfo → Option α) : Nat → Nat → Option α
  | 0, _ => none
  | bound + 1, id =>
    let c := g.info id
    match ask c with
    | some answer => some answer
    | none =>
      match c.parent with
      | some parent => searchUpTo g ask bound parent
      | none => none

def search {α : Type} (g : ClassGraph) (ask : ClassInfo → Option α) (id : Nat) : Option α :=
  g.searchUpTo ask (id + 1) id

/-- A class and its ancestors, at most `bound` of them. -/
def ancestorsUpTo (g : ClassGraph) : Nat → Nat → List Nat
  | 0, _ => []
  | bound + 1, id =>
    id :: match (g.info id).parent with
      | some parent => ancestorsUpTo g bound parent
      | none => []

def ancestors (g : ClassGraph) (id : Nat) : List Nat :=
  g.ancestorsUpTo (id + 1) id

def findMethod (g : ClassGraph) (id : Nat) (name : String) : Option (Routine Node) :=
  g.search (fun c => c.methods.get? name) id

def methodAccess (g : ClassGraph) (id : Nat) (name : String) : Access :=
  (g.search (fun c => c.methodAccess.get? name) id).getD .publicAccess

def fieldAccess (g : ClassGraph) (id : Nat) (name : String) : Access :=
  (g.search (fun c => c.fieldAccess.get? name) id).getD .publicAccess

def isFriend (g : ClassGraph) (id : Nat) (function : String) : Bool :=
  (g.search (fun c => if c.friends.contains function then some () else none) id).isSome

def isFriendClass (g : ClassGraph) (id : Nat) (className : String) : Bool :=
  (g.search (fun c => if c.friendClasses.contains className then some () else none) id).isSome

def related (g : ClassGraph) (a b : Nat) : Bool :=
  (g.ancestors a).any fun c => (g.ancestors b).contains c

def descendsFrom (g : ClassGraph) (id other : Nat) : Bool :=
  (g.ancestors id).contains other

end ClassGraph

end Hetman
