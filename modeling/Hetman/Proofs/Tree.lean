import Hetman.Bindings
import Hetman.Tree

/-!
# What occurs in a node

The parts of a node stand directly in it. The bodies of functions and classes are kept apart,
because a definition only stores its body, to be run when it is called.
-/

namespace Hetman

variable {node : Node}

/-! ## The parts of a node -/

/-- The nodes that stand directly in a node, outside of function and class bodies. -/
def Node.parts : Node → List Node
  | .binary left _ right | .comparison left _ right => [left, right]
  | .cast _ operand => [operand]
  | .input prompt => [prompt]
  | .array elements => elements
  | .dictionary pairs => pairs.flatMap fun pair => [pair.1, pair.2]
  | .lookup container key => [container, key]
  | .arrayIndex base index => [base, index]
  | .call _ arguments | .super _ arguments | .newObject _ arguments => arguments.getD []
  | .methodCall object _ arguments => object :: arguments.getD []
  | .property object _ => [object]
  | .assign _ value _ => [value]
  | .assignProperty object _ value => [object, value]
  | .assignIndex container key value => [container, key, value]
  | .step _ target => [target]
  | .print arguments => arguments
  | .ifElse condition body elseIfs otherwise =>
    ((condition, body) :: elseIfs).flatMap (fun branch => branch.1 :: branch.2) ++ otherwise.getD []
  | .whileLoop condition body => condition :: body
  | .forLoop init condition change body => init :: condition :: change :: body
  | .forEach _ items body => items :: body
  | .ret value => [value]
  | .tryCatch body catches final => body ++ catches.flatMap (·.2) ++ final.getD []
  | .throw message => [message]
  | .exit code => [code]
  | .importFile path => [path]
  | .program statements => statements
  | .number _ | .text _ | .boolean _ | .var _ | .function _ | .classDecl _ | .destructor _
  | .missing | .datum _ => []

/-- The statements in the function and class bodies that a node defines. -/
def Node.bodies : Node → List Node
  | .function routine => routine.body
  | .classDecl decl =>
    decl.methods.flatMap (·.2.body) ++ (decl.constructor.map (·.body)).getD [] ++
      decl.destructor.getD []
  | .destructor body => body
  | _ => []

/-- A node occurs in another one, inside of a function or class body or outside of
all of them. -/
inductive Node.Occurs : (node occurring : Node) → (inside : Bool) → Prop
  | here {node : Node} : node.Occurs node false
  | part {node p m : Node} {inside : Bool} (isPart : p ∈ node.parts) (h : p.Occurs m inside) :
      node.Occurs m inside
  | body {node p m : Node} {inside : Bool} (isBody : p ∈ node.bodies) (h : p.Occurs m inside) :
      node.Occurs m true

/-- What holds of a node and of all that occurs in its parts holds of all that occurs
in it. -/
theorem Node.forall_occurs {P : Node → Prop} (self : P node)
    (h : ∀ p ∈ node.parts, ∀ m, p.Occurs m false → P m) : ∀ m, node.Occurs m false → P m := by
  intro m occurs
  cases occurs with
  | here => exact self
  | part isPart inPart => exact h _ isPart m inPart

/-! ## Expressions -/

/-- The forms of expressions. -/
def Node.isExpressionForm : Node → Bool
  | .number _ | .text _ | .boolean _ | .var _ | .binary .. | .comparison .. | .cast .. | .input _
  | .array _ | .dictionary _ | .lookup .. | .arrayIndex .. | .call .. | .methodCall .. | .super ..
  | .newObject .. | .property .. | .missing => true
  | _ => false

/-- A node that is made of expressions only, outside of function and class bodies. -/
def Node.OnlyExpressions (node : Node) : Prop :=
  ∀ m, node.Occurs m false → m.isExpressionForm = true

theorem Node.onlyExpressions_of_parts (form : node.isExpressionForm = true)
    (h : ∀ p ∈ node.parts, p.OnlyExpressions) : node.OnlyExpressions :=
  Node.forall_occurs form h

theorem Node.onlyExpressions_leaf (form : node.isExpressionForm = true) (leaf : node.parts = []) :
    node.OnlyExpressions := by
  refine Node.onlyExpressions_of_parts form fun p isPart => ?_
  rw [leaf] at isPart
  cases isPart

/-! ## Classes -/

/-- A class tells the access to each of its methods as the method itself does. The constructor has
no access of its own. -/
def ClassDecl.Coherent (decl : ClassDecl Node) : Prop :=
  ∀ name, name ≠ "Tvir" →
    Bindings.get? decl.methodAccess name = (Bindings.get? decl.methods name).map (·.access)

/-- All classes in a node, and in the bodies that it defines, are such classes. -/
def Node.EveryClass (C : ClassDecl Node → Prop) (node : Node) : Prop :=
  ∀ decl inside, node.Occurs (.classDecl decl) inside → C decl

/-- All classes in a node tell the access to their methods as these do. -/
abbrev Node.Coherent (node : Node) : Prop :=
  node.EveryClass ClassDecl.Coherent

variable {C : ClassDecl Node → Prop}

def Node.isDefinition : Node → Bool
  | .function _ | .classDecl _ | .destructor _ => true
  | _ => false

theorem Node.bodies_eq_nil (plain : node.isDefinition = false) : node.bodies = [] := by
  cases node <;> first | rfl | cases plain

theorem Node.everyClass_of_parts (plain : node.isDefinition = false)
    (h : ∀ p ∈ node.parts, p.EveryClass C) : node.EveryClass C := by
  intro decl inside occurs
  cases occurs with
  | here => cases plain
  | part isPart inPart => exact h _ isPart _ _ inPart
  | body isBody inBody =>
    rw [Node.bodies_eq_nil plain] at isBody
    cases isBody

theorem Node.everyClass_function {routine : Routine Node} (h : ∀ p ∈ routine.body, p.EveryClass C) :
    (Node.function routine).EveryClass C := by
  intro decl inside occurs
  cases occurs with
  | part isPart _ => cases isPart
  | body isBody inBody => exact h _ isBody _ _ inBody

/-- It is such a class, and so are the classes in its bodies. -/
structure ClassDecl.Within (C : ClassDecl Node → Prop) (decl : ClassDecl Node) : Prop where
  own : C decl
  methods : ∀ method ∈ decl.methods, ∀ p ∈ method.2.body, p.EveryClass C
  constructor : ∀ p ∈ (decl.constructor.map (·.body)).getD [], p.EveryClass C
  destructor : ∀ p ∈ decl.destructor.getD [], p.EveryClass C

theorem Node.everyClass_classDecl {decl : ClassDecl Node} (h : decl.Within C) :
    (Node.classDecl decl).EveryClass C := by
  have bodies : ∀ p ∈ (Node.classDecl decl).bodies, p.EveryClass C := List.forall_mem_append.2
    ⟨List.forall_mem_append.2 ⟨List.forall_mem_flatMap.2 h.methods, h.constructor⟩, h.destructor⟩
  intro other inside occurs
  cases occurs with
  | here => exact h.own
  | part isPart _ => cases isPart
  | body isBody inBody => exact bodies _ isBody _ _ inBody

theorem Node.OnlyExpressions.everyClass (h : node.OnlyExpressions) : node.EveryClass C := by
  intro decl inside occurs
  generalize isClass : Node.classDecl decl = m at occurs
  induction occurs with
  | here =>
    subst isClass
    cases h _ .here
  | part isPart _ ih => exact ih (fun m occurs => h m (.part isPart occurs)) isClass
  | @body node _ _ _ isBody =>
    have form := h node .here
    have plain : node.isDefinition = false := by cases node <;> first | rfl | cases form
    rw [Node.bodies_eq_nil plain] at isBody
    cases isBody

end Hetman
