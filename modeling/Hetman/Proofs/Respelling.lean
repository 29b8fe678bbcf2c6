import Hetman.Parser.Statement
import Hetman.Token.Lexicon

/-!
# Spellings of keywords

`Token.plain` puts one word of the lexicon for every spelling of a keyword. A tree keeps the
spelling of a token in two places: in the type of a declaration, and in names, because the word for
the length is read as a name. `Node.respell` replaces the words there.
-/

namespace Hetman

variable {t t' : Token} {k : Keyword}

/-! ## Tokens -/

/-- The word for all spellings of a keyword: the first in the lexicon. -/
def Keyword.word (k : Keyword) : String :=
  ((Token.lexicon.find? fun entry => entry.2 = k).map (·.1)).getD ""

theorem Keyword.keyword?_word (k : Keyword) : Token.keyword? k.word = some k := by
  cases k <;> decide +kernel

namespace Token

/-- The keyword of a token in one of its spellings. -/
def spelled? (t : Token) : Option Keyword :=
  match t.kind, t.payload with
  | .keyword k, .text word => if keyword? word = some k then some k else none
  | _, _ => none

def isSpelled (t : Token) : Bool :=
  t.spelled?.isSome

theorem spelled?_eq_some (h : t.spelled? = some k) :
    t.kind = .keyword k ∧ ∃ word, t.payload = .text word ∧ keyword? word = some k := by
  unfold spelled? at h
  split at h
  · rename_i k' word hkind hpayload
    split at h
    · rename_i spells
      cases h
      exact ⟨hkind, word, hpayload, spells⟩
    · cases h
  · cases h

/-- A token with the plain word for its spelling. -/
def plain (t : Token) : Token :=
  match t.spelled? with
  | some k => { t with payload := .text k.word }
  | none => t

@[simp] theorem plain_kind (t : Token) : t.plain.kind = t.kind := by
  unfold plain
  split <;> rfl

@[simp] theorem plain_line (t : Token) : t.plain.line = t.line := by
  unfold plain
  split <;> rfl

@[simp] theorem plain_column (t : Token) : t.plain.column = t.column := by
  unfold plain
  split <;> rfl

theorem plain_of_spelled (h : t.spelled? = some k) :
    t.plain = ⟨.keyword k, .text k.word, t.line, t.column⟩ := by
  unfold plain
  rw [h]
  simp only [(spelled?_eq_some h).1]

theorem plain_payload (h : ∀ k, t.kind ≠ .keyword k) : t.plain.payload = t.payload := by
  cases hspelled : t.spelled? with
  | none => simp only [plain, hspelled]
  | some k => exact absurd (spelled?_eq_some hspelled).1 (h k)

theorem plain_hasText (t : Token) {text : String} (h : keyword? text = none) :
    t.plain.hasText text = t.hasText text := by
  cases hspelled : t.spelled? with
  | none => simp only [plain, hspelled]
  | some k =>
    obtain ⟨_, word, hpayload, spells⟩ := spelled?_eq_some hspelled
    have other : ∀ {w}, keyword? w = some k → (Payload.text w == Payload.text text) = false := by
      intro w hw
      refine beq_eq_false_iff_ne.mpr fun same => ?_
      cases same
      rw [h] at hw
      cases hw
    simp only [hasText, plain_of_spelled hspelled, hpayload, other spells, other k.keyword?_word]

/-- Two tokens at one place that are the same up to the spelling of a keyword. -/
def Respelled (t t' : Token) : Prop :=
  t'.kind = t.kind ∧ t'.line = t.line ∧ t'.column = t.column ∧
    (t'.payload = t.payload ∨ t.isSpelled = true ∧ t'.isSpelled = true)

instance (t t' : Token) : Decidable (Respelled t t') :=
  inferInstanceAs (Decidable (_ ∧ _ ∧ _ ∧ _))

theorem plain_eq_of_spelled (hkind : t'.kind = t.kind) (hline : t'.line = t.line)
    (hcolumn : t'.column = t.column) (h : t.isSpelled = true) (h' : t'.isSpelled = true) :
    t.plain = t'.plain := by
  obtain ⟨k, hk⟩ := Option.isSome_iff_exists.mp h
  obtain ⟨k', hk'⟩ := Option.isSome_iff_exists.mp h'
  have same : k = k' := by
    have := (spelled?_eq_some hk').1.symm.trans (hkind.trans (spelled?_eq_some hk).1)
    cases this
    rfl
  subst same
  rw [plain_of_spelled hk, plain_of_spelled hk', hline, hcolumn]

theorem Respelled.plain_eq (h : Respelled t t') : t.plain = t'.plain := by
  obtain ⟨hkind, hline, hcolumn, hpayload⟩ := h
  rcases hpayload with hpayload | ⟨hspelled, hspelled'⟩
  · have same : t' = t := by
      cases t'
      simp_all
    rw [same]
  · exact plain_eq_of_spelled hkind hline hcolumn hspelled hspelled'

end Token

/-! ## Trees -/

namespace Node

section Respell

variable (hint name : String → String)

mutual

/-- A tree with other words for the types of declarations and for names. -/
def respell : Node → Node
  | .var x => .var (name x)
  | .call f arguments => .call (name f) (respellList? arguments)
  | .assign x value typeHint => .assign x (respell value) (typeHint.map hint)
  | .number value => .number value
  | .text value => .text value
  | .boolean value => .boolean value
  | .binary left op right => .binary (respell left) op (respell right)
  | .comparison left op right => .comparison (respell left) op (respell right)
  | .cast target operand => .cast target (respell operand)
  | .input prompt => .input (respell prompt)
  | .array elements => .array (respellAll elements)
  | .dictionary pairs => .dictionary (respellPairs pairs)
  | .lookup container key => .lookup (respell container) (respell key)
  | .arrayIndex base index => .arrayIndex (respell base) (respell index)
  | .methodCall object method arguments =>
    .methodCall (respell object) method (respellList? arguments)
  | .super method arguments => .super method (respellList? arguments)
  | .newObject className arguments => .newObject className (respellList? arguments)
  | .property object x => .property (respell object) x
  | .assignProperty object x value => .assignProperty (respell object) x (respell value)
  | .assignIndex container key value =>
    .assignIndex (respell container) (respell key) (respell value)
  | .step op target => .step op (respell target)
  | .print arguments => .print (respellAll arguments)
  | .ifElse condition body elseIfs otherwise =>
    .ifElse (respell condition) (respellAll body) (respellBranches elseIfs)
      (respellList? otherwise)
  | .whileLoop condition body => .whileLoop (respell condition) (respellAll body)
  | .forLoop init condition change body =>
    .forLoop (respell init) (respell condition) (respell change) (respellAll body)
  | .forEach x items body => .forEach x (respell items) (respellAll body)
  | .function routine => .function (respellRoutine routine)
  | .ret value => .ret (respell value)
  | .classDecl decl => .classDecl (respellClass decl)
  | .destructor body => .destructor (respellAll body)
  | .tryCatch body catches final =>
    .tryCatch (respellAll body) (respellCatches catches) (respellList? final)
  | .throw message => .throw (respell message)
  | .exit code => .exit (respell code)
  | .importFile path => .importFile (respell path)
  | .program statements => .program (respellAll statements)
  | .missing => .missing
  | .datum value => .datum value

def respellAll : List Node → List Node
  | [] => []
  | node :: rest => respell node :: respellAll rest

def respellList? : Option (List Node) → Option (List Node)
  | none => none
  | some nodes => some (respellAll nodes)

def respellPairs : List (Node × Node) → List (Node × Node)
  | [] => []
  | (key, value) :: rest => (respell key, respell value) :: respellPairs rest

def respellBranches : List (Node × List Node) → List (Node × List Node)
  | [] => []
  | (condition, body) :: rest => (respell condition, respellAll body) :: respellBranches rest

def respellCatches : List (Option String × List Node) → List (Option String × List Node)
  | [] => []
  | (x, body) :: rest => (x, respellAll body) :: respellCatches rest

def respellRoutine : Routine Node → Routine Node
  | ⟨x, parameters, body, parameterTypes, returnType, access⟩ =>
    ⟨x, parameters, respellAll body, parameterTypes, returnType, access⟩

def respellRoutine? : Option (Routine Node) → Option (Routine Node)
  | none => none
  | some routine => some (respellRoutine routine)

def respellMethods : List (String × Routine Node) → List (String × Routine Node)
  | [] => []
  | (x, routine) :: rest => (x, respellRoutine routine) :: respellMethods rest

def respellClass : ClassDecl Node → ClassDecl Node
  | ⟨x, methods, builder, finisher, parent, fieldAccess, methodAccess, friends, friendClasses⟩ =>
    ⟨x, respellMethods methods, respellRoutine? builder, respellList? finisher, parent,
      fieldAccess, methodAccess, friends, friendClasses⟩

end

end Respell

variable {hint name : String → String}

@[simp] theorem respellAll_append (nodes more : List Node) :
    respellAll hint name (nodes ++ more) =
      respellAll hint name nodes ++ respellAll hint name more := by
  induction nodes with
  | nil => rfl
  | cons node rest ih => simp only [List.cons_append, respellAll, ih]

@[simp] theorem respellPairs_append (pairs more : List (Node × Node)) :
    respellPairs hint name (pairs ++ more) =
      respellPairs hint name pairs ++ respellPairs hint name more := by
  induction pairs with
  | nil => rfl
  | cons pair rest ih => simp only [List.cons_append, respellPairs, ih]

@[simp] theorem respellBranches_append (branches more : List (Node × List Node)) :
    respellBranches hint name (branches ++ more) =
      respellBranches hint name branches ++ respellBranches hint name more := by
  induction branches with
  | nil => rfl
  | cons branch rest ih => simp only [List.cons_append, respellBranches, ih]

@[simp] theorem respellCatches_append (catches more : List (Option String × List Node)) :
    respellCatches hint name (catches ++ more) =
      respellCatches hint name catches ++ respellCatches hint name more := by
  induction catches with
  | nil => rfl
  | cons clause rest ih => simp only [List.cons_append, respellCatches, ih]

theorem respellMethods_insert (methods : Bindings (Routine Node)) (x : String)
    (routine : Routine Node) :
    respellMethods hint name (methods.insert x routine) =
      Bindings.insert (respellMethods hint name methods) x (respellRoutine hint name routine) := by
  induction methods with
  | nil => rfl
  | cons entry rest ih =>
    obtain ⟨y, other⟩ := entry
    by_cases hx : y = x
    · simp [Bindings.insert, respellMethods, hx]
    · simp [Bindings.insert, respellMethods, hx, ih]

@[simp] theorem respellRoutine_name (routine : Routine Node) :
    (respellRoutine hint name routine).name = routine.name := by
  cases routine
  rfl

theorem respellClass_eq_iff {decl decl' : ClassDecl Node} :
    respellClass hint name decl = respellClass hint name decl' ↔
      decl.name = decl'.name ∧
      respellMethods hint name decl.methods = respellMethods hint name decl'.methods ∧
      respellRoutine? hint name decl.constructor = respellRoutine? hint name decl'.constructor ∧
      respellList? hint name decl.destructor = respellList? hint name decl'.destructor ∧
      decl.parent = decl'.parent ∧ decl.fieldAccess = decl'.fieldAccess ∧
      decl.methodAccess = decl'.methodAccess ∧ decl.friends = decl'.friends ∧
      decl.friendClasses = decl'.friendClasses := by
  cases decl
  cases decl'
  simp only [respellClass, ClassDecl.mk.injEq]

/-- The name of a variable. -/
def varName? : Node → Option String
  | .var x => some x
  | _ => none

theorem eq_var_of_varName? {node : Node} {x : String} (h : node.varName? = some x) :
    node = .var x := by
  cases node <;> cases h
  rfl

theorem varName?_respell (node : Node) :
    (node.respell hint name).varName? = node.varName?.map name := by
  cases node <;> rfl

def isCall : Node → Bool
  | .call .. => true
  | _ => false

theorem eq_call_of_isCall {node : Node} (h : node.isCall = true) :
    ∃ f arguments, node = .call f arguments := by
  cases node <;> cases h
  exact ⟨_, _, rfl⟩

theorem isCall_respell (node : Node) : (node.respell hint name).isCall = node.isCall := by
  cases node <;> rfl

def isSuper : Node → Bool
  | .super .. => true
  | _ => false

theorem eq_super_of_isSuper {node : Node} (h : node.isSuper = true) :
    ∃ method arguments, node = .super method arguments := by
  cases node <;> cases h
  exact ⟨_, _, rfl⟩

theorem isSuper_respell (node : Node) : (node.respell hint name).isSuper = node.isSuper := by
  cases node <;> rfl

theorem respell_assignTo (target value : Node) :
    (Parser.assignTo target value).respell hint name =
      match target.varName? with
      | some x => .assign x (value.respell hint name) none
      | none => Parser.assignTo (target.respell hint name) (value.respell hint name) := by
  cases target <;> rfl

theorem isPresent_respell (node : Node) :
    Parser.isPresent (node.respell hint name) = Parser.isPresent node := by
  cases node <;> rfl

mutual

@[simp] theorem respell_id (node : Node) : node.respell id id = node := by
  cases node with
  | call f arguments => rw [respell, respellList?_id arguments, id]
  | assign x value typeHint => rw [respell, respell_id value, Option.map_id_fun, id]
  | binary left _ right | comparison left _ right | lookup left right | arrayIndex left right
  | assignProperty left _ right => rw [respell, respell_id left, respell_id right]
  | cast _ part | input part | property part _ | step _ part | ret part | throw part | exit part
  | importFile part => rw [respell, respell_id part]
  | array parts | print parts | destructor parts | program parts =>
    rw [respell, respellAll_id parts]
  | dictionary pairs => rw [respell, respellPairs_id pairs]
  | methodCall object method arguments =>
    rw [respell, respell_id object, respellList?_id arguments]
  | super method arguments | newObject className arguments =>
    rw [respell, respellList?_id arguments]
  | assignIndex container key value =>
    rw [respell, respell_id container, respell_id key, respell_id value]
  | ifElse condition body elseIfs otherwise =>
    rw [respell, respell_id condition, respellAll_id body, respellBranches_id elseIfs,
      respellList?_id otherwise]
  | whileLoop part body | forEach _ part body => rw [respell, respell_id part, respellAll_id body]
  | forLoop init condition change body =>
    rw [respell, respell_id init, respell_id condition, respell_id change, respellAll_id body]
  | function routine => rw [respell, respellRoutine_id routine]
  | classDecl decl => rw [respell, respellClass_id decl]
  | tryCatch body catches final =>
    rw [respell, respellAll_id body, respellCatches_id catches, respellList?_id final]
  | var _ | number _ | text _ | boolean _ | missing | datum _ => rfl

theorem respellAll_id (nodes : List Node) : respellAll id id nodes = nodes := by
  cases nodes with
  | nil => rfl
  | cons node rest => rw [respellAll, respell_id node, respellAll_id rest]

theorem respellList?_id (nodes : Option (List Node)) : respellList? id id nodes = nodes := by
  cases nodes with
  | none => rfl
  | some nodes => rw [respellList?, respellAll_id nodes]

theorem respellPairs_id (pairs : List (Node × Node)) : respellPairs id id pairs = pairs := by
  cases pairs with
  | nil => rfl
  | cons pair rest =>
    obtain ⟨key, value⟩ := pair
    rw [respellPairs, respell_id key, respell_id value, respellPairs_id rest]

theorem respellBranches_id (branches : List (Node × List Node)) :
    respellBranches id id branches = branches := by
  cases branches with
  | nil => rfl
  | cons branch rest =>
    obtain ⟨condition, body⟩ := branch
    rw [respellBranches, respell_id condition, respellAll_id body, respellBranches_id rest]

theorem respellCatches_id (catches : List (Option String × List Node)) :
    respellCatches id id catches = catches := by
  cases catches with
  | nil => rfl
  | cons clause rest =>
    obtain ⟨x, body⟩ := clause
    rw [respellCatches, respellAll_id body, respellCatches_id rest]

theorem respellRoutine_id (routine : Routine Node) : respellRoutine id id routine = routine := by
  obtain ⟨x, parameters, body, parameterTypes, returnType, access⟩ := routine
  rw [respellRoutine, respellAll_id body]

theorem respellRoutine?_id (routine : Option (Routine Node)) :
    respellRoutine? id id routine = routine := by
  cases routine with
  | none => rfl
  | some routine => rw [respellRoutine?, respellRoutine_id routine]

theorem respellMethods_id (methods : List (String × Routine Node)) :
    respellMethods id id methods = methods := by
  cases methods with
  | nil => rfl
  | cons entry rest =>
    obtain ⟨x, routine⟩ := entry
    rw [respellMethods, respellRoutine_id routine, respellMethods_id rest]

theorem respellClass_id (decl : ClassDecl Node) : respellClass id id decl = decl := by
  obtain ⟨x, methods, builder, finisher, parent, fieldAccess, methodAccess, friends, friendClasses⟩ :=
    decl
  rw [respellClass, respellMethods_id methods, respellRoutine?_id builder, respellList?_id finisher]

end

end Node

end Hetman
