import Hetman.Eval.Call
import Hetman.Parser.Statement
import Hetman.Token.Lexicon
import Mathlib.Data.List.Forall2

/-!
# Programs written out as tokens

`Node.IsProgram` is the grammar of the trees that a program text can have, and `Node.programLexemes`
writes such a tree out with as few parentheses as its operators allow. A `Lexeme` leaves open where
its token stands and, for a keyword, in which dialect it is spelled; `Spells` relates lexemes to
every list of tokens that fits them.
-/

namespace Hetman

/-! ## Lexemes -/

/-- What the token at one place of a written program has to be. -/
inductive Lexeme where
  /-- A keyword or a punctuation mark. -/
  | mark (kind : Kind)
  | op (symbol : String)
  /-- A name after a keyword, a point or a comma. -/
  | name (text : String)
  /-- A name that begins an operand. -/
  | reference (text : String)
  /-- A name that begins a statement. -/
  | target (text : String)
  /-- The type in front of a declared variable. -/
  | typeWord (text : String)
  | number (value : Numeral)
  | quoted (text : String)

namespace Lexeme

/-- Whether a token fits. The logical operators are known by their text alone, so no other token may
read like one. The name `this` has a keyword of its own, and that of the length function may be a
keyword where it begins an operand. -/
def Accepts : Lexeme → Token → Prop
  | .mark kind, t => t.kind = kind ∧ t.hasText "||" = false ∧ t.hasText "&&" = false
  | .op symbol, t => t.kind = .op ∧ t.payload = .text symbol
  | .name text, t => t.kind = .ident ∧ t.payload = .text text
  | .reference text, t =>
    (t.kind = .ident ∨ t.kind = .keyword .length) ∧ t.payload = .text text ∨
      t.kind = .keyword .this ∧ text = "this"
  | .target text, t =>
    t.kind = .ident ∧ t.payload = .text text ∨ t.kind = .keyword .this ∧ text = "this"
  | .typeWord text, t => Parser.isTypeKind t.kind = true ∧ t.payload = .text text
  | .number value, t => t.kind = .number ∧ t.payload = .number value
  | .quoted text, t =>
    t.kind = .string ∧
      (t.payload = .text ("\"" ++ text ++ "\"") ∨ t.payload = .text ("'" ++ text ++ "'"))

/-- The text of a keyword or a mark, as in the first dialect of the lexicon. -/
def kindText : Kind → String
  | .keyword k => ((Token.lexicon.find? fun entry => entry.2 = k).map (·.1)).getD ""
  | .dot => "."
  | .lparen => "("
  | .rparen => ")"
  | .lbrace => "\x7b"
  | .rbrace => "\x7d"
  | .lbracket => "["
  | .rbracket => "]"
  | .semicolon => ";"
  | .comma => ","
  | .colon => ":"
  | _ => ""

/-- The kind of a name that begins an operand. -/
def referenceKind (text : String) : Kind :=
  if text = "this" then .keyword .this
  else if Token.keyword? text = some .length then .keyword .length
  else .ident

/-- The kind of the word that names a type. -/
def typeWordKind (text : String) : Kind :=
  match (Token.keyword? text).map Kind.keyword with
  | some kind => if Parser.isTypeKind kind then kind else .keyword .intType
  | none => .keyword .intType

def token (l : Lexeme) : Token :=
  let (kind, payload) : Kind × Token.Payload := match l with
    | .mark kind => (kind, .text (kindText kind))
    | .op symbol => (.op, .text symbol)
    | .name text => (.ident, .text text)
    | .reference text => (referenceKind text, .text text)
    | .target text => (if text = "this" then .keyword .this else .ident, .text text)
    | .typeWord text => (typeWordKind text, .text text)
    | .number value => (.number, .number value)
    | .quoted text =>
      (.string, .text (if text.toList.contains '"' then "'" ++ text ++ "'" else "\"" ++ text ++ "\""))
  { kind, payload, line := 1, column := 1 }

def inParens (ls : List Lexeme) : List Lexeme :=
  .mark .lparen :: (ls ++ [.mark .rparen])

def inBraces (ls : List Lexeme) : List Lexeme :=
  .mark .lbrace :: (ls ++ [.mark .rbrace])

/-- Parentheses where these are needed. -/
def grouped (needed : Bool) (ls : List Lexeme) : List Lexeme :=
  if needed then inParens ls else ls

/-- An operand as the beginning of a statement. -/
def asTarget : List Lexeme → List Lexeme
  | .reference text :: rest => .target text :: rest
  | ls => ls

end Lexeme

def Spells (ls : List Lexeme) (tokens : List Token) : Prop :=
  List.Forall₂ Lexeme.Accepts ls tokens

/-! ## Expressions -/

/-- A name as a program text can have it. -/
def IsName (s : String) : Prop :=
  s ≠ "" ∧ '.' ∉ s.toList

instance (s : String) : Decidable (IsName s) :=
  inferInstanceAs (Decidable (_ ∧ _))

/-- How tightly an operator binds, from 0 for the loosest. -/
def BinaryOp.tier : BinaryOp → Nat
  | .or => 0
  | .and => 1
  | .add | .sub => 3
  | .mul | .div | .mod => 4
  | .pow | .root => 5
  | .floorDiv | .other _ => 6

def CompareOp.IsPlain : CompareOp → Prop
  | .other _ => False
  | _ => True

namespace Node

/-- A name, a call of a name, or an indexed operand. -/
inductive IsIndexable : Node → Prop
  | var (name : String) : IsIndexable (.var name)
  | call {name : String} (arguments : Option (List Node)) (plain : IsName name) :
    IsIndexable (.call name arguments)
  | lookup (container key : Node) : IsIndexable (.lookup container key)

/-- What can have its properties picked: what can be indexed, a call of a method, or another
property. -/
inductive IsChain : Node → Prop
  | var (name : String) : IsChain (.var name)
  | call (name : String) (arguments : Option (List Node)) : IsChain (.call name arguments)
  | lookup (container key : Node) : IsChain (.lookup container key)
  | property (object : Node) (name : String) : IsChain (.property object name)

/-- The keys by which a brace is known to open a dictionary. -/
inductive IsFirstKey : Node → Prop
  | number (value : Numeral) : IsFirstKey (.number value)
  | text (value : String) : IsFirstKey (.text value)
  | var (name : String) : IsFirstKey (.var name)

/-- The trees of expressions. -/
inductive IsExpression : Node → Prop
  | number (value : Numeral) : IsExpression (.number value)
  | text (value : String) : IsExpression (.text value)
  | boolean (value : Bool) : IsExpression (.boolean value)
  | var {name : String} : IsName name → IsExpression (.var name)
  | binary {left right : Node} {op : BinaryOp} : op.tier < 6 →
    IsExpression left → IsExpression right → IsExpression (.binary left op right)
  | comparison {left right : Node} {op : CompareOp} : op.IsPlain →
    IsExpression left → IsExpression right → IsExpression (.comparison left op right)
  | cast {target : Kind} {operand : Node} : Parser.isTypeKind target = true →
    IsExpression operand → IsExpression (.cast target operand)
  | input {prompt : Node} : IsExpression prompt → IsExpression (.input prompt)
  | array {elements : List Node} : (∀ e ∈ elements, IsExpression e) →
    IsExpression (.array elements)
  | dictionary {key value : Node} {pairs : List (Node × Node)} : IsFirstKey key →
    IsExpression key → IsExpression value → (∀ p ∈ pairs, IsExpression p.1) →
    (∀ p ∈ pairs, IsExpression p.2) → IsExpression (.dictionary ((key, value) :: pairs))
  | lookup {container key : Node} : IsIndexable container →
    IsExpression container → IsExpression key → IsExpression (.lookup container key)
  | call {name : String} {arguments : List Node} : IsName name →
    (∀ e ∈ arguments, IsExpression e) → IsExpression (.call name (some arguments))
  | callMethod {object method : String} {arguments : List Node} : IsName object →
    IsName method → (∀ e ∈ arguments, IsExpression e) →
    IsExpression (.call (object ++ "." ++ method) (some arguments))
  | super {method : String} {arguments : List Node} : IsName method →
    (∀ e ∈ arguments, IsExpression e) → IsExpression (.super method (some arguments))
  | newObject {className : String} {arguments : List Node} : IsName className →
    (∀ e ∈ arguments, IsExpression e) → IsExpression (.newObject className (some arguments))
  | property {object : Node} {name : String} : IsChain object →
    IsExpression object → IsName name → IsExpression (.property object name)

/-- What is called, a method at its point. -/
def calleeLexemes (name : String) : List Lexeme :=
  match Eval.splitName name with
  | some (object, method) => [.reference object, .mark .dot, .name method]
  | none => [.reference name]

mutual

/-- An expression as an operand of a tier: looser operators stand in parentheses. -/
def lexemes : Node → (tier : Nat) → List Lexeme
  | .number value, _ => [.number value]
  | .text value, _ => [.quoted value]
  | .boolean value, _ => [.mark (.keyword (if value then .yes else .no))]
  | .var name, _ => [.reference name]
  | .binary left op right, tier =>
    Lexeme.grouped (op.tier < tier)
      (lexemes left op.tier ++ .op op.symbol :: lexemes right (op.tier + 1))
  | .comparison left op right, tier =>
    Lexeme.grouped (2 < tier) (lexemes left 2 ++ .op op.symbol :: lexemes right 3)
  | .cast target operand, _ => .mark target :: Lexeme.inParens (lexemes operand 0)
  | .input prompt, _ => .mark (.keyword .input) :: Lexeme.inParens (lexemes prompt 0)
  | .array elements, _ => .mark .lbracket :: (listLexemes elements ++ [.mark .rbracket])
  | .dictionary pairs, _ => Lexeme.inBraces (pairLexemes pairs)
  | .lookup container key, _ =>
    lexemes container 6 ++ .mark .lbracket :: (lexemes key 0 ++ [.mark .rbracket])
  | .call name arguments, _ => calleeLexemes name ++ argumentLexemes arguments
  | .super method arguments, _ =>
    .mark (.keyword .super) :: .mark .dot :: .name method :: argumentLexemes arguments
  | .newObject className arguments, _ =>
    .mark (.keyword .new) :: .name className :: argumentLexemes arguments
  | .property object name, _ => lexemes object 6 ++ [.mark .dot, .name name]
  | _, _ => []

/-- Expressions between commas. -/
def listLexemes : List Node → List Lexeme
  | [] => []
  | e :: rest => lexemes e 0 ++ moreLexemes rest

/-- Expressions, each after a comma. -/
def moreLexemes : List Node → List Lexeme
  | [] => []
  | e :: rest => .mark .comma :: (lexemes e 0 ++ moreLexemes rest)

/-- The arguments of a call in parentheses. -/
def argumentLexemes : Option (List Node) → List Lexeme
  | none => []
  | some arguments => Lexeme.inParens (listLexemes arguments)

/-- Keys and values between commas. -/
def pairLexemes : List (Node × Node) → List Lexeme
  | [] => []
  | (key, value) :: rest =>
    lexemes key 0 ++ .mark .colon :: (lexemes value 0 ++ morePairLexemes rest)

/-- Keys and values, each pair after a comma. -/
def morePairLexemes : List (Node × Node) → List Lexeme
  | [] => []
  | (key, value) :: rest =>
    .mark .comma :: (lexemes key 0 ++ .mark .colon :: (lexemes value 0 ++ morePairLexemes rest))

end

/-! ## Statements -/

/-- Whether a node declares a variable with a type. -/
def isDeclaration : Node → Bool
  | .assign _ _ (some _) => true
  | _ => false

/-- A block does not end with a declaration, whose semicolon would be taken together with the
closing brace. -/
def EndsPlainly (body : List Node) : Prop :=
  ∀ node, body.getLast? = some node → node.isDeclaration = false

/-- The statements that move a counting loop on. -/
inductive IsAdvance : Node → Prop
  | assign (name : String) (value : Node) : IsAdvance (.assign name value none)
  | assignProperty (object : Node) (name : String) (value : Node) :
    IsAdvance (.assignProperty object name value)
  | assignIndex (container key value : Node) : IsAdvance (.assignIndex container key value)
  | step (op : StepOp) (target : Node) : IsAdvance (.step op target)
  | call (name : String) (arguments : Option (List Node)) : IsAdvance (.call name arguments)
  | super (method : String) (arguments : Option (List Node)) :
    IsAdvance (.super method arguments)
  | print (arguments : List Node) : IsAdvance (.print arguments)

end Node

/-- A function without types. -/
structure Routine.IsPlain {Stmt : Type} (routine : Routine Stmt) : Prop where
  parameters : ∀ p ∈ routine.parameters, IsName p
  parameterTypes : routine.parameterTypes = []
  returnType : routine.returnType = none

/-- An access level that has a keyword. -/
def Access.IsPlain : Access → Prop
  | .other _ => False
  | _ => True

/-- The name of constructors among the methods of a class. -/
def constructorName : String := "Tvir"

/-- A class as it can be declared: names are bound once, the constructor is the method of its name,
and the levels of the methods are those that they were written with. -/
structure ClassDecl.IsPlain {Stmt : Type} (decl : ClassDecl Stmt) : Prop where
  name : IsName decl.name
  parent : ∀ p ∈ decl.parent, IsName p
  fields : ∀ f ∈ decl.fieldAccess, IsName f.1 ∧ f.2.IsPlain
  fieldNames : (Bindings.names decl.fieldAccess).Nodup
  methods : ∀ m ∈ decl.methods, m.2.name = m.1 ∧ m.2.IsPlain
  methodNames : (Bindings.names decl.methods).Nodup
  methodLevels : ∀ m ∈ decl.methods, m.1 ≠ constructorName → IsName m.1 ∧ m.2.access.IsPlain
  constructorLevel : ∀ m ∈ decl.methods, m.1 = constructorName → m.2.access = .publicAccess
  constructor : decl.constructor = Bindings.get? decl.methods constructorName
  methodAccess : decl.methodAccess =
    (decl.methods.filter fun m => m.1 ≠ constructorName).map fun m => (m.1, m.2.access)
  friends : ∀ f ∈ decl.friends, IsName f
  friendClasses : ∀ f ∈ decl.friendClasses, IsName f

namespace Node

/-- The trees of statements. -/
inductive IsStatement : Node → Prop
  | assign {name : String} {value : Node} (hint : Option String) : IsName name →
    IsExpression value → IsStatement (.assign name value hint)
  | assignProperty {object value : Node} {name : String} : IsChain object →
    IsExpression object → IsName name → IsExpression value →
    IsStatement (.assignProperty object name value)
  | assignIndex {container key value : Node} : IsIndexable container →
    IsExpression container → IsExpression key → IsExpression value →
    IsStatement (.assignIndex container key value)
  | increment {name : String} : IsName name → IsStatement (.step .increment (.var name))
  | decrement {name : String} : IsName name → IsStatement (.step .decrement (.var name))
  | call {name : String} {arguments : Option (List Node)} :
    IsExpression (.call name arguments) → IsStatement (.call name arguments)
  | super {method : String} {arguments : Option (List Node)} :
    IsExpression (.super method arguments) → IsStatement (.super method arguments)
  | print {arguments : List Node} : (∀ e ∈ arguments, IsExpression e) →
    IsStatement (.print arguments)
  | ret {value : Node} : IsExpression value → IsStatement (.ret value)
  | throw {message : Node} : IsExpression message → IsStatement (.throw message)
  | exit : IsStatement (.exit .missing)
  | exitWith {code : Node} : IsExpression code → IsStatement (.exit code)
  | importFile {path : Node} : IsExpression path → IsStatement (.importFile path)
  | ifElse {condition : Node} {body : List Node} {elseIfs : List (Node × List Node)}
      {otherwise : Option (List Node)} : IsExpression condition →
    (∀ s ∈ body, IsStatement s) → EndsPlainly body →
    (∀ b ∈ elseIfs, IsExpression b.1) → (∀ b ∈ elseIfs, ∀ s ∈ b.2, IsStatement s) →
    (∀ b ∈ elseIfs, EndsPlainly b.2) →
    (∀ b ∈ otherwise, ∀ s ∈ b, IsStatement s) → (∀ b ∈ otherwise, EndsPlainly b) →
    IsStatement (.ifElse condition body elseIfs otherwise)
  | whileLoop {condition : Node} {body : List Node} : IsExpression condition →
    (∀ s ∈ body, IsStatement s) → EndsPlainly body → IsStatement (.whileLoop condition body)
  | forLoop {name : String} {value condition advance : Node} {body : List Node} :
    IsName name → IsExpression value → IsExpression condition →
    IsAdvance advance → IsStatement advance →
    (∀ s ∈ body, IsStatement s) → EndsPlainly body →
    IsStatement (.forLoop (.assign name value none) condition advance body)
  | forEach {name : String} {array : Node} {body : List Node} : IsName name →
    IsExpression array → (∀ s ∈ body, IsStatement s) → EndsPlainly body →
    IsStatement (.forEach name array body)
  | function {routine : Routine Node} : IsName routine.name → routine.IsPlain →
    routine.access = .publicAccess →
    (∀ s ∈ routine.body, IsStatement s) → EndsPlainly routine.body →
    IsStatement (.function routine)
  | classDecl {decl : ClassDecl Node} : decl.IsPlain →
    (∀ m ∈ decl.methods, ∀ s ∈ m.2.body, IsStatement s) →
    (∀ m ∈ decl.methods, EndsPlainly m.2.body) →
    (∀ b ∈ decl.destructor, ∀ s ∈ b, IsStatement s) →
    (∀ b ∈ decl.destructor, EndsPlainly b) → IsStatement (.classDecl decl)
  | tryCatch {body : List Node} {catches : List (Option String × List Node)}
      {final : Option (List Node)} :
    (∀ s ∈ body, IsStatement s) → EndsPlainly body →
    (∀ c ∈ catches, ∀ n ∈ c.1, IsName n) → (∀ c ∈ catches, ∀ s ∈ c.2, IsStatement s) →
    (∀ c ∈ catches, EndsPlainly c.2) →
    (∀ b ∈ final, ∀ s ∈ b, IsStatement s) → (∀ b ∈ final, EndsPlainly b) →
    IsStatement (.tryCatch body catches final)

/-- The trees of programs. -/
inductive IsProgram : Node → Prop
  | program {statements : List Node} : (∀ s ∈ statements, IsStatement s) →
    IsProgram (.program statements)

/-! ## Statements as lexemes -/

/-- Whether a statement ends with a semicolon. -/
def isSimple : Node → Bool
  | .ifElse .. | .whileLoop .. | .forLoop .. | .forEach .. | .function _ | .classDecl _
  | .tryCatch .. => false
  | _ => true

/-- The name that is assigned to, after its type if declared. -/
def headLexemes (name : String) : Option String → List Lexeme
  | none => [.target name]
  | some hint => [.typeWord hint, .name name]

/-- The assignment that starts a counting loop. -/
def initLexemes : Node → List Lexeme
  | .assign name value _ => .name name :: .op ":=" :: lexemes value 0
  | _ => []

def codeLexemes : Node → List Lexeme
  | .missing => []
  | code => Lexeme.inParens (lexemes code 0)

def nameLexemes : List String → List Lexeme
  | [] => []
  | name :: rest => .name name :: rest.flatMap fun other => [.mark .comma, .name other]

def accessLexemes : Access → List Lexeme
  | .privateAccess => [.mark (.keyword .privateAccess)]
  | .protectedAccess => [.mark (.keyword .protectedAccess)]
  | _ => []

/-- A field; its type is not kept, and any will do. -/
def fieldLexemes (field : String × Access) : List Lexeme :=
  accessLexemes field.2 ++ [.mark (.keyword .intType), .name field.1, .mark .semicolon]

def friendLexemes (word : Keyword) : List String → List Lexeme
  | [] => []
  | names => .mark (.keyword word) :: .mark .colon :: (nameLexemes names ++ [.mark .semicolon])

def parentLexemes : Option String → List Lexeme
  | none => []
  | some name => [.mark .colon, .name name]

mutual

/-- A statement without its semicolon. -/
def statementLexemes : Node → List Lexeme
  | .assign name value hint => headLexemes name hint ++ .op ":=" :: lexemes value 0
  | .assignProperty object name value =>
    Lexeme.asTarget (lexemes (.property object name) 6) ++ .op ":=" :: lexemes value 0
  | .assignIndex container key value =>
    Lexeme.asTarget (lexemes (.lookup container key) 6) ++ .op ":=" :: lexemes value 0
  | .step op target => Lexeme.asTarget (lexemes target 6) ++ [.op op.symbol]
  | .call name arguments => Lexeme.asTarget (lexemes (.call name arguments) 6)
  | .super method arguments => lexemes (.super method arguments) 6
  | .print arguments => .mark (.keyword .print) :: Lexeme.inParens (listLexemes arguments)
  | .ret value => .mark (.keyword .ret) :: lexemes value 0
  | .throw message => .mark (.keyword .throw) :: Lexeme.inParens (lexemes message 0)
  | .exit code => .mark (.keyword .exit) :: codeLexemes code
  | .importFile path => .mark (.keyword .importFile) :: Lexeme.inParens (lexemes path 0)
  | .ifElse condition body elseIfs otherwise =>
    .mark (.keyword .ifBranch) :: (Lexeme.inParens (lexemes condition 0) ++
      (Lexeme.inBraces (blockLexemes body) ++ (elseIfLexemes elseIfs ++
        lastLexemes .elseBranch otherwise)))
  | .whileLoop condition body =>
    .mark (.keyword .whileLoop) :: (Lexeme.inParens (lexemes condition 0) ++
      Lexeme.inBraces (blockLexemes body))
  | .forLoop init condition advance body =>
    .mark (.keyword .forLoop) :: .mark .lparen :: (initLexemes init ++
      .mark .semicolon :: (lexemes condition 0 ++
        .mark .semicolon :: (statementLexemes advance ++
          .mark .rparen :: Lexeme.inBraces (blockLexemes body))))
  | .forEach name items body =>
    .mark (.keyword .forLoop) :: .name name :: .mark (.keyword .each) ::
      (lexemes items 0 ++ Lexeme.inBraces (blockLexemes body))
  | .function routine => routineLexemes routine
  | .classDecl decl => classLexemes decl
  | .tryCatch body catches final =>
    .mark (.keyword .tryBlock) :: (Lexeme.inBraces (blockLexemes body) ++
      (catchLexemes catches ++ lastLexemes .finallyBlock final))
  | _ => []

/-- Statements, the simple ones with their semicolons. -/
def blockLexemes : List Node → List Lexeme
  | [] => []
  | node :: rest =>
    statementLexemes node ++
      ((if node.isSimple then [.mark .semicolon] else []) ++ blockLexemes rest)

/-- The further branches of a condition. -/
def elseIfLexemes : List (Node × List Node) → List Lexeme
  | [] => []
  | (condition, body) :: rest =>
    .mark (.keyword .elseIf) :: (Lexeme.inParens (lexemes condition 0) ++
      (Lexeme.inBraces (blockLexemes body) ++ elseIfLexemes rest))

/-- The handlers of a block. -/
def catchLexemes : List (Option String × List Node) → List Lexeme
  | [] => []
  | (name, body) :: rest =>
    .mark (.keyword .catchBlock) :: (Lexeme.inParens (nameLexemes name.toList) ++
      (Lexeme.inBraces (blockLexemes body) ++ catchLexemes rest))

/-- The last part of a statement. -/
def lastLexemes (word : Keyword) : Option (List Node) → List Lexeme
  | none => []
  | some body => .mark (.keyword word) :: Lexeme.inBraces (blockLexemes body)

def routineLexemes : Routine Node → List Lexeme
  | ⟨name, parameters, body, _, _, _⟩ =>
    .mark (.keyword .function) :: .name name :: (Lexeme.inParens (nameLexemes parameters) ++
      Lexeme.inBraces (blockLexemes body))

def constructorLexemes : Routine Node → List Lexeme
  | ⟨_, parameters, body, _, _, _⟩ =>
    .mark (.keyword .constructor) :: (Lexeme.inParens (nameLexemes parameters) ++
      Lexeme.inBraces (blockLexemes body))

def methodLexemes : List (String × Routine Node) → List Lexeme
  | [] => []
  | (name, routine) :: rest =>
    (if name = constructorName then constructorLexemes routine
      else accessLexemes routine.access ++ routineLexemes routine) ++ methodLexemes rest

def destructorLexemes : Option (List Node) → List Lexeme
  | none => []
  | some body =>
    .name "Destructor" :: (Lexeme.inParens [] ++ Lexeme.inBraces (blockLexemes body))

def classLexemes : ClassDecl Node → List Lexeme
  | ⟨name, methods, _, finisher, parent, fieldAccess, _, friends, friendClasses⟩ =>
    .mark (.keyword .classDef) :: .name name :: (parentLexemes parent ++
      Lexeme.inBraces (fieldAccess.flatMap fieldLexemes ++ (methodLexemes methods ++
        (destructorLexemes finisher ++ (friendLexemes .friend friends ++
          friendLexemes .friendClass friendClasses)))))

end

/-- A program after its start word. -/
def programLexemes : Node → List Lexeme
  | .program statements => .mark (.keyword .start) :: blockLexemes statements
  | _ => []

/-- The tokens that are written for a program. -/
def programTokens (node : Node) : List Token :=
  node.programLexemes.map Lexeme.token

end Node

end Hetman
