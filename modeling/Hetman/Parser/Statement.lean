import Hetman.Bindings
import Hetman.Parser.Expression

/-!
Statements and programs.

A statement contains other statements only inside a block, after its first
token, so the nesting is again bounded by the number of tokens. Semicolons and
closing braces before a statement are skipped. A statement that cannot be read
is `missing` and is left out of its block.
-/

namespace Hetman.Parser

def isPresent : Node → Bool
  | .missing => false
  | _ => true

/-! ## Parts of statements -/

def blockOver (statement : Parser Node) : Parser (List Node) := do
  let body ← loop (fun _ => nextIs fun t => t.kind ≠ .rbrace)
    (fun body => do
      let node ← statement
      return if isPresent node then body ++ [node] else body)
    []
  demand .rbrace
  return body

/-- `{ statements }`. -/
def bracedOver (statement : Parser Node) : Parser (List Node) := do
  demand .lbrace
  blockOver statement

/-- `(condition) { statements }`. -/
def branchOver (statement : Parser Node) : Parser (Node × List Node) := do
  demand .lparen
  let condition ← orExpression
  demand .rparen
  let body ← bracedOver statement
  return (condition, body)

def parameters : Parser (List String) := do
  demand .lparen
  let names ← if (← nextKind) = .rparen then pure []
    else do
      let first ← expectName
      loop (fun _ => return (← nextKind) = .comma)
        (fun names => do
          advance
          let name ← expectName
          return names ++ [name])
        [first]
  demand .rparen
  return names

def nameList : Parser (List String) := do
  let first ← expectName
  loop (fun _ => nextHas .comma)
    (fun names => do
      advance
      let name ← expectName
      return names ++ [name])
    [first]

/-! ## Compound statements -/

/-- `If (…) {…}` with its `Else_If` and `Else` branches. -/
def ifOver (statement : Parser Node) : Parser Node := do
  demand (.keyword .ifBranch)
  let (condition, body) ← branchOver statement
  let elseIfs ← loop (fun _ => nextHas (.keyword .elseIf))
    (fun branches => do
      advance
      let branch ← branchOver statement
      return branches ++ [branch])
    []
  let otherwise ← if ← nextHas (.keyword .elseBranch) then do
      advance
      pure (some (← bracedOver statement))
    else pure none
  return .ifElse condition body elseIfs otherwise

def whileOver (statement : Parser Node) : Parser Node := do
  demand (.keyword .whileLoop)
  let (condition, body) ← branchOver statement
  return .whileLoop condition body

/-- `For (x := …; …; …) {…}`; `step` reads a statement without its semicolon. -/
def forOver (statement step : Parser Node) : Parser Node := do
  demand (.keyword .forLoop)
  demand .lparen
  let name ← expectName
  if name.isEmpty then return .missing
  else
    let op ← expect .op
    if (op.map (·.hasText ":=")).getD false then
      let init ← orExpression
      demand .semicolon
      let condition ← orExpression
      demand .semicolon
      let advanceNode ← step
      demand .rparen
      let body ← bracedOver statement
      return .forLoop (.assign name init none) condition advanceNode body
    else failNode op .forStart

/-- `For x each array {…}`. -/
def forEachOver (statement : Parser Node) : Parser Node := do
  demand (.keyword .forLoop)
  let name ← expectName
  demand (.keyword .each)
  let array ← orExpression
  let body ← bracedOver statement
  return .forEach name array body

/-- A function; its access level has already been read. -/
def routineOver (statement : Parser Node) (access : Access) : Parser (Routine Node) := do
  demand (.keyword .function)
  let name ← expectName
  let names ← parameters
  let body ← bracedOver statement
  return { name := name, parameters := names, body := body, access := access }

/-- `Try {…}` with its `Catch` and `Finally` blocks. -/
def tryOver (statement : Parser Node) : Parser Node := do
  demand (.keyword .tryBlock)
  let body ← bracedOver statement
  let catches ← loop (fun _ => nextHas (.keyword .catchBlock))
    (fun catches => do
      advance
      demand .lparen
      let name ← if ← nextHas .ident then pure (some (← expectName)) else pure none
      demand .rparen
      let handler ← bracedOver statement
      return catches ++ [(name, handler)])
    []
  let final ← if ← nextHas (.keyword .finallyBlock) then do
      advance
      pure (some (← bracedOver statement))
    else pure none
  return .tryCatch body catches final

/-! ## Classes -/

def accessOf? : Kind → Option Access
  | .keyword .publicAccess => some .publicAccess
  | .keyword .privateAccess => some .privateAccess
  | .keyword .protectedAccess => some .protectedAccess
  | _ => none

def isTypeKind : Kind → Bool
  | .keyword .intType | .keyword .textType | .keyword .boolType | .keyword .floatType => true
  | _ => false

def destructorNames : List String :=
  ["Znyshchyty", "Destructor", "Unichtozhit", "@~"]

def namesDestructor (t : Token) : Bool :=
  t.kind = .ident && destructorNames.any t.hasText

/-- `: name, name;` after a friend keyword, which is skipped. -/
def friendNames (t : Token) : Parser (List String) := do
  checkDialect t
  advance
  demand .colon
  let names ← nameList
  demand .semicolon
  return names

/-- One member of a class body, with the access level in front of it. -/
def memberOver (statement : Parser Node) (access : Access) (decl : ClassDecl Node) :
    Parser (ClassDecl Node) := do
  match ← peek with
  | none => throw (.noToken .kind)
  | some t =>
    match t.kind with
    | .keyword .friend =>
      let names ← friendNames t
      return { decl with friends := decl.friends ++ names }
    | .keyword .friendClass =>
      let names ← friendNames t
      return { decl with friendClasses := decl.friendClasses ++ names }
    | .keyword .constructor =>
      checkDialect t
      advance
      let names ← parameters
      let body ← bracedOver statement
      let routine : Routine Node := { name := "Tvir", parameters := names, body := body }
      return { decl with
        constructor := some routine, methods := Bindings.insert decl.methods "Tvir" routine }
    | .keyword .function =>
      let routine ← routineOver statement access
      return { decl with
        methods := Bindings.insert decl.methods routine.name routine,
        methodAccess := Bindings.insert decl.methodAccess routine.name access }
    | _ =>
      if namesDestructor t then
        checkDialect t
        advance
        demand .lparen
        demand .rparen
        let body ← bracedOver statement
        return { decl with destructor := some body }
      else if isTypeKind t.kind then
        advance
        let name ← expectName
        let decl := { decl with fieldAccess := Bindings.insert decl.fieldAccess name access }
        demand .semicolon
        return decl
      else
        report (.complaint (some t) .strayMember)
        advance
        return decl

/-- One member of a class body; without an access level it is public. -/
def memberRound (statement : Parser Node) (decl : ClassDecl Node) : Parser (ClassDecl Node) := do
  match ← peek with
  | some t =>
    match accessOf? t.kind with
    | some access =>
      checkDialect t
      advance
      memberOver statement access decl
    | none => memberOver statement .publicAccess decl
  | none => throw (.noToken .kind)

def membersOver (statement : Parser Node) (decl : ClassDecl Node) : Parser (ClassDecl Node) := do
  let decl ← loop (fun _ => nextIs fun t => t.kind ≠ .rbrace) (memberRound statement) decl
  demand .rbrace
  return decl

def classOver (statement : Parser Node) : Parser Node := do
  demand (.keyword .classDef)
  match ← expect .ident with
  | none => return .missing
  | some name =>
    let decl : ClassDecl Node := { name := name.display, methods := [] }
    if ← nextHas .colon then
      advance
      match ← expect .ident with
      | none => return .missing
      | some parent =>
        demand .lbrace
        return .classDecl (← membersOver statement { decl with parent := some parent.display })
    else
      demand .lbrace
      return .classDecl (← membersOver statement decl)

/-! ## Simple statements -/

/-- `Print(…)`. -/
def printStatement : Parser Node := do
  demand (.keyword .print)
  demand .lparen
  let arguments ← withFactors fun factor => elementsOver factor .rparen
  demand .rparen
  return .print arguments

/-- `Return …;`. -/
def returnStatement : Parser Node := do
  demand (.keyword .ret)
  let value ← orExpression
  demand .semicolon
  return .ret value

/-- `Throw(…);`. -/
def throwStatement : Parser Node := do
  demand (.keyword .throw)
  demand .lparen
  let message ← orExpression
  demand .rparen
  demand .semicolon
  return .throw message

/-- `Exit;` or `Exit(…);`. -/
def exitStatement : Parser Node := do
  demand (.keyword .exit)
  let code ← if ← nextHas .lparen then do
      demand .lparen
      let code ← orExpression
      demand .rparen
      pure code
    else pure .missing
  demand .semicolon
  return .exit code

/-- `Import(…);`. -/
def importStatement : Parser Node := do
  demand (.keyword .importFile)
  demand .lparen
  let path ← orExpression
  demand .rparen
  demand .semicolon
  return .importFile path

/-- `Type name := expression`, without a semicolon. -/
def typedDeclaration (t : Token) : Parser Node := do
  checkDialect t
  advance
  let name ← expectName
  demand .op
  let value ← orExpression
  return .assign name value (some t.display)

/-- Only variables, indices and properties can be assigned to. -/
def assignTo (target value : Node) : Node :=
  match target with
  | .property object name => .assignProperty object name value
  | .lookup container key => .assignIndex container key value
  | .var name => .assign name value none
  | _ => .missing

/-- `:= expression` after a target. -/
def assignment (target : Node) : Parser Node := do
  match ← expect .op with
  | none => return .missing
  | some op =>
    if op.hasText ":=" then
      let value ← orExpression
      return assignTo target value
    else failNode (some op) .notAssignment

def compoundOps : List String := ["+=", "-=", "*=", "/=", "%="]

/-- A statement that starts with a name or `this`, up to its semicolon. A
problem gives `none`: then no semicolon is asked for. -/
def referenceStatement (t : Token) : Parser (Option Node) := do
  let target ← factor
  match ← peek with
  | some op =>
    if op.kind = .op && op.hasText ":=" then
      let node ← assignment target
      return if isPresent node then some node else none
    else if isOpAmong compoundOps op then
      advance
      let right ← orExpression
      let operator := BinaryOp.ofSymbol (String.ofList (op.display.toList.take 1))
      let node := assignTo target (.binary target operator right)
      return if isPresent node then some node else none
    else if isOpAmong ["++", "--"] op then
      match target with
      | .var _ =>
        advance
        return some (.step (.ofSymbol op.display) target)
      | _ =>
        complain (some t) .stepTarget
        return none
    else bareCall target
  | none => bareCall target
where
  /-- A call may stand alone; any other expression may not. -/
  bareCall (target : Node) : Parser (Option Node) := do
    match target with
    | .call .. => return some target
    | _ =>
      complain (some t) .strayExpression
      return none

/-- A statement that starts with `Super`, up to its semicolon. -/
def superStatement (t : Token) : Parser (Option Node) := do
  checkDialect t
  let node ← factor
  match node with
  | .super .. => return some node
  | _ =>
    complain (some t) .superUsage
    return none

def finish (requireSemicolon : Bool) (node : Option Node) : Parser Node := do
  match node with
  | none => return .missing
  | some node =>
    if requireSemicolon then demand .semicolon
    return node

/-- The keywords that are held against the dialect before the statement itself
is read. -/
def isStatementKeyword : Kind → Bool
  | .keyword k =>
    [.ifBranch, .whileLoop, .forLoop, .function, .tryBlock, .throw, .exit, .importFile, .print,
      .classDef, .ret].contains k
  | _ => false

def statementFrom (statement : Bool → Parser Node) (requireSemicolon : Bool) (t : Token) :
    Parser Node := do
  if isTypeKind t.kind then typedDeclaration t
  else
    let inner := statement true
    match t.kind with
    | .keyword .ifBranch =>
      checkDialect t
      ifOver inner
    | .keyword .whileLoop =>
      checkDialect t
      whileOver inner
    | .keyword .forLoop =>
      checkDialect t
      let name ← peekAhead 1
      let each ← peekAhead 2
      checkDialect t
      if (name.map (·.kind)) = some .ident && (each.map (·.kind)) = some (.keyword .each) then
        forEachOver inner
      else forOver inner (statement false)
    | .keyword .function =>
      checkDialect t
      return .function (← routineOver inner .publicAccess)
    | .keyword .tryBlock =>
      checkDialect t
      tryOver inner
    | .keyword .throw =>
      checkDialect t
      throwStatement
    | .keyword .exit =>
      checkDialect t
      exitStatement
    | .keyword .importFile =>
      checkDialect t
      importStatement
    | .keyword .super => finish requireSemicolon (← superStatement t)
    | .ident | .keyword .this => finish requireSemicolon (← referenceStatement t)
    | .keyword .print =>
      checkDialect t
      let node ← printStatement
      finish requireSemicolon (some node)
    | .keyword .ret =>
      checkDialect t
      returnStatement
    | .keyword .classDef =>
      checkDialect t
      classOver inner
    | _ => failNode (some t) .strayStatement

def statementStep (statement : Bool → Parser Node) (requireSemicolon : Bool) : Parser Node := do
  loop (fun _ => nextIs fun t => t.kind = .semicolon || t.kind = .rbrace) (fun _ => advance) ()
  match ← peek with
  | none => return .missing
  | some t =>
    if isStatementKeyword t.kind then checkDialect t
    statementFrom statement requireSemicolon t

def statementAt : Nat → Bool → Parser Node
  | 0, _ => throw .exhausted
  | fuel + 1, requireSemicolon => statementStep (statementAt fuel) requireSemicolon

/-! ## Whole productions -/

def statement (requireSemicolon : Bool := true) : Parser Node := do
  statementAt ((← get).remaining + 1) requireSemicolon

def block : Parser (List Node) := blockOver statement

def ifStatement : Parser Node := ifOver statement

def whileStatement : Parser Node := whileOver statement

def forStatement : Parser Node := forOver statement (statement false)

def forEachStatement : Parser Node := forEachOver statement

def functionDef (access : Access := .publicAccess) : Parser Node := do
  return .function (← routineOver statement access)

def classDef : Parser Node := classOver statement

def tryStatement : Parser Node := tryOver statement

def program : Parser Node := do
  match ← peek with
  | some t =>
    if t.kind = .keyword .start then
      modify fun s =>
        if s.strict then
          match Dialect.ofStarter? t.display with
          | some d => { s with dialect := some d }
          | none => s
        else s
      advance
      let statements ← loop (fun _ => nextIs fun _ => true)
        (fun statements => do
          let node ← statement
          return if isPresent node then statements ++ [node] else statements)
        []
      return .program statements
    else throw .noStarter
  | none => throw .noStarter

structure Outcome where
  node : Except Stop Node
  state : State

def runProgram (s : State) : Outcome :=
  match program s with
  | .ok node s => ⟨.ok node, s⟩
  | .error stop s => ⟨.error stop, s⟩

end Parser

def parse (tokens : List Token) (strict : Bool := false) : Parser.Outcome :=
  Parser.runProgram { tokens := tokens.toArray, strict := strict }

end Hetman
