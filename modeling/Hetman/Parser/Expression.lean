import Hetman.Parser.State

/-!
Expressions.

The binary operators bind, from loosest to tightest: `||`, `&&`, comparisons,
`+ -`, `* / %`, `^ ^/`, all to the left. Each level is a loop over the next, and
the tightest works on factors. A factor contains other factors only after its
first token, so a nesting never goes deeper than there are tokens; `factor` and
`orExpression` start with that much fuel.

The limit that a host sets to nested calls is left out: there, a nesting of some
hundred brackets ends the reading, and here it is read whatever its depth.
-/

namespace Hetman.Parser

/-! ## Levels -/

/-- Operands of the next level, grouped to the left. -/
def level (isOp : Token → Bool) (build : Node → String → Node → Node)
    (operand : Parser Node) : Parser Node := do
  let first ← operand
  loop (fun _ => nextIs isOp)
    (fun left => do
      let op ← expectText .op
      let right ← operand
      return build left op right)
    first

def binaryNode (left : Node) (op : String) (right : Node) : Node :=
  .binary left (.ofSymbol op) right

def comparisonNode (left : Node) (op : String) (right : Node) : Node :=
  .comparison left (.ofSymbol op) right

def isOpAmong (ops : List String) (t : Token) : Bool :=
  t.kind = .op && ops.any t.hasText

def exponentOver (factor : Parser Node) : Parser Node :=
  level (isOpAmong ["^", "^/"]) binaryNode factor

def termOver (factor : Parser Node) : Parser Node :=
  level (isOpAmong ["*", "/", "%"]) binaryNode (exponentOver factor)

def sumOver (factor : Parser Node) : Parser Node :=
  level (isOpAmong ["+", "-"]) binaryNode (termOver factor)

def comparisonOver (factor : Parser Node) : Parser Node :=
  level (isOpAmong ["==", "!=", "<", ">", "<=", ">="]) comparisonNode (sumOver factor)

def andOver (factor : Parser Node) : Parser Node :=
  level (·.hasText "&&") binaryNode (comparisonOver factor)

/-- Disjunctions, the loosest level. -/
def orOver (factor : Parser Node) : Parser Node :=
  level (·.hasText "||") binaryNode (andOver factor)

/-! ## Parts of factors -/

def elementsOver (factor : Parser Node) (close : Kind) : Parser (List Node) := do
  if (← nextKind) = close then return []
  else
    let first ← orOver factor
    loop (fun _ => nextHas .comma)
      (fun elements => do
        advance
        let element ← orOver factor
        return elements ++ [element])
      [first]

/-- A comma before the closing parenthesis gives up on them. -/
def argumentsOver (factor : Parser Node) : Parser (Option (List Node)) := do
  demand .lparen
  if (← nextKind) = .rparen then
    demand .rparen
    return some []
  else
    let first ← orOver factor
    let arguments ← loop
      (fun (arguments : Option (List Node)) => do
        if arguments.isSome then nextHas .comma else return false)
      (fun arguments => do
        advance
        if ← nextHas .rparen then
          complain (← peek) .trailingComma
          return none
        else
          let argument ← orOver factor
          return arguments.map (· ++ [argument]))
      (some [first])
    if arguments.isSome then demand .rparen
    return arguments

def pairOver (factor : Parser Node) : Parser (Node × Node) := do
  let key ← orOver factor
  demand .colon
  let value ← orOver factor
  return (key, value)

/-- A comma may stand before the closing brace. -/
def dictionaryOver (factor : Parser Node) : Parser Node := do
  demand .lbrace
  let pairs ← if ← nextIs fun t => t.kind ≠ .rbrace then do
      let first ← pairOver factor
      let (pairs, _) ← loop
        (fun (state : List (Node × Node) × Bool) => do
          if state.2 then nextHas .comma else return false)
        (fun state => do
          advance
          if ← nextHas .rbrace then return (state.1, false)
          else
            let pair ← pairOver factor
            return (state.1 ++ [pair], true))
        ([first], true)
      pure pairs
    else pure []
  demand .rbrace
  return .dictionary pairs

/-- `Type(expression)`; the current token names the type. -/
def castOver (factor : Parser Node) : Parser Node := do
  match ← peek with
  | none => throw (.noToken .kind)
  | some t =>
    advance
    checkDialect t
    demand .lparen
    let operand ← orOver factor
    demand .rparen
    return .cast t.kind operand

/-- `Input(prompt)`. -/
def inputOver (factor : Parser Node) : Parser Node := do
  let _ ← expectChecked (.keyword .input)
  demand .lparen
  let prompt ← orOver factor
  demand .rparen
  return .input prompt

def indicesOver (factor : Parser Node) (node : Node) : Parser Node :=
  loop (fun _ => nextHas .lbracket)
    (fun node => do
      advance
      let index ← orOver factor
      demand .rbracket
      return .lookup node index)
    node

/-- Arguments after `variable.name` make it a call; after anything longer they are read and dropped.
-/
def propertiesOver (factor : Parser Node) (node : Node) : Parser Node :=
  loop (fun _ => nextHas .dot)
    (fun node => do
      advance
      let name ← expectName
      if ← nextHas .lparen then
        let arguments ← argumentsOver factor
        match node with
        | .var object => return .call s!"{object}.{name}" arguments
        | _ => return .property node name
      else return .property node name)
    node

def referenceOver (factor : Parser Node) (t : Token) : Parser Node := do
  checkDialect t
  let name := if t.kind = .keyword .this then "this" else t.display
  advance
  let node ← if ← nextHas .lparen then
      pure (Node.call name (← argumentsOver factor))
    else pure (.var name)
  let node ← indicesOver factor node
  propertiesOver factor node

/-- `new Class(arguments)`. -/
def newObjectOver (factor : Parser Node) (t : Token) : Parser Node := do
  checkDialect t
  advance
  let className ← expectName
  if className.isEmpty then return .missing
  else return .newObject className (← argumentsOver factor)

/-- `Super.method(arguments)`. -/
def superOver (factor : Parser Node) (t : Token) : Parser Node := do
  checkDialect t
  advance
  demand .dot
  let method ← expectName
  if ← nextHas .lparen then return .super method (← argumentsOver factor)
  else failNode (some t) .superWithoutCall

def arrayOver (factor : Parser Node) : Parser Node := do
  advance
  let elements ← elementsOver factor .rbracket
  demand .rbracket
  return .array elements

def groupOver (factor : Parser Node) : Parser Node := do
  advance
  let inner ← orOver factor
  demand .rparen
  return inner

def unquote (raw : String) : String :=
  let chars := raw.toList
  let quotedBy (q : Char) : Bool := chars.head? == some q && chars.getLast? == some q
  if quotedBy '"' || quotedBy '\'' then String.ofList ((chars.drop 1).take (chars.length - 2))
  else raw

/-- By the two tokens after the brace. -/
def opensDictionary : Parser Bool := do
  match ← peekAhead 1 with
  | none => return false
  | some next =>
    match next.kind with
    | .string | .ident | .number => return true
    | _ =>
      match ← peekAhead 2 with
      | some colon => return colon.kind = .colon
      | none => return false

def factorStep (factor : Parser Node) : Parser Node := do
  match ← peek with
  | none => throw (.noToken .kind)
  | some t =>
    if t.kind = .op && t.hasText "-" then
      advance
      let operand ← factor
      return .binary (.number (.int 0)) .sub operand
    else if t.kind = .op && t.hasText "+" then
      advance
      factor
    else
      match t.kind with
      | .number =>
        advance
        match t.payload with
        | .number n => return .number n
        | .text s => return .text s
      | .keyword .yes =>
        checkDialect t
        advance
        return .boolean true
      | .keyword .no =>
        checkDialect t
        advance
        return .boolean false
      | .keyword .new => newObjectOver factor t
      | .keyword .super => superOver factor t
      | .ident | .keyword .length | .keyword .this => referenceOver factor t
      | .lbracket => arrayOver factor
      | .lbrace =>
        if ← opensDictionary then dictionaryOver factor
        else failNode (some t) .strayBrace
      | .lparen => groupOver factor
      | .string =>
        advance
        return .text (unquote t.display)
      | .keyword .intType | .keyword .textType | .keyword .boolType | .keyword .floatType =>
        castOver factor
      | .keyword .input => inputOver factor
      | _ => failNode (some t) .strayFactor

def factorAt : Nat → Parser Node
  | 0 => throw .exhausted
  | fuel + 1 => factorStep (factorAt fuel)

/-! ## Whole productions -/

/-- As much fuel as there are tokens. -/
def withFactors {α : Type} (production : Parser Node → Parser α) : Parser α := do
  production (factorAt ((← get).remaining + 1))

def factor : Parser Node := withFactors id

def orExpression : Parser Node := withFactors orOver

def andExpression : Parser Node := withFactors andOver

def comparison : Parser Node := withFactors comparisonOver

def expression : Parser Node := withFactors sumOver

def term : Parser Node := withFactors termOver

def exponent : Parser Node := withFactors exponentOver

def arguments : Parser (Option (List Node)) := withFactors argumentsOver

def dictionary : Parser Node := withFactors dictionaryOver

def typeCast : Parser Node := withFactors castOver

def inputExpression : Parser Node := withFactors inputOver

def functionCall : Parser Node := do
  let name ← expectName
  return .call name (← arguments)

/-- No other production uses it, and it comes to nothing: it calls one that there is not. -/
def expressionOrCall : Parser Node :=
  throw (.noProduction "primary_expression")

end Hetman.Parser
