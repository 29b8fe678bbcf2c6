import Hetman.Proofs.Lexing.Conveyed
import Hetman.Proofs.Parser.Declarations
import Hetman.Proofs.Parser.Literals
import Hetman.Proofs.Rewording

/-!
# Compound assignment

`x += e;` is read as `x := x + (e);` is. Both readings are those of `e` alone, before other tokens
(`orOver_among`). The remainder is different: the lexer takes `%` for an operator by itself, so that
`x %= e;` is no statement (`compound_read`).
-/

namespace Hetman.Parser

open List

variable {n : Nat} {w : Token} {rest tokens' : List Token} {source : String}

/-! ## An operation of two factors -/

theorem nextIs_idle {test : Token → Bool} {s : State} (idle : Idle test s.rest) :
    nextIs test s = .ok false s := by
  rw [nextIs_apply]
  cases here : s.rest.head? with
  | none => rfl
  | some t => rw [Option.any_some, idle t here]

section Levels

variable {isOp : Token → Bool} {build : Node → String → Node → Node} {operand : Parser Node}
  {s t u : State} {a b : Node}

theorem level_alone (read : operand s = .ok a t) (idle : Idle isOp t.rest) :
    level isOp build operand s = .ok a t := by
  unfold level
  rw [bind_apply read]
  exact loop_stop (nextIs_idle idle)

theorem level_once (read : operand s = .ok a t) (here : t.token? = some w) (kind : w.kind = .op)
    (fits : isOp w = true) (next : operand (t.skip 1) = .ok b u) (idle : Idle isOp u.rest) :
    level isOp build operand s = .ok (build a w.display b) u := by
  have asked : nextIs isOp t = .ok true t := by
    rw [nextIs_apply, ← State.token?_eq, here, Option.any_some, fits]
  have took : expectText .op t = .ok w.display (t.skip 1) := bind_apply (expect_found here kind)
  obtain ⟨fuel, count⟩ : ∃ fuel, t.remaining = fuel + 1 := by
    rw [State.remaining_eq, State.rest_eq_cons here]
    exact ⟨_, rfl⟩
  unfold level loop
  rw [bind_apply read, get_apply, count, repeatWhile, bind_apply asked]
  show ((do
    let op ← expectText .op
    let right ← operand
    return build a op right) >>= fun left => repeatWhile _ _ (fuel + 1) left) t = _
  rw [bind_assoc, bind_apply took, bind_assoc, bind_apply next, pure_bind, repeatWhile,
    bind_apply (nextIs_idle idle)]
  rfl

end Levels

section Tiers

variable {factor : Parser Node} {s t u : State} {a b : Node}

/-- What is read at a tier is read at a looser one, if no operator between them comes next. -/
theorem tierOver_descend {k : Nat} (le : k ≤ n) (top : n ≤ 6) (read : tierOver factor n s = .ok a t)
    (idle : ∀ m, k ≤ m → m < n → Idle (isOpAt m) t.rest) : tierOver factor k s = .ok a t := by
  induction n, le using Nat.le_induction with
  | base => exact read
  | succ n le ih =>
    apply ih (Nat.le_of_succ_le top)
    · rw [tierOver_eq_level factor top]
      exact level_alone read (idle n le (Nat.lt_succ_self n))
    · exact fun m low high => idle m low (Nat.lt_succ_of_lt high)

/-- Two factors with an operator between, and none after. -/
theorem orOver_operation {op : BinaryOp} (tier : op.tier < 6) (left : factor s = .ok a t)
    (here : t.token? = some w) (accepted : (Lexeme.op op.symbol).Accepts w)
    (right : factor (t.skip 1) = .ok b u) (ends : ∀ m, Idle (isOpAt m) u.rest) :
    orOver factor s = .ok (.binary a op b) u := by
  have other : ∀ m, m ≠ op.tier → Idle (isOpAt m) t.rest := by
    intro m differs v head
    rw [← State.token?_eq, here] at head
    cases head
    rw [isOpAt_op accepted, symbolsAt_symbol tier, decide_eq_false differs]
  have first : tierOver factor (op.tier + 1) s = .ok a t :=
    tierOver_descend tier (Nat.le_refl 6) left fun m low _ => other m (by omega)
  have second : tierOver factor (op.tier + 1) (t.skip 1) = .ok b u :=
    tierOver_descend tier (Nat.le_refl 6) right fun m _ _ => ends m
  have fits : isOpAt op.tier w = true := by
    rw [isOpAt_op accepted, symbolsAt_symbol tier, decide_eq_true rfl]
  have plain : op.tier ≠ 2 := by
    cases op <;> simp [BinaryOp.tier]
  have text : w.display = op.symbol := by
    rw [Token.display, accepted.2]
    rfl
  have whole : tierOver factor op.tier s = .ok (.binary a op b) u := by
    rw [tierOver_eq_level factor tier,
      level_once first here accepted.1 fits second (ends op.tier), text, nodeAt, if_neg plain,
      binaryNode_symbol tier]
  exact tierOver_descend (Nat.zero_le _) (Nat.le_of_lt tier) whole fun m _ _ => ends m

end Tiers

/-! ## An expression among other tokens -/

def Expression (tokens : List Token) (value : Node) : Prop :=
  ∃ t, Clean orExpression { tokens := tokens.toArray } value t ∧ t.rest = []

theorem orExpression_apply (s : State) :
    orExpression s = orOver (factorAt (s.remaining + 1)) s := by
  exact get_apply _ s

section Among

variable {tokens more : List Token} {value : Node} {s : State}

theorem inside_of_orExpression {s t : State} (inside : s.Inside)
    (read : orExpression s = .ok value t) : t.Inside := by
  have reached : Reached (s.remaining + 1) false s := ⟨inside, Nat.lt_succ_self _, nofun⟩
  have reading : Phrase Anywhere (s.remaining + 1) false orExpression := forward_orExpression
  have went := reading s trivial reached
  rw [read] at went
  cases went with
  | ok onward _ _ _ => exact onward.inside

theorem steady_orOver (fuel : Nat) : Steady (orOver (factorAt fuel)) :=
  (Pairing.agree_orOver (Pairing.operands_factorAt (P := .same) ⟨Nat.le_refl fuel, fun _ => rfl⟩)).moves

/-- An expression is read as by itself before tokens with which none goes on. -/
theorem orOver_among (expression : Expression tokens value) (plain : s.strict = false)
    (left : s.rest = tokens ++ more) (apart : Apart more) {fuel : Nat}
    (enough : tokens.length < fuel) :
    ∃ u, Clean (orOver (factorAt fuel)) s value u ∧ u.rest = more := by
  obtain ⟨t, ⟨read, clean⟩, ended⟩ := expression
  have inside := inside_of_orExpression (Nat.zero_le _) read
  have own : ({ tokens := tokens.toArray } : State).rest = tokens := by
    simp [State.rest]
  have beside : Beside [] more tokens { tokens := tokens.toArray } s :=
    ⟨by rw [own, append_nil], left⟩
  have count : ({ tokens := tokens.toArray } : State).remaining + 1 ≤ fuel := by
    exact enough
  let P := Pairing.following [] more True (Nat.zero_le _) fun _ => apart
  have agree : P.Agree id
      (orOver (factorAt (({ tokens := tokens.toArray } : State).remaining + 1)))
      (orOver (factorAt fuel)) :=
    (Pairing.agree_orOver (Pairing.operands_factorAt ⟨count, False.elim⟩)).ofNode
  obtain ⟨u, rest, result, after, same⟩ := Pairing.follow agree beside trivial read
    (congrArg (List.filter _) clean) (.inr ⟨trivial, rfl, fun _ => inside⟩)
  refine ⟨u, ⟨result, ((steady_orOver fuel).ok result).problems_eq plain same⟩, ?_⟩
  obtain rfl : rest = [] := by rw [← append_nil rest, ← after.rest, ended]
  exact after.rest'

theorem orExpression_among (expression : Expression tokens value) (plain : s.strict = false)
    (left : s.rest = tokens ++ more) (apart : Apart more) :
    ∃ u, Clean orExpression s value u ∧ u.rest = more := by
  have enough : tokens.length < s.remaining + 1 := by
    rw [State.remaining_eq, left, length_append]
    omega
  unfold Clean
  rw [orExpression_apply]
  exact orOver_among expression plain left apart enough

theorem Expression.unended (expression : Expression tokens value) :
    ∀ t ∈ tokens, t.kind ≠ .semicolon := by
  obtain ⟨t, ⟨read, clean⟩, ended⟩ := expression
  have takes : Takes Anywhere orExpression Shown := takes_orExpression
  obtain ⟨moved, taken⟩ := takes _ _ t trivial read
  obtain ⟨_, shows, -⟩ := taken (congrArg (List.filter _) clean)
  have long : tokens.length ≤ t.pos := by
    rw [State.rest, moved.tokens] at ended
    exact drop_eq_nil_iff.mp ended
  have whole : ({ tokens := tokens.toArray } : State).readTo t = tokens :=
    take_of_length_le long
  exact whole ▸ shows.unended

/-- A parenthesis before an expression asks for one after it. -/
theorem factorAt_group {t : Token} (here : s.token? = some t) (opens : t.kind = .lparen)
    (fuel : Nat) :
    factorAt (fuel + 1) s =
      (do
        let inner ← orOver (factorAt fuel)
        demand .rparen
        return inner) (s.skip 1) := by
  rw [factorAt, factorStep, bind_apply (peek_apply s), here]
  obtain ⟨kind, payload, line, column⟩ := t
  obtain rfl : kind = .lparen := opens
  exact bind_apply (advance_apply s)

end Among

/-! ## Statements -/

section Statements

variable {s : State} {x op : Token}

/-- A compound assignment asks for an expression and a semicolon. -/
theorem statement_compound (here : s.token? = some x) (named : x.kind = .ident)
    (quiet : checkDialect x s = .ok () s) (next : (s.skip 1).token? = some op) (isOp : op.kind = .op)
    (other : op.hasText ":=" = false) (compound : isOpAmong compoundOps op = true) :
    statement true s =
      (do
        let value ← orExpression
        finish true (some (.assign x.display (.binary (.var x.display)
          (.ofSymbol (String.ofList (op.display.toList.take 1))) value) none))) (s.skip 2) := by
  rw [statement_name here named quiet next isOp]
  simp only [other, compound, Bool.and_false, Bool.false_eq_true, if_false, if_true]
  rw [bind_assoc, bind_assoc]
  rfl

theorem objects_name (here : s.token? = some x) (named : x.kind = .ident)
    (plain : s.strict = false) (next : (s.skip 1).token? = some op) (isOp : op.kind = .op)
    (other : op.hasText ":=" = false) (uncompound : isOpAmong compoundOps op = false)
    (unstepped : isOpAmong ["++", "--"] op = false) (node : Node) (u : State) :
    ¬ Clean (statement true) s node u := by
  intro ⟨result, same⟩
  rw [statement_name here named (checkDialect_looks x s.rest s plain rfl) next isOp] at result
  simp only [other, uncompound, unstepped, Bool.and_false] at result
  have ending : ∀ node, Steady (finish true node) := fun node =>
    (Pairing.agree_finish (P := .same) true rfl).moves
  have objects : Objects ((do complain (some x) .strayExpression; return none) >>= finish true) :=
    ((objects_complain (some x) .strayExpression).bind fun _ => .pure _).bind ending
  exact (objects (s.skip 1) node u result).2 (congrArg (List.filter _) same)

end Statements

/-! ## Programs of one statement -/

/-- Behind every start word the tokens are one statement without a problem. -/
def SoleStatement (tokens : List Token) (node : Node) : Prop :=
  ∀ starter : Token, starter.kind = .keyword .start →
    (parse (starter :: tokens)).node = .ok (.program [node]) ∧
      (parse (starter :: tokens)).state.problems = []

section Sole

variable {tokens : List Token} {node : Node}

/-- A statement that ends with an expression and a semicolon. -/
theorem sole_ended (build : Node → Node) {value : Node} (some_left : tokens ≠ [])
    (present : isPresent (build value) = true) (isSemicolon : w.kind = .semicolon)
    (form : ∀ s : State, s.strict = false → s.rest = tokens → statement true s =
      (do let value ← orExpression; finish true (some (build value))) (s.skip n))
    (read : ∀ s : State, s.strict = false → s.rest = tokens →
      ∃ u, Clean orExpression (s.skip n) value u ∧ u.rest = [w]) :
    SoleStatement tokens (build value) := by
  intro starter isStarter
  have left := rest_started starter tokens
  obtain ⟨u, read, after⟩ := read (started starter tokens) rfl left
  have here : u.token? = some w := by rw [State.token?_eq, after]; rfl
  have ended : (u.skip 1).rest = [] := by rw [State.rest_skip, after]; rfl
  obtain ⟨result, clean⟩ := (clean_ended (form _ rfl left) _ _).mpr
    ⟨value, u, read, ⟨⟨w, here, isSemicolon⟩, rfl⟩, rfl⟩
  obtain ⟨fuel, count⟩ : ∃ fuel, tokens.length = fuel + 1 :=
    Nat.exists_eq_succ_of_ne_zero (length_pos_of_ne_nil some_left).ne'
  have loops : statementsFrom (tokens.length + 1) [] (started starter tokens) =
      .ok [build value] (u.skip 1) := by
    rw [count, statementsFrom_cons (by rwa [left]), bind_apply result, Parser.present,
      if_pos present, statementsFrom_nil ended]
    rfl
  have whole : program (starting (starter :: tokens) false) =
      .ok (.program [build value]) (u.skip 1) := by
    rw [program_apply isStarter, bind_apply loops]
    rfl
  rw [parse_eq, runProgram, whole]
  exact ⟨rfl, clean⟩

theorem SoleStatement.clean (sole : SoleStatement tokens node) (some_left : tokens ≠ []) :
    ∃ first u, Clean (statement true) (started chief tokens) first u := by
  obtain ⟨read, clean⟩ := sole chief rfl
  obtain ⟨t, loops, same⟩ := read_program read clean
  have left := rest_started chief tokens
  obtain ⟨first, u, result, clean', -⟩ := round_of_read (by rwa [left]) loops same
  exact ⟨first, u, result, ((steady_statement true).ok result).problems_eq rfl clean'⟩

theorem not_sole_unended {build : Node → Node} (some_left : tokens ≠ [])
    (form : statement true (started chief tokens) =
      (do let value ← orExpression; finish true (some (build value)))
        ((started chief tokens).skip n)) (unended : ∀ t ∈ tokens, t.kind ≠ .semicolon) :
    ¬ SoleStatement tokens node := by
  intro sole
  obtain ⟨first, u, read⟩ := sole.clean some_left
  obtain ⟨_, v, ⟨result, -⟩, ⟨⟨w, here, isSemicolon⟩, -⟩, -⟩ := (clean_ended form first u).mp read
  have inside : w ∈ v.rest := State.rest_eq_cons here ▸ mem_cons_self
  have earlier := (steady_orExpression.ok result).rest.subset inside
  rw [State.rest_skip] at earlier
  exact unended w (mem_of_mem_drop earlier) isSemicolon

theorem reworded_of_content {tokens : List Token}
    (same : tokens'.map Token.content = tokens.map Token.content) : Reworded tokens tokens' := by
  induction tokens generalizing tokens' with
  | nil =>
    rw [map_nil, map_eq_nil_iff] at same
    rw [same]
    trivial
  | cons t rest ih =>
    cases tokens' with
    | nil => cases same
    | cons t' rest' =>
      obtain ⟨content, later⟩ := List.cons.inj same
      exact ⟨congrArg Prod.fst content, .inl (congrArg Prod.snd content), ih later⟩

theorem SoleStatement.moved (sole : SoleStatement tokens node)
    (same : tokens'.map Token.content = tokens.map Token.content) : SoleStatement tokens' node := by
  intro starter isStarter
  obtain ⟨read, clean⟩ := sole starter isStarter
  have reworded : Reworded (starter :: tokens) (starter :: tokens') :=
    ⟨rfl, .inl rfl, reworded_of_content same⟩
  obtain ⟨node', clean'⟩ := parse_reworded reworded clean
  exact ⟨node'.trans read, clean'⟩

end Sole

/-- A text is read as one statement. -/
def ReadAs (source : String) (node : Node) : Prop :=
  (lex source).fault = none ∧ SoleStatement (lex source).tokens node

theorem readAs_iff {tokens : List Token} {node : Node}
    (conveys : Lexer.Conveys source.toList (tokens.map Token.content)) :
    ReadAs source node ↔ SoleStatement tokens node := by
  obtain ⟨succeeds, same⟩ := Lexer.conveys_iff.mp conveys
  constructor
  · exact fun read => read.2.moved same.symm
  · exact fun sole => ⟨succeeds, sole.moved same⟩

/-! ## The two forms, as tokens -/

/-- A token with a text. -/
def worded (kind : Kind) (text : String) : Token :=
  ⟨kind, .text text, 1, 1⟩

/-- `x op= …`. -/
def compoundTokens (x : String) (op : BinaryOp) (rest : List Token) : List Token :=
  worded .ident x :: worded .op (op.symbol ++ "=") :: rest

/-- `x := x op (…`. -/
def assignmentTokens (x : String) (op : BinaryOp) (rest : List Token) : List Token :=
  worded .ident x :: worded .op ":=" :: worded .ident x :: worded .op op.symbol ::
    worded .lparen "(" :: rest

/-- The operators that the lexer reads together with an assignment. -/
def joinedOps : List BinaryOp :=
  [.add, .sub, .mul, .div]

theorem joinedOps_compound : ∀ op ∈ joinedOps,
    (worded .op (op.symbol ++ "=")).hasText ":=" = false ∧
      isOpAmong compoundOps (worded .op (op.symbol ++ "=")) = true ∧
      BinaryOp.ofSymbol (String.ofList ((op.symbol ++ "=").toList.take 1)) = op := by
  decide

theorem apart_worded {kind : Kind} {text : String} (ends : prolongs kind = false)
    (other : text ≠ "&&" ∧ text ≠ "||") : Apart (worded kind text :: rest) := by
  intro t head
  cases head
  have texts := Token.hasText_eq (show (worded kind text).payload = .text text from rfl)
  rw [texts, texts]
  exact ⟨ends, beq_false_of_ne other.1, beq_false_of_ne other.2⟩

section Forms

variable {x : String} {op : BinaryOp} {tokens tail : List Token} {value node : Node} {s : State}

theorem token?_of_rest {t : Token} (left : s.rest.drop n = t :: rest) :
    (s.skip n).token? = some t := by
  rw [State.token?_eq, State.rest_skip, left]
  rfl

theorem statement_compoundTokens (listed : op ∈ joinedOps) (plain : s.strict = false)
    (left : s.rest = compoundTokens x op tail) :
    statement true s =
      (do
        let value ← orExpression
        finish true (some (.assign x (.binary (.var x) op value) none))) (s.skip 2) := by
  obtain ⟨other, compound, same⟩ := joinedOps_compound op listed
  have here := token?_of_rest (n := 0) left
  have next := token?_of_rest (n := 1) (congrArg (drop 1) left)
  have quiet := checkDialect_looks (worded .ident x) s.rest s plain rfl
  rw [statement_compound (s := s) here rfl quiet next rfl other compound,
    show (worded .op (op.symbol ++ "=")).display = op.symbol ++ "=" from rfl, same]
  rfl

theorem sole_compoundTokens (listed : op ∈ joinedOps) (expression : Expression tokens value) :
    SoleStatement (compoundTokens x op (tokens ++ [worded .semicolon ";"]))
      (.assign x (.binary (.var x) op value) none) := by
  apply sole_ended (fun value => .assign x (.binary (.var x) op value) none)
    (w := worded .semicolon ";") (cons_ne_nil _ _) rfl rfl
    fun _ => statement_compoundTokens listed
  intro s plain left
  have rest : (s.skip 2).rest = tokens ++ [worded .semicolon ";"] := by
    rw [State.rest_skip, left]
    rfl
  exact orExpression_among expression plain rest (apart_worded rfl (by decide))

theorem not_sole_compoundTokens (listed : op ∈ joinedOps) (expression : Expression tokens value) :
    ¬ SoleStatement (compoundTokens x op tokens) node := by
  apply not_sole_unended (cons_ne_nil _ _)
    (statement_compoundTokens listed rfl (rest_started chief _))
  simpa [compoundTokens, worded] using expression.unended

theorem statement_assignmentTokens (plain : s.strict = false)
    (left : s.rest = assignmentTokens x op tail) :
    statement true s =
      (do
        let value ← orExpression
        finish true (some (.assign x value none))) (s.skip 2) := by
  have here := token?_of_rest (n := 0) left
  have next := token?_of_rest (n := 1) (congrArg (drop 1) left)
  have quiet := checkDialect_looks (worded .ident x) s.rest s plain rfl
  exact statement_assignment here rfl quiet next rfl rfl

theorem ends_operation (apart : Apart rest) (m : Nat) : Idle (isOpAt m) rest := by
  intro t head
  obtain ⟨ends, and, or⟩ := apart t head
  apply isOpAt_of_not_op _ or and
  intro isOp
  rw [isOp] at ends
  cases ends

theorem orExpression_grouped (tier : op.tier < 6) (expression : Expression tokens value)
    (apart : Apart tail) (plain : s.strict = false)
    (left : s.rest = worded .ident x :: worded .op op.symbol :: worded .lparen "(" ::
      (tokens ++ worded .rparen ")" :: tail)) :
    ∃ u, Clean orExpression s (.binary (.var x) op value) u ∧ u.rest = tail := by
  have here := token?_of_rest (n := 0) left
  have next := token?_of_rest (n := 1) (congrArg (drop 1) left)
  have opens : ((s.skip 1).skip 1).token? = some (worded .lparen "(") :=
    token?_of_rest (n := 2) (congrArg (drop 2) left)
  have inside : (((s.skip 1).skip 1).skip 1).rest = tokens ++ worded .rparen ")" :: tail := by
    rw [State.skip_skip, State.skip_skip, State.rest_skip, left]
    rfl
  have enough : tokens.length < s.remaining := by
    rw [State.remaining_eq, left]
    simp only [length_cons, length_append]
    omega
  have quiet := checkDialect_looks (worded .ident x) s.rest s plain rfl
  have first := factorAt_name here rfl quiet next rfl s.remaining
  have still : (((s.skip 1).skip 1).skip 1).strict = false := plain
  have closed : Apart (worded .rparen ")" :: tail) := apart_worded rfl (by decide)
  obtain ⟨u, ⟨read, clean⟩, after⟩ := orOver_among expression still inside closed enough
  have group : factorAt (s.remaining + 1) ((s.skip 1).skip 1) = .ok value (u.skip 1) := by
    rw [factorAt_group opens rfl, bind_apply read]
    exact demand_taken (token?_of_rest (n := 0) after) rfl
  have ended : (u.skip 1).rest = tail := by
    rw [State.rest_skip, after]
    rfl
  refine ⟨u.skip 1, ⟨?_, clean⟩, ended⟩
  exact orOver_operation tier first next ⟨rfl, rfl⟩ group (ended ▸ ends_operation apart)

theorem sole_assignmentTokens (tier : op.tier < 6) (expression : Expression tokens value) :
    SoleStatement
      (assignmentTokens x op (tokens ++ [worded .rparen ")", worded .semicolon ";"]))
      (.assign x (.binary (.var x) op value) none) := by
  apply sole_ended (fun value => .assign x value none) (w := worded .semicolon ";")
    (cons_ne_nil _ _) rfl rfl fun _ => statement_assignmentTokens
  intro s plain left
  have plain' : (s.skip 2).strict = false := plain
  apply orExpression_grouped tier expression (apart_worded rfl (by decide)) plain'
  rw [State.rest_skip, left]
  rfl

/-- Without the closing parenthesis and the semicolon there is a problem. -/
theorem not_sole_assignmentTokens (expression : Expression tokens value) :
    ¬ SoleStatement (assignmentTokens x op tokens) node := by
  apply not_sole_unended (cons_ne_nil _ _) (statement_assignmentTokens rfl (rest_started chief _))
  simpa [assignmentTokens, worded] using expression.unended

end Forms

/-! ## The two forms, as texts -/

/-- `x op= e;`. -/
def compoundText (x : String) (op : BinaryOp) (e : String) : String :=
  x ++ " " ++ op.symbol ++ "= " ++ e ++ ";"

/-- `x := x op (e);`. -/
def assignmentText (x : String) (op : BinaryOp) (e : String) : String :=
  x ++ " := " ++ x ++ " " ++ op.symbol ++ " (" ++ e ++ ");"

/-- The operators that the grammar joins with an assignment. -/
def compoundOperators : List BinaryOp :=
  joinedOps ++ [.mod]

section Texts

open Lexer

variable {x e : String} {op : BinaryOp} {tokens : List Token} {value node : Node}

theorem toList_compoundText : (compoundText x op e).toList =
    x.toList ++ ' ' :: ((op.symbol ++ "=").toList ++ ' ' :: (e.toList ++ [';'])) := by
  simp [compoundText]

theorem toList_assignmentText : (assignmentText x op e).toList =
    x.toList ++ ' ' :: (":=".toList ++ ' ' :: (x.toList ++ ' ' :: (op.symbol.toList ++
      ' ' :: '(' :: (e.toList ++ [')', ';'])))) := by
  simp [assignmentText]

theorem conveys_compound (isIdentifier : IsIdentifier x.toList) (listed : op ∈ joinedOps)
    (later : Conveys (e.toList ++ [';']) (tokens.map Token.content)) :
    Conveys (compoundText x op e).toList ((compoundTokens x op tokens).map Token.content) := by
  have joined : ∀ op ∈ joinedOps, op.symbol ++ "=" ∈ assignmentOperators := by decide
  have whole := Conveys.name isIdentifier (Conveys.op (joined op listed) later.space).space
  rw [toList_compoundText]
  rwa [String.ofList_toList] at whole

theorem conveys_assignment (isIdentifier : IsIdentifier x.toList) (listed : op ∈ compoundOperators)
    (later : Conveys (e.toList ++ [')', ';']) (tokens.map Token.content)) :
    Conveys (assignmentText x op e).toList ((assignmentTokens x op tokens).map Token.content) := by
  have alone : ∀ op ∈ compoundOperators, op.symbol ∈ assignmentOperators := by decide
  have group := later.mark (c := '(') rfl (by decide) rfl
  have right := Conveys.name isIdentifier (Conveys.op (alone op listed) group.space).space
  have assigns : Conveys (":=".toList ++ _) _ := .op (by decide) right.space
  have whole := Conveys.name isIdentifier assigns.space
  rw [toList_assignmentText]
  rwa [String.ofList_toList] at whole

theorem trails_semicolon : Trails ';' [] :=
  ⟨.inl rfl, show ¬ ['*', '/'] <:+: [] by decide⟩

theorem conveys_semicolon : Conveys [';'] ([worded .semicolon ";"].map Token.content) :=
  conveys_nil.mark rfl (by decide) rfl

theorem compound_readAs_iff (isIdentifier : IsIdentifier x.toList) (listed : op ∈ joinedOps)
    (read : Conveys e.toList (tokens.map Token.content)) (expression : Expression tokens value) :
    ReadAs (compoundText x op e) (.assign x (.binary (.var x) op value) none) ↔
      ¬ OpenEnded e.toList := by
  by_cases opened : OpenEnded e.toList
  · have later := read.swallowed opened trails_semicolon (by decide)
    rw [readAs_iff (conveys_compound isIdentifier listed later)]
    exact iff_of_false (not_sole_compoundTokens listed expression) (not_not_intro opened)
  · have later := read.followed opened trails_semicolon conveys_semicolon
    rw [← map_append] at later
    rw [readAs_iff (conveys_compound isIdentifier listed later)]
    exact iff_of_true (sole_compoundTokens listed expression) opened

theorem assignment_readAs_iff (isIdentifier : IsIdentifier x.toList)
    (listed : op ∈ compoundOperators) (read : Conveys e.toList (tokens.map Token.content))
    (expression : Expression tokens value) :
    ReadAs (assignmentText x op e) (.assign x (.binary (.var x) op value) none) ↔
      ¬ OpenEnded e.toList := by
  have tier : ∀ op ∈ compoundOperators, op.tier < 6 := by decide
  have follows : Trails ')' [';'] := ⟨.inr rfl, show ¬ ['*', '/'] <:+: [';'] by decide⟩
  by_cases opened : OpenEnded e.toList
  · have later := read.swallowed opened follows (by decide)
    rw [readAs_iff (conveys_assignment isIdentifier listed later)]
    exact iff_of_false (not_sole_assignmentTokens expression) (not_not_intro opened)
  · have closers : Conveys [')', ';']
        ([worded .rparen ")", worded .semicolon ";"].map Token.content) :=
      conveys_semicolon.mark rfl (by decide) rfl
    have later := read.followed opened follows closers
    rw [← map_append] at later
    rw [readAs_iff (conveys_assignment isIdentifier listed later)]
    exact iff_of_true (sole_assignmentTokens (tier op listed) expression) opened

/-- The remainder sign is read by itself, and two operators are no statement. -/
theorem not_readAs_remainder (isIdentifier : IsIdentifier x.toList)
    (read : Conveys e.toList (tokens.map Token.content)) : ¬ ReadAs (compoundText x .mod e) node := by
  obtain ⟨rest, later⟩ : ∃ rest : List Token,
      Conveys (e.toList ++ [';']) (rest.map Token.content) := by
    by_cases opened : OpenEnded e.toList
    · exact ⟨tokens, read.swallowed opened trails_semicolon (by decide)⟩
    · refine ⟨tokens ++ [worded .semicolon ";"], ?_⟩
      rw [map_append]
      exact read.followed opened trails_semicolon conveys_semicolon
  have equals : Conveys ("=".toList ++ _) _ := .op (by decide) later.space
  have percent := equals.token (cons_ne_nil '%' []) rfl rfl
  have whole := Conveys.name isIdentifier percent.space
  rw [String.ofList_toList] at whole
  have conveys : Conveys (compoundText x .mod e).toList
      ((worded .ident x :: worded .op "%" :: worded .op "=" :: rest).map Token.content) := by
    rw [toList_compoundText]
    exact whole
  rw [readAs_iff conveys]
  intro sole
  obtain ⟨first, u, clean⟩ := sole.clean (cons_ne_nil _ _)
  have left := rest_started chief (worded .ident x :: worded .op "%" :: worded .op "=" :: rest)
  have here := token?_of_rest (n := 0) left
  have next := token?_of_rest (n := 1) (congrArg (drop 1) left)
  exact objects_name here rfl rfl next rfl rfl rfl rfl first u clean

theorem not_readAs_marked (marked : ['_', '_', '_'] <+: source.toList) : ¬ ReadAs source node := by
  intro ⟨succeeds, sole⟩
  have conveys := conveys_iff.mpr ⟨succeeds, rfl⟩
  obtain ⟨rest, split⟩ := marked
  rw [← split] at conveys
  obtain ⟨later, -, same⟩ := conveys.uncons (cons_ne_nil _ _) rfl
  cases read : (lex source).tokens with
  | nil =>
    rw [read] at same
    cases same
  | cons t others =>
    rw [read] at same sole
    have kind : t.kind = .keyword .length := congrArg Prod.fst (List.cons.inj same).1
    obtain ⟨parsed, clean⟩ := sole chief rfl
    obtain ⟨u, loops, clean⟩ := read_program parsed clean
    have here := token?_of_rest (n := 0) (rest_started chief (t :: others))
    have begins := beginsStatement_of_read rfl here loops clean
    rw [kind] at begins
    cases begins

/-- The letters of a name that is no keyword. -/
structure IsName (chars : List Char) : Prop where
  start : chars.head?.any isNameStart = true
  inside : ∀ c ∈ chars, isNameChar c = true
  free : Token.keyword? (String.ofList chars) = none

/-- For every name and every expression text, `x op= e;` is the assignment of `x op (e)`, as `x := x
op (e);` is, for each operator but the remainder, with which it is no statement. The other text is
this assignment unless the name begins with the symbol for the length, or the expression ends with a
comment that takes in what comes after it; then neither of them is. -/
theorem compound_read (named : IsName x.toList) (listed : op ∈ compoundOperators)
    (succeeds : (lex e).fault = none) (expression : Expression (lex e).tokens value) :
    let node : Node := .assign x (.binary (.var x) op value) none
    (ReadAs (compoundText x op e) node ↔ op ≠ .mod ∧ ReadAs (assignmentText x op e) node) ∧
      (ReadAs (assignmentText x op e) node ↔
        ¬ ['_', '_', '_'] <+: x.toList ∧ ¬ OpenEnded e.toList) := by
  intro node
  have read := conveys_iff.mpr ⟨succeeds, rfl⟩
  by_cases marked : ['_', '_', '_'] <+: x.toList
  · have joined : ¬ ReadAs (compoundText x op e) node := by
      apply not_readAs_marked
      rw [toList_compoundText]
      exact marked.trans (prefix_append _ _)
    have apart : ¬ ReadAs (assignmentText x op e) node := by
      apply not_readAs_marked
      rw [toList_assignmentText]
      exact marked.trans (prefix_append _ _)
    exact ⟨iff_of_false joined fun h => apart h.2, iff_of_false apart fun h => h.1 marked⟩
  · have isIdentifier : IsIdentifier x.toList := ⟨named.start, named.inside, named.free, marked⟩
    have assigned := assignment_readAs_iff isIdentifier listed read expression
    refine ⟨?_, assigned.trans (and_iff_right marked).symm⟩
    rcases mem_append.mp listed with joined | remainder
    · have other : ∀ op ∈ joinedOps, op ≠ .mod := by decide
      rw [compound_readAs_iff isIdentifier joined read expression, ← assigned,
        and_iff_right (other op joined)]
    · obtain rfl := mem_singleton.mp remainder
      exact iff_of_false (not_readAs_remainder isIdentifier read) fun h => h.1 rfl

end Texts

/-- `x -= 2 - y;` subtracts the whole difference. -/
theorem compound_read_difference :
    compoundText "x" .sub "2 - y" = "x -= 2 - y;" ∧
      ReadAs (compoundText "x" .sub "2 - y") (.assign "x"
        (.binary (.var "x") .sub (.binary (.number (.int 2)) .sub (.var "y"))) none) := by
  have read : (lex "2 - y").fault = none ∧ (lex "2 - y").tokens =
      [⟨.number, .number (.int 2), 1, 1⟩, ⟨.op, .text "-", 1, 3⟩, ⟨.ident, .text "y", 1, 5⟩] := by
    decide +kernel
  have expression : Expression (lex "2 - y").tokens
      (.binary (.number (.int 2)) .sub (.var "y")) := by
    rw [read.2]
    exact ⟨_, ⟨rfl, rfl⟩, rfl⟩
  have named : IsName "x".toList := ⟨by decide, all_eq_true.mp (by decide), by decide⟩
  have listed : BinaryOp.sub ∈ compoundOperators := by decide
  obtain ⟨joined, apart⟩ := compound_read named listed read.1 expression
  have closed : ¬ Lexer.OpenEnded "2 - y".toList := Lexer.not_openEnded (by decide)
  exact ⟨by decide, joined.mpr ⟨by decide, apart.mpr ⟨by decide, closed⟩⟩⟩

/-- `x %= y;` is no statement, and `x := x % (y);` is one. -/
theorem remainder_not_joined :
    compoundText "x" .mod "y" = "x %= y;" ∧ (∀ node, ¬ ReadAs (compoundText "x" .mod "y") node) ∧
      ReadAs (assignmentText "x" .mod "y")
        (.assign "x" (.binary (.var "x") .mod (.var "y")) none) := by
  have read : (lex "y").fault = none ∧ (lex "y").tokens = [⟨.ident, .text "y", 1, 1⟩] := by
    decide +kernel
  have conveys := Lexer.conveys_iff.mpr ⟨read.1, rfl⟩
  rw [read.2] at conveys
  have isIdentifier : Lexer.IsIdentifier "x".toList :=
    ⟨by decide, all_eq_true.mp (by decide), by decide, by decide⟩
  have expression : Expression [⟨.ident, .text "y", 1, 1⟩] (.var "y") := ⟨_, ⟨rfl, rfl⟩, rfl⟩
  have closed : ¬ Lexer.OpenEnded "y".toList := Lexer.not_openEnded (by decide)
  refine ⟨by decide, fun node => not_readAs_remainder isIdentifier conveys, ?_⟩
  exact (assignment_readAs_iff isIdentifier (by decide) conveys expression).mpr closed

end Hetman.Parser
