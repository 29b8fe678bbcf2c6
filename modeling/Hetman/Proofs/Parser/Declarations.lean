import Hetman.Proofs.Parser.Concatenation

/-!
# Declarations and assignments

A declaration `Type x := e` takes any operator in the place of `:=` and leaves a semicolon where it
is; the assignment `x := e;` insists on both. What they have in common is the expression, so either
form can be told from its reading (`statement_declaration`, `statement_assignment`), and one form
from the other (`declaration_like_assignment`).
-/

namespace Hetman.Parser

variable {α β : Type}

variable {requireSemicolon : Bool} {op : Token} {kind : Kind}

/-- A parser goes from a state to another without a problem. -/
def Clean (p : Parser α) (s : State) (a : α) (t : State) : Prop :=
  p s = .ok a t ∧ t.problems = s.problems

theorem steady_orExpression : Steady orExpression :=
  (Pairing.agree_orExpression (P := .same)).moves

variable {f : Unit → Parser β}

/-- Without a problem since an earlier state, a token that is asked for is there. -/
theorem demand_kept {first s t : State} {b : β} (early : Moves first s)
    (result : (demand kind >>= f) s = .ok b t) (same : t.problems = first.problems)
    (steady : Steady (f ())) :
    (∃ w, s.token? = some w ∧ w.kind = kind) ∧ f () (s.skip 1) = .ok b t := by
  obtain ⟨_, u, asked, result⟩ := bind_eq_ok result
  obtain ⟨taken, v, took, stay⟩ := bind_eq_ok asked
  cases stay
  have late := steady.ok result
  rcases expect_eq_ok took with ⟨w, -, here, fits, rfl⟩ | ⟨-, moves, complained⟩
  · exact ⟨⟨w, here, fits⟩, result⟩
  · have clean := (early.clean (moves.trans late) (congrArg (List.filter _) same)).2
    exact absurd (moves.clean late clean).1 complained

theorem demand_taken {s : State} {w : Token} (here : s.token? = some w) (fits : w.kind = kind) :
    (demand kind >>= f) s = f () (s.skip 1) := by
  have asked : demand kind s = .ok () (s.skip 1) := bind_apply (expect_found here fits)
  exact bind_apply asked

theorem loop_stop {again : α → Parser Bool} {body : α → Parser α} {a : α} {s : State}
    (stops : again a s = .ok false s) : loop again body a s = .ok a s := by
  exact bind_apply stops

section Forms

variable {s : State} {word x : Token}

/-! ## Declarations -/

theorem statement_here (here : s.token? = some word) (starts : isSeparator word = false)
    (unchecked : isStatementKeyword word.kind = false) :
    statement requireSemicolon s =
      statementFrom (statementAt s.remaining) requireSemicolon word s := by
  have nothing : runOf isSeparator s.rest = 0 := by
    rw [State.rest_eq_cons here, runOf,
      List.takeWhile_cons_of_neg (by rw [starts]; exact Bool.false_ne_true)]
    rfl
  rw [statement_apply, nothing, State.skip_zero]
  unfold statementHere
  rw [bind_apply (peek_apply s), here]
  simp only [unchecked, Bool.false_eq_true, if_false]

theorem typeKind_cases (typed : isTypeKind kind = true) :
    ∃ k, kind = .keyword k ∧ isStatementKeyword (.keyword k) = false := by
  cases kind with
  | keyword k => cases k <;> first | exact ⟨_, rfl, rfl⟩ | cases typed
  | _ => cases typed

/-- A declaration asks for some operator after its name, and then for an expression. -/
theorem statement_declaration (here : s.token? = some word) (typed : isTypeKind word.kind = true)
    (quiet : checkDialect word s = .ok () s) (next : (s.skip 1).token? = some x)
    (named : x.kind = .ident) :
    statement requireSemicolon s =
      (do
        demand .op
        let value ← orExpression
        return Node.assign x.display value (some word.display)) (s.skip 2) := by
  obtain ⟨k, keyword, unchecked⟩ := typeKind_cases typed
  have starts : isSeparator word = false := by simp [isSeparator, keyword]
  rw [statement_here here starts (keyword ▸ unchecked), statementFrom, if_pos typed,
    typedDeclaration, bind_apply quiet, bind_apply (advance_apply s)]
  have name : expectName (s.skip 1) = .ok x.display (s.skip 2) :=
    bind_apply (expect_found next named)
  exact bind_apply name

/-! ## Assignments -/

/-- A name before an operator is a variable, at any depth of factors. -/
theorem factorAt_name (here : s.token? = some x) (named : x.kind = .ident)
    (quiet : checkDialect x s = .ok () s) (next : (s.skip 1).token? = some op)
    (isOp : op.kind = .op) (fuel : Nat) :
    factorAt (fuel + 1) s = .ok (.var x.display) (s.skip 1) := by
  have asks : ∀ kind, kind ≠ .op → nextHas kind (s.skip 1) = .ok false (s.skip 1) := by
    intro kind other
    have head : (s.skip 1).rest.head? = some op := by rw [← State.token?_eq, next]
    unfold nextHas
    rw [nextIs_apply, head, Option.any_some, isOp, decide_eq_false other.symm]
  have indices : ∀ inner node, indicesOver inner node (s.skip 1) = .ok node (s.skip 1) :=
    fun _ _ => loop_stop (asks .lbracket fun same => by cases same)
  have properties : ∀ inner node, propertiesOver inner node (s.skip 1) = .ok node (s.skip 1) :=
    fun _ _ => loop_stop (asks .dot fun same => by cases same)
  rw [factorAt, factorStep, bind_apply (peek_apply s), here]
  obtain ⟨kind, payload, line, column⟩ := x
  obtain rfl : kind = .ident := named
  show referenceOver (factorAt fuel) ⟨.ident, payload, line, column⟩ s = _
  unfold referenceOver
  rw [bind_apply quiet, bind_apply (advance_apply s),
    bind_apply (asks .lparen (fun same => by cases same))]
  exact (bind_apply (indices _ _)).trans (properties _ _)

theorem factor_name (here : s.token? = some x) (named : x.kind = .ident)
    (quiet : checkDialect x s = .ok () s) (next : (s.skip 1).token? = some op)
    (isOp : op.kind = .op) : factor s = .ok (.var x.display) (s.skip 1) := by
  exact factorAt_name here named quiet next isOp s.remaining

/-- With an operator after its name, a statement is an assignment, a compound one or a step;
otherwise it is a problem. -/
theorem statement_name (here : s.token? = some x) (named : x.kind = .ident)
    (quiet : checkDialect x s = .ok () s) (next : (s.skip 1).token? = some op)
    (isOp : op.kind = .op) :
    statement requireSemicolon s =
      ((if op.kind = .op && op.hasText ":=" then do
        let node ← assignment (.var x.display)
        return if isPresent node then some node else none
      else if isOpAmong compoundOps op then do
        advance
        let right ← orExpression
        let operator := BinaryOp.ofSymbol (String.ofList (op.display.toList.take 1))
        return some (.assign x.display (.binary (.var x.display) operator right) none)
      else if isOpAmong ["++", "--"] op then do
        advance
        return some (.step (.ofSymbol op.display) (.var x.display))
      else do
        complain (some x) .strayExpression
        return none) >>= finish requireSemicolon) (s.skip 1) := by
  have starts : isSeparator x = false := by simp [isSeparator, named]
  have target := factor_name here named quiet next isOp
  have untyped : ¬ isTypeKind x.kind = true := by
    rw [named]
    exact Bool.false_ne_true
  rw [statement_here here starts (by rw [named]; rfl), statementFrom, if_neg untyped]
  obtain ⟨kind, payload, line, column⟩ := x
  obtain rfl : kind = .ident := named
  show (referenceStatement ⟨.ident, payload, line, column⟩ >>= finish requireSemicolon) s = _
  unfold referenceStatement
  rw [bind_assoc, bind_apply target, bind_assoc, bind_apply (peek_apply _), next]
  rfl

/-- An assignment asks for an expression, and for a semicolon if that is required. -/
theorem statement_assignment (here : s.token? = some x) (named : x.kind = .ident)
    (quiet : checkDialect x s = .ok () s) (next : (s.skip 1).token? = some op)
    (isOp : op.kind = .op) (assigns : op.hasText ":=" = true) :
    statement requireSemicolon s =
      (do
        let value ← orExpression
        finish requireSemicolon (some (.assign x.display value none))) (s.skip 2) := by
  have took : expect .op (s.skip 1) = .ok (some op) (s.skip 2) := expect_found next isOp
  rw [statement_name here named quiet next isOp]
  simp only [isOp, assigns, decide_true, Bool.and_self, if_true]
  unfold assignment
  rw [bind_assoc, bind_assoc, bind_apply took]
  simp only [assigns, if_true, bind_assoc, pure_bind, assignTo, isPresent]

/-! ## One form and the other -/

theorem clean_declaration (requireSemicolon : Bool) (here : s.token? = some word)
    (typed : isTypeKind word.kind = true) (next : (s.skip 1).token? = some x)
    (named : x.kind = .ident) (quiet : checkDialect word s = .ok () s) (node : Node) (t : State) :
    Clean (statement requireSemicolon) s node t ↔
      ∃ op value, (s.skip 2).token? = some op ∧ op.kind = .op ∧
        Clean orExpression (s.skip 3) value t ∧
        node = .assign x.display value (some word.display) := by
  unfold Clean
  rw [statement_declaration here typed quiet next named]
  constructor
  · rintro ⟨result, same⟩
    have steady : Steady (do
        let value ← orExpression
        return Node.assign x.display value (some word.display)) :=
      steady_orExpression.bind fun _ => .pure _
    obtain ⟨⟨op, found, isOp⟩, result⟩ := demand_kept (.skip s 2) result same steady
    obtain ⟨value, u, read, stay⟩ := bind_eq_ok result
    cases stay
    exact ⟨op, value, found, isOp, ⟨read, same⟩, rfl⟩
  · rintro ⟨op, value, found, isOp, ⟨read, same⟩, rfl⟩
    refine ⟨?_, same⟩
    rw [demand_taken found isOp, State.skip_skip, bind_apply read]
    rfl

/-- What reads `:=` after a name. -/
def Assigns (s : State) : Prop :=
  ∃ op, s.token? = some op ∧ op.kind = .op ∧ op.hasText ":=" = true

/-- Where a statement ends: behind its expression, and the semicolon if one is required. -/
def EndsAt (requireSemicolon : Bool) (t u : State) : Prop :=
  if requireSemicolon then (∃ w, t.token? = some w ∧ w.kind = .semicolon) ∧ u = t.skip 1 else u = t

theorem clean_ended {build : Node → Node} {n : Nat}
    (form : statement requireSemicolon s =
      (do let value ← orExpression; finish requireSemicolon (some (build value))) (s.skip n))
    (node : Node) (u : State) :
    Clean (statement requireSemicolon) s node u ↔ ∃ value t, Clean orExpression (s.skip n) value t ∧
      EndsAt requireSemicolon t u ∧ node = build value := by
  unfold Clean EndsAt
  rw [form]
  cases requireSemicolon with
  | false =>
    constructor
    · intro ⟨result, same⟩
      obtain ⟨value, t, read, stay⟩ := bind_eq_ok result
      cases stay
      exact ⟨value, u, ⟨read, same⟩, rfl, rfl⟩
    · rintro ⟨value, t, ⟨read, same⟩, rfl, rfl⟩
      exact ⟨bind_apply read, same⟩
  | true =>
    constructor
    · intro ⟨result, same⟩
      obtain ⟨value, t, read, result⟩ := bind_eq_ok result
      have early := (Moves.skip s n).trans (steady_orExpression.ok read)
      obtain ⟨semicolon, stay⟩ := demand_kept early result same (.pure _)
      cases stay
      exact ⟨value, t, ⟨read, same⟩, ⟨semicolon, rfl⟩, rfl⟩
    · rintro ⟨value, t, ⟨read, same⟩, ⟨⟨w, semicolon, fits⟩, rfl⟩, rfl⟩
      refine ⟨?_, same⟩
      rw [bind_apply read]
      exact demand_taken semicolon fits

theorem clean_assignment (here : s.token? = some x) (named : x.kind = .ident)
    (quiet : checkDialect x s = .ok () s) (assigns : Assigns (s.skip 1)) (value : Node) (u : State) :
    Clean (statement requireSemicolon) s (.assign x.display value none) u ↔
      ∃ t, Clean orExpression (s.skip 2) value t ∧ EndsAt requireSemicolon t u := by
  obtain ⟨op, next, isOp, reads⟩ := assigns
  rw [clean_ended (statement_assignment here named quiet next isOp reads)]
  constructor
  · rintro ⟨_, t, read, ends, same⟩
    cases same
    exact ⟨t, read, ends⟩
  · exact fun ⟨t, read, ends⟩ => ⟨value, t, read, ends, rfl⟩

/-- A declaration is read without a problem whenever some operator and an expression come after the
name; it ends with the expression, whether a semicolon is required or not. It is the assignment if
the operator is `:=` and the required semicolon comes next: both have the name and the expression in
common, and the assignment also takes the semicolon. -/
theorem declaration_like_assignment (requireSemicolon : Bool) (here : s.token? = some word)
    (typed : isTypeKind word.kind = true) (next : (s.skip 1).token? = some x)
    (named : x.kind = .ident) (quiet : checkDialect word s = .ok () s)
    (quiet' : checkDialect x s = .ok () s) :
    (∀ node t, Clean (statement requireSemicolon) s node t ↔
      ∃ op value, (s.skip 2).token? = some op ∧ op.kind = .op ∧
        Clean orExpression (s.skip 3) value t ∧
        node = .assign x.display value (some word.display)) ∧
    ∀ value u,
      (Assigns (s.skip 2) ∧
          Clean (statement requireSemicolon) (s.skip 1) (.assign x.display value none) u) ↔
        ∃ t, Assigns (s.skip 2) ∧
          Clean (statement requireSemicolon) s (.assign x.display value (some word.display)) t ∧
          EndsAt requireSemicolon t u := by
  have declared := clean_declaration requireSemicolon here typed next named quiet
  refine ⟨declared, fun value u => ?_⟩
  obtain ⟨v, stays, skipped⟩ := checkDialect_skip x s 1
  cases stays.symm.trans quiet'
  constructor
  · rintro ⟨assigns, assigned⟩
    obtain ⟨t, read, ends⟩ := (clean_assignment next named skipped assigns value u).mp assigned
    have ⟨op, found, isOp, _⟩ := assigns
    exact ⟨t, assigns, (declared _ t).mpr ⟨op, value, found, isOp, read, rfl⟩, ends⟩
  · rintro ⟨t, assigns, read, ends⟩
    obtain ⟨op, value', found, isOp, read, same⟩ := (declared _ t).mp read
    cases same
    exact ⟨assigns, (clean_assignment next named skipped assigns value u).mpr ⟨t, read, ends⟩⟩

end Forms

/-- `Int x` and what comes after it. -/
def declared (rest : List Token) : State :=
  { tokens :=
      (⟨.keyword .intType, .text "Int", 1, 1⟩ :: ⟨.ident, .text "x", 1, 5⟩ :: rest).toArray }

/-- `Int x := y;` and the assignment in it. -/
theorem declaration_like_assignment_closed :
    let s := declared [⟨.op, .text ":=", 1, 7⟩, ⟨.ident, .text "y", 1, 10⟩,
      ⟨.semicolon, .text ";", 1, 11⟩]
    Clean (statement true) s (.assign "x" (.var "y") (some "Int")) (s.skip 4) ∧
      Clean (statement true) (s.skip 1) (.assign "x" (.var "y") none) (s.skip 5) := by
  intro s
  have forms := declaration_like_assignment (s := s) true rfl rfl rfl rfl rfl rfl
  have read : Clean (statement true) s (.assign "x" (.var "y") (some "Int")) (s.skip 4) :=
    (forms.1 _ _).mpr ⟨_, _, rfl, rfl, ⟨rfl, rfl⟩, rfl⟩
  exact ⟨read, ((forms.2 (.var "y") (s.skip 5)).mpr
    ⟨_, ⟨_, rfl, rfl, rfl⟩, read, ⟨_, rfl, rfl⟩, rfl⟩).2⟩

/-- `Int x + y` is a declaration, and `x + y` is no statement; `Int x := y` needs no semicolon, and
`x := y` does. -/
theorem declaration_unlike_assignment :
    (∃ node t, Clean (statement true)
        (declared [⟨.op, .text "+", 1, 7⟩, ⟨.ident, .text "y", 1, 9⟩]) node t) ∧
      (¬ ∃ node t, Clean (statement true)
        ((declared [⟨.op, .text "+", 1, 7⟩, ⟨.ident, .text "y", 1, 9⟩]).skip 1) node t) ∧
      (∃ node t, Clean (statement true)
        (declared [⟨.op, .text ":=", 1, 7⟩, ⟨.ident, .text "y", 1, 10⟩]) node t) ∧
      ¬ ∃ node t, Clean (statement true)
        ((declared [⟨.op, .text ":=", 1, 7⟩, ⟨.ident, .text "y", 1, 10⟩]).skip 1) node t := by
  have noted : ∀ {s : State} {node : Node} {t : State}, statement true s = .ok node t →
      t.problems.length ≠ s.problems.length → ¬ ∃ node t, Clean (statement true) s node t := by
    rintro s node t result more ⟨node', t', result', same⟩
    cases result.symm.trans result'
    exact more (congrArg List.length same)
  refine ⟨⟨_, _, rfl, rfl⟩, noted rfl ?_, ⟨_, _, rfl, rfl⟩, noted rfl ?_⟩
  · decide
  · decide

end Hetman.Parser
