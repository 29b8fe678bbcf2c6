import Hetman.Proofs.Parser.Expression

/-!
# Reading blocks

A declaration with a type leaves its semicolon to the statement after it. So a statement in a block
is read with the semicolon that may be `pending` in front of it, and without its own if it is a
declaration (`ownLexemes`). Only a semicolon follows a declaration, and nothing that would go on
with a condition or a guarded block follows any other statement (`After`).
-/

namespace Hetman.Parser

open List

variable {kind : Kind} {follow : List Token → Prop} {word : Keyword} {name : String}
  {goes : Token → Bool} {names : List String} {node : Node} {rest : List Token}

/-! ## Beginnings of statements -/

/-- The kinds of tokens with which a statement begins. -/
def startsStatement : Kind → Bool
  | .ident => true
  | .keyword k =>
    [.this, .super, .print, .ret, .throw, .exit, .importFile, .ifBranch, .whileLoop, .forLoop,
      .function, .classDef, .tryBlock, .intType, .textType, .boolType, .floatType].contains k
  | _ => false

def Starts (l : Lexeme) : Prop :=
  ∀ t, l.Accepts t → startsStatement t.kind = true

theorem starts_mark (h : startsStatement kind = true) : Starts (.mark kind) :=
  fun _ fits => fits.1 ▸ h

theorem starts_target (name : String) : Starts (.target name) := by
  rintro t (⟨kind, _⟩ | ⟨kind, _⟩) <;> rw [kind] <;> rfl

theorem startsStatement_of_isTypeKind (h : isTypeKind kind = true) :
    startsStatement kind = true := by
  unfold isTypeKind at h
  split at h
  all_goals first | rfl | cases h

theorem starts_typeWord (hint : String) : Starts (.typeWord hint) :=
  fun _ fits => startsStatement_of_isTypeKind fits.1

theorem asTarget_chain {e : Node} (expression : e.IsExpression) (chain : e.IsChain) :
    ∃ name ls, Lexeme.asTarget (e.lexemes 6) = .target name :: ls := by
  obtain ⟨r, _, written, _⟩ := chain_split expression chain
  rw [← written]
  exact ⟨r.name, _, rfl⟩

theorem statement_head (h : node.IsStatement) :
    ∃ l ls, node.statementLexemes = l :: ls ∧ Starts l := by
  have marked : ∀ {kind : Kind} {ls : List Lexeme}, startsStatement kind = true →
      node.statementLexemes = .mark kind :: ls →
      ∃ l ls, node.statementLexemes = l :: ls ∧ Starts l :=
    fun starts written => ⟨_, _, written, starts_mark starts⟩
  have chained : ∀ {e : Node} {ls : List Lexeme}, e.IsExpression → e.IsChain →
      node.statementLexemes = Lexeme.asTarget (e.lexemes 6) ++ ls →
      ∃ l ls, node.statementLexemes = l :: ls ∧ Starts l := by
    intro e ls expression chain written
    obtain ⟨name, more, begun⟩ := asTarget_chain expression chain
    rw [begun] at written
    exact ⟨_, _, written, starts_target name⟩
  cases h with
  | @assign name value hint _ _ =>
    cases hint with
    | none => exact ⟨_, _, by rw [Node.statementLexemes]; rfl, starts_target name⟩
    | some hint => exact ⟨_, _, by rw [Node.statementLexemes]; rfl, starts_typeWord hint⟩
  | assignProperty chain object name _ =>
    exact chained (.property chain object name) (.property _ _) (by rw [Node.statementLexemes])
  | assignIndex indexable container key _ =>
    exact chained (.lookup indexable container key) (.lookup _ _) (by rw [Node.statementLexemes])
  | increment name | decrement name =>
    exact chained (.var name) (.var _) (by rw [Node.statementLexemes])
  | call call =>
    exact chained call (.call _ _) (by rw [Node.statementLexemes, append_nil])
  | super _ => exact marked rfl (by rw [Node.statementLexemes, Node.lexemes])
  | print _ | ret _ | throw _ | exit | exitWith _ | importFile _ | ifElse _ _ _ _ _ _ _ _
  | whileLoop _ _ _ | forLoop _ _ _ _ _ _ _ | forEach _ _ _ _ | tryCatch _ _ _ _ _ _ _ =>
    exact marked rfl (by rw [Node.statementLexemes])
  | function _ _ _ _ _ => exact marked rfl (by rw [Node.statementLexemes, Node.routineLexemes])
  | classDecl _ _ _ _ _ => exact marked rfl (by rw [Node.statementLexemes, Node.classLexemes])

/-! ## Statements in a block -/

/-- The semicolon that a declaration has left. -/
def pendingLexemes (pending : Bool) : List Lexeme :=
  if pending then [.mark .semicolon] else []

/-- A statement as it is read: a declaration has no semicolon. -/
def ownLexemes (node : Node) : List Lexeme :=
  node.statementLexemes ++ pendingLexemes (node.isSimple && !node.isDeclaration)

/-- The keywords that go on with a condition or a guarded block. -/
def goesOn : Kind → Bool
  | .keyword .elseIf | .keyword .elseBranch | .keyword .catchBlock
  | .keyword .finallyBlock => true
  | _ => false

/-- Nothing goes on with a condition or a guarded block. -/
def Unclaimed (rest : List Token) : Prop :=
  ∀ t, rest.head? = some t → goesOn t.kind = false

/-- What comes after a statement as it is read. -/
def After (node : Node) (rest : List Token) : Prop :=
  if node.isDeclaration then Begins (.mark .semicolon) rest else Unclaimed rest

theorem Unclaimed.notNext (h : Unclaimed rest) (claims : goesOn kind = true) :
    NotNext kind rest := by
  rintro t head rfl
  rw [h t head] at claims
  cases claims

theorem unclaimed_of_begins {l : Lexeme} (h : ∀ t, l.Accepts t → goesOn t.kind = false)
    (begins : Begins l rest) : Unclaimed rest := by
  obtain ⟨t, tail, rfl, fits⟩ := begins
  intro next head
  cases head
  exact h t fits

theorem blockLexemes_cons (node : Node) (rest : List Node) :
    Node.blockLexemes (node :: rest) =
      ownLexemes node ++ (pendingLexemes node.isDeclaration ++ Node.blockLexemes rest) := by
  rw [Node.blockLexemes, ownLexemes]
  have simple : node.isDeclaration = true → node.isSimple = true := by
    cases node <;> simp [Node.isDeclaration, Node.isSimple]
  cases declaration : node.isDeclaration
  · cases node.isSimple <;> simp [pendingLexemes]
  · simp [simple declaration, pendingLexemes]

/-- Whether a semicolon is left after some statements. -/
def leftover (pending : Bool) : List Node → Bool
  | [] => pending
  | node :: rest => leftover node.isDeclaration rest

theorem leftover_of_endsPlainly {body : List Node} (h : Node.EndsPlainly body) :
    leftover false body = false := by
  suffices general : ∀ pending, (body = [] → pending = false) → leftover pending body = false from
    general false fun _ => rfl
  induction body with
  | nil => exact fun pending none => none rfl
  | cons node rest ih =>
    intro pending _
    refine ih (fun last found => h last ?_) _ ?_
    · cases rest with
      | nil => cases found
      | cons next rest => rwa [getLast?_cons_cons]
    · rintro rfl
      exact h node rfl

/-- A statement that is read, given the parser for statements. -/
structure IsRead (statement : Parser Node) (node : Node) : Prop where
  isStatement : node.IsStatement
  reads : ∀ pending, Reads statement (pendingLexemes pending ++ ownLexemes node) node (After node)

theorem isPresent_of_isStatement (h : node.IsStatement) : isPresent node = true := by
  cases h <;> rfl

/-- The first token of a statement, or of the semicolon before it. -/
theorem statement_next (h : node.IsStatement) {pending : Bool} {ls : List Lexeme}
    {ts : List Token} (spelled : Spells (pendingLexemes pending ++ ownLexemes node ++ ls) ts) :
    ∃ t tail, ts = t :: tail ∧ (startsStatement t.kind = true ∨ t.kind = .semicolon) := by
  obtain ⟨l, more, written, starts⟩ := statement_head h
  rw [ownLexemes, written] at spelled
  cases pending with
  | false =>
    obtain ⟨t, tail, eq, fits, _⟩ := Spells.cons_split spelled
    exact ⟨t, tail, eq, .inl (starts t fits)⟩
  | true =>
    obtain ⟨t, tail, eq, fits, _⟩ := Spells.cons_split spelled
    exact ⟨t, tail, eq, .inr fits.1⟩

theorem goesOn_of_next (h : startsStatement kind = true ∨ kind = .semicolon) :
    goesOn kind = false := by
  rcases h with h | rfl
  · unfold goesOn
    split
    case h_5 => rfl
    all_goals cases h
  · rfl

theorem after_statement {rest : List Node}
    (ends : ∀ tokens, follow tokens → Unclaimed tokens) (each : ∀ next ∈ rest, next.IsStatement)
    (ts tokens : List Token)
    (spelled : Spells (pendingLexemes node.isDeclaration ++ Node.blockLexemes rest) ts)
    (after : follow tokens) : After node (ts ++ tokens) := by
  unfold After
  cases declaration : node.isDeclaration with
  | true =>
    rw [declaration] at spelled
    exact Spells.begins spelled tokens
  | false =>
    rw [declaration] at spelled
    cases rest with
    | nil =>
      cases spelled.nil_eq
      exact ends tokens after
    | cons next rest =>
      rw [blockLexemes_cons, ← append_assoc] at spelled
      obtain ⟨t, tail, rfl, starts⟩ := statement_next (each next (by simp)) spelled
      intro first head
      cases head
      exact goesOn_of_next starts

/-- Statements one after the other. A semicolon left at the end takes a round of its own, and adds
no statement. -/
theorem statements_reads {statement : Parser Node}
    (more : ∀ t, startsStatement t.kind = true ∨ t.kind = .semicolon → goes t = true)
    (stops : ∀ rest, follow rest → Looks (nextIs goes) false rest)
    (ends : ∀ rest, follow rest → Unclaimed rest) (nodes : List Node)
    (each : ∀ node ∈ nodes, IsRead statement node) (pending : Bool)
    (last : leftover pending nodes = true → Reads statement [.mark .semicolon] .missing follow) :
    ∀ (acc : List Node) (fuel : Nat),
      (pendingLexemes pending ++ Node.blockLexemes nodes).length < fuel →
      Reads
        (repeatWhile (fun _ => nextIs goes)
          (fun body => do
            let node ← statement
            return if isPresent node then body ++ [node] else body)
          fuel acc)
        (pendingLexemes pending ++ Node.blockLexemes nodes) (acc ++ nodes) follow := by
  induction nodes generalizing pending with
  | nil =>
    intro acc fuel enough
    obtain ⟨fuel, rfl⟩ : ∃ n, fuel = n + 1 := ⟨fuel - 1, by omega⟩
    rw [append_nil]
    cases pending with
    | false => exact .lookPast stops (Reads.pure acc follow)
    | true =>
      refine .lookAt (a := true) (fun rest begins => ?_) ?_
      · exact nextIs_true (l := .mark .semicolon)
          (fun t fits => more t (.inr fits.1)) begins
      · have taken := (last rfl).give fun node => if isPresent node then acc ++ [node] else acc
        refine taken.atEnd ?_ fun _ after => after
        obtain ⟨fuel, rfl⟩ : ∃ n, fuel = n + 1 :=
          ⟨fuel - 1, by simp [pendingLexemes] at enough; omega⟩
        exact .lookPast stops (Reads.pure acc follow)
  | cons node rest ih =>
    intro acc fuel enough
    obtain ⟨fuel, rfl⟩ : ∃ n, fuel = n + 1 := ⟨fuel - 1, by omega⟩
    have own := each node (by simp)
    have others : ∀ next ∈ rest, IsRead statement next :=
      fun next member => each next (mem_cons_of_mem _ member)
    rw [blockLexemes_cons, ← append_assoc] at enough ⊢
    refine .look (a := true) (fun ts tokens spelled _ => ?_) ?_
    · obtain ⟨t, tail, rfl, starts⟩ := statement_next own.isStatement spelled
      exact more t starts ▸ nextIs_looks goes (t :: tail ++ tokens)
    · have taken := (own.reads pending).give fun node =>
        if isPresent node then acc ++ [node] else acc
      rw [isPresent_of_isStatement own.isStatement] at taken
      have remaining := ih others node.isDeclaration last (acc ++ [node]) fuel (by
        obtain ⟨l, more, written, _⟩ := statement_head own.isStatement
        rw [ownLexemes, written] at enough
        simp only [length_append, length_cons] at enough ⊢
        omega)
      rw [append_assoc] at remaining
      refine taken.bind remaining ?_
      exact after_statement ends fun next member => (others next member).isStatement

theorem statementLoop_reads {statement : Parser Node} {nodes : List Node}
    (more : ∀ t, startsStatement t.kind = true ∨ t.kind = .semicolon → goes t = true)
    (stops : ∀ rest, follow rest → Looks (nextIs goes) false rest)
    (ends : ∀ rest, follow rest → Unclaimed rest) (each : ∀ node ∈ nodes, IsRead statement node)
    (last : leftover false nodes = true → Reads statement [.mark .semicolon] .missing follow) :
    Reads
      (loop (fun _ => nextIs goes)
        (fun body => do
          let node ← statement
          return if isPresent node then body ++ [node] else body)
        [])
      (Node.blockLexemes nodes) nodes follow := by
  refine .get fun s _ room => ?_
  exact statements_reads more stops ends nodes each false last [] (s.remaining + 1)
    (Nat.lt_succ_of_le room)

section Compound

variable {statement : Parser Node} {condition : Node} {body : List Node}

/-- A block whose statements are read. -/
structure IsBlock (statement : Parser Node) (body : List Node) : Prop where
  each : ∀ node ∈ body, IsRead statement node
  plain : Node.EndsPlainly body

theorem braced_reads (block : IsBlock statement body) :
    Reads (bracedOver statement) (Lexeme.inBraces (Node.blockLexemes body)) body Anything := by
  refine .mark ?_
  refine .until (statementLoop_reads ?_ ?_ ?_ block.each ?_)
    (.mark (.pure _ _))
  · rintro t (starts | kind)
    · refine decide_eq_true fun kind => ?_
      rw [kind] at starts
      cases starts
    · rw [kind]
      rfl
  · intro rest begins
    obtain ⟨t, tail, rfl, fits⟩ := begins
    refine nextIs_false fun next head => ?_
    cases head
    simp [fits.1]
  · exact fun rest begins => unclaimed_of_begins (fun t fits => by rw [fits.1]; rfl) begins
  · intro left
    rw [leftover_of_endsPlainly block.plain] at left
    cases left

theorem branch_reads (isCondition : condition.IsExpression) (block : IsBlock statement body) :
    Reads (branchOver statement)
      (Lexeme.inParens (condition.lexemes 0) ++ Lexeme.inBraces (Node.blockLexemes body))
      (condition, body) Anything := by
  rw [Lexeme.inParens, cons_append, append_assoc]
  refine .mark ?_
  refine (orExpression_reads isCondition).upTo rfl ?_
  refine .mark ?_
  exact (braced_reads block).give fun body => (condition, body)

/-- Clauses with the same keyword. -/
theorem clauses_reads {α : Type} {clause : List α → Parser (List α)} {item : α → List Lexeme}
    (items : List α)
    (each : ∀ acc, ∀ x ∈ items,
      Reads (clause acc) (.mark (.keyword word) :: item x) (acc ++ [x]) Anything) :
    Reads (loop (fun _ => nextHas (.keyword word)) clause [])
      (items.flatMap fun x => .mark (.keyword word) :: item x) items
      (NotNext (.keyword word)) := by
  exact .loop id rfl rfl (fun _ => leads_all (fun _ => nextHas_mark) items)
    (fun _ _ => nextHas_false) each (leads_all (fun _ _ => trivial) items) (fun _ _ => trivial)

theorem last_reads {last : Option (List Node)} {β : Type} (claims : goesOn (.keyword word) = true)
    (block : ∀ body ∈ last, IsBlock statement body) (g : Option (List Node) → β) :
    Reads
      (do
        let last ← if ← nextHas (.keyword word) then do
            advance
            pure (some (← bracedOver statement))
          else pure none
        return g last)
      (Node.lastLexemes word last) (g last) Unclaimed := by
  cases last with
  | none =>
    refine .lookPast (a := false) (fun rest after => ?_) (Reads.pure (g none) _)
    exact nextHas_false (after.notNext claims)
  | some body =>
    refine .lookAt (a := true) (fun rest begins => nextHas_mark begins) ?_
    refine .advance ?_
    refine .weaken ?_ fun _ _ => trivial
    exact (braced_reads (block body rfl)).give fun body => g (some body)

/-- The last part does not begin like the clauses before it. -/
theorem last_meets {other : Keyword} (differs : word ≠ other)
    (claims : goesOn (.keyword other) = true) (last : Option (List Node)) (ts rest : List Token)
    (spelled : Spells (Node.lastLexemes word last) ts) (after : Unclaimed rest) :
    NotNext (.keyword other) (ts ++ rest) := by
  cases last with
  | none =>
    cases spelled.nil_eq
    exact after.notNext claims
  | some body =>
    exact notNext_mark (by simpa using differs) (spelled.begins rest)

/-! ## Compound statements -/

/-- A further branch of a condition. -/
def branchLexemes (branch : Node × List Node) : List Lexeme :=
  Lexeme.inParens (branch.1.lexemes 0) ++ Lexeme.inBraces (Node.blockLexemes branch.2)

theorem elseIfLexemes_eq (branches : List (Node × List Node)) :
    Node.elseIfLexemes branches =
      branches.flatMap fun branch => .mark (.keyword .elseIf) :: branchLexemes branch := by
  induction branches with
  | nil => rw [Node.elseIfLexemes, flatMap_nil]
  | cons branch branches ih =>
    rw [Node.elseIfLexemes, ih, flatMap_cons, branchLexemes]
    simp

theorem if_reads {elseIfs : List (Node × List Node)} {otherwise : Option (List Node)}
    (isCondition : condition.IsExpression) (block : IsBlock statement body)
    (conditions : ∀ b ∈ elseIfs, b.1.IsExpression) (blocks : ∀ b ∈ elseIfs, IsBlock statement b.2)
    (lastBlock : ∀ b ∈ otherwise, IsBlock statement b) :
    Reads (ifOver statement) (Node.ifElse condition body elseIfs otherwise).statementLexemes
      (.ifElse condition body elseIfs otherwise) Unclaimed := by
  rw [Node.statementLexemes, elseIfLexemes_eq, ← append_assoc]
  refine .mark ?_
  refine (branch_reads isCondition block).andThen ?_
  refine (clauses_reads elseIfs fun acc branch member => ?_).bind
    (last_reads rfl lastBlock (Node.ifElse condition body elseIfs))
    (last_meets (by decide) rfl otherwise)
  refine .advance ?_
  exact (branch_reads (conditions branch member) (blocks branch member)).give
    fun branch => acc ++ [branch]

theorem while_reads (isCondition : condition.IsExpression) (block : IsBlock statement body) :
    Reads (whileOver statement) (Node.whileLoop condition body).statementLexemes
      (.whileLoop condition body) Anything := by
  refine .mark ?_
  exact (branch_reads isCondition block).give fun branch => Node.whileLoop branch.1 branch.2

theorem for_reads {step : Parser Node} {value advance : Node} (isName : IsName name)
    (isValue : value.IsExpression) (isCondition : condition.IsExpression)
    (steps : Reads step advance.statementLexemes advance (Begins (.mark .rparen)))
    (block : IsBlock statement body) :
    Reads (forOver statement step)
      (Node.forLoop (.assign name value none) condition advance body).statementLexemes
      (.forLoop (.assign name value none) condition advance body) Anything := by
  refine .mark ?_
  refine .mark ?_
  refine .name ?_
  rw [if_neg (by simpa using isName.1)]
  refine .expect (fun t fits => fits.1) fun t fits => ?_
  simp only [Option.map_some, Option.getD_some, Token.hasText_eq fits.2, beq_self_eq_true,
    if_true]
  refine (orExpression_reads isValue).upTo rfl ?_
  refine .mark ?_
  refine (orExpression_reads isCondition).upTo rfl ?_
  refine .mark ?_
  refine steps.until ?_
  refine .mark ?_
  exact (braced_reads block).give
    fun body => Node.forLoop (.assign name value none) condition advance body

theorem forEach_reads {items : Node} (isItems : items.IsExpression) (block : IsBlock statement body) :
    Reads (forEachOver statement) (Node.forEach name items body).statementLexemes
      (.forEach name items body) Anything := by
  refine .mark ?_
  refine .name ?_
  refine .mark ?_
  refine (orExpression_reads isItems).bind ((braced_reads block).give (Node.forEach name items)) ?_
  exact fun ts rest spelled _ => stops_mark rfl 0 (spelled.begins rest)

theorem nextKind_is {other : Kind} (begins : Begins (.mark other) rest) :
    Looks (do return decide ((← nextKind) = kind)) (decide (other = kind)) rest := by
  intro s strict left
  rw [bind_apply (nextKind_mark begins s strict left)]
  rfl

theorem moreNames_reads {again : Parser Bool}
    (more : ∀ rest, Begins (.mark .comma) rest → Looks again true rest)
    (stops : ∀ rest, follow rest → Looks again false rest) :
    Reads
      (loop (fun _ => again)
        (fun acc => do
          advance
          let name ← expectName
          return acc ++ [name])
        [name])
      (names.flatMap fun name => [.mark .comma, .name name]) (name :: names) follow := by
  exact .commas id [name] rfl (congrArg (name :: ·) (map_id names)) (fun _ => more)
    (fun _ => stops) (fun done name _ => .advance (.name (.pure _ Anything)))
    (fun _ _ => trivial) (fun _ _ => trivial)

theorem parameters_reads (names : List String) :
    Reads parameters (Lexeme.inParens (Node.nameLexemes names)) names Anything := by
  refine .mark ?_
  cases names with
  | nil =>
    refine .lookAt (a := .rparen) (fun rest begins => nextKind_mark begins) ?_
    exact .mark (.pure _ _)
  | cons name names =>
    refine .lookAt (a := .ident) (fun rest begins => ?_) ?_
    · obtain ⟨t, tail, rfl, fits⟩ := begins
      exact fits.1 ▸ nextKind_looks t tail
    · rw [if_neg (by simp)]
      refine .name ?_
      refine .until (moreNames_reads ?_ ?_) (.mark (.pure _ _))
      · exact fun rest begins => nextKind_is begins
      · exact fun rest begins => nextKind_is begins

theorem nameList_reads (nonempty : names ≠ []) :
    Reads nameList (Node.nameLexemes names) names (NotNext .comma) := by
  obtain ⟨name, names, rfl⟩ := exists_cons_of_ne_nil nonempty
  refine .name ?_
  exact moreNames_reads (fun rest begins => nextHas_mark begins)
    (fun rest after => nextHas_false after)

theorem routine_reads {routine : Routine Node} (plain : routine.IsPlain)
    (block : IsBlock statement routine.body) :
    Reads (routineOver statement routine.access) (Node.routineLexemes routine) routine
      Anything := by
  obtain ⟨name, parameters, body, parameterTypes, returnType, access⟩ := routine
  cases plain.parameterTypes
  cases plain.returnType
  refine .mark ?_
  refine .name ?_
  refine (parameters_reads parameters).andThen ?_
  exact (braced_reads block).give fun body => Routine.mk name parameters body [] none access

/-- A handler of a guarded block. -/
def handlerLexemes (handler : Option String × List Node) : List Lexeme :=
  Lexeme.inParens (Node.nameLexemes handler.1.toList) ++
    Lexeme.inBraces (Node.blockLexemes handler.2)

theorem catchLexemes_eq (handlers : List (Option String × List Node)) :
    Node.catchLexemes handlers =
      handlers.flatMap fun handler => .mark (.keyword .catchBlock) :: handlerLexemes handler := by
  induction handlers with
  | nil => rw [Node.catchLexemes, flatMap_nil]
  | cons handler handlers ih =>
    rw [Node.catchLexemes, ih, flatMap_cons, handlerLexemes]
    simp

theorem try_reads {handlers : List (Option String × List Node)} {final : Option (List Node)}
    (block : IsBlock statement body) (blocks : ∀ h ∈ handlers, IsBlock statement h.2)
    (lastBlock : ∀ b ∈ final, IsBlock statement b) :
    Reads (tryOver statement) (Node.tryCatch body handlers final).statementLexemes
      (.tryCatch body handlers final) Unclaimed := by
  rw [Node.statementLexemes, catchLexemes_eq]
  refine .mark ?_
  refine (braced_reads block).andThen ?_
  refine (clauses_reads handlers fun acc handler member => ?_).bind
    (last_reads rfl lastBlock (Node.tryCatch body handlers))
    (last_meets (by decide) rfl final)
  obtain ⟨name, handlerBody⟩ := handler
  have handled := (braced_reads (blocks _ member)).give fun body => acc ++ [(name, body)]
  refine .advance ?_
  refine .mark ?_
  cases name with
  | none =>
    refine .lookAt (a := false) (fun rest begins => ?_) (.mark handled)
    exact nextHas_false (notNext_mark (by simp) begins)
  | some name =>
    refine .lookAt (a := true) (fun rest begins => ?_) ?_
    · exact nextIs_true (l := .name name) (fun t fits => decide_eq_true fits.1) begins
    · exact .name (.mark handled)

end Compound

end Hetman.Parser
