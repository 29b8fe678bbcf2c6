import Hetman.Proofs.Parser.Class

/-!
# Reading statements

Statements are read with as much fuel as they have tokens (`statement_reads`): `statementStep_reads`
is one step for a statement in a block, `statementStep_advances` for the statement that moves a
counting loop on, which has no semicolon.
-/

namespace Hetman.Parser

open List

variable {ls : List Lexeme} {node value e : Node} {t : Token} {l : Lexeme} {name : String}
  {rest ts : List Token} {arguments : Option (List Node)} {body : List Node} {n : Nat}
  {follow : List Token → Prop}

/-! ## Statements that begin with a name -/

theorem spells_of_asTarget (h : Spells (Lexeme.asTarget ls) ts) : Spells ls ts := by
  unfold Lexeme.asTarget at h
  split at h
  · obtain ⟨t, rest, rfl, fits, spelled⟩ := h.cons_split
    refine List.Forall₂.cons ?_ spelled
    rcases fits with ⟨kind, payload⟩ | this
    · exact .inl ⟨.inl kind, payload⟩
    · exact .inr this
  · exact h

theorem target_reads (expression : e.IsExpression) :
    Reads Parser.factor (Lexeme.asTarget (e.lexemes 6)) e (Stops 6) :=
  fun s ts rest strict left spelled after =>
    wholeFactor_reads expression s ts rest strict left (spells_of_asTarget spelled) after

theorem assignment_reads (target : Node) (read : Reads orExpression ls value (Stops 0)) :
    Reads (assignment target) (.op ":=" :: ls) (assignTo target value) (Stops 0) := by
  refine .expect (fun t fits => fits.1) fun t fits => ?_
  simp only [Token.hasText_eq fits.2]
  exact read.give (assignTo target)

theorem stops_factor {symbol : String} (begins : Begins (.op symbol) rest) : Stops 6 rest := by
  refine stops_op (fun m le => ?_) begins
  match m, le with
  | m + 6, _ => rfl

theorem assigns_reads {target : Node} (isTarget : target.IsExpression)
    (read : Reads orExpression ls value (Stops 0))
    (present : isPresent (assignTo target value) = true) :
    Reads (referenceStatement t) (Lexeme.asTarget (target.lexemes 6) ++ .op ":=" :: ls)
      (some (assignTo target value)) (Stops 0) := by
  refine (target_reads isTarget).before ?_ fun rest begins => stops_factor begins
  refine .peek fun op fits => ?_
  simp only [fits.1, Token.hasText_eq fits.2, decide_true, beq_self_eq_true, Bool.and_self,
    if_true]
  have assigned := (assignment_reads target read).give
    fun node => if isPresent node then some node else none
  rw [if_pos present] at assigned
  exact assigned

theorem steps_reads {op : StepOp} (isName : IsName name) (h : op = .increment ∨ op = .decrement) :
    Reads (referenceStatement t)
      (Lexeme.asTarget ((Node.var name).lexemes 6) ++ [.op op.symbol])
      (some (.step op (.var name))) Anything := by
  refine (target_reads (.var isName)).before ?_ fun rest begins => stops_factor begins
  refine .peek fun token fits => ?_
  have written : StepOp.ofSymbol op.symbol = op := by rcases h with rfl | rfl <;> rfl
  have assigns : (op.symbol == ":=") = false := by rcases h with rfl | rfl <;> rfl
  have combines : compoundOps.contains op.symbol = false := by rcases h with rfl | rfl <;> rfl
  have moves : ["++", "--"].contains op.symbol = true := by rcases h with rfl | rfl <;> rfl
  simp only [fits.1, Token.hasText_eq fits.2, isOpAmong_op fits, assigns, combines,
    moves, Token.display, fits.2, Token.Payload.display, written]
  exact .advance (.pure _ _)

/-- What ends a simple statement. -/
def Closed (rest : List Token) : Prop :=
  Begins (.mark .semicolon) rest ∨ Begins (.mark .rparen) rest

theorem Closed.stops (h : Closed rest) (n : Nat) : Stops n rest := by
  rcases h with begins | begins
  · exact stops_mark rfl n begins
  · exact stops_mark rfl n begins

theorem Closed.peek (h : Closed rest) :
    ∃ next, (∃ t, next = some t ∧ t.kind ≠ .op) ∧ Looks Parser.peek next rest := by
  rcases h with ⟨t, tail, rfl, fits⟩ | ⟨t, tail, rfl, fits⟩
  all_goals exact ⟨some t, ⟨t, rfl, by simp [fits.1]⟩, peek_looks t tail⟩

theorem calls_reads (isCall : (Node.call name arguments).IsExpression) :
    Reads (referenceStatement t) (Lexeme.asTarget ((Node.call name arguments).lexemes 6))
      (some (.call name arguments)) Closed := by
  refine (target_reads isCall).atEnd ?_ fun rest closed => closed.stops 6
  refine .lookSome (fun next => ∃ t, next = some t ∧ t.kind ≠ .op) ?_ ?_
  · intro ts rest spelled closed
    cases spelled.nil_eq
    exact closed.peek
  · rintro _ ⟨op, rfl, kind⟩
    simp only [isOpAmong, kind]
    exact .pure _ _

theorem supers_reads {method : String} (isSuper : (Node.super method arguments).IsExpression) :
    Reads (superStatement t) ((Node.super method arguments).lexemes 6)
      (some (.super method arguments)) Closed := by
  refine .checked ?_
  refine (wholeFactor_reads isSuper).atEnd (Reads.pure _ _) fun rest closed => closed.stops 6

theorem print_reads {es : List Node} (each : ∀ e ∈ es, e.IsExpression) :
    Reads printStatement (Node.print es).statementLexemes (.print es) Anything := by
  refine .mark ?_
  refine .mark ?_
  exact (printed_reads each).until (.mark (.pure _ _))

/-! ## Statements that begin with a keyword -/

theorem parenthesized_reads (word : Keyword) (g : Node → Node) (expression : e.IsExpression) :
    Reads
      (do
        demand (.keyword word)
        demand .lparen
        let inner ← orExpression
        demand .rparen
        demand .semicolon
        return g inner)
      (.mark (.keyword word) :: (Lexeme.inParens (e.lexemes 0) ++ [.mark .semicolon])) (g e)
      Anything := by
  rw [Lexeme.inParens, cons_append, append_assoc]
  refine .mark ?_
  refine .mark ?_
  refine (orExpression_reads expression).upTo rfl ?_
  refine .mark ?_
  exact .mark (.pure _ _)

theorem return_reads (isValue : value.IsExpression) :
    Reads returnStatement ((Node.ret value).statementLexemes ++ [.mark .semicolon]) (.ret value)
      Anything := by
  refine .mark ?_
  refine (orExpression_reads isValue).upTo rfl ?_
  exact .mark (.pure _ _)

theorem exit_reads :
    Reads exitStatement ((Node.exit .missing).statementLexemes ++ [.mark .semicolon])
      (.exit .missing) Anything := by
  refine .mark ?_
  refine .lookAt (a := false) (fun rest begins => ?_) ?_
  · exact nextHas_false (notNext_mark (by simp) begins)
  · exact .mark (.pure _ _)

theorem exitWith_reads {code : Node} (isCode : code.IsExpression) :
    Reads exitStatement ((Node.exit code).statementLexemes ++ [.mark .semicolon]) (.exit code)
      Anything := by
  have written : Node.codeLexemes code = Lexeme.inParens (code.lexemes 0) := by
    cases isCode <;> rfl
  rw [Node.statementLexemes, written, Lexeme.inParens, cons_append, cons_append, append_assoc]
  refine .mark ?_
  refine .lookAt (a := true) (fun rest begins => nextHas_mark begins) ?_
  refine .mark ?_
  refine (orExpression_reads isCode).upTo rfl ?_
  refine .mark ?_
  exact .mark (.pure _ _)

section Inner

variable {statement : Bool → Parser Node}

theorem announced_reads {kind : Kind} {b : Bool} {ls' ls'' : List Lexeme}
    (written : node.statementLexemes = l :: ls) (fits : l.Accepts t)
    (begun : node.statementLexemes = .mark kind :: ls')
    (read : ∀ t : Token, Reads (statementFrom statement b { t with kind }) ls'' node follow) :
    Reads (statementFrom statement b t) ls'' node follow := by
  cases written.symm.trans begun
  cases fits.1
  exact read t

/-! ## Statements with an optional semicolon -/

/-- What follows a simple statement, with its semicolon if required. -/
def Ends (closed : Bool) (rest : List Token) : Prop :=
  closed = false → Begins (.mark .rparen) rest

theorem finish_reads {α : Type} {p : Parser α} {g : α → Option Node} {x : α}
    (read : Reads p ls x Closed) (given : g x = some node) (b : Bool) :
    Reads (p >>= fun x => finish b (g x)) (ls ++ pendingLexemes b) node (Ends b) := by
  cases b with
  | false =>
    rw [pendingLexemes, if_neg Bool.false_ne_true, append_nil]
    refine read.atEnd ?_ fun rest ends => .inr (ends rfl)
    simp only [given]
    exact .pure node _
  | true =>
    refine .weaken (read.before ?_ fun rest begins => .inl begins) fun _ _ => trivial
    simp only [given]
    exact .mark (.pure _ _)

theorem referenced_reads (b : Bool)
    (read : ∀ t, Reads (referenceStatement t) ls (some node) Closed)
    (fits : (Lexeme.target name).Accepts t) :
    Reads (statementFrom statement b t) (ls ++ pendingLexemes b) node (Ends b) := by
  have finished : Reads (do finish b (← referenceStatement t))
      (ls ++ pendingLexemes b) node (Ends b) := finish_reads (read t) rfl b
  unfold statementFrom
  rcases fits with ⟨kind, _⟩ | ⟨kind, _⟩
  all_goals
    simp only [kind]
    exact finished

theorem advances_reads (b : Bool) (isStatement : node.IsStatement)
    (advance : node.IsAdvance) (written : node.statementLexemes = l :: ls) (fits : l.Accepts t) :
    Reads (statementFrom statement b t) (node.statementLexemes ++ pendingLexemes b) node
      (Ends b) := by
  have targeted : ∀ {e : Node} {more : List Lexeme}, e.IsExpression → e.IsChain →
      node.statementLexemes = Lexeme.asTarget (e.lexemes 6) ++ more →
      (∀ t, Reads (referenceStatement t) node.statementLexemes (some node) Closed) →
      Reads (statementFrom statement b t) (node.statementLexemes ++ pendingLexemes b) node
        (Ends b) := by
    intro e more expression chain begun read
    obtain ⟨name, after, target⟩ := asTarget_chain expression chain
    rw [target] at begun
    cases written.symm.trans begun
    exact referenced_reads b read fits
  have assigned : ∀ {target value : Node}, target.IsExpression → target.IsChain →
      value.IsExpression → assignTo target value = node → node.statementLexemes =
        Lexeme.asTarget (target.lexemes 6) ++ .op ":=" :: value.lexemes 0 →
      Reads (statementFrom statement b t) (node.statementLexemes ++ pendingLexemes b) node
        (Ends b) := by
    intro target value isTarget chain isValue result begun
    refine targeted isTarget chain begun fun t => ?_
    have present := isPresent_of_isStatement isStatement
    rw [← result] at present
    rw [begun, ← result]
    exact (assigns_reads isTarget (orExpression_reads isValue) present).weaken
      fun rest closed => closed.stops 0
  cases isStatement with
  | assign hint isName isValue =>
    cases advance
    refine assigned (.var isName) (.var _) isValue rfl ?_
    rfl
  | assignProperty chain isObject isName isValue =>
    refine assigned (.property chain isObject isName) (.property _ _) isValue rfl ?_
    rw [Node.statementLexemes]
  | assignIndex indexable isContainer isKey isValue =>
    refine assigned (.lookup indexable isContainer isKey) (.lookup _ _) isValue rfl ?_
    rw [Node.statementLexemes]
  | increment isName =>
    refine targeted (.var isName) (.var _) (by rw [Node.statementLexemes]) fun t => ?_
    exact (steps_reads isName (.inl rfl)).weaken fun _ _ => trivial
  | decrement isName =>
    refine targeted (.var isName) (.var _) (by rw [Node.statementLexemes]) fun t => ?_
    exact (steps_reads isName (.inr rfl)).weaken fun _ _ => trivial
  | call isCall =>
    refine targeted isCall (.call _ _) (by rw [Node.statementLexemes, append_nil]) fun t => ?_
    exact calls_reads isCall
  | super isSuper =>
    refine announced_reads written fits (by rw [Node.statementLexemes, Node.lexemes]) fun _ => ?_
    exact finish_reads (g := id) (supers_reads isSuper) rfl b
  | print each =>
    refine announced_reads written fits (by rw [Node.statementLexemes]) fun _ => .checked ?_
    exact finish_reads (g := some) ((print_reads each).weaken fun _ _ => trivial) rfl b
  | _ => cases advance

/-! ## Statements in blocks -/

/-- The parsers for inner statements read what is shorter. -/
structure IsReadyBelow (statement : Bool → Parser Node) (n : Nat) : Prop where
  reads : ∀ node : Node, node.IsStatement → node.statementLexemes.length < n →
    IsRead (statement true) node
  advances : ∀ node : Node, node.IsStatement → node.IsAdvance →
    node.statementLexemes.length < n →
    Reads (statement false) node.statementLexemes node (Begins (.mark .rparen))

theorem length_le_blockLexemes (h : node ∈ body) :
    node.statementLexemes.length ≤ (Node.blockLexemes body).length := by
  induction body with
  | nil => cases h
  | cons first body ih =>
    rw [Node.blockLexemes, length_append, length_append]
    rcases mem_cons.mp h with rfl | h
    · omega
    · have := ih h
      omega

theorem IsReadyBelow.block (ready : IsReadyBelow statement n)
    (each : ∀ node ∈ body, node.IsStatement) (plain : Node.EndsPlainly body)
    (short : (Node.blockLexemes body).length < n) : IsBlock (statement true) body := by
  refine ⟨fun node member => ready.reads node (each node member) ?_, plain⟩
  have := length_le_blockLexemes member
  omega

theorem spells_at (h : Spells ls ts) (found : ls[n]? = some l) :
    ∃ t, ts[n]? = some t ∧ l.Accepts t := by
  induction h generalizing n with
  | nil => cases found
  | @cons l' t ls ts fits _ ih =>
    cases n with
    | zero =>
      cases found
      exact ⟨t, rfl, fits⟩
    | succ n => exact ih found

theorem Reads.lookAhead {β : Type} {q : Option Token → Parser β} {b : β} (n : Nat)
    (found : ls[n]? = some l) (second : ∀ t, l.Accepts t → Reads (q (some t)) ls b follow) :
    Reads (peekAhead n >>= q) ls b follow := by
  refine .lookSome (fun next => ∃ t, next = some t ∧ l.Accepts t) ?_ ?_
  · intro ts rest spelled _
    obtain ⟨t, place, fits⟩ := spells_at spelled found
    have looks := peekAhead_looks n (ts ++ rest)
    rw [List.getElem?_append_left (List.getElem?_eq_some_iff.mp place).1, place] at looks
    exact ⟨some t, ⟨t, rfl, fits⟩, looks⟩
  · rintro _ ⟨t, rfl, fits⟩
    exact second t fits

theorem keyword_reads (ready : IsReadyBelow statement node.statementLexemes.length)
    (isStatement : node.IsStatement) (compound : node.isSimple = false)
    (written : node.statementLexemes = l :: ls) (fits : l.Accepts t) :
    Reads (statementFrom statement true t) node.statementLexemes node Unclaimed := by
  cases isStatement with
  | @ifElse condition body elseIfs otherwise isCondition each plain conditions eachBranch
      plainBranch eachLast plainLast =>
    refine announced_reads written fits (by rw [Node.statementLexemes]) fun _ => .checked ?_
    refine if_reads isCondition (ready.block each plain ?_) conditions
      (fun b member => ready.block (eachBranch b member) (plainBranch b member) ?_)
      (fun b member => ready.block (eachLast b member) (plainLast b member) ?_)
    all_goals
      simp only [Node.statementLexemes, length_cons, length_append, length_inBraces,
        length_inParens]
    · omega
    · have := length_le_flatMap (f := fun b => .mark (.keyword .elseIf) :: branchLexemes b) member
      rw [← elseIfLexemes_eq] at this
      simp only [branchLexemes, length_cons, length_append, length_inBraces] at this
      omega
    · cases member
      simp only [Node.lastLexemes, length_cons, length_inBraces]
      omega
  | @whileLoop condition body isCondition each plain =>
    refine announced_reads written fits (by rw [Node.statementLexemes]) fun _ => .checked ?_
    refine (while_reads isCondition (ready.block each plain ?_)).weaken fun _ _ => trivial
    simp only [Node.statementLexemes, length_cons, length_append, length_inBraces]
    omega
  | @forLoop name value condition advance body isName isValue isCondition isAdvance isStatement
      each plain =>
    have steps := ready.advances _ isStatement isAdvance (by
      simp only [Node.statementLexemes, length_cons, length_append]
      omega)
    have block := ready.block each plain (by
      simp only [Node.statementLexemes, length_cons, length_append, length_inBraces]
      omega)
    have read := for_reads isName isValue isCondition steps block
    refine announced_reads written fits (by rw [Node.statementLexemes]) fun _ => .checked ?_
    refine .lookAhead 1 rfl fun paren isParen => ?_
    refine .lookAhead 2 rfl fun _ _ => ?_
    refine .checked ?_
    simp only [Option.map_some, isParen.1]
    exact read.weaken fun _ _ => trivial
  | @forEach name items body isName isItems each plain =>
    have block := ready.block each plain (by
      simp only [Node.statementLexemes, length_cons, length_append, length_inBraces]
      omega)
    refine announced_reads written fits (by rw [Node.statementLexemes]) fun _ => .checked ?_
    refine .lookAhead 1 (by rw [Node.statementLexemes]; rfl) fun name' isIdent => ?_
    refine .lookAhead 2 (by rw [Node.statementLexemes]; rfl) fun word isWord => ?_
    refine .checked ?_
    simp only [Option.map_some, isIdent.1, isWord.1]
    exact (forEach_reads isItems block).weaken fun _ _ => trivial
  | @function routine isName plainRoutine level each plain =>
    refine announced_reads written fits
      (by rw [Node.statementLexemes, Node.routineLexemes]) fun _ => .checked ?_
    have read := routine_reads plainRoutine (ready.block each plain ?_)
    · rw [level] at read
      exact (read.give Node.function).weaken fun _ _ => trivial
    · rw [Node.statementLexemes, Node.routineLexemes]
      simp only [length_cons, length_append, length_inBraces]
      omega
  | @classDecl decl plain each plainMethods eachLast plainLast =>
    refine announced_reads written fits
      (by rw [Node.statementLexemes, Node.classLexemes]) fun _ => .checked ?_
    refine (class_reads plain ⟨fun m member => ?_, fun b member => ?_⟩).weaken fun _ _ => trivial
    · refine ready.block (each m member) (plainMethods m member) ?_
      exact length_lt_method member
    · refine ready.block (eachLast b member) (plainLast b member) ?_
      exact length_lt_destructor member
  | @tryCatch body catches final each plain names eachCatch plainCatch eachLast plainLast =>
    refine announced_reads written fits (by rw [Node.statementLexemes]) fun _ => .checked ?_
    refine try_reads (ready.block each plain ?_)
      (fun c member => ready.block (eachCatch c member) (plainCatch c member) ?_)
      (fun b member => ready.block (eachLast b member) (plainLast b member) ?_)
    all_goals
      simp only [Node.statementLexemes, length_cons, length_append, length_inBraces]
    · omega
    · have := length_le_flatMap
        (f := fun c => .mark (.keyword .catchBlock) :: handlerLexemes c) member
      rw [← catchLexemes_eq] at this
      simp only [handlerLexemes, length_cons, length_append, length_inBraces] at this
      omega
    · cases member
      simp only [Node.lastLexemes, length_cons, length_inBraces]
      omega
  | _ => cases compound

theorem closed_reads (isStatement : node.IsStatement)
    (simple : node.isSimple = true) (plain : node.isDeclaration = false)
    (written : node.statementLexemes = l :: ls) (fits : l.Accepts t) :
    Reads (statementFrom statement true t) (node.statementLexemes ++ [.mark .semicolon]) node
      Anything := by
  have advances : node.IsAdvance → Reads (statementFrom statement true t)
      (node.statementLexemes ++ [.mark .semicolon]) node Anything := fun advance =>
    (advances_reads true isStatement advance written fits).weaken fun _ _ => nofun
  cases isStatement with
  | @assign name value hint isName isValue =>
    cases hint with
    | none => exact advances (.assign name value)
    | some hint => cases plain
  | assignProperty _ _ _ _ => exact advances (.assignProperty _ _ _)
  | assignIndex _ _ _ _ => exact advances (.assignIndex _ _ _)
  | increment _ | decrement _ => exact advances (.step _ _)
  | call _ => exact advances (.call _ _)
  | super _ => exact advances (.super _ _)
  | print _ => exact advances (.print _)
  | ret isValue =>
    exact announced_reads written fits (by rw [Node.statementLexemes]) fun _ =>
      .checked (return_reads isValue)
  | throw isMessage =>
    refine announced_reads written fits (by rw [Node.statementLexemes]) fun _ => .checked ?_
    exact parenthesized_reads .throw Node.throw isMessage
  | exit =>
    exact announced_reads written fits (by rw [Node.statementLexemes]) fun _ =>
      .checked exit_reads
  | exitWith isCode =>
    exact announced_reads written fits (by rw [Node.statementLexemes]) fun _ =>
      .checked (exitWith_reads isCode)
  | importFile isPath =>
    refine announced_reads written fits (by rw [Node.statementLexemes]) fun _ => .checked ?_
    exact parenthesized_reads .importFile Node.importFile isPath
  | _ => cases simple

theorem declaration_reads {hint : String} (isValue : value.IsExpression)
    (fits : (Lexeme.typeWord hint).Accepts t) :
    Reads (typedDeclaration t) (Node.assign name value (some hint)).statementLexemes
      (.assign name value (some hint)) (Begins (.mark .semicolon)) := by
  refine .checked ?_
  refine .advance ?_
  refine .name ?_
  refine (demand_op ":=").first ?_
  have text : t.display = hint := by rw [Token.display, fits.2, Token.Payload.display]
  rw [text]
  refine .weaken ?_ fun rest begins => stops_mark rfl 0 begins
  exact (orExpression_reads isValue).give fun value => Node.assign name value (some hint)

theorem statementFrom_reads (ready : IsReadyBelow statement node.statementLexemes.length)
    (isStatement : node.IsStatement) (written : node.statementLexemes = l :: ls)
    (fits : l.Accepts t) :
    Reads (statementFrom statement true t) (ownLexemes node) node (After node) := by
  unfold ownLexemes After
  cases simple : node.isSimple with
  | false =>
    have plain : node.isDeclaration = false := by
      cases node <;> first | rfl | cases simple
    rw [plain, Bool.false_and, pendingLexemes, if_neg Bool.false_ne_true, append_nil]
    exact keyword_reads ready isStatement simple written fits
  | true =>
    cases plain : node.isDeclaration with
    | false => exact (closed_reads isStatement simple plain written fits).weaken fun _ _ => trivial
    | true =>
      rw [Bool.not_true, Bool.and_false, pendingLexemes, if_neg Bool.false_ne_true, append_nil]
      cases isStatement with
      | @assign name value hint _ isValue =>
        cases hint with
        | none => cases plain
        | some hint =>
          cases written
          have isType : isTypeKind t.kind = true := fits.1
          unfold statementFrom
          rw [if_pos isType]
          exact declaration_reads isValue fits
      | _ => cases plain

/-! ## Whole statements -/

theorem skip_reads (pending : Bool) :
    Reads
      (loop (fun _ => nextIs fun t => t.kind = .semicolon || t.kind = .rbrace)
        (fun _ => advance) ())
      (pendingLexemes pending) ()
      (fun rest => NotNext .semicolon rest ∧ NotNext .rbrace rest) := by
  have written : pendingLexemes pending =
      (List.replicate pending.toNat ()).flatMap fun _ => [.mark .semicolon] := by
    cases pending <;> rfl
  rw [written]
  refine .loop (fun _ => ()) rfl rfl (fun _ => leads_all (fun _ => nextIs_true fun t fits => ?_) _)
    (fun _ rest next => nextIs_false fun t head => ?_) (fun _ _ _ => advance_reads _ Anything)
    (leads_all (fun _ _ => trivial) _) (fun _ _ => trivial)
  · rw [fits.1]
    rfl
  · simp [next.1 t head, next.2 t head]

theorem step_reads {b : Bool} (pending : Bool) (starts : Starts l)
    (read : ∀ t, l.Accepts t → Reads (statementFrom statement b t) (l :: ls) node follow) :
    Reads (statementStep statement b) (pendingLexemes pending ++ l :: ls) node follow := by
  have differs : ∀ t, l.Accepts t → ∀ kind, startsStatement kind = false → t.kind ≠ kind := by
    rintro t fits _ no rfl
    rw [starts t fits] at no
    cases no
  refine (skip_reads pending).before ?_ fun rest begins => ⟨?_, ?_⟩
  · refine .peek fun t fits => ?_
    simp only
    split
    · exact .checked (read t fits)
    · exact read t fits
  · exact notNext_of_begins (fun t fits => differs t fits _ rfl) begins
  · exact notNext_of_begins (fun t fits => differs t fits _ rfl) begins

theorem statementStep_reads (ready : IsReadyBelow statement node.statementLexemes.length)
    (isStatement : node.IsStatement) :
    IsRead (statementStep statement true) node := by
  refine ⟨isStatement, fun pending => ?_⟩
  obtain ⟨l, ls, written, starts⟩ := statement_head isStatement
  have read : ∀ t, l.Accepts t →
      Reads (statementFrom statement true t) (ownLexemes node) node (After node) :=
    fun t fits => statementFrom_reads ready isStatement written fits
  rw [ownLexemes, written] at read ⊢
  exact step_reads pending starts read

theorem statementStep_advances (isStatement : node.IsStatement) (advance : node.IsAdvance) :
    Reads (statementStep statement false) node.statementLexemes node (Begins (.mark .rparen)) := by
  obtain ⟨l, ls, written, starts⟩ := statement_head isStatement
  have read : ∀ t, l.Accepts t → Reads (statementFrom statement false t)
      (node.statementLexemes ++ []) node (Begins (.mark .rparen)) := fun t fits =>
    (advances_reads false isStatement advance written fits).weaken fun _ begins _ => begins
  rw [append_nil, written] at read
  rw [written]
  exact step_reads false starts read

end Inner

theorem statement_reads (fuel : Nat) : IsReadyBelow (statementAt fuel) (fuel + 1) := by
  induction fuel with
  | zero =>
    have nothing : ∀ node : Node, node.IsStatement → ¬ node.statementLexemes.length < 1 := by
      intro node isStatement
      obtain ⟨l, ls, written, _⟩ := statement_head isStatement
      rw [written]
      simp
    exact ⟨fun node isStatement short => absurd short (nothing node isStatement),
      fun node isStatement _ short => absurd short (nothing node isStatement)⟩
  | succ fuel ih =>
    refine ⟨fun node isStatement short => ?_, fun node isStatement advance _ => ?_⟩
    · have below : IsReadyBelow (statementAt fuel) node.statementLexemes.length :=
        ⟨fun inner isInner smaller => ih.reads inner isInner (by omega),
          fun inner isInner advance smaller => ih.advances inner isInner advance (by omega)⟩
      exact statementStep_reads below isStatement
    · exact statementStep_advances isStatement advance

theorem wholeStatement_reads (isStatement : node.IsStatement) : IsRead statement node := by
  refine ⟨isStatement, fun pending => ?_⟩
  refine .get fun s _ room => ?_
  refine ((statement_reads _).reads node isStatement ?_).reads pending
  rw [length_append, ownLexemes, length_append] at room
  omega

theorem lastSemicolon_reads :
    Reads statement [.mark .semicolon] .missing (fun rest => rest = []) := by
  refine .get fun s _ room => ?_
  refine (skip_reads true).atEnd ?_ ?_
  · refine .lookPast (a := none) ?_ (Reads.pure _ _)
    rintro _ rfl s' _ left
    show EStateM.Result.ok s'.token? s' = _
    rw [State.token?_eq, left]
    rfl
  · rintro _ rfl
    exact ⟨nofun, nofun⟩

end Hetman.Parser
