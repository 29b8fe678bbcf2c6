import Hetman.Proofs.Parser.Reads

/-!
# Reading expressions

A written expression is read back as the tree it was written from. `Stops n` is what may come after
an operand of tier `n`, and `operators_reads` carries the operators that are still to come along the
left side of a tree, because the parser meets the innermost left operand first. Factors are read
with as much fuel as they have tokens (`factor_reads`).
-/

namespace Hetman.Parser

open List

variable {e key value : Node} {es : List Node} {t : Token} {rest : List Token} {kind close : Kind}
  {fuel n : Nat} {pairs : List (Node × Node)} {α : Type} {name symbol : String}
  {factor : Parser Node}

/-! ## Tiers of operators -/

/-- The operators of a tier. -/
def symbolsAt : Nat → List String
  | 0 => ["||"]
  | 1 => ["&&"]
  | 2 => ["==", "!=", "<", ">", "<=", ">="]
  | 3 => ["+", "-"]
  | 4 => ["*", "/", "%"]
  | 5 => ["^", "^/"]
  | _ => []

/-- A token is taken for an operator of a tier; the logical tiers look at the text only. -/
def isOpAt : Nat → Token → Bool
  | 0 => (·.hasText "||")
  | 1 => (·.hasText "&&")
  | n => isOpAmong (symbolsAt n)

/-- The tree of an operation of a tier. -/
def nodeAt (n : Nat) : Node → String → Node → Node :=
  if n = 2 then comparisonNode else binaryNode

/-- The parser for operands of a tier, given the one for factors. -/
def tierOver (factor : Parser Node) : Nat → Parser Node
  | 0 => orOver factor
  | 1 => andOver factor
  | 2 => comparisonOver factor
  | 3 => sumOver factor
  | 4 => termOver factor
  | 5 => exponentOver factor
  | _ => factor

theorem tierOver_eq_level (factor : Parser Node) (h : n < 6) :
    tierOver factor n = level (isOpAt n) (nodeAt n) (tierOver factor (n + 1)) := by
  match n, h with
  | 0, _ => rfl
  | 1, _ => rfl
  | 2, _ => rfl
  | 3, _ => rfl
  | 4, _ => rfl
  | 5, _ => rfl

theorem isOpAmong_op (fits : (Lexeme.op symbol).Accepts t) (ops : List String) :
    isOpAmong ops t = ops.contains symbol := by
  have texts : t.hasText = (symbol == ·) := funext (Token.hasText_eq fits.2)
  simp only [isOpAmong, fits.1, texts, decide_true, Bool.true_and, contains_eq_any_beq]

/-- An operator is one of exactly the tiers that have its symbol. -/
theorem isOpAt_op (fits : (Lexeme.op symbol).Accepts t) (n : Nat) :
    isOpAt n t = (symbolsAt n).contains symbol := by
  match n with
  | 0 | 1 =>
    simp only [isOpAt, symbolsAt, Token.hasText_eq fits.2, contains_eq_any_beq,
      any_cons, any_nil, Bool.or_false]
  | n + 2 => exact isOpAmong_op fits _

theorem isOpAt_of_not_op (kind : t.kind ≠ .op) (or : t.hasText "||" = false)
    (and : t.hasText "&&" = false) (n : Nat) : isOpAt n t = false := by
  match n with
  | 0 => exact or
  | 1 => exact and
  | n + 2 => simp [isOpAt, isOpAmong, kind]

theorem symbolsAt_symbol {op : BinaryOp} (h : op.tier < 6) (n : Nat) :
    (symbolsAt n).contains op.symbol = decide (n = op.tier) := by
  match n with
  | 0 | 1 | 2 | 3 | 4 | 5 =>
    cases op with
    | floorDiv | other _ => simp [BinaryOp.tier] at h
    | _ => decide
  | n + 6 =>
    have differs : ¬ n + 6 = op.tier := by omega
    simp [symbolsAt, differs]

theorem symbolsAt_comparison {op : CompareOp} (h : op.IsPlain) (n : Nat) :
    (symbolsAt n).contains op.symbol = decide (n = 2) := by
  match n with
  | 0 | 1 | 2 | 3 | 4 | 5 =>
    cases op with
    | other _ => exact h.elim
    | _ => decide
  | n + 6 => simp [symbolsAt]

theorem binaryNode_symbol {op : BinaryOp} (h : op.tier < 6) (left right : Node) :
    binaryNode left op.symbol right = .binary left op right := by
  cases op with
  | floorDiv | other _ => simp [BinaryOp.tier] at h
  | _ => rfl

theorem comparisonNode_symbol {op : CompareOp} (h : op.IsPlain) (left right : Node) :
    comparisonNode left op.symbol right = .comparison left op right := by
  cases op with
  | other _ => exact h.elim
  | _ => rfl

/-! ## What may come after an operand -/

/-- What may come after an operand of a tier: no operator of this tier or a tighter one, and nothing
that goes on with a name. -/
structure Stops (n : Nat) (rest : List Token) : Prop where
  operator : ∀ t, rest.head? = some t → ∀ m, n ≤ m → isOpAt m t = false
  lbracket : NotNext .lbracket rest
  dot : NotNext .dot rest
  lparen : NotNext .lparen rest

theorem Stops.mono {m : Nat} (h : m ≤ n) (stops : Stops m rest) : Stops n rest :=
  ⟨fun t next k le => stops.operator t next k (Nat.le_trans h le), stops.lbracket, stops.dot,
    stops.lparen⟩

/-- The marks that end an expression. -/
def endsExpression : Kind → Bool
  | .rparen | .lbrace | .rbrace | .rbracket | .semicolon | .comma | .colon => true
  | _ => false

theorem stops_mark (ends : endsExpression kind = true) (n : Nat) (begins : Begins (.mark kind) rest) :
    Stops n rest := by
  obtain ⟨t, tail, rfl, same, or, and⟩ := begins
  have differs : ∀ other, endsExpression other = false → t.kind ≠ other := by
    rintro other no rfl
    rw [same, ends] at no
    cases no
  refine ⟨?_, ?_, ?_, ?_⟩
  · intro next head m _
    cases head
    exact isOpAt_of_not_op (differs .op rfl) or and m
  all_goals
    intro next head
    cases head
    exact differs _ rfl

/-- An operand, and then a parser that begins with the mark after it. -/
theorem Reads.upTo {β : Type} {p : Parser α} {q : α → Parser β} {a : α} {b : β}
    {ls ls' : List Lexeme} {follow : List Token → Prop} (first : Reads p ls a (Stops n))
    (ends : endsExpression kind = true) (second : Reads (q a) (.mark kind :: ls') b follow) :
    Reads (p >>= q) (ls ++ .mark kind :: ls') b follow :=
  first.before second fun _ => stops_mark ends n

theorem stops_op
    (nothing : ∀ m, n ≤ m → (symbolsAt m).contains symbol = false)
    (begins : Begins (.op symbol) rest) :
    Stops n rest := by
  obtain ⟨t, tail, rfl, fits⟩ := begins
  have kind : t.kind = .op := fits.1
  refine ⟨?_, ?_, ?_, ?_⟩
  · intro next head m le
    cases head
    rw [isOpAt_op fits m]
    exact nothing m le
  all_goals
    intro next head
    cases head
    rw [kind]
    simp

/-! ## Operators -/

/-- An operator and its right operand. -/
def operationLexemes (n : Nat) (operation : String × Node) : List Lexeme :=
  .op operation.1 :: operation.2.lexemes (n + 1)

/-- Applies an operation of a tier to its left operand. -/
def applyOperation (n : Nat) (left : Node) (operation : String × Node) : Node :=
  nodeAt n left operation.1 operation.2

/-- An operation of the tier whose right operand is read. -/
structure IsOperation (factor : Parser Node) (n : Nat) (operation : String × Node) : Prop where
  symbol : ∀ m, (symbolsAt m).contains operation.1 = decide (m = n)
  operand : Reads (tierOver factor (n + 1)) (operation.2.lexemes (n + 1)) operation.2
    (Stops (n + 1))

theorem level_reads {first : Node} {ls : List Lexeme}
    {operations : List (String × Node)}
    (operand : Reads (tierOver factor (n + 1)) ls first (Stops (n + 1)))
    (each : ∀ x ∈ operations, IsOperation factor n x) :
    Reads (level (isOpAt n) (nodeAt n) (tierOver factor (n + 1)))
      (ls ++ operations.flatMap (operationLexemes n))
      (operations.foldl (applyOperation n) first) (Stops n) := by
  have next : Leads (operationLexemes n) operations (Stops (n + 1)) := by
    refine fun x member => ⟨_, _, rfl, fun rest => stops_op fun m le => ?_⟩
    rw [(each x member).symbol]
    exact decide_eq_false (by omega)
  have ends : ∀ rest, Stops n rest → Stops (n + 1) rest := fun _ after => after.mono (Nat.le_succ n)
  refine .bind operand (Reads.loop (fun done => done.foldl (applyOperation n) first) rfl rfl
    ?_ ?_ ?_ next ends) (next.meets ends)
  · refine fun _ x member => ⟨_, _, rfl, fun rest => nextIs_true fun t fits => ?_⟩
    rw [isOpAt_op fits, (each x member).symbol]
    exact decide_eq_true rfl
  · exact fun _ rest after => nextIs_false fun t head => after.operator t head n (Nat.le_refl n)
  · intro done x member
    rw [foldl_concat]
    exact (expectText_op x.1).andThen ((each x member).operand.give (nodeAt n _ x.1))

/-- The tier of the operator on top of a tree. -/
def topTier : Node → Nat
  | .binary _ op _ => op.tier
  | .comparison .. => 2
  | _ => 6

theorem lexemes_succ (h : topTier e ≠ n) : e.lexemes n = e.lexemes (n + 1) := by
  cases e with
  | binary left op right =>
    have same : (op.tier < n) = (op.tier < n + 1) := by
      have : op.tier ≠ n := h
      apply propext
      omega
    simp only [Node.lexemes, same]
  | comparison left op right =>
    have same : (2 < n) = (2 < n + 1) := by
      have : 2 ≠ n := h
      apply propext
      omega
    simp only [Node.lexemes, same]
  | _ => simp only [Node.lexemes]

theorem operator_split (expression : e.IsExpression) (own : topTier e = n) (lt : n < 6) :
    ∃ left symbol right, e = nodeAt n left symbol right ∧
      left.IsExpression ∧ right.IsExpression ∧
      e.lexemes n = left.lexemes n ++ operationLexemes n (symbol, right) ∧
      (∀ m, (symbolsAt m).contains symbol = decide (m = n)) ∧
      sizeOf left < sizeOf e ∧ sizeOf right < sizeOf e := by
  subst own
  cases expression with
  | @binary left right op tier hleft hright =>
    have plain : op.tier ≠ 2 := by cases op <;> simp [BinaryOp.tier]
    refine ⟨left, op.symbol, right, ?_, hleft, hright, ?_, symbolsAt_symbol tier, ?_, ?_⟩
    · rw [topTier, nodeAt, if_neg plain, binaryNode_symbol tier]
    · simp [Node.lexemes, topTier, Lexeme.grouped, operationLexemes]
    all_goals
      simp only [Node.binary.sizeOf_spec]
      omega
  | @comparison left right op plain hleft hright =>
    refine ⟨left, op.symbol, right, ?_, hleft, hright, ?_, symbolsAt_comparison plain, ?_, ?_⟩
    · rw [topTier, nodeAt, if_pos rfl, comparisonNode_symbol plain]
    · simp [Node.lexemes, topTier, Lexeme.grouped, operationLexemes]
    all_goals
      simp only [Node.comparison.sizeOf_spec]
      omega
  | _ => exact absurd lt (by simp [topTier])

/-- An operand of a tier and then operations of it, which are carried along while the tree is taken
apart on its left side. -/
theorem operators_reads
    (factors : ∀ e : Node, e.IsExpression → (e.lexemes 6).length ≤ fuel →
      Reads (factorAt fuel) (e.lexemes 6) e (Stops 6)) (e : Node) (n : Nat)
    (operations : List (String × Node)) (le : n ≤ 6) (expression : e.IsExpression)
    (short : (e.lexemes n).length ≤ fuel) (each : ∀ x ∈ operations, IsOperation (factorAt fuel) n x) :
    Reads (tierOver (factorAt fuel) n) (e.lexemes n ++ operations.flatMap (operationLexemes n))
      (operations.foldl (applyOperation n) e) (Stops n) := by
  by_cases last : n = 6
  · subst last
    have nothing : operations = [] := by
      refine eq_nil_iff_forall_not_mem.mpr fun x member => ?_
      exact absurd ((each x member).symbol 6) (by simp [symbolsAt])
    subst nothing
    simpa [tierOver] using factors e expression short
  · have lt : n < 6 := by omega
    by_cases own : topTier e = n
    · obtain ⟨left, symbol, right, rfl, hleft, hright, written, symbols, smaller, smaller'⟩ :=
        operator_split expression own lt
      simp only [written, length_append, operationLexemes, length_cons] at short
      have operation : IsOperation (factorAt fuel) n (symbol, right) := by
        refine ⟨symbols, ?_⟩
        simpa using operators_reads factors right (n + 1) [] (by omega) hright (by omega) (by simp)
      have chain := operators_reads factors left n ((symbol, right) :: operations) le hleft
        (by omega) (by
          intro x member
          rcases mem_cons.mp member with rfl | member
          · exact operation
          · exact each x member)
      rw [written, append_assoc]
      exact chain
    · rw [lexemes_succ own] at short ⊢
      rw [tierOver_eq_level (factorAt fuel) lt]
      refine level_reads ?_ each
      simpa using operators_reads factors e (n + 1) [] (by omega) expression short (by simp)
termination_by (sizeOf e, 6 - n)

theorem tier_reads
    (factors : ∀ e : Node, e.IsExpression → (e.lexemes 6).length ≤ fuel →
      Reads (factorAt fuel) (e.lexemes 6) e (Stops 6)) (le : n ≤ 6)
    (expression : e.IsExpression) (short : (e.lexemes n).length ≤ fuel) :
    Reads (tierOver (factorAt fuel) n) (e.lexemes n) e (Stops n) := by
  simpa using operators_reads factors e n [] le expression short (by simp)

/-! ## Beginnings of expressions -/

/-- The marks that close something. -/
def closes : Kind → Bool
  | .rparen | .rbracket | .rbrace => true
  | _ => false

/-- A lexeme that no closing mark fits. -/
def Opens (l : Lexeme) : Prop :=
  ∀ t, l.Accepts t → closes t.kind = false

theorem opens_mark (h : closes kind = false) : Opens (.mark kind) :=
  fun _ fits => fits.1 ▸ h

theorem opens_reference (text : String) : Opens (.reference text) := by
  rintro t (⟨kind | kind, _⟩ | ⟨kind, _⟩) <;> rw [kind] <;> rfl

theorem lexemes_head (h : e.IsExpression) : ∀ n, ∃ l ls, e.lexemes n = l :: ls ∧ Opens l := by
  induction h with
  | number value | text value =>
    refine fun n => ⟨_, _, by rw [Node.lexemes], fun t fits => ?_⟩
    rw [fits.1]
    rfl
  | boolean value =>
    exact fun n => ⟨_, _, by rw [Node.lexemes], opens_mark (by cases value <;> rfl)⟩
  | @var name _ => exact fun n => ⟨_, _, by rw [Node.lexemes], opens_reference name⟩
  | binary _ _ _ ih _ | comparison _ _ _ ih _ =>
    intro n
    rw [Node.lexemes, Lexeme.grouped]
    split
    · exact ⟨_, _, rfl, opens_mark rfl⟩
    · obtain ⟨l, ls, written, opens⟩ := ih _
      rw [written]
      exact ⟨l, _, rfl, opens⟩
  | @cast target operand isType _ _ =>
    refine fun n => ⟨_, _, by rw [Node.lexemes], opens_mark ?_⟩
    unfold isTypeKind at isType
    split at isType <;> first | rfl | cases isType
  | input _ _ | array _ _ | super _ _ _ | newObject _ _ _ =>
    exact fun n => ⟨_, _, by rw [Node.lexemes], opens_mark rfl⟩
  | dictionary _ _ _ _ _ _ _ _ _ =>
    exact fun n => ⟨_, _, by rw [Node.lexemes, Lexeme.inBraces], opens_mark rfl⟩
  | lookup _ _ _ ih _ | property _ _ _ ih =>
    intro n
    obtain ⟨l, ls, written, opens⟩ := ih 6
    exact ⟨l, _, by rw [Node.lexemes, written]; rfl, opens⟩
  | call _ _ _ | callMethod _ _ _ _ =>
    intro n
    rw [Node.lexemes, Node.calleeLexemes]
    split <;> exact ⟨_, _, rfl, opens_reference _⟩

theorem ends_of_closes (h : closes kind = true) : endsExpression kind = true := by
  revert h
  cases kind <;> simp [closes, endsExpression]

theorem ne_of_closes {other : Kind} (opens : closes kind = false) (closing : closes other = true) :
    kind ≠ other := by
  rintro rfl
  rw [closing] at opens
  cases opens

def Opened (ls : List Lexeme) : Prop :=
  ∃ l more, ls = l :: more ∧ Opens l

section Glances

variable {β : Type} {b : β} {front ls : List Lexeme} {follow : List Token → Prop}

theorem Reads.lookKind {q : Kind → Parser β} (opened : Opened front)
    (second : ∀ kind, closes kind = false → Reads (q kind) (front ++ ls) b follow) :
    Reads (nextKind >>= q) (front ++ ls) b follow := by
  obtain ⟨l, more, rfl, opens⟩ := opened
  refine .lookSome (fun kind => closes kind = false) ?_ second
  intro ts rest spelled _
  obtain ⟨t, tail, eq, fits⟩ := Spells.begins spelled rest
  rw [eq]
  exact ⟨t.kind, opens t fits, nextKind_looks t tail⟩

variable {q : Bool → Parser β}

theorem Reads.lookOpen {f : Token → Bool} {v : Bool} (opened : Opened front)
    (answer : ∀ t, closes t.kind = false → f t = v) (second : Reads (q v) (front ++ ls) b follow) :
    Reads (nextIs f >>= q) (front ++ ls) b follow := by
  obtain ⟨l, more, rfl, opens⟩ := opened
  refine .lookAt (fun rest begins => ?_) second
  obtain ⟨t, tail, rfl, fits⟩ := begins
  exact answer t (opens t fits) ▸ nextIs_looks f (t :: tail)

theorem Reads.lookNot (opened : Opened front) (closing : closes kind = true)
    (second : Reads (q false) (front ++ ls) b follow) :
    Reads (nextHas kind >>= q) (front ++ ls) b follow :=
  Reads.lookOpen opened
    (fun _ opens => decide_eq_false (ne_of_closes opens closing)) second

end Glances

/-! ## Parts of factors -/

/-- Lexemes that are read as a part between commas. -/
structure IsWritten {α : Type} (p : Parser α) (ls : List Lexeme) (a : α) : Prop where
  opened : Opened ls
  reads : Reads p ls a (Stops 0)

structure IsReady (factor : Parser Node) (e : Node) : Prop where
  expression : e.IsExpression
  reads : Reads (orOver factor) (e.lexemes 0) e (Stops 0)

section Parts

theorem IsReady.isWritten (ready : IsReady factor e) : IsWritten (orOver factor) (e.lexemes 0) e :=
  ⟨lexemes_head ready.expression 0, ready.reads⟩

theorem intercalate_cons (mark : α) (first : List α) (rest : List (List α)) :
    [mark].intercalate (first :: rest) = first ++ rest.flatMap (mark :: ·) := by
  induction rest generalizing first with
  | nil => simp
  | cons next rest ih => simp [intercalate_cons_cons, ih]

/-- Lexemes with commas between them. -/
def separated (parts : List (List Lexeme)) : List Lexeme :=
  [Lexeme.mark .comma].intercalate parts

theorem separated_cons {β : Type} (write : β → List Lexeme) (x : β) (xs : List β) :
    separated ((x :: xs).map write) = write x ++ xs.flatMap fun y => .mark .comma :: write y := by
  rw [separated, map_cons, intercalate_cons, flatMap_map]

section Written

variable {β : Type} {write : β → List Lexeme}

variable {xs : List β} {tree : β → Node}

theorem parts_reads {γ : Type} {again : α → Parser Bool} {body : α → Parser α} {tree : β → γ}
    {a c : α} (closing : closes close = true) (state : List γ → α) (front : List γ)
    (first : state front = a) (last : state (front ++ xs.map tree) = c)
    (asks : ∀ done, again (state done) = nextHas .comma)
    (round : ∀ done, ∀ x ∈ xs,
      Reads (body (state done)) (.mark .comma :: write x) (state (done ++ [tree x])) (Stops 0)) :
    Reads (loop again body a) (xs.flatMap fun x => .mark .comma :: write x) c
      (Begins (.mark close)) := by
  refine .commas state front first last (fun done rest begins => ?_) (fun done rest begins => ?_) round
    (fun rest => stops_mark rfl 0) fun rest => stops_mark (ends_of_closes closing) 0
  · exact asks done ▸ nextHas_mark begins
  · exact asks done ▸ nextHas_false (notNext_mark (by rintro rfl; cases closing) begins)

/-- A part, those after commas, and a closing mark. -/
theorem Reads.closed {γ δ : Type} {p : Parser γ} {q : γ → Parser α} {r : α → Parser δ} {a : γ}
    {c : α} {d : δ} {ls ls' : List Lexeme} {follow : List Token → Prop}
    (closing : closes close = true) (first : Reads p ls a (Stops 0))
    (more : Reads (q a) (xs.flatMap fun x => .mark .comma :: write x) c (Begins (.mark close)))
    (last : Reads (r c) (.mark close :: ls') d follow) :
    Reads (p >>= fun a => q a >>= r)
      (ls ++ ((xs.flatMap fun x => .mark .comma :: write x) ++ .mark close :: ls')) d follow :=
  first.bind (more.until last) fun ts rest spelled _ =>
    (leads_all (fun _ => stops_mark rfl 0) xs).meetsUntil
      (fun _ => stops_mark (ends_of_closes closing) 0) ts rest spelled

theorem elements_written (closing : closes close = true)
    (each : ∀ x ∈ xs, IsWritten (orOver factor) (write x) (tree x)) :
    Reads (elementsOver factor close) (separated (xs.map write)) (xs.map tree)
      (Begins (.mark close)) := by
  cases xs with
  | nil =>
    refine .lookPast (a := close) (fun rest begins => nextKind_mark begins) ?_
    rw [if_pos rfl]
    exact .pure [] _
  | cons x xs =>
    have first := each x (by simp)
    rw [separated_cons]
    refine .lookKind first.opened fun kind opens => ?_
    rw [if_neg (ne_of_closes opens closing)]
    refine .bind first.reads (parts_reads closing id [tree x] rfl rfl (fun _ => rfl) fun done y member => ?_)
      ((leads_all (fun _ => stops_mark rfl 0) xs).meets fun _ =>
        stops_mark (ends_of_closes closing) 0)
    exact .advance ((each y (mem_cons_of_mem _ member)).reads.give fun y => done ++ [y])

theorem array_written (each : ∀ x ∈ xs, IsWritten (orOver factor) (write x) (tree x)) :
    Reads (arrayOver factor)
      (.mark .lbracket :: (separated (xs.map write) ++ [.mark .rbracket])) (.array (xs.map tree))
      Anything := by
  refine .advance ?_
  refine (elements_written rfl each).until ?_
  exact .mark (.pure _ _)

theorem IsWritten.pair {ks vs : List Lexeme}
    (keyWritten : IsWritten (orOver factor) ks key)
    (valueWritten : IsWritten (orOver factor) vs value) :
    IsWritten (pairOver factor) (ks ++ .mark .colon :: vs) (key, value) := by
  obtain ⟨l, more, written, opens⟩ := keyWritten.opened
  refine ⟨⟨l, more ++ .mark .colon :: vs, by rw [written]; rfl, opens⟩, ?_⟩
  refine keyWritten.reads.upTo rfl ?_
  exact .mark (valueWritten.reads.give fun value => (key, value))

theorem dictionary_written {tree : β → Node × Node} {x : β}
    (each : ∀ y ∈ x :: xs, IsWritten (pairOver factor) (write y) (tree y)) :
    Reads (dictionaryOver factor) (Lexeme.inBraces (separated ((x :: xs).map write)))
      (.dictionary ((x :: xs).map tree)) Anything := by
  have first := each x (by simp)
  rw [separated_cons]
  refine .mark ?_
  rw [append_assoc]
  refine .lookOpen (v := true) first.opened
    (fun t opens => decide_eq_true (ne_of_closes opens rfl)) ?_
  refine .closed rfl first.reads (parts_reads rfl (·, true) [tree x] rfl rfl (fun _ => rfl)
    fun done y member => ?_) (.mark (.pure _ _))
  have next := each y (mem_cons_of_mem _ member)
  refine .advance ?_
  rw [← append_nil (write y)]
  refine .lookNot next.opened rfl ?_
  rw [append_nil]
  exact next.reads.give fun pair => (done ++ [pair], true)

end Written

theorem moreLexemes_eq (es : List Node) :
    Node.moreLexemes es = es.flatMap fun e => .mark .comma :: e.lexemes 0 := by
  induction es with
  | nil => rfl
  | cons e es ih => rw [Node.moreLexemes, ih, flatMap_cons, cons_append]

theorem listLexemes_eq (es : List Node) :
    Node.listLexemes es = separated (es.map (·.lexemes 0)) := by
  cases es with
  | nil => rfl
  | cons e es => rw [Node.listLexemes, moreLexemes_eq, separated_cons]

theorem elements_reads (closing : closes close = true) (ready : ∀ e ∈ es, IsReady factor e) :
    Reads (elementsOver factor close) (Node.listLexemes es) es (Begins (.mark close)) := by
  have read := elements_written closing fun e member => (ready e member).isWritten
  rwa [map_id', ← listLexemes_eq] at read

theorem arguments_reads (ready : ∀ e ∈ es, IsReady factor e) :
    Reads (argumentsOver factor) (Node.argumentLexemes (some es)) (some es) Anything := by
  refine .mark ?_
  cases es with
  | nil =>
    refine .lookAt (a := .rparen) (fun rest begins => nextKind_mark begins) ?_
    exact .mark (.pure _ _)
  | cons e es =>
    rw [Node.listLexemes, moreLexemes_eq, append_assoc]
    refine .lookKind (lexemes_head (ready e (by simp)).expression 0) fun kind opens => ?_
    rw [if_neg (ne_of_closes opens rfl)]
    refine .closed (c := some (e :: es)) rfl (ready e (by simp)).reads (parts_reads rfl some [e] rfl
      (congrArg (some <| e :: ·) (map_id es)) (fun _ => rfl) fun done x member => ?_)
      (.mark (.pure _ _))
    have isReady := ready x (mem_cons_of_mem _ member)
    refine .advance ?_
    rw [← append_nil (x.lexemes 0)]
    refine .lookNot (lexemes_head isReady.expression 0) rfl ?_
    rw [append_nil]
    exact isReady.reads.give fun x => some (done ++ [x])

/-- A key and its value as lexemes. -/
def pairLexemes (pair : Node × Node) : List Lexeme :=
  pair.1.lexemes 0 ++ .mark .colon :: pair.2.lexemes 0

theorem morePairLexemes_eq (pairs : List (Node × Node)) :
    Node.morePairLexemes pairs = pairs.flatMap fun pair => .mark .comma :: pairLexemes pair := by
  induction pairs with
  | nil => rfl
  | cons pair pairs ih =>
    rw [Node.morePairLexemes, ih, flatMap_cons, pairLexemes]
    simp

theorem pairLexemes_eq (pairs : List (Node × Node)) :
    Node.pairLexemes pairs = separated (pairs.map pairLexemes) := by
  cases pairs with
  | nil => rfl
  | cons pair pairs =>
    rw [Node.pairLexemes, morePairLexemes_eq, separated_cons, pairLexemes]
    simp

theorem dictionary_reads
    (ready : ∀ p ∈ (key, value) :: pairs, IsReady factor p.1 ∧ IsReady factor p.2) :
    Reads (dictionaryOver factor) ((Node.dictionary ((key, value) :: pairs)).lexemes 6)
      (.dictionary ((key, value) :: pairs)) Anything := by
  have read := dictionary_written fun pair member =>
    (ready pair member).1.isWritten.pair (ready pair member).2.isWritten
  rw [Node.lexemes, pairLexemes_eq]
  rwa [map_id'] at read

theorem parens_reads {β : Type} {g : Node → β} (ready : IsReady factor e) :
    Reads
      (do
        demand .lparen
        let inner ← orOver factor
        demand .rparen
        return g inner)
      (Lexeme.inParens (e.lexemes 0)) (g e) Anything := by
  refine .mark ?_
  refine ready.reads.upTo rfl ?_
  exact .mark (.pure _ _)

theorem cast_reads {target : Kind} {operand : Node} (ready : IsReady factor operand) :
    Reads (castOver factor) ((Node.cast target operand).lexemes 6) (.cast target operand)
      Anything := by
  refine .peek fun t fits => ?_
  have kind : t.kind = target := fits.1
  refine .advance ?_
  refine .checked ?_
  rw [kind]
  exact parens_reads ready

theorem input_reads {prompt : Node} (ready : IsReady factor prompt) :
    Reads (inputOver factor) ((Node.input prompt).lexemes 6) (.input prompt) Anything := by
  exact .expectChecked fun t _ => parens_reads ready

theorem array_reads (ready : ∀ e ∈ es, IsReady factor e) :
    Reads (arrayOver factor) ((Node.array es).lexemes 6) (.array es) Anything := by
  have read := array_written fun e member => (ready e member).isWritten
  rw [Node.lexemes, listLexemes_eq]
  rwa [map_id'] at read

theorem newObject_reads {className : String} (name : IsName className)
    (ready : ∀ e ∈ es, IsReady factor e) :
    Reads (newObjectOver factor t) ((Node.newObject className (some es)).lexemes 6)
      (.newObject className (some es)) Anything := by
  refine .checked ?_
  refine .advance ?_
  refine .name ?_
  rw [if_neg (by simpa using name.1)]
  exact (arguments_reads ready).give (Node.newObject className)

theorem super_reads {method : String} (ready : ∀ e ∈ es, IsReady factor e) :
    Reads (superOver factor t) ((Node.super method (some es)).lexemes 6)
      (.super method (some es)) Anything := by
  refine .checked ?_
  refine .advance ?_
  refine .mark ?_
  refine .name ?_
  refine .lookAt (a := true) (fun rest begins => nextHas_mark begins) ?_
  exact (arguments_reads ready).give (Node.super method)

/-! ## Names with what is picked from them -/

/-- An index in brackets. -/
def keyLexemes (key : Node) : List Lexeme :=
  .mark .lbracket :: (key.lexemes 0 ++ [.mark .rbracket])

/-- A property after its point, perhaps called. -/
def pickLexemes (pick : String × Option (List Node)) : List Lexeme :=
  .mark .dot :: .name pick.1 :: Node.argumentLexemes pick.2

/-- Picks a property; a call of one on a variable is a call of a method. -/
def applyPick (node : Node) (pick : String × Option (List Node)) : Node :=
  match pick.2, node with
  | some arguments, .var object => .call (object ++ "." ++ pick.1) (some arguments)
  | _, node => .property node pick.1

/-- A name, called if there are arguments. -/
def baseNode (name : String) : Option (List Node) → Node
  | none => .var name
  | some arguments => .call name (some arguments)

theorem indices_reads {keys : List Node} (node : Node)
    (ready : ∀ k ∈ keys, IsReady factor k) :
    Reads (indicesOver factor node) (keys.flatMap keyLexemes) (keys.foldl .lookup node)
      (NotNext .lbracket) := by
  refine .loop (fun done => done.foldl .lookup node) rfl rfl
    (fun _ => leads_all (fun _ => nextHas_mark) _) (fun _ _ => nextHas_false)
    (fun done key member => ?_) (leads_all (fun _ _ => trivial) _) (fun _ _ => trivial)
  rw [foldl_concat]
  refine .advance ?_
  exact (ready key member).reads.upTo rfl (.mark (.pure _ _))

/-- The arguments of every pick are read. -/
def PicksReady (factor : Parser Node) (picks : List (String × Option (List Node))) : Prop :=
  ∀ pick ∈ picks, ∀ arguments ∈ pick.2, ∀ e ∈ arguments, IsReady factor e

theorem properties_reads {picks : List (String × Option (List Node))} (node : Node)
    (ready : PicksReady factor picks) :
    Reads (propertiesOver factor node) (picks.flatMap pickLexemes) (picks.foldl applyPick node)
      (fun rest => NotNext .dot rest ∧ NotNext .lparen rest) := by
  refine .loop (fun done => done.foldl applyPick node) rfl rfl
    (fun _ => leads_all (fun _ => nextHas_mark) _) (fun _ _ after => nextHas_false after.1) ?_
    (leads_all (fun _ => notNext_mark (by simp)) _) fun _ after => after.2
  · rintro done ⟨name, arguments⟩ member
    rw [foldl_concat]
    generalize done.foldl applyPick node = node
    refine .advance ?_
    refine .name ?_
    cases arguments with
    | none =>
      refine .lookPast (a := false) (fun rest after => nextHas_false after) ?_
      exact .pure (Node.property node name) _
    | some es =>
      refine .lookAt (a := true) (fun rest begins => nextHas_mark begins) ?_
      refine (arguments_reads (ready _ member es rfl)).atEnd ?_ fun _ _ => trivial
      cases node <;> exact .pure _ _

theorem referenceName_eq (fits : (Lexeme.reference name).Accepts t) :
    (if t.kind = .keyword .this then "this" else t.display) = name := by
  rcases fits with ⟨kind, payload⟩ | ⟨kind, rfl⟩
  · have differs : t.kind ≠ .keyword .this := by
      rcases kind with kind | kind <;> rw [kind] <;> simp
    rw [if_neg differs, Token.display, payload, Token.Payload.display]
  · rw [if_pos kind]

/-- A name, perhaps called, then indices, then properties. -/
structure Reference where
  name : String
  arguments : Option (List Node) := none
  keys : List Node := []
  picks : List (String × Option (List Node)) := []

namespace Reference

def node (r : Reference) : Node :=
  r.picks.foldl applyPick (r.keys.foldl .lookup (baseNode r.name r.arguments))

def lexemes (r : Reference) : List Lexeme :=
  .reference r.name :: (Node.argumentLexemes r.arguments ++
    (r.keys.flatMap keyLexemes ++ r.picks.flatMap pickLexemes))

/-- The expressions inside a reference. -/
inductive IsPart (r : Reference) : Node → Prop
  | argument {es : List Node} {e : Node} : es ∈ r.arguments → e ∈ es → IsPart r e
  | key {e : Node} : e ∈ r.keys → IsPart r e
  | pick {pick : String × Option (List Node)} {es : List Node} {e : Node} :
    pick ∈ r.picks → es ∈ pick.2 → e ∈ es → IsPart r e

end Reference

theorem reference_reads {r : Reference} (fits : (Lexeme.reference r.name).Accepts t)
    (ready : ∀ e, r.IsPart e → IsReady factor e) :
    Reads (referenceOver factor t) r.lexemes r.node (Stops 6) := by
  obtain ⟨name, arguments, keys, picks⟩ := r
  have picked : ∀ node, Reads (propertiesOver factor node) (picks.flatMap pickLexemes)
      (picks.foldl applyPick node) (Stops 6) := by
    intro node
    refine (properties_reads node ?_).weaken fun _ after => ⟨after.dot, after.lparen⟩
    exact fun pick member es given e inside => ready e (.pick member given inside)
  have indexed : ∀ node, Reads (indicesOver factor node >>= propertiesOver factor)
      (keys.flatMap keyLexemes ++ picks.flatMap pickLexemes)
      (picks.foldl applyPick (keys.foldl .lookup node)) (Stops 6) := by
    intro node
    refine (indices_reads node fun k member => ready k (.key member)).bind (picked _) ?_
    exact (leads_all (fun _ => notNext_mark (by simp)) picks).meets fun _ after => after.lbracket
  refine .checked ?_
  simp only [referenceName_eq fits]
  refine .advance ?_
  cases arguments with
  | none =>
    rw [Node.argumentLexemes, nil_append]
    refine .look (a := false) (fun ts rest spelled after => nextHas_false ?_) (indexed _)
    obtain ⟨front, back, rfl, spelledFront, spelledBack⟩ := Spells.append_split spelled
    rw [append_assoc]
    refine (leads_all (fun _ => notNext_mark (by simp)) keys).meets (fun _ next => next) front
      (back ++ rest) spelledFront ?_
    exact (leads_all (fun _ => notNext_mark (by simp)) picks).meets (fun _ after => after.lparen) back
      rest spelledBack after
  | some es =>
    refine .lookAt (a := true) (fun rest begins => nextHas_mark begins) ?_
    refine (arguments_reads fun e inside => ?_).andThen (indexed _)
    exact ready e (.argument rfl inside)

end Parts

/-! ## References as expressions -/

theorem length_le_flatMap {β : Type} {f : α → List β} {x : α} {xs : List α} (h : x ∈ xs) :
    (f x).length ≤ (xs.flatMap f).length :=
  (infix_of_mem_flatten (mem_map_of_mem h)).length_le

theorem length_inParens (ls : List Lexeme) : (Lexeme.inParens ls).length = ls.length + 2 := by
  simp [Lexeme.inParens]

theorem length_inBraces (ls : List Lexeme) : (Lexeme.inBraces ls).length = ls.length + 2 := by
  simp [Lexeme.inBraces]

theorem length_le_separated {β : Type} (write : β → List Lexeme) {x : β} {xs : List β}
    (h : x ∈ xs) : (write x).length ≤ (separated (xs.map write)).length := by
  cases xs with
  | nil => cases h
  | cons first xs =>
    rw [separated_cons, length_append]
    rcases mem_cons.mp h with rfl | h
    · omega
    · have := length_le_flatMap (f := fun x => Lexeme.mark .comma :: write x) h
      simp only [length_cons] at this
      omega

theorem length_le_listLexemes (h : e ∈ es) :
    (e.lexemes 0).length ≤ (Node.listLexemes es).length := by
  rw [listLexemes_eq]
  exact length_le_separated (·.lexemes 0) h

theorem length_lt_argumentLexemes (h : e ∈ es) :
    (e.lexemes 0).length < (Node.argumentLexemes (some es)).length := by
  have := length_le_listLexemes h
  rw [Node.argumentLexemes, length_inParens]
  omega

theorem length_le_pairLexemes {p : Node × Node} (h : p ∈ pairs) :
    (pairLexemes p).length ≤ (Node.pairLexemes pairs).length := by
  rw [pairLexemes_eq]
  exact length_le_separated pairLexemes h

theorem Reference.IsPart.length_lt {r : Reference} (h : r.IsPart e) :
    (e.lexemes 0).length < r.lexemes.length := by
  simp only [Reference.lexemes, length_cons, length_append]
  cases h with
  | argument given inside =>
    have := length_lt_argumentLexemes inside
    rw [given]
    omega
  | key member =>
    have := length_le_flatMap (f := keyLexemes) member
    have own : (e.lexemes 0).length ≤ (keyLexemes e).length := by simp [keyLexemes]; omega
    omega
  | @pick pick es _ member given inside =>
    have := length_le_flatMap (f := pickLexemes) member
    have := length_lt_argumentLexemes inside
    have own : (pickLexemes pick).length = (Node.argumentLexemes (some es)).length + 2 := by
      simp [pickLexemes, Option.mem_def.mp given]
    omega

theorem takeWhile_name (h : IsName name) (rest : List Char) :
    (name.toList ++ rest).takeWhile (· ≠ '.') = name.toList ++ rest.takeWhile (· ≠ '.') :=
  takeWhile_append_of_pos fun _ member => decide_eq_true fun same => h.2 (same ▸ member)

theorem splitName_of_isName (h : IsName name) : Eval.splitName name = none := by
  have whole := takeWhile_name h []
  rw [takeWhile_nil, append_nil] at whole
  simp only [Eval.splitName, whole, drop_length]

theorem splitName_method {object : String} (h : IsName object) (method : String) :
    Eval.splitName (object ++ "." ++ method) = some (object, method) := by
  have chars : (object ++ "." ++ method).toList = object.toList ++ '.' :: method.toList := by
    simp [String.toList_append]
  have first := takeWhile_name h ('.' :: method.toList)
  rw [takeWhile_cons_of_neg (by simp), append_nil] at first
  simp only [Eval.splitName, chars, first, drop_left, String.ofList_toList]

theorem not_isName_method (object method : String) : ¬ IsName (object ++ "." ++ method) :=
  fun h => h.2 (by simp [String.toList_append])

theorem chain_of_indexable (h : e.IsIndexable) : e.IsChain := by
  cases h with
  | var name => exact .var name
  | call arguments _ => exact .call _ arguments
  | lookup container key => exact .lookup container key

/-- What has its properties picked is a reference, without properties if it can be indexed too. -/
theorem chain_split (expression : e.IsExpression) (chain : e.IsChain) :
    ∃ r : Reference, r.node = e ∧ r.lexemes = e.lexemes 6 ∧
      (∀ x, r.IsPart x → x.IsExpression) ∧ (e.IsIndexable → r.picks = []) := by
  induction expression with
  | @var name _ =>
    refine ⟨{ name }, rfl, ?_, ?_, fun _ => rfl⟩
    · simp [Reference.lexemes, Node.lexemes, Node.argumentLexemes]
    · intro x part
      cases part with
      | argument given _ => cases given
      | key member | pick member _ _ => cases member
  | @call name es isName each _ =>
    refine ⟨{ name, arguments := some es }, rfl, ?_, ?_, fun _ => rfl⟩
    · simp [Reference.lexemes, Node.lexemes, Node.calleeLexemes, splitName_of_isName isName]
    · intro x part
      cases part with
      | argument given inside =>
        cases given
        exact each x inside
      | key member | pick member _ _ => cases member
  | @callMethod object method es isName _ each _ =>
    refine ⟨{ name := object, picks := [(method, some es)] }, rfl, ?_, ?_, ?_⟩
    · simp [Reference.lexemes, Node.lexemes, Node.calleeLexemes, splitName_method isName,
        pickLexemes, Node.argumentLexemes]
    · intro x part
      cases part with
      | argument given _ => cases given
      | key member => cases member
      | pick member given inside =>
        cases mem_singleton.mp member
        cases given
        exact each x inside
    · intro indexable
      cases indexable with
      | call _ plain => exact absurd plain (not_isName_method object method)
  | @lookup container key indexable _ isKey ih _ =>
    obtain ⟨⟨name, arguments, keys, picks⟩, written, spelled, parts, none⟩ :=
      ih (chain_of_indexable indexable)
    cases none indexable
    refine ⟨⟨name, arguments, keys ++ [key], []⟩, ?_, ?_, ?_, fun _ => rfl⟩
    · simp [Reference.node, ← written]
    · simp [Reference.lexemes, Node.lexemes, ← spelled, keyLexemes]
    · intro x part
      cases part with
      | argument given inside => exact parts x (.argument given inside)
      | key member =>
        rcases mem_append.mp member with member | member
        · exact parts x (.key member)
        · cases mem_singleton.mp member
          exact isKey
      | pick member _ _ => cases member
  | @property object property isChain _ _ ih =>
    obtain ⟨⟨name, arguments, keys, picks⟩, written, spelled, parts, _⟩ := ih isChain
    refine ⟨⟨name, arguments, keys, picks ++ [(property, none)]⟩, ?_, ?_, ?_, nofun⟩
    · simp [Reference.node, ← written, applyPick]
    · simp [Reference.lexemes, Node.lexemes, ← spelled, pickLexemes, Node.argumentLexemes]
    · intro x part
      cases part with
      | argument given inside => exact parts x (.argument given inside)
      | key member => exact parts x (.key member)
      | pick member given inside =>
        rcases mem_append.mp member with member | member
        · exact parts x (.pick member given inside)
        · cases mem_singleton.mp member
          cases given
  | _ => cases chain

/-! ## Factors -/

theorem unquote_quoted {q : Char} (h : q = '"' ∨ q = '\'') (text : String) :
    unquote (String.ofList [q] ++ text ++ String.ofList [q]) = text := by
  have chars : (String.ofList [q] ++ text ++ String.ofList [q]).toList =
      q :: (text.toList ++ [q]) := by
    simp [String.toList_append]
  have quoted : (q :: (text.toList ++ [q])).getLast? = some q := by
    rw [← cons_append, getLast?_concat]
  have inner : ((q :: (text.toList ++ [q])).drop 1).take ((q :: (text.toList ++ [q])).length - 2) =
      text.toList := by
    simp
  unfold unquote
  simp only [chars, quoted, inner, String.ofList_toList]
  rcases h with rfl | rfl <;> rfl

theorem factor_reference {ls : List Lexeme}
    (written : e.lexemes 6 = .reference name :: ls)
    (reads : ∀ t, (Lexeme.reference name).Accepts t →
      Reads (referenceOver factor t) (e.lexemes 6) e (Stops 6)) :
    Reads (factorStep factor) (e.lexemes 6) e (Stops 6) := by
  rw [written] at reads ⊢
  refine .peek fun t fits => ?_
  have read := reads t fits
  rcases fits with ⟨kind | kind, _⟩ | ⟨kind, _⟩
  all_goals simpa [kind] using read

theorem factor_group (ready : IsReady factor e) :
    Reads (factorStep factor) (Lexeme.inParens (e.lexemes 0)) e Anything := by
  refine .peek fun t fits => ?_
  simp only [fits.1]
  refine .advance ?_
  refine ready.reads.upTo rfl ?_
  exact .mark (.pure _ _)

/-- A first key is one token, so the colon is the second one after the brace. -/
theorem firstKey_lexemes (h : key.IsFirstKey) : ∃ l, key.lexemes 0 = [l] := by
  cases h <;> exact ⟨_, by rw [Node.lexemes]⟩

theorem opensDictionary_looks {brace key colon : Token} (h : colon.kind = .colon) :
    Looks opensDictionary true (brace :: key :: colon :: rest) := by
  intro s _ left
  rw [opensDictionary_apply, left]
  simp [keyAhead, h]

theorem factor_bracketed {ls : List Lexeme}
    (read : Reads (arrayOver factor) (.mark .lbracket :: ls) e Anything) :
    Reads (factorStep factor) (.mark .lbracket :: ls) e Anything := by
  refine .peek fun t fits => ?_
  simp only [fits.1]
  exact read

theorem factor_braced {key : Lexeme} {ls : List Lexeme}
    (read : Reads (dictionaryOver factor) (.mark .lbrace :: key :: .mark .colon :: ls) e Anything) :
    Reads (factorStep factor) (.mark .lbrace :: key :: .mark .colon :: ls) e Anything := by
  refine .peek fun t fits => ?_
  simp only [fits.1]
  refine .look (a := true) (fun ts rest spelled _ => ?_) read
  obtain ⟨brace, ts, rfl, _, spelled⟩ := Spells.cons_split spelled
  obtain ⟨key, ts, rfl, _, spelled⟩ := Spells.cons_split spelled
  obtain ⟨colon, ts, rfl, isColon, _⟩ := Spells.cons_split spelled
  exact opensDictionary_looks isColon.1

theorem factor_dictionary (first : key.IsFirstKey)
    (ready : ∀ p ∈ (key, value) :: pairs, IsReady factor p.1 ∧ IsReady factor p.2) :
    Reads (factorStep factor) ((Node.dictionary ((key, value) :: pairs)).lexemes 6)
      (.dictionary ((key, value) :: pairs)) Anything := by
  have read := dictionary_reads ready
  obtain ⟨l, written⟩ := firstKey_lexemes first
  rw [Node.lexemes, Node.pairLexemes, written] at read ⊢
  exact factor_braced read

theorem factorStep_reads (expression : e.IsExpression)
    (ready : ∀ x : Node, x.IsExpression → (x.lexemes 0).length < (e.lexemes 6).length →
      IsReady factor x) : Reads (factorStep factor) (e.lexemes 6) e (Stops 6) := by
  have reference : e.IsChain → Reads (factorStep factor) (e.lexemes 6) e (Stops 6) := by
    intro chain
    obtain ⟨r, rfl, written, parts, _⟩ := chain_split expression chain
    refine factor_reference written.symm fun t fits => ?_
    rw [← written]
    refine reference_reads fits fun x part => ready x (parts x part) ?_
    rw [← written]
    exact part.length_lt
  suffices atom : ¬ e.IsChain → Reads (factorStep factor) (e.lexemes 6) e Anything by
    by_cases chain : e.IsChain
    · exact reference chain
    · exact (atom chain).weaken fun _ _ => trivial
  intro chain
  have grouped : e.lexemes 6 = Lexeme.inParens (e.lexemes 0) →
      Reads (factorStep factor) (e.lexemes 6) e Anything := by
    intro bare
    rw [bare] at ready ⊢
    exact factor_group (ready e expression (by simp [length_inParens]))
  cases expression with
  | var _ => exact absurd (.var _) chain
  | call _ _ | callMethod _ _ _ => exact absurd (.call _ _) chain
  | lookup _ _ _ => exact absurd (.lookup _ _) chain
  | property _ _ _ => exact absurd (.property _ _) chain
  | number value =>
    refine .peek fun t fits => ?_
    simp only [fits.1, fits.2]
    exact .advance (.pure _ _)
  | text value =>
    refine .peek fun t fits => ?_
    have inside : unquote t.display = value := by
      rcases fits.2 with payload | payload <;>
        rw [Token.display, payload]
      · exact unquote_quoted (.inl rfl) value
      · exact unquote_quoted (.inr rfl) value
    simp only [fits.1, inside]
    exact .advance (.pure _ _)
  | boolean value =>
    refine .peek fun t fits => ?_
    cases value
    all_goals
      simp only [fits.1]
      refine .checked ?_
      exact .advance (.pure _ _)
  | binary tier _ _ => exact grouped (by simp [Node.lexemes, Lexeme.grouped, tier])
  | comparison _ _ _ => exact grouped (by simp [Node.lexemes, Lexeme.grouped])
  | @cast target operand isType inner =>
    have short : (operand.lexemes 0).length < ((Node.cast target operand).lexemes 6).length := by
      simp only [Node.lexemes, length_cons, length_inParens]
      omega
    have read : Reads (castOver factor) _ (.cast target operand) Anything :=
      cast_reads (ready operand inner short)
    refine .peek fun t fits => ?_
    have kind : t.kind = target := fits.1
    unfold isTypeKind at isType
    split at isType
    all_goals first | (simp only [kind]; exact read) | cases isType
  | @input prompt inner =>
    have short : (prompt.lexemes 0).length < ((Node.input prompt).lexemes 6).length := by
      simp only [Node.lexemes, length_cons, length_inParens]
      omega
    have read := input_reads (ready prompt inner short)
    refine .peek fun t fits => ?_
    simp only [fits.1]
    exact read
  | @array es each =>
    have read := array_reads fun x inside => ready x (each x inside) (by
      have := length_le_listLexemes inside
      simp [Node.lexemes]
      omega)
    exact factor_bracketed read
  | @dictionary key value pairs first isKey isValue keys values =>
    refine factor_dictionary first fun p member => ?_
    have short := length_le_pairLexemes member
    simp only [pairLexemes, length_append, length_cons] at short
    refine ⟨ready p.1 ?_ ?_, ready p.2 ?_ ?_⟩
    · rcases mem_cons.mp member with rfl | member
      · exact isKey
      · exact keys p member
    · simp only [Node.lexemes, length_inBraces]
      omega
    · rcases mem_cons.mp member with rfl | member
      · exact isValue
      · exact values p member
    · simp only [Node.lexemes, length_inBraces]
      omega
  | @super method es _ each =>
    refine .peek fun t fits => ?_
    simp only [fits.1]
    have read : Reads (superOver factor t) _ (.super method (some es)) Anything :=
      super_reads fun x inside => ready x (each x inside) (by
        have := length_lt_argumentLexemes inside
        simp only [Node.lexemes, length_cons]
        omega)
    exact read
  | @newObject className es isName each =>
    refine .peek fun t fits => ?_
    simp only [fits.1]
    have read := newObject_reads (t := t) isName fun x inside => ready x (each x inside) (by
      have := length_lt_argumentLexemes inside
      simp only [Node.lexemes, length_cons]
      omega)
    exact read

theorem factor_reads (fuel : Nat) (e : Node) (expression : e.IsExpression)
    (short : (e.lexemes 6).length ≤ fuel) :
    Reads (factorAt fuel) (e.lexemes 6) e (Stops 6) := by
  induction fuel generalizing e with
  | zero =>
    obtain ⟨l, ls, written, _⟩ := lexemes_head expression 6
    rw [written] at short
    exact absurd short (by simp)
  | succ fuel ih =>
    refine factorStep_reads expression fun x inner smaller => ⟨inner, ?_⟩
    exact tier_reads ih (by omega) inner (by omega)

theorem ready_of_length (expression : e.IsExpression) (short : (e.lexemes 0).length ≤ fuel) :
    IsReady (factorAt fuel) e :=
  ⟨expression, tier_reads (factor_reads fuel) (by omega) expression short⟩

/-! ## Whole expressions -/

theorem orExpression_reads (expression : e.IsExpression) :
    Reads orExpression (e.lexemes 0) e (Stops 0) := by
  exact .get fun s _ room => (ready_of_length expression (by omega)).reads

theorem wholeFactor_reads (expression : e.IsExpression) :
    Reads Parser.factor (e.lexemes 6) e (Stops 6) := by
  exact .get fun s _ room => factor_reads _ e expression (by omega)

theorem printed_reads (each : ∀ e ∈ es, e.IsExpression) :
    Reads (withFactors fun factor => elementsOver factor .rparen) (Node.listLexemes es) es
      (Begins (.mark .rparen)) := by
  refine .get fun s _ room => elements_reads rfl fun e member => ?_
  have := length_le_listLexemes member
  exact ready_of_length (each e member) (by omega)

end Hetman.Parser
