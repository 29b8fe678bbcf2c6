import Hetman.Proofs.Parser.Consumption

/-!
# The literals of an expression

An expression shows the numbers and strings it was read from, in their order, with a zero before the
operand of each sign `-` (`leaves_orExpression`), except for the arguments of a method that is not
called on a plain name or on `Super`: in `a.b.c(5)` the `5` is dropped. Which tokens are shown is
told by going through them once and keeping in mind what stands before the next one (`Place`).
-/

namespace Hetman

open List

/-! ## Literals in trees and among tokens -/

namespace Node

mutual

/-- The numbers and texts of an expression, from left to right. -/
def literals : Node → List Node
  | .number value => [.number value]
  | .text value => [.text value]
  | .binary left _ right => literals left ++ literals right
  | .comparison left _ right => literals left ++ literals right
  | .cast _ operand => literals operand
  | .input prompt => literals prompt
  | .array elements => listLiterals elements
  | .dictionary pairs => pairLiterals pairs
  | .lookup container key => literals container ++ literals key
  | .arrayIndex base index => literals base ++ literals index
  | .call _ arguments => argumentLiterals arguments
  | .methodCall object _ arguments => literals object ++ argumentLiterals arguments
  | .super _ arguments => argumentLiterals arguments
  | .newObject _ arguments => argumentLiterals arguments
  | .property object _ => literals object
  | _ => []

def listLiterals : List Node → List Node
  | [] => []
  | node :: rest => literals node ++ listLiterals rest

def argumentLiterals : Option (List Node) → List Node
  | none => []
  | some arguments => listLiterals arguments

def pairLiterals : List (Node × Node) → List Node
  | [] => []
  | (key, value) :: rest => literals key ++ literals value ++ pairLiterals rest

end

theorem listLiterals_append (nodes more : List Node) :
    listLiterals (nodes ++ more) = listLiterals nodes ++ listLiterals more := by
  induction nodes with
  | nil => rw [listLiterals, nil_append, nil_append]
  | cons node nodes ih => rw [cons_append, listLiterals, ih, listLiterals, append_assoc]

theorem pairLiterals_append (pairs more : List (Node × Node)) :
    pairLiterals (pairs ++ more) = pairLiterals pairs ++ pairLiterals more := by
  induction pairs with
  | nil => rw [pairLiterals, nil_append, nil_append]
  | cons pair pairs ih =>
    rw [cons_append, pairLiterals, ih, pairLiterals, append_assoc _ (pairLiterals pairs)]

theorem listLiterals_singleton (node : Node) : listLiterals [node] = node.literals := by
  rw [listLiterals, listLiterals, append_nil]

theorem pairLiterals_singleton (key value : Node) :
    pairLiterals [(key, value)] = key.literals ++ value.literals := by
  rw [pairLiterals, pairLiterals, append_nil]

end Node

namespace Parser

/-- Whether a token is a number or a string. -/
def isLiteral (t : Token) : Bool :=
  t.kind = .number || t.kind = .string

/-- The leaf that a literal becomes. -/
def literalNode (t : Token) : Node :=
  match t.kind, t.payload with
  | .number, .number n => .number n
  | .number, .text s => .text s
  | _, _ => .text (unquote t.display)

/-- What stands for a leaf among the tokens: a literal, or a sign before an operand. -/
inductive Mark where
  | sign
  | literal (t : Token)

namespace Mark

/-- A sign is a difference from zero. -/
def node : Mark → Node
  | sign => .number (.int 0)
  | literal t => literalNode t

def token? : Mark → Option Token
  | sign => none
  | literal t => some t

end Mark

/-! ## Going through the tokens -/

/-- What stands before a token of an expression. -/
inductive Before where
  /-- Nothing of an operand: one is about to begin. -/
  | opening
  /-- A plain name. -/
  | name
  | super
  /-- A point. Arguments after the next name are kept in the tree, or dropped. -/
  | point (keeps : Bool)
  /-- A name after a point. -/
  | member (keeps : Bool)
  /-- The end of any other operand. -/
  | operand
  deriving DecidableEq

def Before.next (before : Before) : Kind → Before
  | .dot => .point (before = .name || before = .super)
  | .ident =>
    match before with
    | .point keeps => .member keeps
    | _ => .name
  | .keyword .length | .keyword .this => .name
  | .keyword .super => .super
  | .number | .string | .keyword .yes | .keyword .no | .rparen | .rbracket | .rbrace => .operand
  | _ => .opening

/-- A place in the tokens of an expression. -/
structure Place where
  before : Before := .opening
  /-- The parentheses open since dropped arguments began. -/
  depth : Nat := 0

namespace Place

def next (p : Place) (t : Token) : Place where
  before := p.before.next t.kind
  depth :=
    match t.kind with
    | .lparen => if p.depth = 0 ∧ p.before ≠ .member false then 0 else p.depth + 1
    | .rparen => p.depth - 1
    | _ => p.depth

def mark (p : Place) (t : Token) : Option Mark :=
  if p.depth ≠ 0 then none
  else if isLiteral t then some (.literal t)
  else if t.kind = .op && t.hasText "-" && p.before = .opening then some .sign
  else none

def marks (p : Place) : List Token → List Mark
  | [] => []
  | t :: rest => (p.mark t).toList ++ (p.next t).marks rest

/-- The literals in dropped arguments. -/
def lost (p : Place) : List Token → List Token
  | [] => []
  | t :: rest => (if p.depth ≠ 0 ∧ isLiteral t then [t] else []) ++ (p.next t).lost rest

def after (p : Place) (tokens : List Token) : Place :=
  tokens.foldl next p

theorem after_append (p : Place) (front back : List Token) :
    p.after (front ++ back) = (p.after front).after back :=
  foldl_append

theorem marks_append (p : Place) (front back : List Token) :
    p.marks (front ++ back) = p.marks front ++ (p.after front).marks back := by
  induction front generalizing p with
  | nil => rfl
  | cons t front ih =>
    rw [cons_append, marks, ih, marks, append_assoc]
    rfl

theorem mark_token? (p : Place) (t : Token) :
    (p.mark t).toList.filterMap Mark.token? = if p.depth = 0 ∧ isLiteral t then [t] else [] := by
  unfold mark
  by_cases kept : p.depth = 0
  · by_cases literal : isLiteral t = true
    · simp [kept, literal, Mark.token?]
    · have other : ¬ (p.depth = 0 ∧ isLiteral t = true) := fun both => literal both.2
      rw [if_neg (not_not.mpr kept), if_neg literal]
      split
      · rfl
      · rfl
  · simp [kept]

theorem length_marks_le (p : Place) (tokens : List Token) :
    ((p.marks tokens).filterMap Mark.token?).length ≤ (tokens.filter isLiteral).length := by
  induction tokens generalizing p with
  | nil => exact Nat.le_refl _
  | cons t rest ih =>
    have later := ih (p.next t)
    rw [marks, filterMap_append, mark_token?, length_append, filter_cons]
    by_cases literal : isLiteral t = true
    · rw [if_pos literal, length_cons]
      split
      · rw [length_singleton]
        omega
      · rw [length_nil]
        omega
    · rw [if_neg literal, if_neg fun both => literal both.2, length_nil]
      omega

theorem marks_eq_iff (p : Place) (tokens : List Token) :
    (p.marks tokens).filterMap Mark.token? = tokens.filter isLiteral ↔ p.lost tokens = [] := by
  induction tokens generalizing p with
  | nil => exact Iff.of_eq rfl
  | cons t rest ih =>
    have fewer := (p.next t).length_marks_le rest
    rw [marks, lost, filterMap_append, mark_token?, filter_cons, append_eq_nil_iff, ← ih]
    by_cases literal : isLiteral t = true
    · by_cases kept : p.depth = 0
      · simp [literal, kept]
      · simp only [literal, kept, if_true, ne_eq, not_false_eq_true, and_self, false_and, if_false,
          nil_append, cons_ne_nil, iff_false]
        intro same
        have longer := congrArg List.length same
        rw [length_cons] at longer
        omega
    · simp [literal]

end Place

/-! ## What tokens show -/

/-- After what stands before them, the tokens become these leaves and leave something before the
next token. In dropped arguments they become nothing and close what they open. No semicolon is among
them. -/
structure Shows (before : Before) (tokens : List Token) (leaves : List Node) (later : Before) :
    Prop where
  marks : (Place.marks ⟨before, 0⟩ tokens).map Mark.node = leaves
  after : Place.after ⟨before, 0⟩ tokens = ⟨later, 0⟩
  hidden : ∀ b d, Place.marks ⟨b, d + 1⟩ tokens = [] ∧
    ∃ b', Place.after ⟨b, d + 1⟩ tokens = ⟨b', d + 1⟩
  unended : ∀ t ∈ tokens, t.kind ≠ .semicolon

namespace Shows

variable {b c d : Before} {tokens more : List Token} {leaves others : List Node} {t u : Token}

theorem nil (b : Before) : Shows b [] [] b :=
  ⟨rfl, rfl, fun b _ => ⟨rfl, b, rfl⟩, fun _ none => nomatch none⟩

theorem append (first : Shows b tokens leaves c) (second : Shows c more others d) :
    Shows b (tokens ++ more) (leaves ++ others) d where
  marks := by
    rw [Place.marks_append, first.after, map_append, first.marks, second.marks]
  after := by
    rw [Place.after_append, first.after, second.after]
  hidden e n := by
    obtain ⟨nothing, f, inside⟩ := first.hidden e n
    obtain ⟨none', g, inside'⟩ := second.hidden f n
    rw [Place.marks_append, Place.after_append, nothing, inside, none']
    exact ⟨rfl, g, inside'⟩
  unended := forall_mem_append.mpr ⟨first.unended, second.unended⟩

theorem single (open_ : t.kind ≠ .lparen) (close : t.kind ≠ .rparen)
    (inside : t.kind ≠ .semicolon)
    (shown : (Place.mark ⟨b, 0⟩ t).toList.map Mark.node = leaves) :
    Shows b [t] leaves (b.next t.kind) := by
  have stays : ∀ p : Place, p.next t = ⟨p.before.next t.kind, p.depth⟩ := by
    intro p
    unfold Place.next
    cases kind : t.kind with
    | lparen => exact absurd kind open_
    | rparen => exact absurd kind close
    | _ => rfl
  refine ⟨?_, stays _, fun e n => ⟨?_, _, stays _⟩, forall_mem_singleton.mpr inside⟩
  · rw [Place.marks, Place.marks, append_nil, shown]
  · rfl

theorem plain {kind : Kind} (is : t.kind = kind)
    (other : [Kind.lparen, .rparen, .semicolon, .number, .string, .op].contains kind = false) :
    Shows b [t] [] (b.next kind) := by
  simp only [contains_cons, contains_nil, Bool.or_false, Bool.or_eq_false_iff,
    beq_eq_false_iff_ne] at other
  obtain ⟨open_, close, inside, number, string, op⟩ := other
  rw [← is] at open_ close inside number string op ⊢
  exact single open_ close inside (by simp [Place.mark, isLiteral, number, string, op])

theorem literal (is : isLiteral t = true) : Shows b [t] [literalNode t] .operand := by
  have cases_ : t.kind = .number ∨ t.kind = .string := by simpa [isLiteral] using is
  have last : b.next t.kind = .operand := by rcases cases_ with kind | kind <;> rw [kind] <;> rfl
  rw [← last]
  refine single ?_ ?_ ?_ (by simp [Place.mark, is, Mark.node])
  · rcases cases_ with kind | kind <;> simp [kind]
  · rcases cases_ with kind | kind <;> simp [kind]
  · rcases cases_ with kind | kind <;> simp [kind]

/-- An operator after an operand, or a sign without effect. -/
theorem operator (is : t.kind = .op) (quiet : t.hasText "-" = false ∨ b ≠ .opening) :
    Shows b [t] [] .opening := by
  have last : b.next t.kind = .opening := by rw [is]; rfl
  rw [← last]
  refine single (by simp [is]) (by simp [is]) (by simp [is]) ?_
  rcases quiet with text | after
  · simp [Place.mark, isLiteral, is, text]
  · simp [Place.mark, isLiteral, is, after]

theorem sign (is : t.kind = .op) (text : t.hasText "-" = true) :
    Shows .opening [t] [.number (.int 0)] .opening := by
  have last : Before.next .opening t.kind = .opening := by rw [is]; rfl
  nth_rewrite 2 [← last]
  refine single (by simp [is]) (by simp [is]) (by simp [is]) ?_
  simp [Place.mark, isLiteral, is, text, Mark.node]

theorem typeWord (is : isTypeKind t.kind = true) : Shows b [t] [] .opening := by
  cases kind : t.kind with
  | keyword k =>
    rw [kind] at is
    cases k <;> first | exact plain kind rfl | cases is
  | _ =>
    rw [kind] at is
    cases is

theorem enclosed {left right : Kind}
    (pair : (left, right) ∈ [(Kind.lbracket, Kind.rbracket), (.lbrace, .rbrace)])
    (opens : t.kind = left) (closes : u.kind = right) (inner : Shows .opening tokens leaves c) :
    Shows b (t :: (tokens ++ [u])) leaves .operand := by
  have ends (opening : Shows b [t] [] .opening) (closing : Shows c [u] [] .operand) :
      Shows b (t :: (tokens ++ [u])) leaves .operand := by
    have all := opening.append (inner.append closing)
    rwa [append_nil] at all
  simp only [mem_cons, not_mem_nil, or_false] at pair
  rcases pair with ⟨rfl, rfl⟩ | ⟨rfl, rfl⟩
  · exact ends (plain opens rfl) (plain closes rfl)
  · exact ends (plain opens rfl) (plain closes rfl)

end Shows

/-! ### Parentheses -/

section Parentheses

variable {b c : Before} {tokens : List Token} {leaves : List Node} {t u : Token}
  (opens : t.kind = .lparen) (closes : u.kind = .rparen)

include opens in
theorem next_opening (b : Before) (n : Nat) :
    Place.next ⟨b, n⟩ t = ⟨.opening, if n = 0 ∧ b ≠ .member false then 0 else n + 1⟩ := by
  rw [Place.next, opens]
  rfl

include closes in
theorem next_closing (b : Before) (n : Nat) : Place.next ⟨b, n⟩ u = ⟨.operand, n - 1⟩ := by
  rw [Place.next, closes]
  rfl

theorem after_enclosed (p : Place) (tokens : List Token) :
    p.after (t :: (tokens ++ [u])) = ((p.next t).after tokens).next u :=
  foldl_append

include opens closes

theorem marks_enclosed (p : Place) (tokens : List Token) :
    p.marks (t :: (tokens ++ [u])) = (p.next t).marks tokens := by
  have open_ : p.mark t = none := by simp [Place.mark, isLiteral, opens]
  have close : ∀ q : Place, q.mark u = none := by simp [Place.mark, isLiteral, closes]
  rw [Place.marks, open_, Place.marks_append, Place.marks, close]
  exact append_nil _

theorem Shows.unended_enclosed (inner : Shows .opening tokens leaves c) :
    ∀ w ∈ t :: (tokens ++ [u]), w.kind ≠ .semicolon := by
  refine forall_mem_cons.mpr ⟨by simp [opens], forall_mem_append.mpr ⟨inner.unended, ?_⟩⟩
  exact forall_mem_singleton.mpr (by simp [closes])

theorem Shows.hidden_enclosed (inner : Shows .opening tokens leaves c) (e : Before) (n : Nat) :
    Place.marks ⟨e, n + 1⟩ (t :: (tokens ++ [u])) = [] ∧
      ∃ e', Place.after ⟨e, n + 1⟩ (t :: (tokens ++ [u])) = ⟨e', n + 1⟩ := by
  obtain ⟨nothing, f, inside⟩ := inner.hidden .opening (n + 1)
  rw [marks_enclosed opens closes, after_enclosed, next_opening opens,
    if_neg fun top => Nat.succ_ne_zero n top.1, nothing, inside, next_closing closes]
  exact ⟨rfl, _, rfl⟩

theorem Shows.parens (inner : Shows .opening tokens leaves c) (kept : b ≠ .member false) :
    Shows b (t :: (tokens ++ [u])) leaves .operand where
  marks := by rw [marks_enclosed opens closes, next_opening opens, if_pos ⟨rfl, kept⟩, inner.marks]
  after := by
    rw [after_enclosed, next_opening opens, if_pos ⟨rfl, kept⟩, inner.after, next_closing closes]
  hidden := inner.hidden_enclosed opens closes
  unended := inner.unended_enclosed opens closes

theorem Shows.dropped (inner : Shows .opening tokens leaves c) :
    Shows (.member false) (t :: (tokens ++ [u])) [] .operand := by
  obtain ⟨nothing, f, inside⟩ := inner.hidden .opening 0
  refine ⟨?_, ?_, inner.hidden_enclosed opens closes, inner.unended_enclosed opens closes⟩
  · rw [marks_enclosed opens closes, next_opening opens, if_neg fun top => top.2 rfl, nothing]
    rfl
  · rw [after_enclosed, next_opening opens, if_neg fun top => top.2 rfl, inside,
      next_closing closes]

end Parentheses

/-! ## Levels -/

/-- The tokens show the literals of a node, and end with an operand. -/
def Shown (tokens : List Token) (node : Node) : Prop :=
  ∃ later, Shows .opening tokens node.literals later ∧ later ≠ .opening

def ShownList (tokens : List Token) (nodes : List Node) : Prop :=
  ∃ later, Shows .opening tokens (Node.listLiterals nodes) later

theorem shown_literal {t : Token} (is : isLiteral t = true) : Shown [t] (literalNode t) := by
  refine ⟨.operand, ?_, nofun⟩
  have leaf : (literalNode t).literals = [literalNode t] := by
    unfold literalNode
    split <;> rfl
  rw [leaf]
  exact .literal is

theorem takes_level {isOp : Token → Bool} {build : Node → String → Node → Node}
    {operand : Parser Node} {start : State → Prop} (h : ∀ {start}, Takes start operand Shown)
    (builds : ∀ left op right, (build left op right).literals = left.literals ++ right.literals) :
    Takes start (level isOp build operand) Shown := by
  refine h.bind fun first => (Takes.loop (P := Shown) (fun _ => asks_nextIs isOp) ?_ first).mono ?_
  · intro left w _
    refine (Takes.expectText .op).bind fun op => h.bind fun right => .pure ?_
    rintro used ⟨c, right, ended⟩ _ ⟨w, is, rfl⟩ front ⟨b, left, after⟩
    refine ⟨c, ?_, ended⟩
    rw [builds, append_nil]
    exact left.append ((Shows.operator is (.inr after)).append right)
  · exact fun later node kept used shown => kept used shown

/-! ## Factors -/

/-- What stands before the token after a name with indices and properties. -/
inductive Chained : Before → Node → Prop
  | name (v : String) : Chained .name (.var v)
  | operand {node : Node} (longer : ∀ v, node ≠ .var v) : Chained .operand node
  | member {node : Node} (keeps : Bool) (longer : ∀ v, node ≠ .var v) :
    Chained (.member keeps) node

theorem Chained.point {b : Before} {node : Node} {w n : Token} (chained : Chained b node)
    (isPoint : w.kind = .dot) (isName : n.kind = .ident) :
    Shows b [w, n] [] (.member (b = .name)) := by
  cases chained with
  | name | operand | member => exact (Shows.plain isPoint rfl).append (Shows.plain isName rfl)

def ShownChain (tokens : List Token) (node : Node) : Prop :=
  ∃ later, Shows .opening tokens node.literals later ∧ Chained later node

section Factors

variable {start : State → Prop} {factor : Parser Node}
  (h : ∀ {start : State → Prop}, Takes start factor Shown)

include h

theorem takes_orOver : Takes start (orOver factor) Shown := by
  have binary : ∀ left op right,
      (binaryNode left op right).literals = left.literals ++ right.literals :=
    fun _ _ _ => by rw [binaryNode, Node.literals]
  have comparison : ∀ left op right,
      (comparisonNode left op right).literals = left.literals ++ right.literals :=
    fun _ _ _ => by rw [comparisonNode, Node.literals]
  have term : ∀ {start}, Takes start (termOver factor) Shown :=
    takes_level (takes_level h binary) binary
  have compared : ∀ {start}, Takes start (comparisonOver factor) Shown :=
    takes_level (takes_level term binary) comparison
  exact takes_level (takes_level compared binary) binary

theorem takes_elementsOver (close : Kind) : Takes start (elementsOver factor close) ShownList := by
  refine Takes.nextKind.bind fun kind => .ite (fun _ => .pure ?_) fun _ => ?_
  · rintro _ rfl
    exact ⟨.opening, .nil _⟩
  refine (takes_orOver h).bind fun first =>
    (Takes.loop (P := ShownList) (fun _ => asks_nextIs _) ?_ [first]).mono ?_
  · intro elements w isComma
    refine Takes.advance.bind fun _ => (takes_orOver h).bind fun element => .pure ?_
    rintro used ⟨c, shown, _⟩ _ rfl front ⟨b, elements⟩
    refine ⟨c, ?_⟩
    rw [Node.listLiterals_append, Node.listLiterals_singleton, append_nil]
    exact elements.append ((Shows.plain (of_decide_eq_true isComma) rfl).append shown)
  · rintro later nodes kept used ⟨b, shown, _⟩ _ rfl
    exact kept used ⟨b, by rwa [Node.listLiterals_singleton]⟩

/-- The tokens show arguments in parentheses. -/
def Enclosed (tokens : List Token) (arguments : Option (List Node)) : Prop :=
  ∃ nodes t inner u, arguments = some nodes ∧ tokens = t :: (inner ++ [u]) ∧ t.kind = .lparen ∧
    u.kind = .rparen ∧ ShownList inner nodes

theorem takes_argumentsOver : Takes start (argumentsOver factor) Enclosed := by
  refine (Takes.demand .lparen).bind fun _ => Takes.nextKind.bind fun kind =>
    .ite (fun _ => ?_) fun _ => ?_
  · refine (Takes.demand .rparen).bind fun _ => .pure ?_
    rintro _ ⟨u, closes, rfl⟩ _ rfl _ ⟨t, opens, rfl⟩
    exact ⟨[], t, [], u, rfl, rfl, opens, closes, .opening, .nil _⟩
  refine (takes_orOver h).bind fun first => .bind
    (Takes.loop
      (P := fun front arguments => ∃ nodes, arguments = some nodes ∧ ShownList front nodes)
      (fun arguments => (asks_nextIs _).guarded _) ?_ (some [first])) fun arguments => ?_
  · intro arguments w isComma
    refine Takes.advance.bind fun _ => .asked (asks_nextIs _) (fun _ _ => ?_) ?_
    · exact .peek (Takes.complains (.pure trivial)) fun _ => Takes.complains (.pure trivial)
    · refine (takes_orOver h).bind fun argument => .pure ?_
      rintro used ⟨c, shown, _⟩ _ rfl front ⟨nodes, rfl, b, elements⟩
      refine ⟨nodes ++ [argument], rfl, c, ?_⟩
      rw [Node.listLiterals_append, Node.listLiterals_singleton, append_nil]
      exact elements.append ((Shows.plain (of_decide_eq_true isComma) rfl).append shown)
  · refine .ite (fun _ => (Takes.demand .rparen).bind fun _ => .pure ?_) fun absent => .pure ?_
    · rintro _ ⟨u, closes, rfl⟩ later kept used ⟨b, shown, _⟩ _ rfl _ ⟨t, opens, rfl⟩
      obtain ⟨nodes, rfl, all⟩ := kept used ⟨_, rfl, b, by rwa [Node.listLiterals_singleton]⟩
      refine ⟨nodes, t, used ++ later, u, rfl, ?_, opens, closes, all⟩
      simp
    · rintro later kept used ⟨b, shown, _⟩
      obtain ⟨nodes, rfl, _⟩ := kept used ⟨_, rfl, b, by rwa [Node.listLiterals_singleton]⟩
      exact absurd rfl absent

def ShownPairs (tokens : List Token) (pairs : List (Node × Node)) : Prop :=
  ∃ later, Shows .opening tokens (Node.pairLiterals pairs) later

theorem takes_pairOver :
    Takes start (pairOver factor) fun used pair => ShownPairs used [pair] := by
  refine (takes_orOver h).bind fun key => (Takes.demand .colon).bind fun _ =>
    (takes_orOver h).bind fun value => .pure ?_
  rintro used ⟨c, valueShown, _⟩ _ ⟨w, isColon, rfl⟩ front ⟨b, keyShown, _⟩
  refine ⟨c, ?_⟩
  rw [Node.pairLiterals_singleton, append_nil]
  exact keyShown.append ((Shows.plain isColon rfl).append valueShown)

theorem takes_dictionaryOver : Takes start (dictionaryOver factor) Shown := by
  have closing : ∀ {start pairs}, Takes start (do demand .rbrace; return Node.dictionary pairs)
      fun used node => ∀ inner, ShownPairs inner pairs → ∀ front,
        (∃ w, w.kind = .lbrace ∧ front = [w]) → Shown (front ++ (inner ++ used)) node := by
    refine (Takes.demand .rbrace).bind fun _ => .pure ?_
    rintro _ ⟨u, closes, rfl⟩ inner ⟨b, shown⟩ _ ⟨t, opens, rfl⟩
    refine ⟨.operand, ?_, nofun⟩
    exact shown.enclosed (by decide) opens closes
  refine (Takes.demand .lbrace).bind fun _ => .asked (asks_nextIs _) (fun w _ => ?_) ?_
  · refine (takes_pairOver h).bind fun first => .bind
      (Takes.loop (P := fun front state => ShownPairs front state.1)
        (fun state => (asks_nextIs _).guarded _) ?_ ([first], true)) fun state =>
      closing.mono ?_
    · intro state w isComma
      refine Takes.advance.bind fun _ => .asked (asks_nextIs _) (fun _ _ => .pure ?_) ?_
      · rintro _ rfl front ⟨b, shown⟩
        refine ⟨.opening, ?_⟩
        rw [← append_nil (Node.pairLiterals state.1)]
        exact shown.append (Shows.plain (of_decide_eq_true isComma) rfl)
      · refine (takes_pairOver h).bind fun pair => .pure ?_
        rintro used ⟨c, shown⟩ _ rfl front ⟨b, pairs⟩
        refine ⟨c, ?_⟩
        rw [Node.pairLiterals_append, append_nil]
        exact pairs.append ((Shows.plain (of_decide_eq_true isComma) rfl).append shown)
    · intro used node closed later kept front shown before opened
      rw [← append_assoc front]
      exact closed (front ++ later) (kept front shown) before opened
  · refine closing.mono fun used node closed front opened => ?_
    exact closed [] ⟨.opening, .nil _⟩ front opened

theorem takes_castOver (t : Token) (is : isTypeKind t.kind = true) :
    Takes (At t) (castOver factor) Shown := by
  refine .peekAt (Takes.advance.bind fun _ => (Takes.checkDialect t).bind fun _ =>
    (Takes.demand .lparen).bind fun _ => (takes_orOver h).bind fun operand =>
      (Takes.demand .rparen).bind fun _ => .pure ?_)
  rintro _ ⟨u, closes, rfl⟩ inner ⟨c, shown, _⟩ _ ⟨w, opens, rfl⟩ _ rfl _ rfl
  refine ⟨.operand, ?_, nofun⟩
  exact (Shows.typeWord is).append (shown.parens opens closes nofun)

theorem takes_inputOver : Takes start (inputOver factor) Shown := by
  refine (Takes.expectChecked _).bind fun _ => (Takes.demand .lparen).bind fun _ =>
    (takes_orOver h).bind fun prompt => (Takes.demand .rparen).bind fun _ => .pure ?_
  rintro _ ⟨u, closes, rfl⟩ inner ⟨c, shown, _⟩ _ ⟨t, opens, rfl⟩ _ ⟨w, word, rfl⟩
  refine ⟨.operand, ?_, nofun⟩
  exact (Shows.plain word rfl).append (shown.parens opens closes nofun)

theorem takes_indicesOver (node : Node) : Takes start (indicesOver factor node)
    fun used after => ∀ front, ShownChain front node → ShownChain (front ++ used) after := by
  refine Takes.loop (fun _ => asks_nextIs _) (fun node w isOpen => ?_) node
  refine Takes.advance.bind fun _ => (takes_orOver h).bind fun index =>
    (Takes.demand .rbracket).bind fun _ => .pure ?_
  rintro _ ⟨u, closes, rfl⟩ inner ⟨c, shown, _⟩ _ rfl front ⟨b, base, _⟩
  refine ⟨.operand, ?_, .operand nofun⟩
  exact base.append (shown.enclosed (by decide) (of_decide_eq_true isOpen) closes)

theorem takes_propertiesOver (node : Node) : Takes start (propertiesOver factor node)
    fun used after => ∀ front, ShownChain front node → ShownChain (front ++ used) after := by
  refine Takes.loop (fun _ => asks_nextIs _) (fun node w isPoint => ?_) node
  refine Takes.advance.bind fun _ => (Takes.expectText .ident).bind fun name =>
    .asked (asks_nextIs _) (fun _ _ => (takes_argumentsOver h).bind fun arguments => ?_) (.pure ?_)
  · split
    · refine .pure ?_
      rintro _ ⟨nodes, o, inner, u, rfl, rfl, opens, closes, c, shown⟩ _ ⟨n, isName, rfl⟩ _ rfl
        front ⟨b, base, chained⟩
      refine ⟨.operand, ?_, .operand nofun⟩
      have called := chained.point (of_decide_eq_true isPoint) isName
      cases chained with
      | name =>
        have arguments := shown.parens (b := .member true) opens closes nofun
        simpa [Node.literals, Node.argumentLiterals] using base.append (called.append arguments)
      | operand longer | member keeps longer => exact absurd rfl (longer _)
    · next longer =>
      refine .pure ?_
      rintro _ ⟨nodes, o, inner, u, rfl, rfl, opens, closes, c, shown⟩ _ ⟨n, isName, rfl⟩ _ rfl
        front ⟨b, base, chained⟩
      refine ⟨.operand, ?_, .operand nofun⟩
      have called := chained.point (of_decide_eq_true isPoint) isName
      have other : decide (b = .name) = false := by
        cases chained with
        | name v => exact absurd rfl (longer v)
        | operand | member => rfl
      rw [other] at called
      have arguments := shown.dropped opens closes
      simpa [Node.literals] using base.append (called.append arguments)
  · rintro _ ⟨n, isName, rfl⟩ _ rfl front ⟨b, base, chained⟩
    refine ⟨.member (b = .name), ?_, .member _ nofun⟩
    have called := chained.point (of_decide_eq_true isPoint) isName
    simpa [Node.literals] using base.append called

theorem takes_referenceOver (t : Token)
    (is : t.kind = .ident ∨ t.kind = .keyword .length ∨ t.kind = .keyword .this) :
    Takes (At t) (referenceOver factor t) Shown := by
  have named : Shows .opening [t] [] .name := by
    rcases is with kind | kind | kind
    · exact .plain kind rfl
    · exact .plain kind rfl
    · exact .plain kind rfl
  have chain : ∀ {start} (node : Node), Takes start (do
        let node ← indicesOver factor node
        propertiesOver factor node)
      fun used after => ∀ front, ShownChain front node → Shown (front ++ used) after := by
    intro start node
    refine (takes_indicesOver h node).bind fun node => (takes_propertiesOver h node).mono ?_
    intro later after kept used indexed front base
    rw [← append_assoc]
    obtain ⟨c, shown, chained⟩ := kept _ (indexed front base)
    refine ⟨c, shown, ?_⟩
    cases chained <;> exact nofun
  refine .checked (Takes.advance.bind fun _ => .asked (asks_nextIs _) (fun _ _ => ?_) ?_)
  · refine (takes_argumentsOver h).bind fun arguments => (chain _).mono ?_
    rintro later node kept used ⟨nodes, w, inner, u, rfl, rfl, opens, closes, c, shown⟩ _ rfl
    refine kept (t :: w :: (inner ++ [u])) ⟨.operand, ?_, .operand nofun⟩
    exact named.append (shown.parens opens closes nofun)
  · refine (chain _).mono ?_
    rintro later node kept _ rfl
    exact kept [t] ⟨.name, named, .name _⟩

theorem takes_newObjectOver (t : Token) (is : t.kind = .keyword .new) :
    Takes (At t) (newObjectOver factor t) Shown := by
  refine .checked (Takes.advance.bind fun _ => (Takes.expectText .ident).bind fun name =>
    .ite (fun _ => .pure ?_) fun _ => (takes_argumentsOver h).bind fun arguments => .pure ?_)
  · rintro _ ⟨n, isName, rfl⟩ _ rfl
    exact ⟨.name, (Shows.plain is rfl).append (Shows.plain isName rfl), nofun⟩
  · rintro _ ⟨nodes, w, inner, u, rfl, rfl, opens, closes, c, shown⟩ _ ⟨n, isName, rfl⟩ _ rfl
    refine ⟨.operand, ?_, nofun⟩
    rw [append_nil]
    exact (Shows.plain is rfl).append ((Shows.plain isName rfl).append
      (shown.parens opens closes nofun))

theorem takes_superOver (t : Token) (is : t.kind = .keyword .super) :
    Takes (At t) (superOver factor t) Shown := by
  refine .checked (Takes.advance.bind fun _ => (Takes.demand .dot).bind fun _ =>
    (Takes.expectText .ident).bind fun method =>
      .asked (asks_nextIs _) (fun _ _ => ?_) (.failNode _ _))
  refine (takes_argumentsOver h).bind fun arguments => .pure ?_
  rintro _ ⟨nodes, w, inner, u, rfl, rfl, opens, closes, c, shown⟩ _ ⟨n, isName, rfl⟩
    _ ⟨p, isPoint, rfl⟩ _ rfl
  refine ⟨.operand, ?_, nofun⟩
  rw [append_nil]
  exact (Shows.plain is rfl).append ((Shows.plain isPoint rfl).append
    ((Shows.plain isName rfl).append (shown.parens opens closes nofun)))

theorem takes_arrayOver (t : Token) (is : t.kind = .lbracket) :
    Takes (At t) (arrayOver factor) Shown := by
  refine Takes.advance.bind fun _ => (takes_elementsOver h .rbracket).bind fun elements =>
    (Takes.demand .rbracket).bind fun _ => .pure ?_
  rintro _ ⟨u, closes, rfl⟩ inner ⟨c, shown⟩ _ rfl
  refine ⟨.operand, ?_, nofun⟩
  exact shown.enclosed (by decide) is closes

theorem takes_groupOver (t : Token) (is : t.kind = .lparen) :
    Takes (At t) (groupOver factor) Shown := by
  refine Takes.advance.bind fun _ => (takes_orOver h).bind fun inner =>
    (Takes.demand .rparen).bind fun _ => .pure ?_
  rintro _ ⟨u, closes, rfl⟩ used ⟨c, shown, _⟩ _ rfl
  exact ⟨.operand, shown.parens is closes nofun, nofun⟩

theorem takes_factorStep : Takes start (factorStep factor) Shown := by
  refine .peek (.throw _) fun t => .ite (fun minus => ?_) fun _ => .ite (fun plus => ?_) fun _ => ?_
  · simp only [Bool.and_eq_true, decide_eq_true_eq] at minus
    refine Takes.advance.bind fun _ => h.bind fun operand => .pure ?_
    rintro used ⟨c, shown, ended⟩ _ rfl
    refine ⟨c, ?_, ended⟩
    rw [append_nil]
    exact (Shows.sign minus.1 minus.2).append shown
  · simp only [Bool.and_eq_true, decide_eq_true_eq] at plus
    have payload : t.payload = .text "+" := by simpa [Token.hasText] using plus.2
    have other : t.hasText "-" = false := Token.hasText_eq payload "-"
    refine Takes.advance.bind fun _ => h.mono ?_
    rintro used node ⟨c, shown, ended⟩ _ rfl
    exact ⟨c, (Shows.operator plus.1 (.inl other)).append shown, ended⟩
  cases kind : t.kind with
  | number =>
    have shown := shown_literal (t := t) (by simp [isLiteral, kind])
    refine Takes.advance.bind fun _ => ?_
    cases payload : t.payload with
    | number n | text s =>
      refine .pure ?_
      rintro _ rfl
      rwa [literalNode, kind, payload] at shown
  | string =>
    have shown := shown_literal (t := t) (by simp [isLiteral, kind])
    refine Takes.advance.bind fun _ => .pure ?_
    rintro _ rfl
    rwa [literalNode, kind] at shown
  | ident => exact takes_referenceOver h t (.inl kind)
  | lbracket => exact takes_arrayOver h t kind
  | lbrace =>
    refine Takes.opensDictionary.bind fun opened => .ite (fun _ => ?_) fun _ => .failNode _ _
    refine (takes_dictionaryOver h).mono ?_
    rintro used node shown _ rfl
    exact shown
  | lparen => exact takes_groupOver h t kind
  | keyword k =>
    cases k with
    | yes | no =>
      refine .checked (Takes.advance.bind fun _ => .pure ?_)
      rintro _ rfl
      exact ⟨.operand, .plain kind rfl, by decide⟩
    | new => exact takes_newObjectOver h t kind
    | super => exact takes_superOver h t kind
    | length => exact takes_referenceOver h t (.inr (.inl kind))
    | this => exact takes_referenceOver h t (.inr (.inr kind))
    | intType | textType | boolType | floatType => exact takes_castOver h t (kind ▸ rfl)
    | input => exact takes_inputOver h
    | _ => exact .failNode _ _
  | _ => exact .failNode _ _

end Factors

theorem takes_factorAt (n : Nat) {start : State → Prop} : Takes start (factorAt n) Shown := by
  induction n generalizing start with
  | zero => exact .throw _
  | succ n ih => exact takes_factorStep ih

theorem takes_orExpression {start : State → Prop} : Takes start orExpression Shown :=
  fun s a t => takes_orOver (takes_factorAt _) s a t

/-- The literals of an expression are the numbers and strings it was read from, in their order, and
a zero for each sign `-`, except for those in dropped arguments. So no literal is lost exactly if
none stands in dropped arguments. -/
theorem leaves_orExpression {s t : State} {node : Node} (read : orExpression s = .ok node t)
    (quiet : t.complaints = s.complaints) :
    node.literals = (Place.marks {} (s.readTo t)).map Mark.node ∧
      ((Place.marks {} (s.readTo t)).filterMap Mark.token? = (s.readTo t).filter isLiteral ↔
        Place.lost {} (s.readTo t) = []) := by
  have expression : Takes Anywhere orExpression Shown := takes_orExpression
  obtain ⟨_, shown, _⟩ := (expression s node t trivial read).2 quiet
  exact ⟨shown.marks.symm, Place.marks_eq_iff _ _⟩

/-- Tokens with a call of `f` on them. -/
def calledWith (front : List Token) (argument : Token) : List Token :=
  front ++ [⟨.dot, .text ".", 1, 1⟩, ⟨.ident, .text "f", 1, 1⟩, ⟨.lparen, .text "(", 1, 1⟩,
    argument, ⟨.rparen, .text ")", 1, 1⟩]

/-- `-a.f(5)`: a sign and a method called on a plain name. -/
theorem leaves_orExpression_sign :
    let five : Token := ⟨.number, .number (.int 5), 1, 1⟩
    let tokens := calledWith [⟨.op, .text "-", 1, 1⟩, ⟨.ident, .text "a", 1, 1⟩] five
    let node : Node := .binary (.number (.int 0)) .sub (.call "a.f" (some [.number (.int 5)]))
    orExpression { tokens := tokens.toArray } = .ok node { tokens := tokens.toArray, pos := 7 } ∧
      node.literals = (Place.marks {} tokens).map Mark.node ∧
      (Place.marks {} tokens).filterMap Mark.token? = [five] := by
  intro five tokens node
  have read : orExpression { tokens := tokens.toArray } =
      .ok node { tokens := tokens.toArray, pos := 7 } := rfl
  obtain ⟨leaves, complete⟩ := leaves_orExpression read rfl
  exact ⟨read, leaves, complete.mpr rfl⟩

/-- `a.b.f(5)` is read without a problem, and its tree does not tell of the `5`. -/
theorem number_lost :
    let tokens := calledWith
      [⟨.ident, .text "a", 1, 1⟩, ⟨.dot, .text ".", 1, 1⟩, ⟨.ident, .text "b", 1, 1⟩]
      ⟨.number, .number (.int 5), 1, 1⟩
    orExpression { tokens := tokens.toArray } =
        .ok (.property (.property (.var "a") "b") "f") { tokens := tokens.toArray, pos := 8 } ∧
      Node.literals (.property (.property (.var "a") "b") "f") = [] ∧
      (tokens.filter isLiteral).length = 1 :=
  ⟨rfl, rfl, rfl⟩

end Parser

end Hetman
