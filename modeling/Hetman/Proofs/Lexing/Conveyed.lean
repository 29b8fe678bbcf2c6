import Hetman.Proofs.Lexing.Comments
import Hetman.Proofs.Lexing.Operations

/-!
# Texts put together from parts

`Conveys text ls`: a text can be read, and these are its tokens apart from their places. A text is
put together from its end. A text of which nothing is known but that it can be read may stand before
a semicolon or a closing parenthesis, unless it ends within a comment on its last line
(`OpenEnded`).
-/

namespace Hetman.Lexer

open List

variable {ls : List (Kind × Token.Payload)} {rest text front more body : List Char} {c : Char}
  {shape : Shape} {label : Kind × Token.Payload} {pieces : List Piece}

/-- A text can be read, and its tokens have these kinds and payloads. -/
def Conveys (text : List Char) (ls : List (Kind × Token.Payload)) : Prop :=
  ∃ pieces, Cuts text pieces ∧ (∀ piece ∈ pieces, piece.Legible) ∧ labels pieces = ls

theorem conveys_iff {source : String} :
    Conveys source.toList ls ↔
      (lex source).fault = none ∧ (lex source).tokens.map Token.content = ls := by
  constructor
  · rintro ⟨pieces, cuts, legible, same⟩
    rw [lex, lexFrom_of_cuts cuts legible, ← same]
    exact ⟨rfl, place_content {} pieces⟩
  · rintro ⟨succeeds, same⟩
    obtain ⟨pieces, cuts, legible, read⟩ := cuts_of_succeeds succeeds
    rw [read] at same
    exact ⟨pieces, cuts, legible, (place_content {} pieces).symm.trans same⟩

theorem conveys_nil : Conveys [] [] :=
  ⟨[], .nil, fun _ none => absurd none not_mem_nil, rfl⟩

/-! ## One lexeme before a text -/

theorem Piece.legible_of_label? {piece : Piece} (given : piece.label? = some label) :
    piece.Legible := by
  unfold Piece.label? at given
  split at given
  · next found read => exact ⟨found, read⟩
  · cases given

theorem Conveys.token (nonempty : front ≠ []) (read : lexeme (front ++ rest) = (shape, front.length))
    (given : Piece.label? ⟨shape, front⟩ = .some label) (later : Conveys rest ls) :
    Conveys (front ++ rest) (label :: ls) := by
  obtain ⟨pieces, cuts, legible, same⟩ := later
  have every : ∀ piece ∈ ⟨shape, front⟩ :: pieces, piece.Legible :=
    forall_mem_cons.mpr ⟨Piece.legible_of_label? given, legible⟩
  have labelled : labels (⟨shape, front⟩ :: pieces) = label :: ls := by
    rw [labels, filterMap_cons_some given, ← same]
    rfl
  exact ⟨_, .cons nonempty read cuts, every, labelled⟩

theorem Conveys.uncons (whole : Conveys (front ++ rest) ls) (nonempty : front ≠ [])
    (read : lexeme (front ++ rest) = (shape, front.length)) :
    ∃ later, Conveys rest later ∧ ls = (Piece.label? ⟨shape, front⟩).toList ++ later := by
  obtain ⟨pieces, cuts, legible, rfl⟩ := whole
  obtain ⟨others, after⟩ := exists_cuts rest
  obtain rfl := cuts.unique (.cons nonempty read after)
  have same : labels (⟨shape, front⟩ :: others) =
      (Piece.label? ⟨shape, front⟩).toList ++ labels others := by
    cases given : Piece.label? ⟨shape, front⟩ with
    | none => exact filterMap_cons_none given
    | some label => exact filterMap_cons_some given
  exact ⟨labels others, ⟨others, after, (forall_mem_cons.mp legible).2, rfl⟩, same⟩

theorem Conveys.name {chars : List Char} (isIdentifier : IsIdentifier chars)
    (later : Conveys (' ' :: rest) ls) :
    Conveys (chars ++ ' ' :: rest) ((.ident, .text (String.ofList chars)) :: ls) := by
  have next : Next (endsOperand · = true) (' ' :: rest) := by
    intro c head
    cases head
    decide
  have nonempty : chars ≠ [] := by
    obtain ⟨c, more, rfl, -⟩ := isIdentifier.exists_cons
    exact cons_ne_nil c more
  have given : Piece.label? ⟨.word, chars⟩ = _ :=
    Operand.label?_piece (show (Operand.name chars isIdentifier).Short from trivial)
  exact later.token nonempty (isIdentifier.lexeme_eq next) given

/-- The operators of assignments and their operations; `%=` is two of them. -/
def assignmentOperators : List String :=
  [":=", "+", "-", "*", "/", "%", "=", "+=", "-=", "*=", "/="]

theorem Conveys.op {op : String} (listed : op ∈ assignmentOperators)
    (later : Conveys (' ' :: rest) ls) :
    Conveys (op.toList ++ ' ' :: rest) ((.op, .text op) :: ls) := by
  have read : op.toList ≠ [] ∧ lexeme (op.toList ++ ' ' :: rest) = (.op, op.toList.length) := by
    simp only [assignmentOperators, mem_cons, not_mem_nil, or_false] at listed
    rcases listed with rfl | rfl | rfl | rfl | rfl | rfl | rfl | rfl | rfl | rfl | rfl <;>
      exact ⟨by decide, rfl⟩
  have given : Piece.label? ⟨.op, op.toList⟩ = .some (.op, .text op) := by
    rw [Piece.label?, token?, String.ofList_toList]
    rfl
  exact later.token read.1 read.2 given

theorem Conveys.mark {kind : Kind} (listed : marks.lookup c = some kind)
    (alone : isUnmarked c [] = true) (unnamed : isNameStart c = false) (later : Conveys rest ls) :
    Conveys (c :: rest) ((kind, .text (String.singleton c)) :: ls) :=
  later.token (cons_ne_nil c []) ((unmarked_of alone rest).lexeme_mark listed unnamed) rfl

/-! ## A space before a text -/

/-- The blanks at the start of a text are its first lexeme. -/
theorem runLength_of_cuts (nonempty : front ≠ [])
    (read : lexeme (front ++ rest) = (shape, front.length)) :
    runLength (fun c => c = ' ' || c = '\t') (front ++ rest) =
      if shape = .blank then front.length else 0 := by
  by_cases blank : shape = .blank
  · subst blank
    obtain ⟨rule, member, own, fits⟩ := lexeme_rule read Shape.noConfusion
    rw [rules_of_shape.2.2.1 rule member own] at fits
    rw [if_pos rfl, fits]
  · obtain ⟨c, front, rfl⟩ := exists_cons_of_ne_nil nonempty
    rw [if_neg blank]
    apply runLength_cons_stop
    rcases test : (c = ' ' || c = '\t') with _ | _
    · rfl
    · have shape := lexeme_blanks (show c = ' ' ∨ c = '\t' by simpa using test) (front ++ rest)
      rw [← cons_append, read] at shape
      exact absurd shape blank

/-- A space goes together with the blanks after it. -/
theorem Conveys.space (later : Conveys text ls) : Conveys (' ' :: text) ls := by
  obtain ⟨pieces, cuts, legible, rfl⟩ := later
  have silent : ∀ chars, Piece.Legible ⟨.blank, chars⟩ := fun chars => ⟨none, rfl⟩
  have alone : runLength (fun c => c = ' ' || c = '\t') text = 0 →
      Conveys (' ' :: text) (labels pieces) := by
    intro stops
    have read : lexeme ([' '] ++ text) = (.blank, 1) := by
      rw [singleton_append, lexeme_run, stops]
    exact ⟨⟨.blank, [' ']⟩ :: pieces, .cons (cons_ne_nil _ _) read cuts,
      forall_mem_cons.mpr ⟨silent _, legible⟩, labels_cons_silent rfl _ _⟩
  rcases cuts with _ | @⟨front, rest, shape, pieces, nonempty, read, after⟩
  · exact alone rfl
  · have run := runLength_of_cuts nonempty read
    by_cases blank : shape = .blank
    · subst blank
      rw [if_pos rfl] at run
      have longer : lexeme ((' ' :: front) ++ rest) = (.blank, (' ' :: front).length) := by
        rw [cons_append, lexeme_run, run, length_cons]
      rw [forall_mem_cons] at legible
      exact ⟨⟨.blank, ' ' :: front⟩ :: pieces, .cons (cons_ne_nil _ _) longer after,
        forall_mem_cons.mpr ⟨silent _, legible.2⟩, rfl⟩
    · rw [if_neg blank] at run
      exact alone run

/-! ## Any text before a semicolon or a closing parenthesis -/

/-- A text ends within a comment on its last line. -/
def OpenEnded (text : List Char) : Prop :=
  ∃ front body, Cuts text (front ++ [⟨.comment, '/' :: '/' :: body⟩])

theorem not_openEnded (free : ¬ ['/', '/'] <:+: text) : ¬ OpenEnded text := by
  intro ⟨front, body, cuts⟩
  have inside := cuts.inside_of_mem (mem_append_right front mem_cons_self)
  exact free (List.IsInfix.trans ⟨[], body, rfl⟩ inside)

theorem shape_of_slashes (nonempty : front ≠ []) (read : lexeme (front ++ rest) = (shape, front.length))
    (opens : ['/', '/'] <+: front ++ rest) :
    shape = .comment ∧ ∃ body, front = '/' :: '/' :: body ∧ '\n' ∉ body ∧
      (rest = [] ∨ rest.head? = .some '\n') := by
  obtain ⟨later, same⟩ := opens
  have fits : commentLength (front ++ rest) ≠ 0 := by
    rw [← same]
    show commentLength ('/' :: '/' :: later) ≠ 0
    rw [commentLength_line]
    omega
  have comment := lexeme_comment fits
  rw [read] at comment
  obtain rfl : shape = .comment := comment
  obtain ⟨rule, member, own, length⟩ := lexeme_rule read Shape.noConfusion
  rw [rules_of_shape.2.1 rule member own] at length
  refine ⟨rfl, ?_⟩
  rcases comment_eq nonempty length with ⟨body, rfl, -⟩ | line
  · cases same
  · exact line

/-- What may stand right after a text: a character that ends every lexeme and no comment. -/
structure Trails (c : Char) (more : List Char) : Prop where
  closer : c = ';' ∨ c = ')'
  closing : ¬ Closing more

theorem lexeme_followed (follows : Trails c more) (nonempty : front ≠ [])
    (read : lexeme (front ++ rest) = (shape, front.length)) (known : shape ≠ .stray)
    (ended : rest = [] → ¬ ['/', '/'] <+: front) :
    lexeme (front ++ (rest ++ c :: more)) = (shape, front.length) := by
  obtain ⟨closer, closing⟩ := follows
  have listed : c ∈ separators ∧ c ∉ ['*', '/'] ∧ c ≠ ' ' := by
    rcases closer with rfl | rfl
    · decide
    · decide
  rw [← append_assoc, ← read]
  apply lexeme_append (by simp [nonempty]) listed.1
  · rw [read]
    exact known
  · intro opens
    obtain ⟨-, body, rfl, -, ends⟩ := shape_of_slashes nonempty read opens
    rcases ends with none | newline
    · exact absurd ⟨body, rfl⟩ (ended none)
    · exact .inr (mem_append_right _ (mem_of_mem_head? newline))
  · intro body _ closed
    exact (closing_append listed.2.1 closed).resolve_right closing
  · exact fun _ => listed.2.2

theorem Cuts.pieces_of_nil (cuts : Cuts [] pieces) : pieces = [] :=
  cuts.unique .nil

/-- A text that does not end within a comment is cut alike before other text. -/
theorem Cuts.followed {others : List Piece} (cuts : Cuts text pieces)
    (legible : ∀ piece ∈ pieces, piece.Legible) (follows : Trails c more)
    (ended : ∀ front body, pieces ≠ front ++ [⟨.comment, '/' :: '/' :: body⟩])
    (later : Cuts (c :: more) others) : Cuts (text ++ c :: more) (pieces ++ others) := by
  induction cuts with
  | nil => exact later
  | @cons front rest shape pieces nonempty read after ih =>
    rw [forall_mem_cons] at legible
    have others := ih legible.2 fun front' body same =>
      ended (⟨shape, front⟩ :: front') body (congrArg (List.cons _) same)
    rw [append_assoc]
    apply Cuts.cons nonempty _ others
    apply lexeme_followed follows nonempty read legible.1.known
    intro last opens
    subst last
    obtain rfl := after.pieces_of_nil
    obtain ⟨rfl, body, rfl, -⟩ := shape_of_slashes nonempty read (by rwa [append_nil])
    exact ended [] body rfl

theorem lexeme_line (line : '\n' ∉ body) :
    lexeme ('/' :: '/' :: body) = (.comment, body.length + 2) := by
  have fits : commentLength ('/' :: '/' :: body) = body.length + 2 := by
    have long := drop_eq_nil_iff.mp (drop_runLength_eq_nil.mpr line)
    have within := (nearsighted_runLength (· ≠ '\n')).within body
    rw [commentLength_line]
    omega
  exact lexeme_of_rule 3 rfl (before_comment _) fits

/-- The comment at the end of a text takes in the rest of the line. -/
theorem Cuts.swallowed {front : List Piece}
    (cuts : Cuts text (front ++ [⟨.comment, '/' :: '/' :: body⟩]))
    (legible : ∀ piece ∈ front, piece.Legible) (follows : Trails c more) (line : '\n' ∉ c :: more) :
    Cuts (text ++ c :: more) (front ++ [⟨.comment, '/' :: '/' :: (body ++ c :: more)⟩]) := by
  induction front generalizing text with
  | nil =>
    obtain ⟨rest, rfl, nonempty, read, after⟩ := Cuts.uncons cuts
    obtain ⟨-, inner, same, inside, -⟩ := shape_of_slashes nonempty read ⟨body ++ rest, rfl⟩
    obtain ⟨-, same⟩ := List.cons.inj (List.cons.inj same).2
    obtain rfl : rest = [] := after.text_eq
    have longer : '\n' ∉ body ++ c :: more := by
      rw [mem_append, same]
      exact not_or.mpr ⟨inside, line⟩
    have whole := Cuts.cons (cons_ne_nil '/' ('/' :: (body ++ c :: more)))
      (by rw [append_nil]; exact lexeme_line longer) Cuts.nil
    rw [append_nil] at whole ⊢
    exact whole
  | cons piece front ih =>
    obtain ⟨rest, rfl, nonempty, read, after⟩ := Cuts.uncons cuts
    rw [forall_mem_cons] at legible
    rw [append_assoc]
    apply Cuts.cons nonempty _ (ih after legible.2)
    apply lexeme_followed follows nonempty read legible.1.known
    intro last
    subst last
    have nothing := after.pieces_of_nil
    exact absurd nothing (append_ne_nil_of_right_ne_nil front (cons_ne_nil _ _))

theorem Conveys.followed {ls' : List (Kind × Token.Payload)} (first : Conveys text ls)
    (ended : ¬ OpenEnded text) (follows : Trails c more) (later : Conveys (c :: more) ls') :
    Conveys (text ++ c :: more) (ls ++ ls') := by
  obtain ⟨pieces, cuts, legible, rfl⟩ := first
  obtain ⟨others, cuts', legible', rfl⟩ := later
  have whole := cuts.followed legible follows (fun front body same =>
    ended ⟨front, body, same ▸ cuts⟩) cuts'
  exact ⟨pieces ++ others, whole, forall_mem_append.mpr ⟨legible, legible'⟩,
    labels_append pieces others⟩

theorem Conveys.swallowed (first : Conveys text ls) (opened : OpenEnded text)
    (follows : Trails c more) (line : '\n' ∉ c :: more) : Conveys (text ++ c :: more) ls := by
  obtain ⟨pieces, cuts, legible, rfl⟩ := first
  obtain ⟨front, body, cuts'⟩ := opened
  obtain rfl := cuts.unique cuts'
  have early := (forall_mem_append.mp legible).1
  have silent : Piece.Legible ⟨.comment, '/' :: '/' :: (body ++ c :: more)⟩ := ⟨none, rfl⟩
  refine ⟨_, cuts.swallowed early follows line, ?_, ?_⟩
  · exact forall_mem_append.mpr ⟨early, forall_mem_singleton.mpr silent⟩
  · rw [labels_append, labels_append]
    rfl

end Hetman.Lexer
