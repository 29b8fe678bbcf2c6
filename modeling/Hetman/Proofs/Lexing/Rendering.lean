import Hetman.Proofs.Lexing.Layout

/-!
# Writing tokens out again

The lexemes of a text that give tokens, with a space between them, give the same tokens. The one
thing to see to is an operator that begins like a comment: it stays an operator because the text
after it closes no comment, and what is kept of that text closes none either
(`closing_of_rendered`).
-/

namespace Hetman

open List

variable {pieces : List Piece} {front rest : List Char} {α : Type} {sep : α}

namespace Lexer

/-- Lexemes with a space between them. -/
def rendered (pieces : List Piece) : List Char :=
  [' '].intercalate (pieces.map Piece.text)

theorem rendered_cons_cons (piece next : Piece) (pieces : List Piece) :
    rendered (piece :: next :: pieces) = piece.text ++ ' ' :: rendered (next :: pieces) := by
  rfl

theorem rendered_singleton (piece : Piece) : rendered [piece] = piece.text := by
  rw [rendered, map_singleton, intercalate_singleton]

/-! ## Comments are not closed -/

theorem closing_append {c : Char} (other : c ∉ ['*', '/']) (closing : Closing (front ++ c :: rest)) :
    Closing front ∨ Closing rest := by
  rcases infix_append_iff.mp closing with first | later | ⟨l, r, split, suffix, start⟩
  · exact .inl first
  · rcases infix_cons_iff.mp later with start | inside
    · obtain ⟨rfl, -⟩ := cons_prefix_cons.mp start
      exact absurd mem_cons_self other
    · exact .inr inside
  · rcases r with _ | ⟨d, r⟩
    · rw [append_nil] at split
      subst split
      exact .inl suffix.isInfix
    · obtain ⟨rfl, -⟩ := cons_prefix_cons.mp start
      exact absurd (split ▸ mem_append_right l mem_cons_self) other

theorem closing_of_rendered (closing : Closing (rendered pieces)) :
    ∃ piece ∈ pieces, Closing piece.text := by
  induction pieces with
  | nil => cases eq_nil_of_infix_nil closing
  | cons piece pieces ih =>
    rcases pieces with _ | ⟨next, pieces⟩
    · rw [rendered_singleton] at closing
      exact ⟨piece, mem_cons_self, closing⟩
    · rw [rendered_cons_cons] at closing
      rcases closing_append (by decide) closing with own | later
      · exact ⟨piece, mem_cons_self, own⟩
      · obtain ⟨other, member, inside⟩ := ih later
        exact ⟨other, mem_cons_of_mem _ member, inside⟩

/-! ## Lexemes before a space -/

/-- A lexeme with a token is the same before a space and more text that closes a comment only where
the old text did. -/
theorem lexeme_before_space {more : List Char} {shape : Shape} (nonempty : front ≠ [])
    (read : lexeme (front ++ rest) = (shape, front.length)) (silent : shape.isSilent = false)
    (known : shape ≠ .stray) (kept : Closing more → Closing rest) :
    lexeme (front ++ ' ' :: more) = (shape, front.length) := by
  have cut := lexeme_cut read
  have noComment : shape ≠ .comment := by
    rintro rfl
    cases silent
  have noBlank : shape ≠ .blank := by
    rintro rfl
    cases silent
  have open_ : commentLength (front ++ rest) = 0 := by
    by_contra fits
    have comment := lexeme_comment fits
    rw [read] at comment
    exact noComment comment
  refine (lexeme_append nonempty (by decide) ?_ ?_ ?_ ?_).trans cut
  · rw [cut]
    exact known
  · rintro ⟨body, rfl⟩
    exact absurd open_ (by simp [commentLength_line])
  · rintro body rfl closing
    rcases closing_append (by decide) closing with own | later
    · exact own
    · have nothing : ¬ Closing (body ++ rest) := commentLength_block_eq_zero_iff.mp open_
      exact absurd ((kept later).trans (suffix_append body rest).isInfix) nothing
  · intro head
    obtain ⟨c, front, rfl⟩ := exists_cons_of_ne_nil nonempty
    have blank := lexeme_blanks (show c = ' ' ∨ c = '\t' by simpa using head) front
    rw [cut] at blank
    exact absurd blank noBlank

def space : Piece :=
  ⟨.blank, [' ']⟩

theorem lexeme_space {next : Piece} (legible : next.Legible) (given : next.label?.isSome = true)
    (nonempty : next.text ≠ []) (read : lexeme next.text = (next.shape, next.text.length)) :
    lexeme (' ' :: rendered (next :: pieces)) = (.blank, 1) := by
  refine lexeme_blank fun c head => ?_
  obtain ⟨d, text, own⟩ := exists_cons_of_ne_nil nonempty
  have same : c = d := by
    rcases pieces with _ | ⟨other, pieces⟩
    · rw [rendered_singleton, own] at head
      exact (Option.some.inj head).symm
    · rw [rendered_cons_cons, own] at head
      exact (Option.some.inj head).symm
  subst same
  rcases test : (c = ' ' || c = '\t') with _ | _
  · rfl
  have shape := lexeme_blanks (show c = ' ' ∨ c = '\t' by simpa using test) text
  rw [← own, read] at shape
  have silent := legible.isSome_label?_iff.mp given
  rw [show next.shape = .blank from shape] at silent
  cases silent

/-- A text written out again is cut as it was, with the spaces put in. -/
theorem cuts_rendered {text : List Char} (cuts : Cuts text pieces)
    (legible : ∀ piece ∈ pieces, piece.Legible) :
    Cuts (rendered (voiced pieces)) ((voiced pieces).intersperse space) := by
  induction cuts with
  | nil => exact .nil
  | @cons front rest shape pieces filled read later ih =>
    rw [forall_mem_cons] at legible
    have others := ih legible.2
    rw [voiced_cons]
    split
    · next given =>
      rcases kept : voiced pieces with _ | ⟨next, more⟩
      · have alone : Cuts (front ++ []) [⟨shape, front⟩] :=
          .cons filled (by rw [append_nil, lexeme_cut read]) .nil
        rw [rendered_singleton]
        rw [append_nil] at alone
        exact alone
      · rw [kept] at others
        have inside : ∀ piece ∈ next :: more, piece ∈ pieces ∧ piece.label?.isSome = true :=
          fun piece member => mem_filter.mp (show piece ∈ voiced pieces from kept ▸ member)
        obtain ⟨member, label⟩ := inside next mem_cons_self
        obtain ⟨nonempty, own⟩ := later.read_of_mem member
        have before : lexeme (front ++ ' ' :: rendered (next :: more)) = (shape, front.length) := by
          refine lexeme_before_space filled read (legible.1.isSome_label?_iff.mp given)
            legible.1.known fun closing => ?_
          obtain ⟨piece, present, closes⟩ := closing_of_rendered closing
          exact closes.trans (later.inside_of_mem (inside piece present).1)
        have gap : Cuts ([' '] ++ rendered (next :: more))
            (space :: (next :: more).intersperse space) :=
          .cons (by decide) (lexeme_space (legible.2 next member) label nonempty own) others
        exact .cons filled before gap
    · exact others

theorem mem_of_mem_intersperse {x : α} {xs : List α} (member : x ∈ xs.intersperse sep) :
    x = sep ∨ x ∈ xs := by
  induction xs with
  | nil => cases member
  | cons y ys ih =>
    rcases ys with _ | ⟨z, zs⟩
    · exact .inr member
    · rw [intersperse_cons_cons] at member
      rcases mem_cons.mp member with rfl | later
      · exact .inr mem_cons_self
      · rcases mem_cons.mp later with rfl | inside
        · exact .inl rfl
        · exact (ih inside).imp_right (mem_cons_of_mem y)

theorem filterMap_intersperse {β : Type} {f : α → Option β} (silent : f sep = none) (xs : List α) :
    (xs.intersperse sep).filterMap f = xs.filterMap f := by
  induction xs with
  | nil => rfl
  | cons x xs ih =>
    rcases xs with _ | ⟨y, ys⟩
    · rfl
    · rw [intersperse_cons_cons, filterMap_cons, filterMap_cons_none silent, ih,
        filterMap_cons (a := x)]

theorem filterMap_voiced (pieces : List Piece) :
    (voiced pieces).filterMap Piece.label? = pieces.filterMap Piece.label? := by
  rw [voiced, filterMap_filter]
  refine filterMap_congr fun piece _ => ?_
  cases piece.label? <;> rfl

end Lexer

/-- Where a text can be read, what its tokens were written as, joined by single spaces, can be read
as well and gives tokens of the same kinds and payloads. -/
theorem lex_rendered {source : String} (succeeds : (lex source).fault = none)
    {lexemes : List String}
    (written : List.Forall₂
      (fun t lexeme => ∃ offset, Token.Stands source.toList t ⟨offset, lexeme.toList⟩)
      (lex source).tokens lexemes) :
    (lex (" ".intercalate lexemes)).fault = none ∧
      (lex (" ".intercalate lexemes)).tokens.map Token.content =
        (lex source).tokens.map Token.content := by
  obtain ⟨pieces, cuts, legible, read⟩ := Lexer.cuts_of_succeeds succeeds
  rw [read] at written ⊢
  have same : lexemes.map String.toList = (Lexer.voiced pieces).map Lexer.Piece.text :=
    Lexer.lexemes_eq cuts (List.forall₂_map_right_iff.mpr written)
  have text : (" ".intercalate lexemes).toList = Lexer.rendered (Lexer.voiced pieces) := by
    rw [String.toList_intercalate, same]
    rfl
  have again : lex (" ".intercalate lexemes) =
      ⟨Lexer.place {} ((Lexer.voiced pieces).intersperse Lexer.space), none⟩ := by
    rw [lex, text]
    refine Lexer.lexFrom_of_cuts (Lexer.cuts_rendered cuts legible) (fun piece member => ?_) {}
    rcases Lexer.mem_of_mem_intersperse member with rfl | kept
    · exact ⟨none, rfl⟩
    · exact legible piece (mem_filter.mp kept).1
  rw [again]
  refine ⟨rfl, ?_⟩
  rw [Lexer.place_content, Lexer.place_content, Lexer.filterMap_intersperse rfl,
    Lexer.filterMap_voiced]

/-- Two symbols and a word with a comment between them, and an operator that begins like one. -/
def crowdedText : String :=
  "1!x/**/-k/*"

def crowdedPieces : List Lexer.Piece :=
  [⟨.symbol, "1!".toList⟩, ⟨.word, "x".toList⟩, ⟨.comment, "/**/".toList⟩, ⟨.symbol, "-k".toList⟩,
   ⟨.op, "/*".toList⟩]

theorem crowdedText_cuts : Lexer.Cuts crowdedText.toList crowdedPieces := by
  obtain ⟨first, second, third, fourth, fifth⟩ :
      Lexer.lexeme "1!x/**/-k/*".toList = (.symbol, 2) ∧
      Lexer.lexeme "x/**/-k/*".toList = (.word, 1) ∧
      Lexer.lexeme "/**/-k/*".toList = (.comment, 4) ∧
      Lexer.lexeme "-k/*".toList = (.symbol, 2) ∧ Lexer.lexeme "/*".toList = (.op, 2) := by
    decide
  refine @Lexer.Cuts.cons "1!".toList "x/**/-k/*".toList _ _ (by decide) first ?_
  refine @Lexer.Cuts.cons "x".toList "/**/-k/*".toList _ _ (by decide) second ?_
  refine @Lexer.Cuts.cons "/**/".toList "-k/*".toList _ _ (by decide) third ?_
  refine @Lexer.Cuts.cons "-k".toList "/*".toList _ _ (by decide) fourth ?_
  exact @Lexer.Cuts.cons "/*".toList [] _ _ (by decide) fifth .nil

theorem crowdedText_read : lex crowdedText = ⟨Lexer.place {} crowdedPieces, none⟩ := by
  refine Lexer.lexFrom_of_cuts crowdedText_cuts ?_ {}
  simp only [crowdedPieces, forall_mem_cons, not_mem_nil]
  exact ⟨⟨_, rfl⟩, ⟨_, rfl⟩, ⟨_, rfl⟩, ⟨_, rfl⟩, ⟨_, rfl⟩, fun _ => False.elim⟩

theorem lex_rendered_crowdedText :
    (lex crowdedText).fault = none ∧
      List.Forall₂
        (fun t lexeme => ∃ offset, Token.Stands crowdedText.toList t ⟨offset, lexeme.toList⟩)
        (lex crowdedText).tokens ["1!", "x", "-k", "/*"] ∧
      (lex "1! x -k /*").fault = none ∧
      (lex "1! x -k /*").tokens.map Token.content = (lex crowdedText).tokens.map Token.content := by
  have succeeds : (lex crowdedText).fault = none := by rw [crowdedText_read]
  have written : List.Forall₂
      (fun t lexeme => ∃ offset, Token.Stands crowdedText.toList t ⟨offset, lexeme.toList⟩)
      (lex crowdedText).tokens ["1!", "x", "-k", "/*"] := by
    have texts : (Lexer.voiced crowdedPieces).map Lexer.Piece.text =
        ["1!", "x", "-k", "/*"].map String.toList := by decide
    have own := Lexer.written_of_cuts crowdedText_cuts
    rw [texts, List.forall₂_map_right_iff] at own
    rw [crowdedText_read]
    exact own
  exact ⟨succeeds, written, lex_rendered succeeds written⟩

end Hetman
