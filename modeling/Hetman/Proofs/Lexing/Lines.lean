import Hetman.Proofs.Lexing.Layout

/-!
# Reading line by line

A text and another one on the lines after it give the tokens of the first and then those of the
second, moved down. Every lexeme ends at a line end or before, but for a mark that opens a comment
which its own text does not close: the lines after it may. So the first text must have no such
operator.
-/

namespace Hetman

open List

namespace Lexer

/-- The mark that opens a comment is in a closed comment or in an operator. -/
theorem lexeme_opened {body : List Char} {shape : Shape} {n : Nat}
    (read : lexeme ('/' :: '*' :: body) = (shape, n)) :
    shape = .comment ∧ Closing body ∨ shape = .op ∧ 2 ≤ n := by
  by_cases fits : commentLength ('/' :: '*' :: body) = 0
  · have told : avoids symbols ['/', '*'] = true ∧ avoids operators ['/', '*'] = true := by
      decide
    have run : opLength ('/' :: '*' :: body) = runLength isOperatorChar body + 2 := by
      rfl
    have early : ∀ rule ∈ rules.take 4, rule.2 ('/' :: '*' :: body) = 0 := by
      simp only [rules, take_succ_cons, forall_mem_cons]
      exact ⟨wordLength_of_avoids told.1 body, rfl, rfl, fits, by simp⟩
    obtain ⟨rfl, rfl⟩ := Prod.mk.inj (read.symm.trans (lexeme_of_rule 4 rfl early run))
    exact .inr ⟨rfl, Nat.le_add_left 2 _⟩
  · have comment := lexeme_comment fits
    rw [read] at comment
    exact .inl ⟨comment, not_not.mp (mt commentLength_block_eq_zero_iff.mpr fits)⟩

theorem closing_of_opened {front rest body : List Char} {shape : Shape} {pieces : List Piece}
    (closed : ∀ piece ∈ voiced (⟨shape, front⟩ :: pieces), ¬ ['/', '*'] <+: piece.text)
    (read : lexeme (front ++ rest) = (shape, front.length))
    (opens : front ++ rest = '/' :: '*' :: body) : Closing body := by
  rw [opens] at read
  rcases lexeme_opened read with ⟨-, closing⟩ | ⟨rfl, long⟩
  · exact closing
  · have begins : ['/', '*'] <+: front := prefix_of_prefix_length_le
      ⟨body, opens.symm⟩ (prefix_append front rest) long
    exact absurd begins (closed _ mem_cons_self)

/-- A text in which no operator opens a comment is cut alike before more lines. -/
theorem cuts_lines {text more : List Char} {pieces others : List Piece} (cuts : Cuts text pieces)
    (legible : ∀ piece ∈ pieces, piece.Legible)
    (closed : ∀ piece ∈ voiced pieces, ¬ ['/', '*'] <+: piece.text) (later : Cuts more others) :
    Cuts (text ++ '\n' :: more) (pieces ++ ⟨.newline, ['\n']⟩ :: others) := by
  induction cuts with
  | nil => exact @Cuts.cons ['\n'] more _ _ (by decide) (lexeme_newline more) later
  | @cons front rest shape pieces nonempty read after ih =>
    rw [forall_mem_cons] at legible
    have moreover := ih legible.2 fun piece member => closed piece (by
      rw [voiced_cons]
      split
      · exact mem_cons_of_mem _ member
      · exact member)
    have same : lexeme (front ++ rest ++ '\n' :: more) = lexeme (front ++ rest) := by
      refine lexeme_append (by simp [nonempty]) (by decide) ?_ (fun _ => .inl rfl)
        (fun body opens _ => closing_of_opened closed read opens) (fun _ => by decide)
      rw [read]
      exact legible.1.known
    rw [append_assoc]
    refine .cons nonempty ?_ moreover
    rw [← append_assoc, same, read]

end Lexer

/-- Where two texts can be read and no token of the first begins like a comment, the two with a line
end between them can be read, and give the tokens of the first and those of the second as many lines
further down. -/
theorem lex_lines {first second : String} (succeeds : (lex first).fault = none)
    (succeeds' : (lex second).fault = none)
    (closed : ∀ t ∈ (lex first).tokens, ∀ span, t.Stands first.toList span →
      ¬ ['/', '*'] <+: span.chars) :
    lex (first ++ "\n" ++ second) =
      ⟨(lex first).tokens ++
        (lex second).tokens.map (Token.down (1 + first.toList.count '\n')), none⟩ := by
  obtain ⟨pieces, cuts, legible, read⟩ := Lexer.cuts_of_succeeds succeeds
  obtain ⟨others, cuts', legible', read'⟩ := Lexer.cuts_of_succeeds succeeds'
  have opened : ∀ piece ∈ Lexer.voiced pieces, ¬ ['/', '*'] <+: piece.text := by
    intro piece member
    obtain ⟨t, given, offset, stands⟩ := exists_of_mem_right (Lexer.written_of_cuts cuts)
      (mem_map_of_mem member)
    rw [read] at closed
    exact closed t given _ stands
  have text : (first ++ "\n" ++ second).toList = first.toList ++ '\n' :: second.toList := by
    simp
  have after : (Position.after {} first.toList).after ['\n'] =
      Position.down (1 + first.toList.count '\n') {} := by
    rw [Position.after_eq_ofOffset first.toList [], Position.ofOffset, append_nil, take_length]
    simp [Position.after, Position.step, Position.down]
    omega
  have legibleAll : ∀ piece ∈ pieces ++ ⟨.newline, ['\n']⟩ :: others, piece.Legible :=
    forall_mem_append.mpr ⟨legible, forall_mem_cons.mpr ⟨⟨none, rfl⟩, legible'⟩⟩
  rw [lex, text, Lexer.lexFrom_of_cuts (Lexer.cuts_lines cuts legible opened cuts') legibleAll {},
    Lexer.place_append, ← cuts.text_eq, read, read', ← Lexer.place_down, ← after]
  rfl

/-- A comment at the end of the first text, and one that the second does not close. -/
theorem lex_lines_comments :
    (lex "x // a").fault = none ∧ (lex "/* y").fault = none ∧
      (∀ t ∈ (lex "x // a").tokens, ∀ span, t.Stands "x // a".toList span →
        ¬ ['/', '*'] <+: span.chars) ∧
      lex ("x // a" ++ "\n" ++ "/* y") =
        ⟨(lex "x // a").tokens ++ (lex "/* y").tokens.map (Token.down (1 + 0)), none⟩ := by
  obtain ⟨succeeds, tokens, succeeds'⟩ :
      (lex "x // a").fault = none ∧ (lex "x // a").tokens = [⟨.ident, .text "x", 1, 1⟩] ∧
        (lex "/* y").fault = none := by decide +kernel
  have closed : ∀ t ∈ (lex "x // a").tokens, ∀ span, t.Stands "x // a".toList span →
      ¬ ['/', '*'] <+: span.chars := by
    intro t member span stands
    rw [tokens] at member
    obtain rfl := mem_singleton.mp member
    rcases stands.written.2 with same | ⟨-, listed⟩
    · rw [same]
      decide
    · simp [Token.dictionarySymbols] at listed
  exact ⟨succeeds, succeeds', closed, lex_lines succeeds succeeds' closed⟩

end Hetman
