import Hetman.Proofs.Lexing.Lines

/-!
# Lexemes before a slash

A slash after a lexeme leaves it as it is, unless it goes on with it. Symbols, numbers, names and
marks end there, and so do the `haltingOperators`; a run of operator characters takes up every
further one, `^` becomes `^/`, and a comment has to have ended. So the lexemes up to a space are the
same when something that begins with a slash stands there (`cuts_slashed`).
-/

namespace Hetman

open List

variable {text body rest : List Char}

/-- The operators that are never longer than this. -/
def haltingOperators : List String :=
  ["++", "%", "--", "&&", "||", ":=", "==", "!=", ">=", "<=", "^/"]

/-- The token stays the same before a slash. -/
def Token.haltsAtSlash (t : Token) : Bool :=
  t.kind ≠ .op || haltingOperators.any t.hasText

namespace Lexer

theorem operators_halt :
    ∀ word ∈ operators,
      String.ofList word ∈ haltingOperators ∨ word = ['/', '/'] ∨ word = ['^'] := by
  decide

/-! ## Rules before a slash -/

/-- The words that a slash can make longer. -/
theorem single_of_slash_next {word : List Char} (listed : word ∈ operators) (nonempty : text ≠ [])
    (longer : text ++ ['/'] <+: word) : text = ['/'] ∨ text = ['^'] := by
  have slashed : ∀ w ∈ operators, w.contains '/' = true → w = ['/', '/'] ∨ w = ['^', '/'] := by
    decide
  have inside : word.contains '/' = true :=
    contains_iff_mem.mpr (longer.subset (mem_append_right text mem_cons_self))
  obtain ⟨c, rest, rfl⟩ := exists_cons_of_ne_nil nonempty
  have short : rest = [] := by
    refine eq_nil_of_length_eq_zero ?_
    have length := longer.length_le
    simp only [length_append] at length
    rcases slashed word listed inside with rfl | rfl <;> simp only [length_cons,
      length_nil] at length <;> omega
  subst short
  rcases slashed word listed inside with rfl | rfl
  · exact .inl (by rw [(cons_prefix_cons.mp longer).1])
  · exact .inr (by rw [(cons_prefix_cons.mp longer).1])

theorem wordLength_slash (nonempty : text ≠ []) (slash : text ≠ ['/']) (power : text ≠ ['^'])
    (more : List Char) : wordLength operators (text ++ '/' :: more) = wordLength operators text :=
  wordLength_append (fun _ listed longer =>
    (single_of_slash_next listed nonempty longer).elim slash power) more

theorem opLength_singles : opLength ['/'] = 1 ∧ opLength ['^'] = 1 := by
  decide

theorem opLength_slash_of_zero (nonempty : text ≠ []) (nothing : opLength text = 0) (more : List Char) :
    opLength (text ++ '/' :: more) = 0 := by
  have words : wordLength operators (text ++ '/' :: more) = wordLength operators text := by
    refine wordLength_slash nonempty ?_ ?_ more
    · rintro rfl
      cases opLength_singles.1.symm.trans nothing
    · rintro rfl
      cases opLength_singles.2.symm.trans nothing
  rw [opLength_eq] at nothing
  split at nothing
  · next noWord =>
    obtain ⟨c, rest, rfl⟩ := exists_cons_of_ne_nil nonempty
    have stop : isOperatorChar c = false := by
      rcases test : isOperatorChar c with _ | _
      · rfl
      · rw [runLength, takeWhile_cons_of_pos test] at nothing
        cases nothing
    rw [opLength_eq, words, if_pos noWord, cons_append, runLength_cons_stop stop]
  · next word => exact absurd nothing word

/-- An operator that has ended, or is never longer, is the same before a slash. -/
theorem opLength_slash (nonempty : text ≠ [])
    (halts : opLength text < text.length ∨ String.ofList text ∈ haltingOperators) (more : List Char) :
    opLength (text ++ '/' :: more) = opLength text := by
  have single : ∀ c, opLength [c] = 1 → String.ofList [c] ∉ haltingOperators → text ≠ [c] := by
    rintro c length other rfl
    rcases halts with shorter | listed
    · rw [length] at shorter
      exact absurd shorter (Nat.lt_irrefl 1)
    · exact other listed
  have words : wordLength operators (text ++ '/' :: more) = wordLength operators text :=
    wordLength_slash nonempty (single _ opLength_singles.1 (by decide))
      (single _ opLength_singles.2 (by decide)) more
  rw [opLength_eq, words, opLength_eq]
  split
  · next noWord =>
    rcases halts with shorter | listed
    · rw [opLength_eq, if_pos noWord] at shorter
      unfold runLength at shorter ⊢
      rw [takeWhile_append, if_neg (by omega)]
    · have known : ∀ w ∈ haltingOperators, wordLength operators w.toList ≠ 0 := by decide
      have own := known _ listed
      rw [String.toList_ofList] at own
      exact absurd noWord own
  · rfl

theorem slash_ends :
    symbols.all (fun word => !word.contains '/') = true ∧
      (["!", "?", "$", "@", "#"].map String.toList).all (fun word => !word.contains '/') = true ∧
      Text.isDigit '/' = false ∧ isNameChar '/' = false := by
  decide

/-- A lexeme is the same before a slash and more text, if its comments are closed and it is no
operator that goes on with the slash. -/
theorem lexeme_slash {shape : Shape} {n : Nat} (nonempty : text ≠ []) (read : lexeme text = (shape, n))
    (known : shape ≠ .stray) (line : ['/', '/'] <+: text → '\n' ∈ text)
    (block : ∀ body, text = '/' :: '*' :: body → Closing body)
    (halts : shape = .op → n < text.length ∨ String.ofList text ∈ haltingOperators)
    (more : List Char) : lexeme (text ++ '/' :: more) = (shape, n) := by
  obtain ⟨symbol, short, digit, name⟩ := slash_ends
  have told : (lexeme text).1 ≠ .stray := by
    rw [read]
    exact known
  have slash : text ≠ ['/'] := by
    rintro rfl
    have own : lexeme ['/'] = (.op, 1) := by decide
    obtain ⟨rfl, rfl⟩ := Prod.mk.inj (own.symm.trans read)
    rcases halts rfl with shorter | listed
    · exact absurd shorter (Nat.lt_irrefl 1)
    · exact absurd listed (by decide)
  have comment : commentLength (text ++ '/' :: more) = commentLength text :=
    commentLength_append nonempty (absurd · slash) (.inr ∘ line) fun body opens _ => block body opens
  have stops : ∀ {rule : Shape × (List Char → Nat)}, StopsAt '/' rule.2 →
      rule = (.op, opLength) ∨ rule.2 (text ++ '/' :: more) = rule.2 text :=
    fun ends => .inr (ends text more nonempty)
  have char := fun expected shape => @stops (shape, _) (stopsAt_charLength '/' expected)
  have same : ∀ rule ∈ rules,
      rule = (.op, opLength) ∨ rule.2 (text ++ '/' :: more) = rule.2 text := by
    simp only [rules, forall_mem_cons, not_mem_nil]
    exact ⟨stops (stopsAt_wordLength symbol), stops (stopsAt_numberLength digit (by decide)),
      .inr (stringLength_extended told nonempty _), .inr comment,
      .inl trivial, stops (stopsAt_wordLength short), stops (stopsAt_nameLength name), char _ _,
      char _ _, char _ _, char _ _, char _ _, char _ _, char _ _, char _ _, char _ _, char _ _,
      .inr (runLength_append_stop (by decide) text more), char _ _, fun _ => False.elim⟩
  rcases lexeme_eq_iff.mp read with
    ⟨before, rule, after, split, ⟨own, length, positive⟩, early⟩ | ⟨⟨stray, -⟩, -⟩
  · refine lexeme_eq_iff.mpr (.inl ⟨before, rule, after, split, ⟨own, ?_, positive⟩, ?_⟩)
    · rcases same rule (by simp [split]) with rfl | kept
      · subst length
        exact opLength_slash nonempty (halts own.symm) more
      · rw [kept, length]
    · intro other member
      rcases same other (by simp [split, member]) with rfl | kept
      · exact opLength_slash_of_zero nonempty (early _ member) more
      · rw [kept, early other member]
  · exact absurd stray known

/-! ## Comments -/

theorem lexeme_block (open_ : ¬ Closing body) (rest : List Char) :
    lexeme ('/' :: '*' :: (body ++ '*' :: '/' :: rest)) = (.comment, body.length + 4) := by
  have length : commentLength ('/' :: '*' :: (body ++ '*' :: '/' :: rest)) = body.length + 4 := by
    rw [commentLength_block, closeLength_first open_]
    rfl
  exact lexeme_of_rule 3 rfl (before_comment _) length

theorem cuts_block {pieces : List Piece} (open_ : ¬ Closing body) (later : Cuts rest pieces) :
    Cuts ('/' :: '*' :: (body ++ '*' :: '/' :: rest))
      (⟨.comment, '/' :: '*' :: (body ++ ['*', '/'])⟩ :: pieces) := by
  have text : '/' :: '*' :: (body ++ '*' :: '/' :: rest) =
      '/' :: '*' :: (body ++ ['*', '/']) ++ rest := by simp
  rw [text]
  refine .cons (cons_ne_nil _ _) ?_ later
  rw [← text, lexeme_block open_]
  simp

/-! ## Lexemes of texts that differ from a place on -/

/-- The lexemes before a space are the same with a slash and other text in its place, if none opens
a comment and the slash does not go on with the last. -/
theorem cuts_slashed {front more others : List Piece} (middle : List Char) {after : List Char}
    (cuts : Cuts (front.flatMap Piece.text ++ (middle ++ ' ' :: after)) (front ++ more))
    (legible : ∀ piece ∈ front, piece.Legible)
    (closed : ∀ piece ∈ voiced front, ¬ ['/', '*'] <+: piece.text)
    (halts : middle = [] → ∀ piece, front.getLast? = some piece → piece.shape = .op →
      String.ofList piece.text ∈ haltingOperators) (later : Cuts (middle ++ '/' :: rest) others) :
    Cuts (front.flatMap Piece.text ++ (middle ++ '/' :: rest)) (front ++ others) := by
  induction front with
  | nil => exact later
  | cons piece front ih =>
    rw [forall_mem_cons] at legible
    obtain ⟨tail, same, filled, read, following⟩ := Cuts.uncons cuts
    rw [flatMap_cons, append_assoc, append_cancel_left_eq] at same
    subst same
    have moreover := ih following legible.2
      (fun other member => closed other (by
        rw [voiced_cons]
        split
        · exact mem_cons_of_mem _ member
        · exact member))
      (fun empty last found => halts empty last (by
        rw [getLast?_cons, found]
        rfl))
    -- the lexeme in the text up to the space
    generalize inside : front.flatMap Piece.text ++ middle = between
    have split : ∀ text, front.flatMap Piece.text ++ (middle ++ text) = between ++ text := by
      intro text
      rw [← inside, append_assoc]
    rw [split, ← append_assoc] at read
    have own : lexeme (piece.text ++ between) = (piece.shape, piece.text.length) :=
      lexeme_front read (by rw [length_append]; omega)
    have nonempty : piece.text ++ between ≠ [] := by simp [filled]
    have line : ['/', '/'] <+: piece.text ++ between → '\n' ∈ piece.text ++ between := by
      intro begins
      have fits : commentLength (piece.text ++ between ++ ' ' :: after) ≠ 0 := by
        obtain ⟨body, opens⟩ := begins
        rw [← opens]
        show commentLength ('/' :: '/' :: (body ++ ' ' :: after)) ≠ 0
        rw [commentLength_line]
        omega
      have shape := lexeme_comment fits
      rw [read] at shape
      obtain ⟨rule, member, isComment, length⟩ := lexeme_rule read legible.1.known
      rw [rules_of_shape.2.1 rule member (isComment.trans shape), append_assoc] at length
      rcases comment_eq filled length with ⟨body, opens, -⟩ | ⟨body, -, -, ends⟩
      · rw [opens] at begins
        cases (cons_prefix_cons.mp (cons_prefix_cons.mp begins).2).1
      · rcases between with _ | ⟨c, between⟩
        · rcases ends with none | head
          · cases none
          · cases head
        · rcases ends with none | head
          · cases none
          · cases head
            exact mem_append_right _ mem_cons_self
    have block : ∀ body, piece.text ++ between = '/' :: '*' :: body → Closing body :=
      fun body opens => closing_of_opened closed own opens
    have ends : piece.shape = .op → piece.text.length < (piece.text ++ between).length ∨
        String.ofList (piece.text ++ between) ∈ haltingOperators := by
      intro isOp
      by_cases nothing : between = []
      · obtain ⟨noText, noMiddle⟩ := append_eq_nil_iff.mp (inside.trans nothing)
        have noPieces : front = [] := by
          rcases front with _ | ⟨next, front⟩
          · rfl
          · obtain ⟨-, -, solid, -⟩ := Cuts.uncons following
            exact absurd (append_eq_nil_iff.mp noText).1 solid
        subst nothing noPieces
        rw [append_nil]
        exact .inr (halts noMiddle piece rfl isOp)
      · have long := length_pos_iff.mpr nothing
        exact .inl (by rw [length_append]; omega)
    rw [flatMap_cons, append_assoc]
    refine .cons filled ?_ moreover
    rw [split, ← append_assoc]
    exact lexeme_slash nonempty own legible.1.known line block ends rest

end Lexer

end Hetman
