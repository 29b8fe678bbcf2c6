import Hetman.Proofs.Lexing.Rendering
import Hetman.Proofs.Lexing.Slash

/-!
# A comment in the place of a space

A comment in the place of a single space between two tokens separates them as well, but for two
things. Its slash can go on with the operator before it. And it can close a mark that opens a
comment and was read as an operator because nothing closed it. `lex_commented` says that these are
the only two, and that each does change the tokens for some comment.
-/

namespace Hetman

open List

variable {pieces front back : List Piece} {after before : String} {chars text : List Char}
  {t : Token}

namespace Lexer

variable {after : List Char}

/-! ## What the slash does to the lexemes that it goes on with -/

/-- The kinds and payloads of the tokens that lexemes give. -/
def labels (pieces : List Piece) : List (Kind × Token.Payload) :=
  pieces.filterMap Piece.label?

theorem labels_append (pieces more : List Piece) :
    labels (pieces ++ more) = labels pieces ++ labels more :=
  filterMap_append

theorem labels_cons_op (chars : List Char) (pieces : List Piece) :
    labels (⟨.op, chars⟩ :: pieces) = (.op, .text (String.ofList chars)) :: labels pieces :=
  rfl

theorem labels_cons_silent {shape : Shape} (silent : shape.isSilent = true) (chars : List Char)
    (pieces : List Piece) : labels (⟨shape, chars⟩ :: pieces) = labels pieces := by
  refine filterMap_cons_none ?_
  rw [Piece.label?, token?_of_isSilent silent]
  rfl

theorem labels_of_star {rest : List Char} (cuts : Cuts ('*' :: rest) pieces) :
    ∃ chars more, labels pieces = (.op, .text (String.ofList ('*' :: chars))) :: more := by
  rcases pieces with _ | ⟨⟨shape, front⟩, pieces⟩
  · cases cuts.text_eq
  · obtain ⟨rest', same, nonempty, read, -⟩ := cuts.uncons
    obtain ⟨c, front, rfl⟩ := exists_cons_of_ne_nil nonempty
    obtain ⟨rfl, -⟩ := List.cons.inj same
    obtain ⟨rfl, -⟩ := Prod.mk.inj read
    exact ⟨front, labels pieces, rfl⟩

/-- Operators that begin differently are different tokens. -/
theorem op_ne {c d : Char} (differ : c ≠ d) (chars chars' : List Char) :
    ((.op, .text (String.ofList (c :: chars))) : Kind × Token.Payload) ≠
      (.op, .text (String.ofList (d :: chars'))) := by
  intro same
  have texts := Token.Payload.text.inj (Prod.mk.inj same).2
  exact differ (List.cons.inj (String.ofList_injective texts)).1

/-- A later comment closes one that was left open, and what opened it is no longer an operator. -/
theorem labels_of_opened {others : List Piece} (open_ : ¬ Closing text) (later : Cuts after others)
    (cuts : Cuts ('/' :: '*' :: (text ++ '/' :: '*' :: '\n' :: '*' :: '/' :: after)) pieces) :
    labels pieces = labels others ∨
      ∃ chars more, labels pieces = (.op, .text (String.ofList ('*' :: chars))) :: more := by
  by_cases star : ∃ body, text = body ++ ['*']
  · obtain ⟨body, rfl⟩ := star
    have inside : ¬ Closing body := fun closing =>
      open_ (closing.trans (prefix_append body ['*']).isInfix)
    obtain ⟨tail, following⟩ := exists_cuts ('*' :: '\n' :: '*' :: '/' :: after)
    have closed := cuts_block inside following
    rw [append_assoc] at cuts
    rw [cuts.unique closed, labels_cons_silent rfl]
    exact .inr (labels_of_star following)
  · have inside : ¬ Closing (text ++ ['/', '*', '\n']) := by
      intro closing
      rcases infix_append_iff.mp closing with own | own | ⟨l, r, split, suffix, start⟩
      · exact open_ own
      · exact absurd own (by decide)
      · rcases l with _ | ⟨c, l⟩
        · rw [nil_append] at split
          subst split
          exact absurd start (by decide)
        · obtain ⟨rfl, rest⟩ := List.cons.inj split
          rcases l with _ | ⟨d, l⟩
          · obtain ⟨body, own⟩ := suffix
            exact star ⟨body, own.symm⟩
          · obtain ⟨rfl, nothing⟩ := List.cons.inj rest
            obtain ⟨rfl, rfl⟩ := append_eq_nil_iff.mp nothing.symm
            exact open_ suffix.isInfix
    have closed := cuts_block inside later
    rw [append_assoc] at closed
    rw [cuts.unique closed]
    exact .inl rfl

/-- An operator that a slash goes on with: two single characters, or a run. -/
theorem lengthened_cases (read : lexeme chars = (.op, chars.length))
    (goesOn : String.ofList chars ∉ haltingOperators) :
    chars = ['/'] ∨ chars = ['^'] ∨
      chars ≠ ['/'] ∧ chars ≠ ['^'] ∧ wordLength operators chars = 0 ∧
        ∀ c ∈ chars, isOperatorChar c = true := by
  by_cases slash : chars = ['/']
  · exact .inl slash
  by_cases power : chars = ['^']
  · exact .inr (.inl power)
  obtain ⟨rule, member, isOp, length⟩ := lexeme_rule read (fun same => by cases same)
  have own : rule.2 = opLength := by
    have only : ∀ r ∈ rules, r.1 = .op → r.2 = opLength := by simp [rules]
    exact only rule member isOp
  rw [own, opLength_eq] at length
  split at length
  · next noWord =>
    have whole : chars.takeWhile isOperatorChar = chars :=
      (List.takeWhile_prefix _).eq_of_length length
    refine .inr (.inr ⟨slash, power, noWord, fun c inside => ?_⟩)
    rw [← whole] at inside
    exact mem_takeWhile_imp inside
  · next word =>
    rcases found : operators.find? (fun w => w.isPrefixOf chars) with _ | w
    · rw [wordLength, found] at word
      exact absurd rfl word
    · have passes := find?_some found
      have fits : w <+: chars := List.isPrefixOf_iff_prefix.mp passes
      rw [wordLength, found] at length
      obtain rfl := fits.eq_of_length length
      rcases operators_halt w (mem_of_find?_eq_some found) with halts | rfl | rfl
      · exact absurd halts goesOn
      · have comment : (lexeme ['/', '/']).1 = .comment := by decide
        rw [read] at comment
        cases comment
      · exact absurd rfl power

theorem operatorChars_plain :
    ['+', '-', '*', '/', '=', '<', '>'].all
      (fun c => !Text.isDigit c && c ≠ '"' && c ≠ '\'') = true := by
  decide

theorem lexeme_lengthened (nonempty : chars ≠ []) (read : lexeme chars = (.op, chars.length))
    (closed : ¬ ['/', '*'] <+: chars) (slash : chars ≠ ['/']) (power : chars ≠ ['^'])
    (noWord : wordLength operators chars = 0) (run : ∀ c ∈ chars, isOperatorChar c = true)
    (after : List Char) :
    lexeme (chars ++ '/' :: '*' :: '\n' :: after) = (.op, chars.length + 2) := by
  have symbol : wordLength symbols chars = 0 := by
    by_contra fits
    obtain ⟨n, length⟩ := Nat.exists_eq_succ_of_ne_zero fits
    have isSymbol := lexeme_of_rule 0 rfl (fun _ none => by cases none) length
    rw [read] at isSymbol
    cases isSymbol
  have noLine : ¬ ['/', '/'] <+: chars := by
    rintro ⟨body, rfl⟩
    have fits : commentLength ('/' :: '/' :: body) ≠ 0 := by
      rw [commentLength_line]
      omega
    have comment := lexeme_comment fits
    rw [show lexeme ('/' :: '/' :: body) = _ from read] at comment
    cases comment
  have comment : commentLength (chars ++ '/' :: '*' :: '\n' :: after) = 0 := by
    rw [commentLength_append nonempty (absurd · slash) (absurd · noLine)
      (fun body opens => absurd ⟨body, opens.symm⟩ closed), commentLength_other closed noLine]
  have length : opLength (chars ++ '/' :: '*' :: '\n' :: after) = chars.length + 1 + 1 := by
    rw [opLength_eq, wordLength_slash nonempty slash power, if_pos noWord, runLength,
      takeWhile_append_of_pos run, length_append]
    rfl
  refine lexeme_of_rule 4 rfl ?_ length
  obtain ⟨c, chars, rfl⟩ := exists_cons_of_ne_nil nonempty
  have plain := all_eq_true.mp operatorChars_plain c
    (contains_iff_mem.mp (run c mem_cons_self))
  simp only [Bool.and_eq_true, Bool.not_eq_true', decide_eq_true_eq] at plain
  have string : ∀ text, stringLength (c :: text) = 0 := by
    intro text
    rw [stringLength_cons, if_neg fun both => both.1.elim plain.1.2 plain.2]
  have number : ∀ text, numberLength (c :: text) = 0 := by
    intro text
    rw [numberLength_eq, if_pos (runLength_cons_stop plain.1.1 text)]
  simp only [rules, take_succ_cons, forall_mem_cons]
  refine ⟨?_, number _, string _, comment, by simp⟩
  exact (stopsAt_wordLength slash_ends.1 _ _ nonempty).trans symbol

/-- An operator that a slash goes on with is another one then, or a comment. -/
theorem labels_of_lengthened (nonempty : chars ≠ []) (read : lexeme chars = (.op, chars.length))
    (goesOn : String.ofList chars ∉ haltingOperators) (closed : ¬ ['/', '*'] <+: chars)
    (cuts : Cuts (chars ++ '/' :: '*' :: '\n' :: '*' :: '/' :: after) pieces) (more) :
    labels pieces ≠ (.op, .text (String.ofList chars)) :: more := by
  rcases lengthened_cases read goesOn with rfl | rfl | ⟨slash, power, noWord, run⟩
  · -- two slashes make a comment up to the line end, and the end of the comment is left
    obtain ⟨tail, following⟩ := exists_cuts ('*' :: '/' :: after)
    have rest : Cuts (['\n'] ++ '*' :: '/' :: after) (⟨.newline, ['\n']⟩ :: tail) :=
      .cons (by decide) (lexeme_newline _) following
    have comment : lexeme (['/', '/', '*'] ++ '\n' :: '*' :: '/' :: after) = (.comment, 3) :=
      lexeme_of_rule 3 rfl (before_comment _) rfl
    have whole : Cuts (['/', '/', '*'] ++ '\n' :: '*' :: '/' :: after) _ :=
      .cons (by decide) comment rest
    obtain ⟨chars, labels', found⟩ := labels_of_star following
    rw [Cuts.unique cuts whole, labels_cons_silent rfl, labels_cons_silent rfl, found]
    intro same
    exact op_ne (by decide) _ _ (List.cons.inj same).1
  · obtain ⟨tail, following⟩ := exists_cuts ('*' :: '\n' :: '*' :: '/' :: after)
    have root : lexeme (['^', '/'] ++ '*' :: '\n' :: '*' :: '/' :: after) = (.op, 2) := by
      refine lexeme_of_rule 4 rfl ?_ rfl
      have told : avoids symbols ['^', '/'] = true := by decide
      simp only [rules, take_succ_cons, forall_mem_cons]
      exact ⟨wordLength_of_avoids told _, rfl, rfl, rfl, by simp⟩
    have whole : Cuts (['^', '/'] ++ '*' :: '\n' :: '*' :: '/' :: after) _ :=
      .cons (by decide) root following
    rw [Cuts.unique cuts whole]
    intro same
    have texts := Token.Payload.text.inj (Prod.mk.inj (List.cons.inj same).1).2
    cases String.ofList_injective texts
  · obtain ⟨tail, following⟩ := exists_cuts ('\n' :: '*' :: '/' :: after)
    have longer : lexeme (chars ++ ['/', '*'] ++ '\n' :: '*' :: '/' :: after) =
        (.op, (chars ++ ['/', '*']).length) := by
      rw [append_assoc, length_append]
      exact lexeme_lengthened nonempty read closed slash power noWord run _
    have whole := Cuts.cons (by simp) longer following
    rw [append_assoc] at whole
    rw [Cuts.unique cuts whole]
    intro same
    have texts := Token.Payload.text.inj (Prod.mk.inj (List.cons.inj same).1).2
    have length := congrArg List.length (String.ofList_injective texts)
    rw [length_append] at length
    simp only [length_cons] at length
    omega

/-! ## Lexemes and their tokens -/

/-- Whether a slash goes on with a token shows in its lexeme. -/
theorem haltsAtSlash_iff {piece : Piece} (given : piece.label? = some t.content)
    (read : lexeme piece.text = (piece.shape, piece.text.length)) :
    t.haltsAtSlash = true ↔ (piece.shape = .op → String.ofList piece.text ∈ haltingOperators) := by
  rcases label_cases read given with ⟨shape, _, -, own⟩ | ⟨-, isOp, own | ⟨_, -, own⟩⟩
  · obtain ⟨kind, -⟩ := Prod.mk.inj own
    simp [Token.haltsAtSlash, kind, shape]
  · have payload : t.payload = .text (String.ofList piece.text) := own
    rw [← isOp]
    simp [Token.haltsAtSlash, Token.hasText, payload, Token.content, imp_iff_not_or]
  · obtain ⟨kind, -⟩ := Prod.mk.inj own
    rw [← isOp]
    simp [Token.haltsAtSlash, Token.content, kind]

end Lexer

/-- A single space stands between two tokens of a text. -/
structure Separates (before after : String) (t u : Token) : Prop where
  left : t ∈ (lex (before ++ " " ++ after)).tokens
  right : u ∈ (lex (before ++ " " ++ after)).tokens
  ends : ∃ span, t.Stands (before ++ " " ++ after).toList span ∧
    span.offset + span.chars.length = before.toList.length
  begins : ∃ span, u.Stands (before ++ " " ++ after).toList span ∧
    span.offset = before.toList.length + 1

namespace Lexer

theorem toList_spaced (before after : String) :
    (before ++ " " ++ after).toList = before.toList ++ ' ' :: after.toList := by
  simp

theorem toList_commented (before body after : String) :
    (before ++ "/*" ++ body ++ "*/" ++ after).toList =
      before.toList ++ '/' :: '*' :: (body.toList ++ '*' :: '/' :: after.toList) := by
  simp

theorem eq_space_of_cuts {between more : List Piece} {after : List Char}
    (cuts : Cuts (' ' :: after) (between ++ more))
    (one : (between.flatMap Piece.text).length = 1) : between = [space] ∧ Cuts after more := by
  rcases between with _ | ⟨⟨shape, chars⟩, between⟩
  · cases one
  obtain ⟨rest, split, nonempty, read, later⟩ := Cuts.uncons cuts
  rw [flatMap_cons, length_append] at one
  have positive := length_pos_iff.mpr nonempty
  rcases between with _ | ⟨other, between⟩
  · obtain ⟨c, rfl⟩ : ∃ c, chars = [c] := length_eq_one_iff.mp (by simpa using one)
    obtain ⟨rfl, rfl⟩ := List.cons.inj split
    have blank : lexeme [' '] = (.blank, 1) := by decide
    obtain ⟨rfl, -⟩ := Prod.mk.inj (blank.symm.trans (lexeme_cut read))
    exact ⟨rfl, later⟩
  · obtain ⟨-, -, solid, -⟩ := Cuts.uncons later
    have positive' := length_pos_iff.mpr solid
    rw [flatMap_cons, length_append] at one
    omega

theorem pieces_of_separates {u : Token} (separates : Separates before after t u)
    (cuts : Cuts (before ++ " " ++ after).toList pieces)
    (read : (lex (before ++ " " ++ after)).tokens = place {} pieces) :
    ∃ front last back, pieces = front ++ [last] ++ space :: back ∧
      last.label? = some t.content ∧ (front ++ [last]).flatMap Piece.text = before.toList ∧
      Cuts after.toList back := by
  obtain ⟨member, member', ⟨span, stands, ends⟩, ⟨span', stands', begins⟩⟩ := separates
  rw [read] at member member'
  obtain ⟨front, last, later, rfl, given, own⟩ := exists_piece cuts [] member
  obtain ⟨front', next, back, same, -, own'⟩ := exists_piece cuts [] member'
  obtain rfl := stands.unique own
  obtain rfl := stands'.unique own'
  simp only [length_nil, Nat.zero_add] at ends begins
  rw [append_cons front last later] at cuts same ⊢
  obtain ⟨rest, text, following⟩ := cuts.split
  rw [toList_spaced] at text
  obtain ⟨whole, rfl⟩ := append_inj text (by
    rw [flatMap_append, flatMap_singleton, length_append, ends])
  rcases append_eq_append_iff.mp same with ⟨between, rfl, rfl⟩ | ⟨between, longer, -⟩
  · rw [flatMap_append, ← whole, length_append] at begins
    obtain ⟨rfl, after⟩ := eq_space_of_cuts following (by omega)
    exact ⟨front, last, next :: back, rfl, given, whole.symm, after⟩
  · have length := congrArg (fun pieces => (pieces.flatMap Piece.text).length) longer
    simp only [flatMap_append, length_append, flatMap_singleton] at length
    omega

theorem closed_iff (cuts : Cuts text (front ++ back)) :
    (∀ v ∈ place {} (front ++ back), ∀ span, v.Stands text span →
        span.offset < (front.flatMap Piece.text).length → ¬ ['/', '*'] <+: span.chars) ↔
      ∀ piece ∈ voiced front, ¬ ['/', '*'] <+: piece.text := by
  constructor
  · intro closed piece member
    obtain ⟨inside, given⟩ := mem_filter.mp member
    obtain ⟨early, late, rfl⟩ := append_of_mem inside
    rw [append_assoc] at cuts closed
    obtain ⟨v, placed, stands⟩ := exists_token cuts given
    refine closed v placed _ stands ?_
    have member : piece ∈ early ++ piece :: (late ++ back) := mem_append_cons_self
    have positive := length_pos_iff.mpr (cuts.read_of_mem member).1
    show (early.flatMap Piece.text).length < _
    rw [flatMap_append, flatMap_cons, length_append, length_append]
    omega
  · intro closed v placed span stands early
    obtain ⟨first, piece, late, same, given, own⟩ := exists_piece cuts [] placed
    obtain rfl := stands.unique own
    simp only [length_nil, Nat.zero_add] at early
    refine closed piece (mem_filter.mpr ⟨?_, by rw [given]; rfl⟩)
    rcases append_eq_append_iff.mp same with ⟨between, rfl, -⟩ | ⟨between, rfl, tail⟩
    · rw [flatMap_append, length_append] at early
      omega
    · rcases between with _ | ⟨next, between⟩
      · rw [append_nil] at early
        omega
      · obtain ⟨rfl, -⟩ := List.cons.inj tail
        exact mem_append_right _ mem_cons_self

/-- Where nothing goes on with the slash, a comment stands for the space. -/
theorem lex_of_halting {body : String}
    (cuts : Cuts (before ++ " " ++ after).toList (front ++ space :: back))
    (legible : ∀ piece ∈ front ++ space :: back, piece.Legible)
    (whole : front.flatMap Piece.text = before.toList) (later : Cuts after.toList back)
    (halts : ∀ piece, front.getLast? = some piece → piece.shape = .op →
      String.ofList piece.text ∈ haltingOperators)
    (closed : ∀ piece ∈ voiced front, ¬ ['/', '*'] <+: piece.text) (open_ : ¬ Closing body.toList) :
    (lex (before ++ "/*" ++ body ++ "*/" ++ after)).fault = none ∧
      (lex (before ++ "/*" ++ body ++ "*/" ++ after)).tokens.map Token.content =
        labels (front ++ space :: back) := by
  rw [toList_spaced, ← whole] at cuts
  obtain ⟨legibleFront, legibleBack⟩ := forall_mem_append.mp legible
  have commented := cuts_slashed [] cuts legibleFront closed (fun _ => halts)
    (cuts_block open_ later)
  rw [nil_append, whole, ← toList_commented] at commented
  have read := lexFrom_of_cuts commented (forall_mem_append.mpr
    ⟨legibleFront, forall_mem_cons.mpr
      ⟨⟨none, rfl⟩, (forall_mem_cons.mp legibleBack).2⟩⟩) {}
  rw [lex, read, place_content]
  refine ⟨rfl, ?_⟩
  show labels _ = _
  rw [labels_append, labels_append]
  rfl

/-- The first lexeme that begins like a comment and gives a token. -/
theorem first_opened (opened : ∃ piece ∈ voiced pieces, ['/', '*'] <+: piece.text) :
    ∃ early piece late, pieces = early ++ piece :: late ∧ piece.label?.isSome = true ∧
      ['/', '*'] <+: piece.text ∧ ∀ other ∈ voiced early, ¬ ['/', '*'] <+: other.text := by
  obtain ⟨piece, member, begins⟩ := opened
  obtain ⟨inside, given⟩ := mem_filter.mp member
  have passes : ∃ piece, pieces.find?
      (fun piece => piece.label?.isSome && ['/', '*'].isPrefixOf piece.text) = some piece :=
    Option.isSome_iff_exists.mp (find?_isSome.mpr
      ⟨piece, inside, by rw [given, List.isPrefixOf_iff_prefix.mpr begins]; rfl⟩)
  obtain ⟨first, found⟩ := passes
  obtain ⟨fits, early, late, rfl, before⟩ := find?_eq_some_iff_append.mp found
  rw [Bool.and_eq_true, List.isPrefixOf_iff_prefix] at fits
  refine ⟨early, first, late, rfl, fits.1, fits.2, fun other member begins => ?_⟩
  obtain ⟨inside, given⟩ := mem_filter.mp member
  have fails := before other inside
  rw [given, List.isPrefixOf_iff_prefix.mpr begins] at fails
  cases fails

/-- A comment that was left open is closed by one in the place of the space. -/
theorem changed_of_opened (cuts : Cuts (before ++ " " ++ after).toList (front ++ space :: back))
    (legible : ∀ piece ∈ front ++ space :: back, piece.Legible)
    (whole : front.flatMap Piece.text = before.toList) (later : Cuts after.toList back)
    (opened : ∃ piece ∈ voiced front, ['/', '*'] <+: piece.text)
    (changed : Cuts (before ++ "/*" ++ "\n" ++ "*/" ++ after).toList pieces) :
    labels pieces ≠ labels (front ++ space :: back) := by
  obtain ⟨early, ⟨shape, chars⟩, late, rfl, given, begins, closed⟩ := first_opened opened
  have known : ∀ piece ∈ early, piece.Legible := fun piece member =>
    legible piece (by simp [member])
  have own : Piece.Legible ⟨shape, chars⟩ := legible _ (by simp)
  obtain ⟨body, opens⟩ := begins
  obtain rfl : chars = '/' :: '*' :: body := opens.symm
  rw [append_assoc] at cuts
  rw [flatMap_append, flatMap_cons] at whole
  rw [toList_spaced, ← whole, append_assoc] at cuts
  -- nothing after the mark closed the comment
  obtain ⟨rest, same, following⟩ := cuts.split
  obtain rfl := append_cancel_left same
  obtain ⟨rest, same, -, read, -⟩ := following.uncons
  obtain rfl := append_cancel_left ((append_assoc ..).symm.trans same)
  have isOp : shape = .op := by
    rcases lexeme_opened (lexeme_cut read) with ⟨isComment, -⟩ | ⟨isOp, -⟩
    · have silent := own.isSome_label?_iff.mp given
      rw [show shape = .comment from isComment] at silent
      cases silent
    · exact isOp
  subst isOp
  have open_ : ¬ Closing (body ++ late.flatMap Piece.text) := by
    have nothing : commentLength
        ('/' :: '*' :: (body ++ (late.flatMap Piece.text ++ ' ' :: after.toList))) = 0 := by
      by_contra fits
      have comment := lexeme_comment fits
      rw [show lexeme ('/' :: '*' :: (body ++ _)) = _ from read] at comment
      cases comment
    rw [commentLength_block_eq_zero_iff, ← append_assoc] at nothing
    exact fun closing => nothing (closing.trans (prefix_append _ _).isInfix)
  obtain ⟨others, tail⟩ := exists_cuts ('/' :: '*' :: (body ++ late.flatMap Piece.text ++
    '/' :: '*' :: '\n' :: '*' :: '/' :: after.toList))
  have replaced := cuts_slashed ('/' :: '*' :: (body ++ late.flatMap Piece.text)) cuts
    known closed (fun empty => by cases empty) tail
  have texts : (before ++ "/*" ++ "\n" ++ "*/" ++ after).toList =
      early.flatMap Piece.text ++ ('/' :: '*' :: (body ++ late.flatMap Piece.text) ++
        '/' :: '*' :: '\n' :: '*' :: '/' :: after.toList) := by
    rw [toList_commented, ← whole]
    simp
  rw [texts] at changed
  rw [changed.unique replaced, labels_append, append_assoc, labels_append, cons_append,
    labels_cons_op, labels_append]
  intro same
  have remaining := append_cancel_left same
  rcases labels_of_opened open_ later tail with less | ⟨star, more, other⟩
  · have length := congrArg List.length (less.symm.trans remaining)
    have silent : labels (space :: back) = labels back := labels_cons_silent rfl _ _
    rw [silent, length_cons, length_append] at length
    omega
  · exact op_ne (by decide) _ _ (List.cons.inj (other.symm.trans remaining)).1

/-- An operator goes on with the slash of a comment in the place of the space. -/
theorem changed_of_lengthened {last : Piece}
    (cuts : Cuts (before ++ " " ++ after).toList (front ++ [last] ++ space :: back))
    (legible : ∀ piece ∈ front ++ [last] ++ space :: back, piece.Legible)
    (whole : (front ++ [last]).flatMap Piece.text = before.toList) (isOp : last.shape = .op)
    (goesOn : String.ofList last.text ∉ haltingOperators)
    (closed : ∀ piece ∈ voiced (front ++ [last]), ¬ ['/', '*'] <+: piece.text)
    (changed : Cuts (before ++ "/*" ++ "\n" ++ "*/" ++ after).toList pieces) :
    labels pieces ≠ labels (front ++ [last] ++ space :: back) := by
  have member : last ∈ front ++ [last] ++ space :: back := by simp
  obtain ⟨nonempty, read⟩ := cuts.read_of_mem member
  obtain ⟨shape, chars⟩ := last
  obtain rfl : shape = .op := isOp
  have early : ∀ piece ∈ voiced front, ¬ ['/', '*'] <+: piece.text := fun piece member =>
    closed piece (by rw [voiced, filter_append]; exact mem_append_left _ member)
  have own : ¬ ['/', '*'] <+: chars := closed ⟨.op, chars⟩ (by
    rw [voiced, filter_append]
    exact mem_append_right _ mem_cons_self)
  rw [flatMap_append, flatMap_singleton] at whole
  rw [toList_spaced, ← whole, append_assoc, append_assoc] at cuts
  obtain ⟨others, tail⟩ := exists_cuts (chars ++ '/' :: '*' :: '\n' :: '*' :: '/' :: after.toList)
  have replaced := cuts_slashed chars cuts (fun piece member => legible piece (by simp [member]))
    early (fun empty => absurd empty nonempty) tail
  have texts : (before ++ "/*" ++ "\n" ++ "*/" ++ after).toList =
      front.flatMap Piece.text ++ (chars ++ '/' :: '*' :: '\n' :: '*' :: '/' :: after.toList) := by
    rw [toList_commented, ← whole, append_assoc]
    rfl
  rw [texts] at changed
  rw [changed.unique replaced, labels_append, append_assoc, labels_append,
    singleton_append, labels_cons_op]
  intro same
  exact labels_of_lengthened nonempty read goesOn own tail _ (append_cancel_left same)

end Lexer

/-- A space between two tokens may be replaced by any comment if, and only if, the token before it
is no operator that goes on with a slash and no token before begins like a comment. -/
theorem lex_commented {before after : String} {t u : Token}
    (succeeds : (lex (before ++ " " ++ after)).fault = none)
    (separates : Separates before after t u) :
    (∀ body : String, ¬ Lexer.Closing body.toList →
        (lex (before ++ "/*" ++ body ++ "*/" ++ after)).fault = none ∧
          (lex (before ++ "/*" ++ body ++ "*/" ++ after)).tokens.map Token.content =
            (lex (before ++ " " ++ after)).tokens.map Token.content) ↔
      t.haltsAtSlash = true ∧
        ∀ v ∈ (lex (before ++ " " ++ after)).tokens, ∀ span,
          v.Stands (before ++ " " ++ after).toList span → span.offset < before.toList.length →
            ¬ ['/', '*'] <+: span.chars := by
  obtain ⟨pieces, cuts, legible, read⟩ := Lexer.cuts_of_succeeds succeeds
  have tokens : (lex (before ++ " " ++ after)).tokens = Lexer.place {} pieces := by rw [read]
  obtain ⟨front, last, back, rfl, given, whole, later⟩ :=
    Lexer.pieces_of_separates separates cuts tokens
  have member : last ∈ front ++ [last] ++ Lexer.space :: back := by simp
  have own := (cuts.read_of_mem member).2
  rw [Lexer.haltsAtSlash_iff given own, tokens, ← whole, Lexer.closed_iff cuts, Lexer.place_content]
  constructor
  · intro same
    obtain ⟨succeeds', contents⟩ := same "\n" (show ¬ ['*', '/'] <:+: ['\n'] by decide)
    obtain ⟨pieces, changed, -, read'⟩ := Lexer.cuts_of_succeeds succeeds'
    rw [read', Lexer.place_content] at contents
    have closed : ∀ piece ∈ Lexer.voiced (front ++ [last]), ¬ ['/', '*'] <+: piece.text := by
      intro piece member begins
      exact Lexer.changed_of_opened cuts legible whole later ⟨piece, member, begins⟩ changed
        contents
    refine ⟨fun isOp => ?_, closed⟩
    by_contra goesOn
    exact Lexer.changed_of_lengthened cuts legible whole isOp goesOn closed changed contents
  · rintro ⟨halts, closed⟩ body open_
    refine Lexer.lex_of_halting cuts legible whole later (fun piece found => ?_) closed open_
    rw [getLast?_concat] at found
    obtain rfl := Option.some.inj found
    exact halts

theorem assignment_read :
    (lex ("x :=" ++ " " ++ "y")).fault = none ∧
      (lex ("x :=" ++ " " ++ "y")).tokens = [⟨.ident, .text "x", 1, 1⟩, ⟨.op, .text ":=", 1, 3⟩,
        ⟨.ident, .text "y", 1, 6⟩] := by
  decide +kernel

/-- The space after `:=` in `x := y`. -/
theorem assignment_separates :
    Separates "x :=" "y" ⟨.op, .text ":=", 1, 3⟩ ⟨.ident, .text "y", 1, 6⟩ where
  left := assignment_read.2 ▸ mem_cons_of_mem _ mem_cons_self
  right := assignment_read.2 ▸ mem_cons_of_mem _ (mem_cons_of_mem _ mem_cons_self)
  ends := ⟨⟨2, [':', '=']⟩,
    ⟨by decide, by decide, by decide, by decide, by decide, .inl (by decide)⟩, by decide⟩
  begins := ⟨⟨5, ['y']⟩,
    ⟨by decide, by decide, by decide, by decide, by decide, .inl (by decide)⟩, by decide⟩

theorem lex_commented_assignment :
    (lex ("x :=" ++ " " ++ "y")).fault = none ∧
      (Token.mk .op (.text ":=") 1 3).haltsAtSlash = true ∧
      ∀ body : String, ¬ Lexer.Closing body.toList →
        (lex ("x :=" ++ "/*" ++ body ++ "*/" ++ "y")).fault = none ∧
          (lex ("x :=" ++ "/*" ++ body ++ "*/" ++ "y")).tokens.map Token.content =
            (lex ("x :=" ++ " " ++ "y")).tokens.map Token.content := by
  have closed : ∀ v ∈ (lex ("x :=" ++ " " ++ "y")).tokens, ∀ span,
      v.Stands ("x :=" ++ " " ++ "y").toList span → span.offset < "x :=".toList.length →
        ¬ ['/', '*'] <+: span.chars := by
    intro v _ span stands _ begins
    have inside : '/' ∈ ("x :=" ++ " " ++ "y").toList :=
      drop_subset _ _ (stands.present.subset (begins.subset mem_cons_self))
    exact absurd inside (by decide)
  exact ⟨assignment_read.1, by decide,
    (lex_commented assignment_read.1 assignment_separates).mpr ⟨by decide, closed⟩⟩

/-- After a division sign the comment goes on to the end of the line. -/
theorem comment_after_division :
    (lex "a / b").fault = none ∧ (lex "a //*c*/b").fault = none ∧
      (lex "a / b").tokens.map Token.content =
        [(.ident, .text "a"), (.op, .text "/"), (.ident, .text "b")] ∧
      (lex "a //*c*/b").tokens.map Token.content = [(.ident, .text "a")] := by
  decide +kernel

end Hetman
