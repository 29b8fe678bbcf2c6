import Hetman.Proofs.Scanning

/-!
# How far the rules look

A rule gives the length of a lexeme at the start of a text. Two facts about every rule say what a
change of the text after the lexeme can do.

* A rule is `Nearsighted`: where it reaches no further than the front of a text, it gives the same
  for the front alone (`lexeme_cut`).
* A rule that `StopsAt` a character gives the same for a text and for that text with the character
  and more added. All rules but those for texts and comments stop at a line end (`lexeme_append`).
-/

namespace Hetman.Lexer

open List

variable {text front rest more body : List Char} {c : Char} {n : Nat} {shape : Shape}
  {test : Char → Bool} {words : List (List Char)} {rule : Shape × (List Char → Nat)}

/-- A rule that sees no more of a text than it reaches. -/
structure Nearsighted (rule : List Char → Nat) : Prop where
  within : ∀ text, rule text ≤ text.length
  blind : ∀ front rest, rule (front ++ rest) ≤ front.length → rule front = rule (front ++ rest)

/-- A rule that does not look past a character. -/
def StopsAt (c : Char) (rule : List Char → Nat) : Prop :=
  ∀ text more, text ≠ [] → rule (text ++ c :: more) = rule text

/-- A character, and then what a nearsighted rule takes. -/
theorem Nearsighted.cons {rule : List Char → Nat} (starts : Char → Bool) (tail : List Char → Nat)
    (empty : rule [] = 0)
    (step : ∀ c text, rule (c :: text) = if starts c then 1 + tail text else 0)
    (sight : Nearsighted tail) : Nearsighted rule := by
  constructor
  · intro text
    cases text with
    | nil => exact Nat.le_of_eq empty
    | cons c text =>
      have bound := sight.within text
      rw [step, length_cons]
      split <;> omega
  · intro front rest reach
    cases front with
    | nil => exact empty.trans (Nat.le_zero.mp reach).symm
    | cons c front =>
      rw [cons_append, step] at reach ⊢
      rw [step]
      split
      · next start =>
        rw [if_pos start, length_cons] at reach
        rw [sight.blind front rest (by omega)]
      · rfl

/-! ## Words -/

theorem wordLength_cons (word : List Char) (words : List (List Char)) (text : List Char) :
    wordLength (word :: words) text =
      if word <+: text then word.length else wordLength words text := by
  unfold wordLength
  rw [find?_cons]
  by_cases fits : word <+: text
  · rw [List.isPrefixOf_iff_prefix.mpr fits, if_pos fits]
  · rw [Bool.eq_false_iff.mpr (mt List.isPrefixOf_iff_prefix.mp fits), if_neg fits]

theorem nearsighted_wordLength (words : List (List Char)) : Nearsighted (wordLength words) := by
  constructor
  · intro text
    induction words with
    | nil => exact Nat.zero_le _
    | cons word words ih =>
      rw [wordLength_cons]
      split
      · next fits => exact fits.length_le
      · exact ih
  · intro front rest reach
    induction words with
    | nil => rfl
    | cons word words ih =>
      rw [wordLength_cons] at reach ⊢
      rw [wordLength_cons]
      by_cases fits : word <+: front ++ rest
      · rw [if_pos fits] at reach ⊢
        exact if_pos (prefix_of_prefix_length_le fits (prefix_append front rest) reach)
      · rw [if_neg fits] at reach ⊢
        rw [if_neg fun short => fits (short.trans (prefix_append front rest))]
        exact ih reach

/-- Words are told apart before a character with which none goes on. -/
theorem wordLength_append (ends : ∀ word ∈ words, ¬ front ++ [c] <+: word) (more : List Char) :
    wordLength words (front ++ c :: more) = wordLength words front := by
  induction words with
  | nil => rfl
  | cons word words ih =>
    rw [wordLength_cons, wordLength_cons, ih fun w member => ends w (mem_cons_of_mem _ member)]
    have same : word <+: front ++ c :: more ↔ word <+: front := by
      constructor
      · intro fits
        have longer : front ++ [c] <+: front ++ c :: more := ⟨more, by simp⟩
        rcases List.prefix_or_prefix_of_prefix longer fits with past | short
        · exact absurd past (ends word mem_cons_self)
        · rcases prefix_concat_iff.mp short with rfl | inside
          · exact absurd (prefix_refl _) (ends _ mem_cons_self)
          · exact inside
      · exact fun fits => fits.trans (prefix_append _ _)
    simp only [same]

theorem stopsAt_wordLength (absent : words.all (fun word => !word.contains c) = true) :
    StopsAt c (wordLength words) := by
  intro text more _
  refine wordLength_append (fun word member longer => ?_) more
  have nothing : c ∉ word := by
    simpa using all_eq_true.mp absent word member
  exact nothing (longer.subset (by simp))

/-! ## Runs -/

theorem nearsighted_runLength (test : Char → Bool) : Nearsighted (runLength test) := by
  constructor
  · exact fun text => (List.takeWhile_prefix test).length_le
  · intro front rest reach
    unfold runLength at reach ⊢
    rw [takeWhile_append] at reach ⊢
    split at reach
    · next all =>
      rw [if_pos all]
      rw [length_append] at reach ⊢
      omega
    · next stopped => rw [if_neg stopped]

theorem length_le_runLength (each : ∀ c ∈ front, test c = true) (rest : List Char) :
    front.length ≤ runLength test (front ++ rest) := by
  rw [runLength, takeWhile_append_of_pos each, length_append]
  omega

theorem runLength_cons_stop (stop : test c = false) (text : List Char) :
    runLength test (c :: text) = 0 :=
  congrArg List.length (takeWhile_cons_of_neg (Bool.eq_false_iff.mp stop))

theorem runLength_append_stop (stop : test c = false) (text more : List Char) :
    runLength test (text ++ c :: more) = runLength test text := by
  unfold runLength
  have nothing : (c :: more).takeWhile test = [] :=
    takeWhile_cons_of_neg (Bool.eq_false_iff.mp stop)
  rw [takeWhile_append, nothing, append_nil]
  split
  · next all => exact all.symm
  · rfl

/-! ## Numbers -/

/-- What a number has after its whole part. -/
def pointLength : List Char → Nat
  | '.' :: fraction => 1 + runLength Text.isDigit fraction
  | _ => 0

theorem numberLength_eq (text : List Char) :
    numberLength text =
      if runLength Text.isDigit text = 0 then 0
      else runLength Text.isDigit text + pointLength (text.drop (runLength Text.isDigit text)) := by
  unfold numberLength
  split
  · next nothing => rw [if_pos nothing]
  · next n nonempty =>
    rw [if_neg (by omega)]
    generalize text.drop (runLength Text.isDigit text) = rest
    by_cases point : ∃ fraction, rest = '.' :: fraction
    · obtain ⟨fraction, rfl⟩ := point
      exact Nat.add_assoc _ 1 _
    · have other : pointLength rest = 0 := by
        rcases rest with _ | ⟨c, rest⟩
        · rfl
        · have differs : c ≠ '.' := fun same => point ⟨rest, congrArg (· :: rest) same⟩
          simp [pointLength, differs]
      rw [other]
      split
      · next fraction => exact absurd ⟨fraction, rfl⟩ point
      · rfl

theorem nearsighted_pointLength : Nearsighted pointLength := by
  refine .cons (· = '.') _ rfl (fun c text => ?_) (nearsighted_runLength Text.isDigit)
  by_cases point : c = '.'
  · subst point
    rfl
  · simp [pointLength, point]

theorem nearsighted_numberLength : Nearsighted numberLength := by
  have run := nearsighted_runLength Text.isDigit
  constructor
  · intro text
    rw [numberLength_eq]
    split
    · exact Nat.zero_le _
    · have first := run.within text
      have second := nearsighted_pointLength.within (text.drop (runLength Text.isDigit text))
      rw [length_drop] at second
      omega
  · intro front rest reach
    rw [numberLength_eq] at reach
    rw [numberLength_eq front, numberLength_eq (front ++ rest)]
    by_cases nothing : runLength Text.isDigit (front ++ rest) = 0
    · rw [run.blind front rest (by omega), if_pos nothing, if_pos nothing]
    · rw [if_neg nothing] at reach
      have inside : runLength Text.isDigit (front ++ rest) ≤ front.length := by omega
      rw [drop_append_of_le_length inside] at reach ⊢
      rw [run.blind front rest inside, if_neg nothing, if_neg nothing,
        nearsighted_pointLength.blind _ rest (by rw [length_drop]; omega)]

theorem pointLength_append_stop (digit : Text.isDigit c = false) (point : c ≠ '.')
    (text more : List Char) : pointLength (text ++ c :: more) = pointLength text := by
  cases text with
  | nil => simp [pointLength, point]
  | cons d text =>
    by_cases same : d = '.'
    · subst same
      simp only [pointLength, cons_append, runLength_append_stop digit]
    · simp [pointLength, same]

theorem stopsAt_numberLength (digit : Text.isDigit c = false) (point : c ≠ '.') :
    StopsAt c numberLength := by
  intro text more _
  have inside := (nearsighted_runLength Text.isDigit).within text
  rw [numberLength_eq, numberLength_eq, runLength_append_stop digit,
    drop_append_of_le_length inside, pointLength_append_stop digit point]

/-! ## Texts -/

theorem drop_runLength_eq_nil : text.drop (runLength (· ≠ c) text) = [] ↔ c ∉ text := by
  rw [drop_eq_nil_iff]
  constructor
  · intro all member
    have whole : text.takeWhile (· ≠ c) = text :=
      (List.takeWhile_prefix _).eq_of_length_le all
    have test := takeWhile_eq_self_iff.mp whole c member
    simp at test
  · intro absent
    have whole : text.takeWhile (· ≠ c) = text :=
      takeWhile_eq_self_iff.mpr fun d member =>
        decide_eq_true (ne_of_mem_of_not_mem member absent)
    exact Nat.le_of_eq (congrArg List.length whole.symm)

theorem stringLength_cons (quote : Char) (text : List Char) :
    stringLength (quote :: text) =
      if (quote = '"' ∨ quote = '\'') ∧ quote ∈ text then runLength (· ≠ quote) text + 2
      else 0 := by
  rw [stringLength]
  by_cases isQuote : quote = '"' ∨ quote = '\''
  · rw [if_pos (by simpa using isQuote)]
    by_cases closed : quote ∈ text
    · rw [if_pos ⟨isQuote, closed⟩]
      split
      · next nothing => exact absurd closed (drop_runLength_eq_nil.mp nothing)
      · rfl
    · rw [if_neg fun both => closed both.2, drop_runLength_eq_nil.mpr closed]
  · rw [if_neg (by simpa using isQuote), if_neg fun both => isQuote both.1]

theorem runLength_lt_of_mem (member : c ∈ text) : runLength (· ≠ c) text < text.length := by
  have nonempty := mt drop_runLength_eq_nil.mp (not_not_intro member)
  rw [drop_eq_nil_iff] at nonempty
  omega

theorem runLength_append_of_mem (member : c ∈ text) (more : List Char) :
    runLength (· ≠ c) (text ++ more) = runLength (· ≠ c) text := by
  have before := runLength_lt_of_mem member
  unfold runLength at before ⊢
  rw [takeWhile_append, if_neg (by omega)]

theorem nearsighted_stringLength : Nearsighted stringLength := by
  constructor
  · intro text
    cases text with
    | nil => exact Nat.le_refl 0
    | cons quote text =>
      rw [stringLength_cons, length_cons]
      split
      · next closed =>
        have before := runLength_lt_of_mem closed.2
        omega
      · exact Nat.zero_le _
  · intro front rest reach
    cases front with
    | nil => exact (Nat.le_zero.mp reach).symm
    | cons quote front =>
      rw [cons_append, stringLength_cons] at reach ⊢
      rw [stringLength_cons]
      by_cases early : quote ∈ front
      · simp only [early, mem_append, true_or, runLength_append_of_mem early]
      · rw [if_neg fun both => early both.2]
        split at reach
        · next closed =>
          have all : runLength (· ≠ quote) front = front.length :=
            Nat.le_antisymm ((nearsighted_runLength _).within front)
              (drop_eq_nil_iff.mp (drop_runLength_eq_nil.mpr early))
          have past : runLength (· ≠ quote) front ≤ runLength (· ≠ quote) (front ++ rest) := by
            unfold runLength at all ⊢
            rw [takeWhile_append, if_pos all, length_append]
            omega
          rw [length_cons] at reach
          omega
        · next never => rw [if_neg never]

theorem stringLength_of_closed (closed : stringLength text ≠ 0) (more : List Char) :
    stringLength (text ++ more) = stringLength text := by
  cases text with
  | nil => exact absurd rfl closed
  | cons quote text =>
    rw [stringLength_cons] at closed
    rw [cons_append, stringLength_cons, stringLength_cons]
    split at closed
    · next both =>
      rw [if_pos ⟨both.1, mem_append_left more both.2⟩, if_pos both, runLength_append_of_mem both.2]
    · exact absurd rfl closed

/-! ## Comments -/

/-- Whether the mark that closes a comment occurs in a text. -/
def Closing (text : List Char) : Prop :=
  ['*', '/'] <:+: text

theorem closeLength_cons (open_ : ¬ ['*', '/'] <+: c :: text) :
    closeLength (c :: text) = (closeLength text).map (· + 1) := by
  rw [closeLength]
  rintro rest rfl rfl
  exact open_ ⟨rest, rfl⟩

theorem closeLength_closed (closed : ['*', '/'] <+: text) : closeLength text = some 2 := by
  obtain ⟨rest, rfl⟩ := closed
  rfl

/-- The distance to the end of the first closing mark. -/
theorem closeLength_eq_some (found : closeLength text = some n) :
    ∃ body rest, text = body ++ '*' :: '/' :: rest ∧ n = body.length + 2 ∧ ¬ Closing body := by
  induction text generalizing n with
  | nil => cases found
  | cons c text ih =>
    by_cases closed : ['*', '/'] <+: c :: text
    · rw [closeLength_closed closed] at found
      obtain ⟨rest, same⟩ := closed
      cases found
      exact ⟨[], rest, same.symm, rfl, fun closing => by cases eq_nil_of_infix_nil closing⟩
    · rw [closeLength_cons closed] at found
      obtain ⟨m, later, rfl⟩ := Option.map_eq_some_iff.mp found
      obtain ⟨body, rest, rfl, rfl, clean⟩ := ih later
      refine ⟨c :: body, rest, rfl, rfl, fun closing => ?_⟩
      rcases infix_cons_iff.mp closing with first | later
      · exact closed (first.trans (prefix_append (c :: body) _))
      · exact clean later

theorem closeLength_eq_none_iff : closeLength text = none ↔ ¬ Closing text := by
  constructor
  · intro nothing closing
    induction text with
    | nil => cases eq_nil_of_infix_nil closing
    | cons c text ih =>
      by_cases closed : ['*', '/'] <+: c :: text
      · rw [closeLength_closed closed] at nothing
        cases nothing
      · rw [closeLength_cons closed] at nothing
        exact ih (Option.map_eq_none_iff.mp nothing) ((infix_cons_iff.mp closing).resolve_left closed)
  · intro open_
    rcases found : closeLength text with _ | n
    · rfl
    · obtain ⟨body, rest, rfl, _, _⟩ := closeLength_eq_some found
      exact absurd ⟨body, rest, by simp⟩ open_

theorem closeLength_first (open_ : ¬ Closing body) (rest : List Char) :
    closeLength (body ++ '*' :: '/' :: rest) = some (body.length + 2) := by
  induction body with
  | nil => rfl
  | cons c body ih =>
    have later : ¬ Closing body := fun closing =>
      open_ (closing.trans (infix_cons infix_rfl))
    have first : ¬ ['*', '/'] <+: c :: (body ++ '*' :: '/' :: rest) := by
      intro begins
      obtain ⟨rfl, next⟩ := cons_prefix_cons.mp begins
      rcases body with _ | ⟨d, body⟩
      · cases (cons_prefix_cons.mp next).1
      · obtain ⟨rfl, -⟩ := cons_prefix_cons.mp next
        exact open_ (List.IsPrefix.isInfix ⟨body, rfl⟩)
    rw [cons_append, closeLength_cons first, ih later, Option.map_some, length_cons]

theorem closeLength_append (found : closeLength text = some n) (more : List Char) :
    closeLength (text ++ more) = some n := by
  obtain ⟨body, rest, rfl, rfl, clean⟩ := closeLength_eq_some found
  rw [append_assoc]
  exact closeLength_first clean (rest ++ more)

theorem closeLength_blind (found : closeLength (front ++ rest) = some n) (reach : n ≤ front.length) :
    closeLength front = some n := by
  obtain ⟨body, later, same, rfl, clean⟩ := closeLength_eq_some found
  have inside : body ++ ['*', '/'] <+: front := by
    refine prefix_of_prefix_length_le ⟨later, ?_⟩ (prefix_append front rest) ?_
    · rw [same]
      simp
    · simpa using reach
  obtain ⟨tail, rfl⟩ := inside
  rw [append_assoc]
  exact closeLength_first clean tail

theorem commentLength_block (text : List Char) :
    commentLength ('/' :: '*' :: text) = ((closeLength text).map (· + 2)).getD 0 := by
  rw [commentLength]
  cases closeLength text <;> rfl

theorem commentLength_block_eq_zero_iff :
    commentLength ('/' :: '*' :: text) = 0 ↔ ¬ Closing text := by
  rw [commentLength_block, ← closeLength_eq_none_iff]
  cases closeLength text <;> simp

theorem commentLength_line (text : List Char) :
    commentLength ('/' :: '/' :: text) = 2 + runLength (· ≠ '\n') text := rfl

theorem commentLength_other (block : ¬ ['/', '*'] <+: text) (line : ¬ ['/', '/'] <+: text) :
    commentLength text = 0 := by
  unfold commentLength
  split
  · next rest => exact absurd ⟨rest, rfl⟩ block
  · next rest => exact absurd ⟨rest, rfl⟩ line
  · rfl

theorem comment_cases (text : List Char) :
    (∃ body, text = '/' :: '*' :: body) ∨ (∃ body, text = '/' :: '/' :: body) ∨
      (¬ ['/', '*'] <+: text ∧ ¬ ['/', '/'] <+: text) := by
  by_cases block : ['/', '*'] <+: text
  · obtain ⟨body, rfl⟩ := block
    exact .inl ⟨body, rfl⟩
  · by_cases line : ['/', '/'] <+: text
    · obtain ⟨body, rfl⟩ := line
      exact .inr (.inl ⟨body, rfl⟩)
    · exact .inr (.inr ⟨block, line⟩)

theorem comment_begins (fits : commentLength text ≠ 0) :
    (['/', '*'] <+: text ∨ ['/', '/'] <+: text) ∧ 2 ≤ commentLength text := by
  rcases comment_cases text with ⟨body, rfl⟩ | ⟨body, rfl⟩ | ⟨block, line⟩
  · refine ⟨.inl ⟨body, rfl⟩, ?_⟩
    rw [commentLength_block] at fits ⊢
    rcases found : closeLength body with _ | n
    · rw [found] at fits
      exact absurd rfl fits
    · exact Nat.le_add_left 2 n
  · exact ⟨.inr ⟨body, rfl⟩, Nat.le_add_right 2 _⟩
  · exact absurd (commentLength_other block line) fits

theorem nearsighted_commentLength : Nearsighted commentLength := by
  constructor
  · intro text
    rcases comment_cases text with ⟨body, rfl⟩ | ⟨body, rfl⟩ | ⟨block, line⟩
    · rw [commentLength_block]
      rcases found : closeLength body with _ | n
      · exact Nat.zero_le _
      · obtain ⟨inner, rest, rfl, rfl, _⟩ := closeLength_eq_some found
        simp
    · have bound := (nearsighted_runLength (· ≠ '\n')).within body
      rw [commentLength_line, length_cons, length_cons]
      omega
    · rw [commentLength_other block line]
      exact Nat.zero_le _
  · intro front rest reach
    rcases comment_cases front with ⟨body, rfl⟩ | ⟨body, rfl⟩ | ⟨block, line⟩
    · simp only [cons_append, commentLength_block, length_cons] at reach ⊢
      rcases found : closeLength (body ++ rest) with _ | n
      · have nothing := closeLength_eq_none_iff.mp found
        rw [closeLength_eq_none_iff.mpr fun closing => nothing (closing.trans (infix_append' [] _ _))]
      · rw [found] at reach
        rw [closeLength_blind found (by simpa using reach)]
    · simp only [cons_append, commentLength_line, length_cons] at reach ⊢
      rw [(nearsighted_runLength (· ≠ '\n')).blind body rest (by omega)]
    · -- a comment has two characters at least, and the front would have them
      by_contra differs
      rw [commentLength_other block line] at differs
      obtain ⟨begins, long⟩ := comment_begins fun empty => differs empty.symm
      have short : 2 ≤ front.length := by omega
      have inside : ∀ mark : Char, ¬ ['/', mark] <+: front → ¬ ['/', mark] <+: front ++ rest :=
        fun mark absent present => absent
          (prefix_of_prefix_length_le present (prefix_append front rest) short)
      rcases begins with begins | begins
      · exact inside '*' block begins
      · exact inside '/' line begins

/-- A comment: up to the first mark that closes it, or to the end of the line. -/
theorem comment_eq (nonempty : front ≠ []) (length : commentLength (front ++ rest) = front.length) :
    (∃ body, front = '/' :: '*' :: (body ++ ['*', '/']) ∧ ¬ Closing body) ∨
      ∃ body, front = '/' :: '/' :: body ∧ '\n' ∉ body ∧ (rest = [] ∨ rest.head? = .some '\n') := by
  have own : commentLength front = front.length := by
    rw [nearsighted_commentLength.blind front rest (by omega), length]
  have positive := length_pos_iff.mpr nonempty
  rcases comment_cases front with ⟨body, rfl⟩ | ⟨body, rfl⟩ | ⟨block, line⟩
  · rw [commentLength_block] at own
    rcases found : closeLength body with _ | n
    · rw [found] at own
      cases own
    · obtain ⟨inner, after, rfl, rfl, clean⟩ := closeLength_eq_some found
      rw [found] at own
      simp only [Option.map_some, Option.getD_some, length_cons, length_append] at own
      obtain rfl := eq_nil_of_length_eq_zero (show after.length = 0 by omega)
      exact .inl ⟨inner, rfl, clean⟩
  · simp only [cons_append, commentLength_line, length_cons] at own length
    have inside : '\n' ∉ body := drop_runLength_eq_nil.mp (drop_eq_nil_iff.mpr (by omega))
    refine .inr ⟨body, rfl, inside, ?_⟩
    rcases rest with _ | ⟨c, rest⟩
    · exact .inl rfl
    · by_contra differs
      have others : ∀ d ∈ body ++ [c], (d ≠ '\n' : Bool) = true := by
        intro d member
        apply decide_eq_true
        rintro rfl
        rcases mem_append.mp member with early | last
        · exact inside early
        · exact differs (.inr (congrArg some (mem_singleton.mp last).symm))
      have longer := length_le_runLength others rest
      rw [length_append, append_assoc, singleton_append, length_singleton] at longer
      omega
  · rw [commentLength_other block line] at own
    omega

/-- A comment ends where it did, if what is added neither goes on with its line nor closes it. -/
theorem commentLength_append (nonempty : text ≠ []) (plain : text = ['/'] → c ≠ '*' ∧ c ≠ '/')
    (line : ['/', '/'] <+: text → c = '\n' ∨ '\n' ∈ text)
    (block : ∀ body, text = '/' :: '*' :: body → Closing (body ++ c :: more) → Closing body) :
    commentLength (text ++ c :: more) = commentLength text := by
  rcases comment_cases text with ⟨body, rfl⟩ | ⟨body, rfl⟩ | ⟨noBlock, noLine⟩
  · simp only [cons_append, commentLength_block]
    rcases found : closeLength body with _ | n
    · rw [closeLength_eq_none_iff.mpr fun closing =>
        closeLength_eq_none_iff.mp found (block body rfl closing)]
    · rw [closeLength_append found]
  · simp only [cons_append, commentLength_line]
    rcases line ⟨body, rfl⟩ with rfl | inside
    · rw [runLength_append_stop (by decide)]
    · have ended : '\n' ∈ body := by simpa using inside
      rw [runLength_append_of_mem ended]
  · have still : ∀ mark : Char, (text = ['/'] → c ≠ mark) → ¬ ['/', mark] <+: text →
        ¬ ['/', mark] <+: text ++ c :: more := by
      intro mark differs absent begins
      rcases text with _ | ⟨d, _ | ⟨e, text⟩⟩
      · exact nonempty rfl
      · obtain ⟨rfl, next⟩ := cons_prefix_cons.mp begins
        exact differs rfl (cons_prefix_cons.mp next).1.symm
      · obtain ⟨rfl, next⟩ := cons_prefix_cons.mp begins
        obtain ⟨rfl, -⟩ := cons_prefix_cons.mp next
        exact absent ⟨text, rfl⟩
    rw [commentLength_other noBlock noLine, commentLength_other
      (still '*' (plain · |>.1) noBlock) (still '/' (plain · |>.2) noLine)]

/-! ## Operators, names and single characters -/

theorem opLength_eq (text : List Char) :
    opLength text =
      if wordLength operators text = 0 then runLength isOperatorChar text
      else wordLength operators text := by
  unfold opLength
  split
  · next nothing => rw [if_pos nothing]
  · next n nonempty => rw [if_neg (by omega)]

theorem nearsighted_opLength : Nearsighted opLength := by
  have words := nearsighted_wordLength operators
  have run := nearsighted_runLength isOperatorChar
  constructor
  · intro text
    rw [opLength_eq]
    split
    · exact run.within text
    · exact words.within text
  · intro front rest reach
    rw [opLength_eq] at reach
    rw [opLength_eq front, opLength_eq (front ++ rest)]
    by_cases nothing : wordLength operators (front ++ rest) = 0
    · rw [if_pos nothing] at reach
      rw [words.blind front rest (by omega), if_pos nothing, if_pos nothing, run.blind front rest reach]
    · rw [if_neg nothing] at reach
      rw [words.blind front rest reach, if_neg nothing, if_neg nothing]

theorem stopsAt_opLength (words : StopsAt c (wordLength operators)) (run : isOperatorChar c = false) :
    StopsAt c opLength := by
  intro text more nonempty
  rw [opLength_eq, opLength_eq, words text more nonempty, runLength_append_stop run]

theorem nearsighted_nameLength : Nearsighted nameLength :=
  .cons _ _ rfl (fun _ _ => rfl) (nearsighted_runLength isNameChar)

theorem stopsAt_nameLength (stop : isNameChar c = false) : StopsAt c nameLength := by
  intro text more nonempty
  obtain ⟨d, text, rfl⟩ := exists_cons_of_ne_nil nonempty
  rw [cons_append, nameLength, nameLength, runLength_append_stop stop]

theorem nearsighted_charLength (expected : Char) : Nearsighted (charLength expected) :=
  .cons (· = expected) (fun _ => 0) rfl (fun _ _ => by simp [charLength])
    ⟨fun _ => Nat.zero_le _, fun _ _ _ => rfl⟩

theorem stopsAt_charLength (c expected : Char) : StopsAt c (charLength expected) := by
  intro text more nonempty
  obtain ⟨d, text, rfl⟩ := exists_cons_of_ne_nil nonempty
  rfl

/-! ## Lexemes -/

theorem fitting_eq_none_iff : fitting text rule = none ↔ rule.2 text = 0 := by
  unfold fitting
  split <;> simp_all

theorem fitting_eq_some_iff :
    fitting text rule = some (shape, n) ↔ rule.1 = shape ∧ rule.2 text = n ∧ n ≠ 0 := by
  unfold fitting
  split
  · simp_all
  · next fits =>
    constructor
    · rintro ⟨⟩
      exact ⟨rfl, rfl, fits⟩
    · rintro ⟨rfl, rfl, -⟩
      rfl

theorem lexeme_eq_iff :
    lexeme text = (shape, n) ↔
      (∃ before rule after, rules = before ++ rule :: after ∧
        (rule.1 = shape ∧ rule.2 text = n ∧ n ≠ 0) ∧ ∀ early ∈ before, early.2 text = 0) ∨
      (shape = .stray ∧ n = 1) ∧ ∀ rule ∈ rules, rule.2 text = 0 := by
  rw [lexeme_eq]
  rcases found : rules.findSome? (fitting text) with _ | ⟨own, length⟩
  · have nothing := findSome?_eq_none_iff.mp found
    simp only [fitting_eq_none_iff] at nothing
    constructor
    · rintro ⟨⟩
      exact .inr ⟨⟨rfl, rfl⟩, nothing⟩
    · rintro (⟨before, rule, after, split, ⟨-, fits, longer⟩, -⟩ | ⟨⟨rfl, rfl⟩, -⟩)
      · exact absurd (fits.symm.trans (nothing rule (by simp [split]))) longer
      · rfl
  · obtain ⟨before, rule, after, split, fits, early⟩ := findSome?_eq_some_iff.mp found
    simp only [fitting_eq_none_iff] at early
    obtain ⟨ownShape, ownLength, positive⟩ := fitting_eq_some_iff.mp fits
    constructor
    · rintro ⟨⟩
      exact .inl ⟨before, rule, after, split, ⟨ownShape, ownLength, positive⟩, early⟩
    · rintro (other | ⟨-, none⟩)
      · have first := findSome?_eq_some_iff.mpr (by
          obtain ⟨before, rule, after, split, own, early⟩ := other
          simp only [← fitting_eq_none_iff] at early
          exact ⟨before, rule, after, split, fitting_eq_some_iff.mpr own, early⟩)
        exact Option.some.inj (found.symm.trans first)
      · exact absurd (ownLength.symm.trans (none rule (by simp [split]))) positive

theorem lexeme_rule (read : lexeme text = (shape, n)) (known : shape ≠ .stray) :
    ∃ rule ∈ rules, rule.1 = shape ∧ rule.2 text = n := by
  rcases lexeme_eq_iff.mp read with
    ⟨before, rule, after, split, ⟨own, length, -⟩, -⟩ | ⟨⟨stray, -⟩, -⟩
  · exact ⟨rule, by simp [split], own, length⟩
  · exact absurd stray known

/-- Which rules make numbers, and which silent lexemes. -/
theorem rules_of_shape :
    (∀ rule ∈ rules, rule.1 = .number → rule.2 = numberLength) ∧
    (∀ rule ∈ rules, rule.1 = .comment → rule.2 = commentLength) ∧
    (∀ rule ∈ rules, rule.1 = .blank → rule.2 = runLength fun c => c = ' ' || c = '\t') ∧
    ∀ rule ∈ rules, rule.1 = .newline → rule.2 = charLength '\n' := by
  simp [rules]

theorem nearsighted_rules : ∀ rule ∈ rules, Nearsighted rule.2 := by
  have char := nearsighted_charLength
  simp only [rules, forall_mem_cons, not_mem_nil]
  exact ⟨nearsighted_wordLength _, nearsighted_numberLength, nearsighted_stringLength,
    nearsighted_commentLength, nearsighted_opLength, nearsighted_wordLength _,
    nearsighted_nameLength, char _, char _, char _, char _, char _, char _, char _, char _, char _,
    char _, nearsighted_runLength _, char _, fun _ => False.elim⟩

theorem lexeme_within (nonempty : text ≠ []) (read : lexeme text = (shape, n)) :
    0 < n ∧ n ≤ text.length := by
  rcases lexeme_eq_iff.mp read with
    ⟨before, rule, after, split, ⟨-, rfl, positive⟩, -⟩ | ⟨⟨-, rfl⟩, -⟩
  · have within := (nearsighted_rules rule (by simp [split])).within text
    omega
  · exact ⟨Nat.one_pos, length_pos_iff.mpr nonempty⟩

/-- A lexeme is the same in every front of the text that it lies in. -/
theorem lexeme_front (read : lexeme (front ++ rest) = (shape, n)) (reach : n ≤ front.length) :
    lexeme front = (shape, n) := by
  have unfit : ∀ rule ∈ rules, rule.2 (front ++ rest) = 0 → rule.2 front = 0 := by
    intro rule member nothing
    rw [(nearsighted_rules rule member).blind front rest (by omega), nothing]
  rcases lexeme_eq_iff.mp read with
    ⟨before, rule, after, split, ⟨own, length, positive⟩, early⟩ | ⟨stray, none⟩
  · have sight := nearsighted_rules rule (by simp [split])
    refine lexeme_eq_iff.mpr (.inl ⟨before, rule, after, split, ⟨own, ?_, positive⟩, ?_⟩)
    · rw [sight.blind front rest (by omega), length]
    · exact fun other member => unfit other (by simp [split, member]) (early other member)
  · refine lexeme_eq_iff.mpr (.inr ⟨stray, fun rule member => ?_⟩)
    exact unfit rule member (none rule member)

theorem lexeme_cut (read : lexeme (front ++ rest) = (shape, front.length)) :
    lexeme front = (shape, front.length) :=
  lexeme_front read (Nat.le_refl _)

theorem lexeme_congr {text' : List Char} (same : ∀ rule ∈ rules, rule.2 text = rule.2 text') :
    lexeme text = lexeme text' := by
  rcases read : lexeme text' with ⟨shape, n⟩
  rw [lexeme_eq_iff] at read ⊢
  rcases read with ⟨before, rule, after, split, own, early⟩ | ⟨stray, none⟩
  · refine .inl ⟨before, rule, after, split, ?_, fun other member => ?_⟩
    · rw [same rule (by simp [split])]
      exact own
    · rw [same other (by simp [split, member])]
      exact early other member
  · refine .inr ⟨stray, fun rule member => ?_⟩
    rw [same rule member]
    exact none rule member

theorem stringLength_of_known {quote : Char} (isQuote : quote = '"' ∨ quote = '\'')
    (known : (lexeme (quote :: text)).1 ≠ .stray) : stringLength (quote :: text) ≠ 0 := by
  obtain ⟨rule, member, -, fits⟩ := (exists_rule (quote :: text)).resolve_left known
  simp only [rules, mem_cons] at member
  rcases isQuote with rfl | rfl <;>
    (repeat' rcases member with rfl | member) <;> first | exact fits | exact absurd rfl fits

/-- Without stray lexemes, a quoted text is the same if more is added. -/
theorem stringLength_extended (known : (lexeme text).1 ≠ .stray) (nonempty : text ≠ [])
    (more : List Char) : stringLength (text ++ more) = stringLength text := by
  obtain ⟨quote, text, rfl⟩ := exists_cons_of_ne_nil nonempty
  by_cases isQuote : quote = '"' ∨ quote = '\''
  · exact stringLength_of_closed (stringLength_of_known isQuote known) more
  · rw [cons_append, stringLength_cons, stringLength_cons, if_neg fun both => isQuote both.1,
      if_neg fun both => isQuote both.1]

/-- The characters at which lexemes end, whatever they are. -/
def separators : List Char :=
  [' ', '\n', ';', ')']

theorem separators_end :
    separators.all (fun c => symbols.all (fun word => !word.contains c) &&
      operators.all (fun word => !word.contains c) &&
      (["!", "?", "$", "@", "#"].map String.toList).all (fun word => !word.contains c) &&
      !Text.isDigit c && c ≠ '.' && !isOperatorChar c && !isNameChar c && c ≠ '*' &&
      c ≠ '/' && c ≠ '\t') = true := by
  decide

/-- A lexeme is the same before a separator and more text, if that goes on with no line comment or
blanks and closes no comment. -/
theorem lexeme_append (nonempty : text ≠ []) (separator : c ∈ separators)
    (known : (lexeme text).1 ≠ .stray) (line : ['/', '/'] <+: text → c = '\n' ∨ '\n' ∈ text)
    (block : ∀ body, text = '/' :: '*' :: body → Closing (body ++ c :: more) → Closing body)
    (blank : text.head? = some ' ' ∨ text.head? = some '\t' → c ≠ ' ') :
    lexeme (text ++ c :: more) = lexeme text := by
  have ends := all_eq_true.mp separators_end c separator
  simp only [Bool.and_eq_true, Bool.not_eq_true', decide_eq_true_eq] at ends
  obtain ⟨⟨⟨⟨⟨⟨⟨⟨⟨symbol, operator⟩, short⟩, digit⟩, point⟩, run⟩, name⟩, star⟩, slash⟩, tab⟩ := ends
  have blanks : runLength (fun d => d = ' ' || d = '\t') (text ++ c :: more) =
      runLength (fun d => d = ' ' || d = '\t') text := by
    obtain ⟨d, text, rfl⟩ := exists_cons_of_ne_nil nonempty
    rcases isBlank : (d = ' ' || d = '\t') with _ | _
    · rw [cons_append, runLength_cons_stop isBlank, runLength_cons_stop isBlank]
    · have space := blank (by simpa using isBlank)
      exact runLength_append_stop (by simp [space, tab]) (d :: text) more
  have char := fun expected => stopsAt_charLength c expected text more nonempty
  apply lexeme_congr
  simp only [rules, forall_mem_cons, not_mem_nil]
  exact ⟨stopsAt_wordLength symbol text more nonempty, stopsAt_numberLength digit point text more nonempty,
    stringLength_extended known nonempty _, commentLength_append nonempty (fun _ => ⟨star, slash⟩) line block,
    stopsAt_opLength (stopsAt_wordLength operator) run text more nonempty,
    stopsAt_wordLength short text more nonempty, stopsAt_nameLength name text more nonempty,
    char _, char _, char _, char _, char _, char _, char _, char _, char _, char _, blanks, char _,
    fun _ => False.elim⟩

theorem before_comment (rest : List Char) : ∀ rule ∈ rules.take 3, rule.2 ('/' :: rest) = 0 := by
  simp only [rules, take_succ_cons, forall_mem_cons]
  exact ⟨rfl, rfl, rfl, by simp⟩

theorem lexeme_comment (fits : commentLength text ≠ 0) : (lexeme text).1 = .comment := by
  have slash : ∃ rest, text = '/' :: rest := by
    rcases (comment_begins fits).1 with ⟨rest, rfl⟩ | ⟨rest, rfl⟩
    · exact ⟨_, rfl⟩
    · exact ⟨_, rfl⟩
  obtain ⟨rest, rfl⟩ := slash
  obtain ⟨n, length⟩ := Nat.exists_eq_succ_of_ne_zero fits
  rw [lexeme_of_rule 3 rfl (before_comment rest) length]

theorem lexeme_blanks (isBlank : c = ' ' ∨ c = '\t') (rest : List Char) :
    (lexeme (c :: rest)).1 = .blank := by
  rcases isBlank with rfl | rfl
  · rfl
  · rfl

end Hetman.Lexer
