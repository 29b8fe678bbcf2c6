import Hetman.Proofs.Lexer
import Hetman.Proofs.Parser.Reads
import Mathlib.Data.List.TakeWhile

/-!
# The first rule that fits

The rules of the lexer are tried in their order, and the first one that fits decides on the lexeme
(`lexeme_of_rule`). So a number, a name or a mark is read where no rule before its own fits, and how
far it reaches depends on what follows.
-/

namespace Hetman.Lexer

open List

variable {rest digits front : List Char} {n : Nat} {shape : Shape} {kind : Kind}
  {length : List Char → Nat} {words : List (List Char)}

/-! ## Lengths of lexemes -/

/-- The first rule that fits decides. -/
theorem lexeme_of_rule {cs : List Char} (k : Nat) (rule : rules[k]? = some (shape, length))
    (skipped : ∀ rule ∈ rules.take k, rule.2 cs = 0) (fits : length cs = n + 1) :
    lexeme cs = (shape, n + 1) := by
  have split : rules = rules.take k ++ (shape, length) :: rules.drop (k + 1) := by
    obtain ⟨inside, found⟩ := List.getElem?_eq_some_iff.mp rule
    rw [← found, ← drop_eq_getElem_cons inside, take_append_drop]
  have before : (rules.take k).findSome? (fitting cs) = none :=
    findSome?_eq_none_iff.mpr fun rule member => if_pos (skipped rule member)
  have own : fitting cs (shape, length) = some (shape, n + 1) := by
    unfold fitting
    simp only [fits, if_neg (Nat.succ_ne_zero n)]
  rw [lexeme_eq, split, findSome?_append, before, Option.none_or, findSome?_cons, own,
    Option.getD_some]

theorem wordLength_eq_zero {cs : List Char} (nothing : ∀ w ∈ words, ¬ w <+: cs) :
    wordLength words cs = 0 := by
  have missing : (words.find? fun w => w.isPrefixOf cs) = none :=
    find?_eq_none.mpr fun w member isPrefix =>
      nothing w member (List.isPrefixOf_iff_prefix.mp isPrefix)
  rw [wordLength, missing]

/-- None of the words begins with these characters. -/
def avoids (words : List (List Char)) (front : List Char) : Bool :=
  words.all fun w => !(w.take front.length).isPrefixOf front

theorem wordLength_of_avoids (avoided : avoids words front = true) (rest : List Char) :
    wordLength words (front ++ rest) = 0 := by
  refine wordLength_eq_zero fun w member isPrefix => ?_
  have taken : w.take front.length <+: front :=
    prefix_of_prefix_length_le ((List.take_prefix _ w).trans isPrefix)
      (prefix_append front rest) (length_take_le _ w)
  have nothing := all_eq_true.mp avoided w member
  rw [List.isPrefixOf_iff_prefix.mpr taken] at nothing
  cases nothing

/-- What comes next, if anything, passes a test. -/
def Next (test : Char → Prop) (rest : List Char) : Prop :=
  ∀ c, rest.head? = some c → test c

theorem runLength_append {test : Char → Bool} {cs : List Char} (all : ∀ c ∈ cs, test c = true)
    (next : Next (test · = false) rest) : runLength test (cs ++ rest) = cs.length := by
  have stops : rest.takeWhile test = [] := by
    cases rest with
    | nil => rfl
    | cons c rest => exact takeWhile_cons_of_neg (Bool.eq_false_iff.mp (next c rfl))
  rw [runLength, takeWhile_append_of_pos all, stops, append_nil]

/-! ## Numbers -/

theorem numeral_digits (each : ∀ c ∈ digits, Text.isDigit c = true) :
    numeral digits =
      if digits.length ≤ maxDigits then .ok (.int (Text.digitsToNat digits))
      else .error (.digits digits.length) := by
  have whole : digits.takeWhile (· ≠ '.') = digits := by
    refine takeWhile_eq_self_iff.mpr fun c member => decide_eq_true ?_
    rintro rfl
    exact absurd (each '.' member) (by decide)
  unfold numeral
  simp only [whole, if_true]

theorem numberLength_append (nonempty : digits ≠ []) (each : ∀ c ∈ digits, Text.isDigit c = true)
    (next : Next (fun c => Text.isDigit c = false ∧ c ≠ '.') rest) :
    numberLength (digits ++ rest) = digits.length := by
  have run : runLength Text.isDigit (digits ++ rest) = digits.length :=
    runLength_append each fun c head => (next c head).1
  obtain ⟨n, length⟩ : ∃ n, digits.length = n + 1 :=
    Nat.exists_eq_succ_of_ne_zero (mt eq_nil_of_length_eq_zero nonempty)
  have left : (digits ++ rest).drop (n + 1) = rest := by rw [← length, drop_left]
  unfold numberLength
  rw [run, length]
  simp only [left]
  split
  · exact absurd rfl (next '.' rfl).2
  · rfl

/-- No symbol is empty, and one that begins with a digit is a truth value. -/
theorem symbols_begin : ∀ w ∈ symbols, w ≠ [] ∧
    (w.head?.any Text.isDigit = true → w = ['0', '!'] ∨ w = ['1', '!']) := by
  decide +kernel

/-- Digits are a number, but for the two of truth values. -/
theorem lexeme_number (nonempty : digits ≠ []) (each : ∀ c ∈ digits, Text.isDigit c = true)
    (next : Next (fun c => Text.isDigit c = false ∧ c ≠ '.') rest)
    (free : rest.head? = some '!' → digits ≠ ['0'] ∧ digits ≠ ['1']) :
    lexeme (digits ++ rest) = (.number, digits.length) := by
  have length := numberLength_append nonempty each next
  obtain ⟨d, more, rfl⟩ := exists_cons_of_ne_nil nonempty
  have symbol : wordLength symbols (d :: more ++ rest) = 0 := by
    refine wordLength_eq_zero fun w member isPrefix => ?_
    have begins := symbols_begin w member
    have shape : ∃ a, w = [a, '!'] ∧ (a = '0' ∨ a = '1') := by
      obtain ⟨a, tail, rfl⟩ := exists_cons_of_ne_nil begins.1
      obtain ⟨rfl, -⟩ := cons_prefix_cons.mp isPrefix
      rcases begins.2 (each a mem_cons_self) with same | same
      · exact ⟨'0', same, .inl rfl⟩
      · exact ⟨'1', same, .inr rfl⟩
    obtain ⟨a, rfl, truth⟩ := shape
    obtain ⟨rfl, after⟩ := cons_prefix_cons.mp isPrefix
    cases more with
    | nil =>
      obtain ⟨others, same⟩ := after
      have unlike := free (congrArg List.head? (show rest = '!' :: others from same.symm))
      rcases truth with rfl | rfl
      · exact unlike.1 rfl
      · exact unlike.2 rfl
    | cons c more =>
      obtain ⟨rfl, -⟩ := cons_prefix_cons.mp after
      exact absurd (each '!' (by simp)) (by decide)
  exact lexeme_of_rule 1 rfl (forall_mem_singleton.mpr symbol) length

/-! ## Names, operators and marks -/

/-- A character that begins no number, text, comment or run of operator characters, and is no
symbol. -/
def isPlain (c : Char) : Bool :=
  !Text.isDigit c && c ≠ '"' && c ≠ '\'' && !isOperatorChar c &&
    avoids (["!", "?", "$", "@", "#"].map String.toList) [c]

/-- A plain character that begins no symbol and no operator before the rest. -/
structure Unmarked (c : Char) (rest : List Char) : Prop where
  plain : isPlain c = true
  symbol : wordLength symbols (c :: rest) = 0
  operator : wordLength operators (c :: rest) = 0

/-- The characters tell that the first is not marked. -/
def isUnmarked (c : Char) (front : List Char) : Bool :=
  isPlain c && avoids symbols (c :: front) && avoids operators (c :: front)

theorem unmarked_of {c : Char} (told : isUnmarked c front = true) (rest : List Char) :
    Unmarked c (front ++ rest) := by
  simp only [isUnmarked, Bool.and_eq_true] at told
  exact ⟨told.1.1, wordLength_of_avoids told.1.2 rest, wordLength_of_avoids told.2 rest⟩

theorem Unmarked.skipped {c : Char} {cs : List Char} (unmarked : Unmarked c cs) :
    ∀ rule ∈ rules.take 6, rule.2 (c :: cs) = 0 := by
  obtain ⟨plain, symbol, operator⟩ := unmarked
  simp only [isPlain, Bool.and_eq_true, Bool.not_eq_true', decide_eq_true_eq] at plain
  obtain ⟨⟨⟨⟨digit, double⟩, single⟩, run⟩, alone⟩ := plain
  have number : numberLength (c :: cs) = 0 := by
    have nothing : runLength Text.isDigit (c :: cs) = 0 :=
      congrArg List.length (takeWhile_cons_of_neg (Bool.eq_false_iff.mp digit))
    unfold numberLength
    rw [nothing]
    rfl
  have string : stringLength (c :: cs) = 0 := if_neg (by simp [double, single])
  have comment : commentLength (c :: cs) = 0 := by
    have slash : c ≠ '/' := by
      rintro rfl
      cases run
    unfold commentLength
    split
    · next same => exact absurd (List.cons.inj same).1 slash
    · next same => exact absurd (List.cons.inj same).1 slash
    · rfl
  have op : opLength (c :: cs) = 0 := by
    unfold opLength
    rw [operator]
    exact congrArg List.length (takeWhile_cons_of_neg (Bool.eq_false_iff.mp run))
  have short : wordLength (["!", "?", "$", "@", "#"].map String.toList) (c :: cs) = 0 :=
    wordLength_of_avoids alone cs
  intro rule member
  simp only [rules, take_succ_cons, take_zero, mem_cons, not_mem_nil, or_false] at member
  rcases member with rfl | rfl | rfl | rfl | rfl | rfl
  exacts [symbol, number, string, comment, op, short]

theorem Unmarked.lexeme_eq {c : Char} {cs : List Char} (unmarked : Unmarked c cs) (k : Nat)
    (rule : rules[k]? = some (shape, length))
    (others : ∀ rule ∈ (rules.take k).drop 6, rule.2 (c :: cs) = 0)
    (fits : length (c :: cs) = n + 1) : lexeme (c :: cs) = (shape, n + 1) := by
  refine lexeme_of_rule k rule (fun rule member => ?_) fits
  rw [← take_append_drop 6 (rules.take k), take_take] at member
  rcases mem_append.mp member with early | late
  · exact unmarked.skipped rule (take_subset_take_left rules (Nat.min_le_left 6 k) early)
  · exact others rule late

theorem lexeme_word {c : Char} {cs : List Char} (unmarked : Unmarked c (cs ++ rest))
    (start : isNameStart c = true) (inside : ∀ d ∈ cs, isNameChar d = true)
    (next : Next (isNameChar · = false) rest) :
    lexeme (c :: (cs ++ rest)) = (.word, cs.length + 1) := by
  refine unmarked.lexeme_eq 6 rfl (by simp [rules]) ?_
  rw [nameLength, if_pos start, runLength_append inside next, Nat.add_comm]

theorem lexeme_run (text : List Char) :
    lexeme (' ' :: text) = (.blank, runLength (fun c => c = ' ' || c = '\t') text + 1) :=
  rfl

theorem lexeme_blank (next : Next (fun c => (c = ' ' || c = '\t') = false) rest) :
    lexeme (' ' :: rest) = (.blank, 1) := by
  have stops := runLength_append (forall_mem_nil _) next
  exact congrArg (fun n => (Shape.blank, n + 1)) stops

/-- The marks of a single character, in the order of the rules. -/
def marks : List (Char × Kind) :=
  [('.', .dot), ('(', .lparen), (')', .rparen), ('\x7b', .lbrace), ('\x7d', .rbrace),
   ('[', .lbracket), (']', .rbracket), (';', .semicolon), (',', .comma), (':', .colon)]

def markRule (m : Char × Kind) : Shape × (List Char → Nat) :=
  (.mark m.2, charLength m.1)

theorem rules_eq :
    rules = rules.take 6 ++ (.word, nameLength) :: (marks.map markRule ++ rules.drop 17) := rfl

theorem findSome?_markRule (ms : List (Char × Kind)) (c : Char) (rest : List Char) :
    (ms.map markRule).findSome? (fitting (c :: rest)) =
      (ms.lookup c).map fun kind => (Shape.mark kind, 1) := by
  induction ms with
  | nil => rfl
  | cons m ms ih =>
    rw [map_cons, findSome?_cons, lookup_cons, ih]
    by_cases same : c = m.1
    · simp [fitting, markRule, charLength, same]
    · simp [fitting, markRule, charLength, same, beq_false_of_ne same]

theorem Unmarked.lexeme_mark {c : Char} (unmarked : Unmarked c rest)
    (mark : marks.lookup c = some kind) (unnamed : isNameStart c = false) :
    lexeme (c :: rest) = (.mark kind, 1) := by
  have early : (rules.take 6).findSome? (fitting (c :: rest)) = none :=
    findSome?_eq_none_iff.mpr fun rule member => if_pos (unmarked.skipped rule member)
  have name : fitting (c :: rest) (.word, nameLength) = none :=
    if_pos (if_neg (Bool.eq_false_iff.mp unnamed))
  rw [Lexer.lexeme_eq, rules_eq, findSome?_append, early, findSome?_cons, name]
  simp only [findSome?_append, findSome?_markRule, mark]
  rfl

/-! ## Tokens -/

/-- Tokens in front of what is made of the rest. -/
def Result.after (tokens : List Token) (r : Result) : Result :=
  ⟨tokens ++ r.tokens, r.fault⟩

end Hetman.Lexer
