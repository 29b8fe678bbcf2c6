import Hetman.Proofs.Lexing.Pieces

/-!
# Operators between operands

A name or a whole number, a binary operator and another name or whole number are read as three
tokens without blanks between them, with two exceptions: a minus sign before a name that begins with
`k` is the symbol for removing a key, and an exclamation mark after `0` or `1` makes a truth value
of it.
-/

namespace Hetman

open List

variable {c d : Char} {rest text word : List Char} {op : String} {pieces : List Piece}

theorem Position.after_line (line : '\n' ∉ text) (p : Position) :
    p.after text = ⟨p.line, p.column + text.length⟩ := by
  induction text generalizing p with
  | nil => rfl
  | cons c text ih =>
    rw [mem_cons, not_or] at line
    have step : p.step c = ⟨p.line, p.column + 1⟩ := if_neg (Ne.symm line.1)
    have rest := ih line.2 (p.step c)
    rw [step] at rest
    rw [length_cons, Nat.add_comm text.length, ← Nat.add_assoc]
    exact (congrArg (Position.after · text) step).trans rest

namespace Lexer

/-! ## Operands and operators -/

/-- A name that is no keyword and does not begin with the symbol for the length. -/
structure IsIdentifier (chars : List Char) : Prop where
  start : chars.head?.any isNameStart = true
  inside : ∀ c ∈ chars, isNameChar c = true
  free : Token.keyword? (String.ofList chars) = none
  unmarked : ¬ ['_', '_', '_'] <+: chars

/-- A name or a whole number. -/
inductive Operand where
  | name (chars : List Char) (isIdentifier : IsIdentifier chars)
  | whole (digits : List Char) (nonempty : digits ≠ []) (each : ∀ d ∈ digits, Text.isDigit d = true)

namespace Operand

def chars : Operand → List Char
  | .name chars _ => chars
  | .whole digits _ _ => digits

def label : Operand → Kind × Token.Payload
  | .name chars _ => (.ident, .text (String.ofList chars))
  | .whole digits _ _ => (.number, .number (.int (Text.digitsToNat digits)))

def Short : Operand → Prop
  | .name _ _ => True
  | .whole digits _ _ => digits.length ≤ maxDigits

def piece : Operand → Piece
  | .name chars _ => ⟨.word, chars⟩
  | .whole digits _ _ => ⟨.number, digits⟩

end Operand

def binaryOperators : List String :=
  ["+", "-", "*", "/", "%", "^", "^/", "==", "!=", "<", ">", "<=", ">=", "&&", "||"]

/-- A symbol takes the operator and a character of one operand: `-k`, `0!` or `1!`. -/
def Clash (a : Operand) (op : String) (b : Operand) : Prop :=
  (op = "-" ∧ b.chars.head? = some 'k') ∨ (op = "!=" ∧ (a.chars = ['0'] ∨ a.chars = ['1']))

/-! ## Characters -/

/-- An operand can begin with the character. -/
def startsOperand (c : Char) : Bool :=
  isNameStart c || Text.isDigit c

/-- The character goes on with no operand and no symbol that begins like one; `!` after a digit is
left out. -/
def endsOperand (c : Char) : Bool :=
  !isNameChar c && !Text.isDigit c && !(['.', '`', '\x7b'].contains c)

theorem startsOperand_of_isNameStart (start : isNameStart c = true) : startsOperand c = true := by
  rw [startsOperand, start, Bool.true_or]

theorem toNat_of_isNameStart (start : isNameStart c = true) : 65 ≤ c.toNat ∧ c.toNat < 128 := by
  simp only [isNameStart, Bool.or_eq_true, Bool.and_eq_true, decide_eq_true_eq, Char.le_def,
    UInt32.le_iff_toNat_le] at start
  rcases start with (lower | upper) | rfl
  · change 97 ≤ c.toNat ∧ c.toNat ≤ 122 at lower
    omega
  · change 65 ≤ c.toNat ∧ c.toNat ≤ 90 at upper
    omega
  · decide

theorem isDigit_of_isNameStart (start : isNameStart c = true) : Text.isDigit c = false := by
  obtain ⟨low, high⟩ := toNat_of_isNameStart start
  have digit : ¬ c.isDigit = true := by
    rw [Char.isDigit_iff_toNat]
    have nine : '9'.toNat = 57 := rfl
    omega
  rw [Text.isDigit, Text.digitValue?, if_pos high, if_neg digit]
  rfl

theorem not_mem_of_test {test : Char → Bool} (holds : test c = true)
    (fails : text.all (!test ·) = true) : c ∉ text := by
  intro member
  have nothing := all_eq_true.mp fails c member
  rw [holds] at nothing
  cases nothing

theorem isPlain_of_isNameStart (start : isNameStart c = true) : isPlain c = true := by
  have others : ∀ d ∈ ['"', '\'', '+', '-', '*', '/', '=', '<', '>', '!', '?', '$', '@', '#'],
      ¬ c = d ∧ ¬ d = c := by
    intro d member
    have differs : d ≠ c := ne_of_mem_of_not_mem member (not_mem_of_test start (by decide))
    exact ⟨differs.symm, differs⟩
  simp [isPlain, isDigit_of_isNameStart start, isOperatorChar, avoids, isPrefixOf_cons_cons, others]

theorem of_endsOperand (ends : endsOperand c = true) :
    isNameChar c = false ∧ Text.isDigit c = false ∧ c ∉ ['.', '`', '\x7b'] := by
  simp only [endsOperand, Bool.and_eq_true, Bool.not_eq_true', contains_eq_mem,
    decide_eq_false_iff_not] at ends
  exact ⟨ends.1.1, ends.1.2, ends.2⟩

/-! ## Operands -/

/-- A symbol that begins like a name is that for the length, or has a mark after one letter;
operators have no character that begins an operand. -/
theorem words_named :
    (∀ w ∈ symbols, w.head?.any isNameStart = true →
      w = ['_', '_', '_'] ∨ w[1]?.any ['`', '\x7b'].contains = true) ∧
    ∀ w ∈ operators, w ≠ [] ∧ w.all (!startsOperand ·) = true := by
  decide

theorem prefix_of_named {chars : List Char} (named : word.all isNameChar = true)
    (next : Next (isNameChar · = false) rest) (fits : word <+: chars ++ rest) : word <+: chars := by
  rcases List.prefix_or_prefix_of_prefix fits (prefix_append chars rest) with inside | past
  · exact inside
  · obtain ⟨tail, rfl⟩ := past
    cases tail with
    | nil => simp
    | cons c tail =>
      obtain ⟨more, rfl⟩ := (prefix_append_right_inj chars).mp fits
      have stop : isNameChar c = false := next c rfl
      rw [all_eq_true.mp named c (by simp)] at stop
      cases stop

theorem IsIdentifier.exists_cons {chars : List Char} (isIdentifier : IsIdentifier chars) :
    ∃ c more, chars = c :: more ∧ isNameStart c = true ∧ ∀ d ∈ more, isNameChar d = true := by
  obtain ⟨start, inside, -, -⟩ := isIdentifier
  cases chars with
  | nil => cases start
  | cons c more =>
    exact ⟨c, more, rfl, start, fun d member => inside d (mem_cons_of_mem c member)⟩

theorem IsIdentifier.wordLength_symbols {chars : List Char} (isIdentifier : IsIdentifier chars)
    (next : Next (endsOperand · = true) rest) : wordLength symbols (chars ++ rest) = 0 := by
  apply wordLength_eq_zero
  intro w member fits
  obtain ⟨c, more, rfl, start, inside⟩ := isIdentifier.exists_cons
  obtain ⟨d, tail, rfl⟩ := exists_cons_of_ne_nil (symbols_begin w member).1
  obtain ⟨rfl, after⟩ := cons_prefix_cons.mp fits
  rcases words_named.1 _ member start with length | second
  · rw [length] at fits
    exact isIdentifier.unmarked
      (prefix_of_named (by decide) (fun e head => (of_endsOperand (next e head)).1) fits)
  · -- the mark would be the next character of the name, or stand right after it
    cases tail with
    | nil => cases second
    | cons mark tail =>
      have listed : mark ∈ ['`', '\x7b'] := contains_iff_mem.mp second
      cases more with
      | nil =>
        obtain ⟨others, rfl⟩ := after
        exact (of_endsOperand (next mark rfl)).2.2 (mem_cons_of_mem _ listed)
      | cons e more =>
        obtain ⟨rfl, -⟩ := cons_prefix_cons.mp after
        exact not_mem_of_test (inside mark mem_cons_self) (by decide) listed

theorem IsIdentifier.lexeme_eq {chars : List Char} (isIdentifier : IsIdentifier chars)
    (next : Next (endsOperand · = true) rest) : lexeme (chars ++ rest) = (.word, chars.length) := by
  have symbol := isIdentifier.wordLength_symbols next
  obtain ⟨c, more, rfl, start, inside⟩ := isIdentifier.exists_cons
  have starts := startsOperand_of_isNameStart start
  have operator : wordLength operators (c :: more ++ rest) = 0 := by
    apply wordLength_eq_zero
    intro w member fits
    obtain ⟨nonempty, fails⟩ := words_named.2 w member
    obtain ⟨d, tail, rfl⟩ := exists_cons_of_ne_nil nonempty
    obtain ⟨rfl, -⟩ := cons_prefix_cons.mp fits
    exact not_mem_of_test starts fails mem_cons_self
  exact lexeme_word ⟨isPlain_of_isNameStart start, symbol, operator⟩ start inside
    fun e head => (of_endsOperand (next e head)).1

variable {a b : Operand}

namespace Operand

theorem lexeme_eq (a : Operand) (next : Next (endsOperand · = true) rest)
    (free : rest.head? = some '!' → a.chars ≠ ['0'] ∧ a.chars ≠ ['1']) :
    lexeme (a.chars ++ rest) = (a.piece.shape, a.chars.length) := by
  cases a with
  | name chars isIdentifier => exact isIdentifier.lexeme_eq next
  | whole digits nonempty each =>
    refine lexeme_number nonempty each (fun c head => ?_) free
    obtain ⟨-, digit, others⟩ := of_endsOperand (next c head)
    exact ⟨digit, fun point => others (point ▸ mem_cons_self)⟩

theorem exists_cons (a : Operand) : ∃ c more, a.chars = c :: more ∧ startsOperand c = true := by
  cases a with
  | name chars isIdentifier =>
    obtain ⟨c, more, same, start, -⟩ := isIdentifier.exists_cons
    exact ⟨c, more, same, startsOperand_of_isNameStart start⟩
  | whole digits nonempty each =>
    obtain ⟨c, more, rfl⟩ := exists_cons_of_ne_nil nonempty
    exact ⟨c, more, rfl, by rw [startsOperand, each c mem_cons_self, Bool.or_true]⟩

theorem text_piece (a : Operand) : a.piece.text = a.chars := by
  cases a <;> rfl

theorem not_mem_newline (a : Operand) : '\n' ∉ a.chars := by
  cases a with
  | name chars isIdentifier => exact fun member => absurd (isIdentifier.inside _ member) (by decide)
  | whole digits nonempty each => exact fun member => absurd (each _ member) (by decide)

theorem classify_name {chars : List Char} (isIdentifier : IsIdentifier chars) :
    Token.classify (String.ofList chars) = (.ident, String.ofList chars) := by
  have marked : ∀ entry ∈ Token.dictionarySymbols, entry.1.toList.all isNameChar = false := by
    decide
  have other : Token.dictionarySymbols.lookup (String.ofList chars) = none := by
    rw [lookup_eq_none_iff]
    intro entry member
    have stop := marked entry member
    rw [bne_iff_ne]
    intro same
    rw [← same, String.toList_ofList, all_eq_true.mpr isIdentifier.inside] at stop
    cases stop
  rw [Token.classify, other, isIdentifier.free]

theorem token?_piece (short : a.Short) (p : Position) :
    token? a.piece.shape a.piece.text p = .ok (some (labelled p a.label)) := by
  cases a with
  | name chars isIdentifier =>
    simp only [piece, token?, classify_name isIdentifier]
    rfl
  | whole digits nonempty each =>
    have value : numeral digits = .ok (.int (Text.digitsToNat digits)) :=
      (numeral_digits each).trans (if_pos short)
    simp only [piece, token?, value]
    rfl

theorem short_of_legible (legible : a.piece.Legible) : a.Short := by
  obtain ⟨found, read⟩ := legible
  cases a with
  | name chars isIdentifier => trivial
  | whole digits nonempty each =>
    by_contra long
    have fault : numeral digits = .error (.digits digits.length) :=
      (numeral_digits each).trans (if_neg long)
    simp only [piece, token?, fault] at read
    cases read

theorem label?_piece (short : a.Short) : a.piece.label? = some a.label := by
  rw [Piece.label?, token?_piece short]
  rfl

end Operand

/-! ## Operators -/

/-- The characters with which words go on. -/
def continuations (words : List (List Char)) (front : List Char) : List Char :=
  words.filterMap fun word => if front <+: word then word[front.length]? else none

theorem mem_continuations {words : List (List Char)} {front : List Char} (member : word ∈ words)
    (longer : front ++ [c] <+: word) : c ∈ continuations words front := by
  refine mem_filterMap.mpr ⟨word, member, ?_⟩
  obtain ⟨tail, rfl⟩ := longer
  simp

/-- What makes an operator, wherever it stands between operands. -/
structure IsBinary (op : List Char) : Prop where
  start : op.head?.any (fun c => endsOperand c && c ≠ '"' && c ≠ '\'') = true
  mark : op.head? = some '!' → op = ['!', '=']
  symbol : wordLength symbols op = 0
  comment : ¬ ['/', '*'] <+: op ∧ ¬ ['/', '/'] <+: op
  length : opLength op = op.length
  line : '\n' ∉ op
  alone : (continuations symbols op).all
    (fun d => !startsOperand d || (op = ['-'] && d = 'k')) = true

theorem isBinary_of_mem (listed : op ∈ binaryOperators) : IsBinary op.toList := by
  have told : ∀ op ∈ binaryOperators.map String.toList,
      op.head?.any (fun c => endsOperand c && c ≠ '"' && c ≠ '\'') = true ∧
      (op.head? = some '!' → op = ['!', '=']) ∧ wordLength symbols op = 0 ∧
      (¬ ['/', '*'] <+: op ∧ ¬ ['/', '/'] <+: op) ∧ opLength op = op.length ∧ '\n' ∉ op ∧
      (continuations symbols op).all
        (fun d => !startsOperand d || (op = ['-'] && d = 'k')) = true := by
    decide
  obtain ⟨start, mark, symbol, comment, length, line, alone⟩ := told _ (mem_map_of_mem listed)
  exact ⟨start, mark, symbol, comment, length, line, alone⟩

theorem stopsAt_opLength_of_starts (starts : startsOperand d = true) : StopsAt d opLength := by
  have absent : operators.all (fun word => !word.contains d) = true := by
    refine all_eq_true.mpr fun word member => ?_
    simpa using not_mem_of_test starts (words_named.2 word member).2
  have run : isOperatorChar d = false := by
    simp only [isOperatorChar, contains_eq_mem, decide_eq_false_iff_not]
    exact not_mem_of_test starts (by decide)
  exact stopsAt_opLength (stopsAt_wordLength absent) run

/-- An operator ends before an operand, but for `-k`. -/
theorem IsBinary.lexeme_eq {op : List Char} (binary : IsBinary op) {more : List Char}
    (starts : startsOperand d = true) (free : op = ['-'] → d ≠ 'k') :
    lexeme (op ++ d :: more) = (.op, op.length) := by
  obtain ⟨start, -, symbol, ⟨block, line⟩, length, -, alone⟩ := binary
  obtain ⟨c, rest, rfl⟩ : ∃ c rest, op = c :: rest := by
    cases op with
    | nil => cases start
    | cons c rest => exact ⟨c, rest, rfl⟩
  simp only [head?_cons, Option.any_some, Bool.and_eq_true, decide_eq_true_eq] at start
  obtain ⟨⟨ends, double⟩, single⟩ := start
  have others : d ∉ ['*', '/'] := not_mem_of_test starts (by decide)
  have words : wordLength symbols (c :: rest ++ d :: more) = 0 := by
    rw [wordLength_append (fun word member longer => ?_) more, symbol]
    have taken := all_eq_true.mp alone d (mem_continuations member longer)
    simp only [starts, Bool.not_true, Bool.false_or, Bool.and_eq_true, decide_eq_true_eq] at taken
    exact free taken.1 taken.2
  have number : numberLength (c :: rest ++ d :: more) = 0 := by
    rw [numberLength_eq]
    exact if_pos (runLength_cons_stop (of_endsOperand ends).2.1 _)
  have string : stringLength (c :: rest ++ d :: more) = 0 := by
    rw [cons_append, stringLength_cons]
    exact if_neg fun quoted => quoted.1.elim double single
  have comment : commentLength (c :: rest ++ d :: more) = 0 := by
    rw [commentLength_append (cons_ne_nil c rest) ?_ (fun begins => absurd begins line)
      fun body same => absurd ⟨body, same.symm⟩ block, commentLength_other block line]
    exact fun _ => ⟨fun star => others (by simp [star]), fun slash => others (by simp [slash])⟩
  have reach : opLength (c :: rest ++ d :: more) = rest.length + 1 :=
    (stopsAt_opLength_of_starts starts _ more (cons_ne_nil c rest)).trans length
  refine lexeme_of_rule 4 rfl ?_ reach
  simp only [rules, take_succ_cons, take_zero, forall_mem_cons, not_mem_nil]
  exact ⟨words, number, string, comment, fun _ => False.elim⟩

/-! ## Operations -/

theorem cuts_operand (a : Operand) (next : Next (endsOperand · = true) rest)
    (free : rest.head? = some '!' → a.chars ≠ ['0'] ∧ a.chars ≠ ['1']) (later : Cuts rest pieces) :
    Cuts (a.chars ++ rest) (a.piece :: pieces) := by
  have read := a.lexeme_eq next free
  have nonempty : a.chars ≠ [] := by
    obtain ⟨c, more, same, -⟩ := a.exists_cons
    rw [same]
    exact cons_ne_nil c more
  cases a with
  | name chars isIdentifier | whole digits _ each => exact .cons nonempty read later

theorem cuts_operation (a b : Operand) {op : List Char} (binary : IsBinary op)
    (left : op = ['!', '='] → a.chars ≠ ['0'] ∧ a.chars ≠ ['1'])
    (right : op = ['-'] → b.chars.head? ≠ some 'k') :
    Cuts (a.chars ++ (op ++ b.chars)) [a.piece, ⟨.op, op⟩, b.piece] := by
  have last : Cuts (b.chars ++ []) [b.piece] :=
    cuts_operand b (fun c head => by cases head) (fun head => by cases head) .nil
  rw [append_nil] at last
  have nonempty : op ≠ [] := by
    rintro rfl
    cases binary.start
  have middle : Cuts (op ++ b.chars) [⟨.op, op⟩, b.piece] := by
    obtain ⟨d, more, same, starts⟩ := b.exists_cons
    refine .cons nonempty ?_ last
    rw [same] at right ⊢
    exact binary.lexeme_eq starts fun minus key => right minus (congrArg some key)
  have head : (op ++ b.chars).head? = op.head? := by
    rw [head?_append_of_ne_nil _ nonempty]
  refine cuts_operand a (fun c first => ?_) (fun mark => left (binary.mark (head ▸ mark))) middle
  have start := binary.start
  rw [← head, first, Option.any_some] at start
  simp only [Bool.and_eq_true] at start
  exact start.1.1

theorem contents_of_cuts {source : String} {tokens : List Token} (cuts : Cuts source.toList pieces)
    (read : lex source = ⟨tokens, none⟩) :
    (∀ piece ∈ pieces, piece.Legible) ∧
      tokens.map Token.content = pieces.filterMap Piece.label? := by
  have legible : ∀ piece ∈ pieces, piece.Legible :=
    legible_of_lexFrom cuts (congrArg Result.fault read)
  have same := (lexFrom_of_cuts cuts legible {}).symm.trans read
  have placed : place {} pieces = tokens := congrArg Result.tokens same
  rw [← place_content {}, placed]
  exact ⟨legible, rfl⟩

theorem cuts_key (a : Operand) (rest : List Char) :
    ∃ pieces,
      Cuts (a.chars ++ '-' :: 'k' :: rest) (a.piece :: ⟨.symbol, ['-', 'k']⟩ :: pieces) := by
  obtain ⟨pieces, later⟩ := exists_cuts rest
  have read : lexeme (['-', 'k'] ++ rest) = (.symbol, 2) :=
    lexeme_of_rule 0 rfl (by simp) rfl
  have symbol := Cuts.cons (cons_ne_nil _ _) read later
  refine ⟨pieces, cuts_operand a (fun c head => ?_) (fun head => ?_) symbol⟩
  · cases head
    decide
  · cases head

theorem cuts_truth (truth : d = '0' ∨ d = '1') (rest : List Char) :
    ∃ pieces, Cuts (d :: '!' :: rest) (⟨.symbol, [d, '!']⟩ :: pieces) := by
  obtain ⟨pieces, later⟩ := exists_cuts rest
  have read : lexeme ([d, '!'] ++ rest) = (.symbol, 2) := by
    rcases truth with rfl | rfl
    · exact lexeme_of_rule 0 rfl (by simp) rfl
    · exact lexeme_of_rule 0 rfl (by simp) rfl
  exact ⟨pieces, .cons (cons_ne_nil _ _) read later⟩

/-- An operation, written without blanks. -/
def unspaced (a : Operand) (op : String) (b : Operand) : String :=
  String.ofList a.chars ++ op ++ String.ofList b.chars

theorem toList_unspaced (a b : Operand) (op : String) :
    (unspaced a op b).toList = a.chars ++ (op.toList ++ b.chars) := by
  simp [unspaced]

/-- The tokens of an operation at the start of a text. -/
def operation (a : Operand) (op : String) (b : Operand) : List Token :=
  [labelled ⟨1, 1⟩ a.label, labelled ⟨1, 1 + a.chars.length⟩ (.op, .text op),
    labelled ⟨1, 1 + a.chars.length + op.length⟩ b.label]

theorem place_operation (shortLeft : a.Short) (shortRight : b.Short) (line : '\n' ∉ op.toList) :
    place {} [a.piece, ⟨.op, op.toList⟩, b.piece] = operation a op b := by
  have sign : Piece.label? ⟨.op, op.toList⟩ = some (.op, .text op) := by
    rw [Piece.label?, token?, String.ofList_toList]
    rfl
  simp only [place, Operand.label?_piece shortLeft, Operand.label?_piece shortRight, sign,
    Operand.text_piece, Position.after_line a.not_mem_newline, Position.after_line line,
    String.length_toList]
  rfl

theorem not_clash_of_lex (read : lex (unspaced a op b) = ⟨operation a op b, none⟩) :
    ¬ Clash a op b := by
  rintro (⟨rfl, key⟩ | ⟨rfl, truth⟩)
  · -- the second token is the symbol's, a name and no operator
    obtain ⟨more, same⟩ := head?_eq_some_iff.mp key
    obtain ⟨pieces, cuts⟩ := cuts_key a more
    have source : (unspaced a "-" b).toList = a.chars ++ '-' :: 'k' :: more := by
      rw [toList_unspaced, same]
      rfl
    obtain ⟨legible, contents⟩ := contents_of_cuts (source ▸ cuts) read
    have short : a.Short := Operand.short_of_legible (legible _ mem_cons_self)
    rw [filterMap_cons_some (Operand.label?_piece short)] at contents
    cases (List.cons.inj (List.cons.inj contents).2).1
  · -- the first token is the symbol's, with a text and no number
    obtain ⟨d, same, isTruth⟩ : ∃ d, a.chars = [d] ∧ (d = '0' ∨ d = '1') := by
      rcases truth with same | same
      · exact ⟨'0', same, .inl rfl⟩
      · exact ⟨'1', same, .inr rfl⟩
    obtain ⟨pieces, cuts⟩ := cuts_truth isTruth ('=' :: b.chars)
    have source : (unspaced a "!=" b).toList = d :: '!' :: '=' :: b.chars := by
      rw [toList_unspaced, same]
      rfl
    obtain ⟨-, contents⟩ := contents_of_cuts (source ▸ cuts) read
    cases a with
    | name chars isIdentifier =>
      obtain rfl : chars = [d] := same
      have start : isNameStart d = true := isIdentifier.start
      exact not_mem_of_test start (by decide) (show d ∈ ['0', '1'] by simpa using isTruth)
    | whole digits _ _ => cases congrArg Prod.snd (List.cons.inj contents).1

end Lexer

open Lexer

/-- An operation without blanks is read as three tokens, exactly if no symbol takes characters of
two of them and the numbers are not too long. -/
theorem lex_operation (a b : Operand) {op : String} (listed : op ∈ binaryOperators) :
    lex (unspaced a op b) = ⟨operation a op b, none⟩ ↔ ¬ Clash a op b ∧ a.Short ∧ b.Short := by
  have binary := isBinary_of_mem listed
  have cuts : ¬ Clash a op b →
      Cuts (unspaced a op b).toList [a.piece, ⟨.op, op.toList⟩, b.piece] := by
    intro clear
    rw [toList_unspaced]
    refine cuts_operation a b binary (fun mark => ?_) fun minus key => ?_
    · obtain rfl : op = "!=" := String.toList_inj.mp mark
      exact not_or.mp fun truth => clear (.inr ⟨rfl, truth⟩)
    · obtain rfl : op = "-" := String.toList_inj.mp minus
      exact clear (.inl ⟨rfl, key⟩)
  constructor
  · intro read
    have clear := not_clash_of_lex read
    have legible := (contents_of_cuts (cuts clear) read).1
    exact ⟨clear, Operand.short_of_legible (legible _ (by simp)),
      Operand.short_of_legible (legible _ (by simp))⟩
  · rintro ⟨clear, shortLeft, shortRight⟩
    have legible : ∀ piece ∈ [a.piece, ⟨.op, op.toList⟩, b.piece], piece.Legible := by
      simp only [forall_mem_cons, not_mem_nil]
      exact ⟨⟨_, Operand.token?_piece shortLeft {}⟩, ⟨_, rfl⟩,
        ⟨_, Operand.token?_piece shortRight {}⟩, fun _ => False.elim⟩
    rw [lex, lexFrom_of_cuts (cuts clear) legible, place_operation shortLeft shortRight binary.line]

theorem isIdentifier_letters : IsIdentifier ['a'] ∧ IsIdentifier ['k'] := by
  have free : Token.keyword? (String.ofList ['a']) = none ∧
      Token.keyword? (String.ofList ['k']) = none := by decide
  exact ⟨⟨rfl, forall_mem_singleton.mpr rfl, free.1, by decide⟩,
    ⟨rfl, forall_mem_singleton.mpr rfl, free.2, by decide⟩⟩

/-- `!` after two digits, and `k` after another sign than minus. -/
theorem lex_operation_unequal :
    "!=" ∈ binaryOperators ∧
      lex "10!=k" =
        ⟨[⟨.number, .number (.int 10), 1, 1⟩, ⟨.op, .text "!=", 1, 3⟩, ⟨.ident, .text "k", 1, 5⟩],
          none⟩ := by
  have listed : "!=" ∈ binaryOperators := by decide
  have ten : ∀ d ∈ ['1', '0'], Text.isDigit d = true := all_eq_true.mp (by decide)
  have short : ['1', '0'].length ≤ maxDigits := by decide
  refine ⟨listed, (lex_operation (.whole ['1', '0'] (by decide) ten)
    (.name ['k'] isIdentifier_letters.2) listed).mpr ⟨?_, short, trivial⟩⟩
  rintro (⟨minus, -⟩ | ⟨-, truth | truth⟩)
  · exact absurd minus (by decide)
  · cases truth
  · cases truth

/-- `a-k` and `1!=2`: a symbol takes the second name, and the first number. -/
theorem symbol_between_operands :
    IsIdentifier ['a'] ∧ IsIdentifier ['k'] ∧ "-" ∈ binaryOperators ∧ "!=" ∈ binaryOperators ∧
      (lex "a-k").tokens =
        [⟨.ident, .text "a", 1, 1⟩, ⟨.ident, .text "vydalyty_klyuch_sym", 1, 2⟩] ∧
      (lex "1!=2").tokens.map Token.content =
        [(.keyword .yes, .text "1!"), (.op, .text "="), (.number, .number (.int 2))] := by
  have tokens : (lex "a-k").tokens =
        [⟨.ident, .text "a", 1, 1⟩, ⟨.ident, .text "vydalyty_klyuch_sym", 1, 2⟩] ∧
      (lex "1!=2").tokens.map Token.content =
        [(.keyword .yes, .text "1!"), (.op, .text "="), (.number, .number (.int 2))] := by
    decide +kernel
  exact ⟨isIdentifier_letters.1, isIdentifier_letters.2, by decide, by decide, tokens⟩

end Hetman
