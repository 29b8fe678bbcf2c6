import Hetman.Proofs.Lexing.Numerals
import Hetman.Proofs.Lexing.Pieces
import Mathlib.Data.List.Induction

/-!
# Where tokens stand

The line and column of a token name one offset of the text (`Position.ofOffset_inj`), at which
stands what the token was written as (`Token.Stands`). The stretches of text of the tokens follow
one another, with blanks, line ends and whole comments between them (`Lexer.Spaced`).
-/

namespace Hetman

open List

variable {text front rest : List Char} {pieces : List Piece} {t : Token} {shape : Shape}
  {label : Kind × Token.Payload}

/-! ## Offsets -/

/-- The place at an offset: one counts line ends before it, and characters since the last. -/
def Position.ofOffset (text : List Char) (offset : Nat) : Position :=
  ⟨(text.take offset).count '\n' + 1,
   ((text.take offset).reverse.takeWhile (· ≠ '\n')).length + 1⟩

theorem Position.after_eq_ofOffset (before rest : List Char) :
    Position.after {} before = Position.ofOffset (before ++ rest) before.length := by
  rw [Position.ofOffset, take_left]
  induction before using List.reverseRecOn with
  | nil => rfl
  | append_singleton before c ih =>
    rw [Position.after_append, ih]
    by_cases newline : c = '\n'
    · simp [Position.after, Position.step, newline]
    · simp [Position.after, Position.step, newline]

theorem Position.ofOffset_inj {i j : Nat} (inside : i ≤ text.length) (inside' : j ≤ text.length)
    (same : Position.ofOffset text i = Position.ofOffset text j) : i = j := by
  wlog before : i ≤ j generalizing i j
  · exact (this inside' inside same.symm (by omega)).symm
  · have split : text.take j = text.take i ++ (text.drop i).take (j - i) := by
      rw [← take_add, Nat.add_sub_cancel' before]
    have length : ((text.drop i).take (j - i)).length = j - i := by
      rw [length_take, length_drop]
      omega
    generalize (text.drop i).take (j - i) = between at split length
    simp only [Position.ofOffset, split, Position.mk.injEq, count_append] at same
    have line : '\n' ∉ between := count_eq_zero.mp (by omega)
    have all : ∀ c ∈ between.reverse, (c ≠ '\n' : Bool) = true := fun c member =>
      decide_eq_true (ne_of_mem_of_not_mem (mem_reverse.mp member) line)
    have column := same.2
    rw [reverse_append, takeWhile_append_of_pos all, length_append, length_reverse] at column
    omega

/-! ## Spellings -/

/-- Characters and the offset at which they stand. -/
structure Span where
  offset : Nat
  chars : List Char

/-- What is written for a token at the start of a text: its text or the symbol that it names, and
for a number the longest numeral, which denotes it. -/
def Token.WrittenAs (t : Token) (chars text : List Char) : Prop :=
  match t.payload with
  | .text s =>
    t.kind ≠ .number ∧
      (chars = s.toList ∨ t.kind = .ident ∧ (String.ofList chars, s) ∈ Token.dictionarySymbols)
  | .number n =>
    t.kind = .number ∧ Lexer.Denotes chars n ∧
      ∀ other m, other <+: text → Lexer.Denotes other m → other.length ≤ chars.length

/-- A token stands for a stretch of a text: its line and column name only the offset of the stretch,
and that is what is written for it. -/
structure Token.Stands (text : List Char) (t : Token) (span : Span) : Prop where
  some : span.chars ≠ []
  present : span.chars <+: text.drop span.offset
  place : Position.ofOffset text span.offset = ⟨t.line, t.column⟩
  only : ∀ offset ≤ text.length, Position.ofOffset text offset = ⟨t.line, t.column⟩ →
    offset = span.offset
  written : t.WrittenAs span.chars (text.drop span.offset)

variable {span : Span}

theorem Token.Stands.offset_le (stands : t.Stands text span) : span.offset ≤ text.length := by
  have length := stands.present.length_le
  have positive := length_pos_iff.mpr stands.some
  rw [length_drop] at length
  omega

/-- No symbol for a function begins like its name, and no two stand for the same. -/
theorem Token.dictionarySymbols_apart :
    (∀ a ∈ Token.dictionarySymbols,
      ¬ a.1.toList <+: a.2.toList ∧ ¬ a.2.toList <+: a.1.toList) ∧
    ∀ a ∈ Token.dictionarySymbols, ∀ b ∈ Token.dictionarySymbols, a.2 = b.2 → a.1 = b.1 := by
  decide

theorem Token.WrittenAs.unique {chars chars' : List Char} (written : t.WrittenAs chars text)
    (present : chars <+: text) (written' : t.WrittenAs chars' text) (present' : chars' <+: text) :
    chars = chars' := by
  have apart : ∀ {name : String} {symbol : List Char},
      (String.ofList symbol, name) ∈ Token.dictionarySymbols → symbol <+: text →
      ¬ name.toList <+: text := by
    intro name symbol listed first second
    have differ := Token.dictionarySymbols_apart.1 _ listed
    rw [String.toList_ofList] at differ
    rcases List.prefix_or_prefix_of_prefix first second with shorter | longer
    · exact differ.1 shorter
    · exact differ.2 longer
  rcases t with ⟨kind, name | n, line, column⟩
  · rcases written.2 with rfl | ⟨-, listed⟩
    · rcases written'.2 with rfl | ⟨-, listed'⟩
      · rfl
      · exact absurd present (apart listed' present')
    · rcases written'.2 with rfl | ⟨-, listed'⟩
      · exact absurd present' (apart listed present)
      · exact String.ofList_injective (Token.dictionarySymbols_apart.2 _ listed _ listed' rfl)
  · have shorter := written'.2.2 chars n present written.2.1
    have longer := written.2.2 chars' n present' written'.2.1
    exact (prefix_of_prefix_length_le present present' shorter).eq_of_length (by omega)

theorem Token.Stands.unique {span' : Span} (stands : t.Stands text span)
    (stands' : t.Stands text span') : span = span' := by
  have offset := stands'.only span.offset stands.offset_le stands.place
  rcases span with ⟨o, chars⟩
  rcases span' with ⟨o', chars'⟩
  cases offset
  exact congrArg (Span.mk o) (stands.written.unique stands.present stands'.written stands'.present)

theorem Token.classify_ne {kind : Kind} (noName : kind ≠ .ident) (noWord : ∀ k, kind ≠ .keyword k)
    (spelling : String) : (Token.classify spelling).1 ≠ kind := by
  unfold Token.classify
  split
  · exact noName.symm
  · split
    · exact (noWord _).symm
    · exact noName.symm

theorem exists_of_mem_right {α β : Type} {R : α → β → Prop} {xs : List α} {ys : List β} {y : β}
    (related : List.Forall₂ R xs ys) (member : y ∈ ys) : ∃ x ∈ xs, R x y := by
  induction related with
  | nil => cases member
  | cons head tail ih =>
    rcases mem_cons.mp member with rfl | later
    · exact ⟨_, mem_cons_self, head⟩
    · obtain ⟨x, inside, holds⟩ := ih later
      exact ⟨x, mem_cons_of_mem _ inside, holds⟩

namespace Lexer

/-- A number is the payload of its token; any other has the text of its lexeme, or the name of a
symbol. -/
theorem label_cases {n : Nat} (read : lexeme text = (shape, n))
    (given : Piece.label? ⟨shape, front⟩ = some label) :
    (shape = .number ∧ ∃ value, numeral front = .ok value ∧ label = (.number, .number value)) ∨
      label.1 ≠ .number ∧ (label.1 = .op ↔ shape = .op) ∧
        (label.2 = .text (String.ofList front) ∨
          ∃ name, (String.ofList front, name) ∈ Token.dictionarySymbols ∧
            label = (.ident, .text name)) := by
  cases shape with
  | comment | blank | newline | stray => cases given
  | string | op =>
    cases given
    simp [Token.content]
  | symbol | word =>
    cases given
    have kind := fun {k : Kind} noName noWord =>
      @Token.classify_ne k noName noWord (String.ofList front)
    refine .inr ⟨kind (by simp) (by simp), iff_of_false (kind (by simp) (by simp)) (by simp), ?_⟩
    rcases classify_cases (String.ofList front) with ⟨name, listed, classified⟩ | same
    · exact .inr ⟨name, listed, congrArg (Prod.map id Token.Payload.text) classified⟩
    · exact .inl (congrArg Token.Payload.text same)
  | mark kind =>
    cases given
    obtain ⟨rule, member, own, -⟩ := lexeme_rule read (by simp)
    have nothing : ∀ rule ∈ rules, rule.1 ≠ .mark .number ∧ rule.1 ≠ .mark .op := by decide
    obtain ⟨noNumber, noOp⟩ := nothing rule member
    rw [own] at noNumber noOp
    exact .inr ⟨fun same => noNumber (congrArg _ same),
      iff_of_false (fun same => noOp (congrArg _ same)) (by simp), .inl rfl⟩
  | number =>
    unfold Piece.label? at given
    cases value : numeral front with
    | error fault =>
      simp only [token?, value] at given
      cases given
    | ok n =>
      simp only [token?, value] at given
      cases given
      exact .inl ⟨rfl, n, rfl, rfl⟩

theorem writtenAs_of_lexeme (p : Position) (nonempty : front ≠ [])
    (read : lexeme (front ++ rest) = (shape, front.length))
    (given : Piece.label? ⟨shape, front⟩ = .some label) :
    (labelled p label).WrittenAs front (front ++ rest) := by
  rcases label_cases read given with ⟨rfl, n, value, rfl⟩ | ⟨kind, -, own | ⟨name, listed, rfl⟩⟩
  · have own := numberLength_of_lexeme (lexeme_cut read)
    refine ⟨rfl, denotes_of_numeral nonempty own value, ?_⟩
    intro other m present denotes
    rw [← numberLength_of_lexeme read]
    exact length_le_numberLength denotes present
  · obtain ⟨_, payload⟩ := label
    obtain rfl : payload = _ := own
    exact ⟨kind, .inl String.toList_ofList.symm⟩
  · exact ⟨kind, .inr ⟨rfl, listed⟩⟩

theorem stands_of_lexeme {before : List Char} (nonempty : front ≠ [])
    (read : lexeme (front ++ rest) = (shape, front.length))
    (given : Piece.label? ⟨shape, front⟩ = .some label) :
    Token.Stands (before ++ (front ++ rest)) (labelled (Position.after {} before) label)
      ⟨before.length, front⟩ := by
  have place := Position.after_eq_ofOffset before (front ++ rest)
  constructor
  · exact nonempty
  · rw [drop_left]
    exact prefix_append front rest
  · exact place.symm
  · intro offset inside same
    have own : before.length ≤ (before ++ (front ++ rest)).length := by
      rw [length_append]
      omega
    exact Position.ofOffset_inj inside own (same.trans place)
  · rw [drop_left]
    exact writtenAs_of_lexeme _ nonempty read given

def spans (offset : Nat) : List Piece → List Span
  | [] => []
  | piece :: later =>
    (piece.label?.map fun _ => ⟨offset, piece.text⟩).toList ++
      spans (offset + piece.text.length) later

/-- The lexemes that give tokens. -/
def voiced (pieces : List Piece) : List Piece :=
  pieces.filter fun piece => piece.label?.isSome

theorem voiced_cons (piece : Piece) (pieces : List Piece) :
    voiced (piece :: pieces) =
      if piece.label?.isSome then piece :: voiced pieces else voiced pieces :=
  filter_cons

theorem spans_chars (offset : Nat) (pieces : List Piece) :
    (spans offset pieces).map Span.chars = (voiced pieces).map Piece.text := by
  induction pieces generalizing offset with
  | nil => rfl
  | cons piece pieces ih =>
    rw [spans, map_append, ih, voiced_cons]
    rcases piece.label? with _ | label
    · rfl
    · rfl

theorem stands_of_cuts (cuts : Cuts text pieces) (before : List Char) :
    List.Forall₂ (Token.Stands (before ++ text)) (place (Position.after {} before) pieces)
      (spans before.length pieces) := by
  induction cuts generalizing before with
  | nil => exact .nil
  | @cons front rest shape pieces nonempty read later ih =>
    have others := ih (before ++ front)
    rw [Position.after_append, length_append, append_assoc] at others
    rw [place, spans]
    rcases given : Piece.label? ⟨shape, front⟩ with _ | label
    · exact others
    · exact .cons (stands_of_lexeme nonempty read given) others

theorem written_of_cuts (cuts : Cuts text pieces) :
    List.Forall₂ (fun t chars => ∃ offset, Token.Stands text t ⟨offset, chars⟩)
      (place {} pieces) ((voiced pieces).map Piece.text) := by
  rw [← spans_chars 0, List.forall₂_map_right_iff]
  exact (stands_of_cuts cuts []).imp fun t span stands => ⟨span.offset, stands⟩

theorem exists_piece (cuts : Cuts text pieces) (before : List Char)
    (member : t ∈ place (Position.after {} before) pieces) :
    ∃ front piece back, pieces = front ++ piece :: back ∧ piece.label? = some t.content ∧
      t.Stands (before ++ text) ⟨before.length + (front.flatMap Piece.text).length, piece.text⟩ := by
  induction cuts generalizing before with
  | nil => cases member
  | @cons chars rest shape pieces nonempty read later ih =>
    rw [place, mem_append, ← Position.after_append] at member
    rcases member with own | after
    · obtain ⟨label, given, rfl⟩ := Option.map_eq_some_iff.mp (Option.mem_toList.mp own)
      exact ⟨[], ⟨shape, chars⟩, pieces, rfl, given, stands_of_lexeme nonempty read given⟩
    · obtain ⟨front, piece, back, rfl, given, stands⟩ := ih (before ++ chars) after
      refine ⟨⟨shape, chars⟩ :: front, piece, back, rfl, given, ?_⟩
      rw [append_assoc, length_append, Nat.add_assoc, ← length_append] at stands
      exact stands

theorem exists_token {front back : List Piece} {piece : Piece}
    (cuts : Cuts text (front ++ piece :: back)) (given : piece.label?.isSome = true) :
    ∃ t ∈ place {} (front ++ piece :: back),
      t.Stands text ⟨(front.flatMap Piece.text).length, piece.text⟩ := by
  obtain ⟨label, found⟩ := Option.isSome_iff_exists.mp given
  obtain ⟨rest, rfl, later⟩ := cuts.split
  obtain ⟨rest, rfl, nonempty, read, -⟩ := later.uncons
  refine ⟨_, ?_, stands_of_lexeme nonempty read found⟩
  rw [place_append, place, found]
  exact mem_append_right _ mem_cons_self

theorem lexemes_eq (cuts : Cuts text pieces) {lexemes : List (List Char)}
    (written : List.Forall₂ (fun t chars => ∃ offset, Token.Stands text t ⟨offset, chars⟩)
      (place {} pieces) lexemes) : lexemes = (voiced pieces).map Piece.text := by
  refine right_unique_forall₂' ?_ written (written_of_cuts cuts)
  rintro t chars chars' ⟨offset, stands⟩ ⟨offset', stands'⟩
  exact congrArg Span.chars (stands.unique stands')

/-! ## What is between tokens -/

/-- Blanks, line ends and whole comments. One on a line comes with the line's end. -/
inductive Filler : List Char → Prop
  | nil : Filler []
  | blank {c : Char} {rest : List Char} (isBlank : c = ' ' ∨ c = '\t' ∨ c = '\n')
      (later : Filler rest) : Filler (c :: rest)
  | block {body rest : List Char} (closed : ¬ ['*', '/'] <:+: body) (later : Filler rest) :
      Filler ('/' :: '*' :: (body ++ '*' :: '/' :: rest))
  | line {body rest : List Char} (inside : '\n' ∉ body) (later : Filler rest) :
      Filler ('/' :: '/' :: (body ++ '\n' :: rest))

/-- Filler and then a comment on a line without an end. -/
def OpenLine (text : List Char) : Prop :=
  ∃ before body, text = before ++ '/' :: '/' :: body ∧ Filler before ∧ '\n' ∉ body

theorem Filler.append {more : List Char} (first : Filler text) (second : Filler more) :
    Filler (text ++ more) := by
  induction first with
  | nil => exact second
  | blank isBlank later ih => exact .blank isBlank ih
  | block closed later ih =>
    rw [cons_append, cons_append, append_assoc]
    exact .block closed ih
  | line inside later ih =>
    rw [cons_append, cons_append, append_assoc]
    exact .line inside ih

theorem filler_of_blanks (each : ∀ c ∈ text, c = ' ' ∨ c = '\t') : Filler text := by
  induction text with
  | nil => exact .nil
  | cons c text ih =>
    rw [forall_mem_cons] at each
    rcases each.1 with rfl | rfl
    · exact .blank (.inl rfl) (ih each.2)
    · exact .blank (.inr (.inl rfl)) (ih each.2)

theorem OpenLine.close (opened : OpenLine text) : Filler (text ++ ['\n']) := by
  obtain ⟨before, body, rfl, filler, inside⟩ := opened
  rw [append_assoc]
  exact filler.append (.line inside .nil)

/-- Since the last token: filler, or a comment that ends where the line does. -/
def Pending (gap text : List Char) : Prop :=
  Filler gap ∨ OpenLine gap ∧ (text = [] ∨ text.head? = some '\n')

theorem lexeme_newline (rest : List Char) : lexeme ('\n' :: rest) = (.newline, 1) :=
  rfl

/-- A lexeme without a token is filler, but for the end of the line. -/
theorem pending_of_isSilent (nonempty : front ≠ [])
    (read : lexeme (front ++ rest) = (shape, front.length)) (silent : shape.isSilent = true) :
    Pending front rest := by
  have known : shape ≠ .stray := by
    rintro rfl
    cases silent
  cases shape with
  | comment =>
    obtain ⟨rule, member, own, fits⟩ := lexeme_rule read known
    rw [rules_of_shape.2.1 rule member own] at fits
    rcases comment_eq nonempty fits with ⟨body, rfl, clean⟩ | ⟨body, rfl, inside, ends⟩
    · exact .inl (.block clean .nil)
    · exact .inr ⟨⟨[], body, rfl, .nil, inside⟩, ends⟩
  | blank =>
    obtain ⟨rule, member, own, fits⟩ := lexeme_rule (lexeme_cut read) known
    rw [rules_of_shape.2.2.1 rule member own] at fits
    have each := takeWhile_eq_self_iff.mp ((List.takeWhile_prefix _).eq_of_length fits)
    exact .inl (filler_of_blanks fun c inside => by simpa using each c inside)
  | newline =>
    obtain ⟨rule, member, own, fits⟩ := lexeme_rule (lexeme_cut read) known
    rw [rules_of_shape.2.2.2 rule member own] at fits
    obtain ⟨c, front, rfl⟩ := exists_cons_of_ne_nil nonempty
    rw [charLength, length_cons] at fits
    split at fits
    · next isNewline =>
      obtain rfl := eq_nil_of_length_eq_zero (show front.length = 0 by omega)
      exact .inl (.blank (.inr (.inr isNewline)) .nil)
    · omega
  | symbol | number | string | op | word | mark | stray => cases silent

theorem eq_newline_of_head (nonempty : front ≠ [])
    (read : lexeme (front ++ rest) = (shape, front.length))
    (ends : front ++ rest = [] ∨ (front ++ rest).head? = .some '\n') :
    front = ['\n'] ∧ shape = .newline := by
  obtain ⟨c, front, rfl⟩ := exists_cons_of_ne_nil nonempty
  rcases ends with none | head
  · cases none
  · cases head
    rw [cons_append, lexeme_newline] at read
    obtain ⟨rfl, length⟩ := Prod.mk.inj read
    obtain rfl := eq_nil_of_length_eq_zero (show front.length = 0 by simpa using length.symm)
    exact ⟨rfl, rfl⟩

theorem Pending.step {gap front rest : List Char} {shape : Shape}
    (pending : Pending gap (front ++ rest)) (nonempty : front ≠ [])
    (read : lexeme (front ++ rest) = (shape, front.length)) (silent : shape.isSilent = true) :
    Pending (gap ++ front) rest := by
  rcases pending with filler | ⟨opened, ends⟩
  · rcases pending_of_isSilent nonempty read silent with
      more | ⟨⟨before, body, rfl, more, inside⟩, ends⟩
    · exact .inl (filler.append more)
    · refine .inr ⟨⟨gap ++ before, body, ?_, filler.append more, inside⟩, ends⟩
      rw [append_assoc]
  · rw [(eq_newline_of_head nonempty read ends).1]
    exact .inl opened.close

/-- Stretches follow one another from an offset on, none is empty, and there is filler before each
and after the last. The text may end within a comment on its last line. -/
def Spaced (text : List Char) : Nat → List Span → Prop
  | start, [] => Filler (text.drop start) ∨ OpenLine (text.drop start)
  | start, span :: later =>
    start ≤ span.offset ∧ Filler ((text.drop start).take (span.offset - start)) ∧
      Spaced text (span.offset + span.chars.length) later

/-- The filler since the last token, and the lexemes still to come. -/
theorem spaced_of_cuts (cuts : Cuts text pieces) (legible : ∀ piece ∈ pieces, piece.Legible)
    {gap : List Char} (pending : Pending gap text) (before : List Char) :
    Spaced (before ++ (gap ++ text)) before.length (spans (before.length + gap.length) pieces) := by
  induction cuts generalizing gap before with
  | nil =>
    rw [spans, Spaced, drop_left, append_nil]
    rcases pending with filler | ⟨opened, -⟩
    · exact .inl filler
    · exact .inr opened
  | @cons front rest shape pieces nonempty read later ih =>
    rw [forall_mem_cons] at legible
    rw [spans]
    rcases given : Piece.label? ⟨shape, front⟩ with _ | label
    · have silent := legible.1.label?_eq_none_iff.mp given
      have others := ih legible.2 (pending.step nonempty read silent) before
      rw [length_append, append_assoc, ← Nat.add_assoc] at others
      exact others
    · have filler : Filler gap := by
        rcases pending with filler | ⟨-, ends⟩
        · exact filler
        · obtain ⟨rfl, rfl⟩ := eq_newline_of_head nonempty read ends
          cases given
      have others := ih legible.2 (.inl .nil) (before ++ (gap ++ front))
      simp only [nil_append, length_append, length_nil, append_assoc,
        Nat.add_zero, ← Nat.add_assoc] at others
      refine ⟨Nat.le_add_right _ _, ?_, others⟩
      rw [drop_left, Nat.add_sub_cancel_left, take_left]
      exact filler

theorem Spaced.pairwise {start : Nat} {found : List Span} (spaced : Spaced text start found)
    (nonempty : ∀ span ∈ found, span.chars ≠ []) :
    (∀ span ∈ found, start ≤ span.offset) ∧
      found.Pairwise fun a b => a.offset < b.offset ∧ a.offset + a.chars.length ≤ b.offset := by
  induction found generalizing start with
  | nil => simp
  | cons span found ih =>
    obtain ⟨after, -, spaced⟩ := spaced
    rw [forall_mem_cons] at nonempty
    obtain ⟨from_, apart⟩ := ih spaced nonempty.2
    have positive := length_pos_iff.mpr nonempty.1
    refine ⟨forall_mem_cons.mpr ⟨after, fun other member => ?_⟩,
      pairwise_cons.mpr ⟨fun other member => ?_, apart⟩⟩
    · have := from_ other member
      omega
    · have := from_ other member
      omega

end Lexer

/-- Where a text can be read, every token stands for one stretch of it, at the only offset that its
line and column name; the stretches follow one another without overlapping, with nothing but filler
before, between and after them. -/
theorem tokens_stand {source : String} (succeeds : (lex source).fault = none) :
    ∃ spans : List Span,
      List.Forall₂ (Token.Stands source.toList) (lex source).tokens spans ∧
      spans.Pairwise (fun a b => a.offset < b.offset ∧ a.offset + a.chars.length ≤ b.offset) ∧
      Lexer.Spaced source.toList 0 spans := by
  obtain ⟨pieces, cuts, legible, read⟩ := Lexer.cuts_of_succeeds succeeds
  have stands := Lexer.stands_of_cuts cuts []
  have spaced := Lexer.spaced_of_cuts cuts legible (.inl .nil) []
  rw [read]
  refine ⟨_, stands, (spaced.pairwise ?_).2, spaced⟩
  intro span member
  obtain ⟨t, -, stand⟩ := exists_of_mem_right stands member
  exact stand.some

/-- A symbol for a function, a comment and a text on two lines each, a number, and a comment at the
end. -/
def sampleText : String :=
  "k\x7b\x7d /* a\n */ 1.5 'b\n' // c"

theorem sampleText_read : (lex sampleText).fault = none := by decide +kernel

theorem tokens_stand_sampleText :
    (lex sampleText).fault = none ∧
      ∃ spans : List Span,
        List.Forall₂ (Token.Stands sampleText.toList) (lex sampleText).tokens spans ∧
        spans.Pairwise (fun a b => a.offset < b.offset ∧ a.offset + a.chars.length ≤ b.offset) ∧
        Lexer.Spaced sampleText.toList 0 spans :=
  ⟨sampleText_read, tokens_stand sampleText_read⟩

end Hetman
