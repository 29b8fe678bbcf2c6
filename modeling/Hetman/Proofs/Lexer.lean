import Hetman.Token.Lexer

/-!
# Lexemes

What the lexer makes of the first characters of a text.
-/

namespace Hetman.Lexer

open List

variable {t : Token} {text : List Char} {p : Position} {source : String} {k : Keyword}

/-! ## Rules -/

def fitting (cs : List Char) (rule : Shape × (List Char → Nat)) : Option (Shape × Nat) :=
  if rule.2 cs = 0 then none else some (rule.1, rule.2 cs)

theorem lexeme_eq (cs : List Char) :
    lexeme cs = (rules.findSome? (fitting cs)).getD (.stray, 1) := by
  refine congrArg (fun fits => (rules.findSome? fits).getD (Shape.stray, 1)) (funext fun rule => ?_)
  unfold fitting
  cases rule.2 cs with
  | zero | succ n => rfl

/-- The shape of a lexeme is that of a rule that fits. -/
theorem exists_rule (cs : List Char) :
    (lexeme cs).1 = .stray ∨ ∃ rule ∈ rules, rule.1 = (lexeme cs).1 ∧ rule.2 cs ≠ 0 := by
  rw [lexeme_eq]
  cases found : rules.findSome? (fitting cs) with
  | none => exact .inl rfl
  | some fit =>
    obtain ⟨rule, member, fits⟩ := exists_of_findSome?_eq_some found
    refine .inr ⟨rule, member, ?_⟩
    unfold fitting at fits
    by_cases length : rule.2 cs = 0
    · rw [if_pos length] at fits
      cases fits
    · rw [if_neg length] at fits
      cases fits
      exact ⟨rfl, length⟩

/-- A lexeme that begins like a logical operator is an operator. -/
theorem shape_logical {c : Char} (logical : c = '&' ∨ c = '|') (rest : List Char) :
    (lexeme (c :: rest)).1 = .op ∨ (lexeme (c :: rest)).1 = .stray := by
  rcases exists_rule (c :: rest) with stray | ⟨rule, member, shape, fits⟩
  · exact .inr stray
  · refine .inl (shape ▸ ?_)
    simp only [rules, mem_cons, not_mem_nil, or_false] at member
    rcases logical with rfl | rfl
    · rcases member with rfl | rfl | rfl | rfl | rfl | rfl | rfl | rfl | rfl | rfl | rfl | rfl |
        rfl | rfl | rfl | rfl | rfl | rfl | rfl <;> first | rfl | exact absurd rfl fits
    · rcases member with rfl | rfl | rfl | rfl | rfl | rfl | rfl | rfl | rfl | rfl | rfl | rfl |
        rfl | rfl | rfl | rfl | rfl | rfl | rfl <;> first | rfl | exact absurd rfl fits

/-! ## Tokens -/

theorem exists_lexeme (member : t ∈ (lexFrom p text).tokens) :
    ∃ (c : Char) (rest : List Char) (q : Position),
      token? (lexeme (c :: rest)).1 (c :: rest.take ((lexeme (c :: rest)).2 - 1)) q =
        .ok (some t) := by
  fun_induction lexFrom p text with
  | case1 => cases member
  | case2 => cases member
  | case3 p c rest shape length read text later blank ih => exact ih member
  | case4 p c rest shape length read text later token found ih =>
    rcases mem_cons.mp member with rfl | member
    · exact ⟨c, rest, p, by rw [read]; exact found⟩
    · exact ih member

/-- A word keeps its spelling, unless it is a symbol for a function. -/
theorem classify_cases (spelling : String) :
    (∃ name, (spelling, name) ∈ Token.dictionarySymbols ∧
      Token.classify spelling = (.ident, name)) ∨
    (Token.classify spelling).2 = spelling := by
  unfold Token.classify
  cases found : Token.dictionarySymbols.lookup spelling with
  | some name =>
    obtain ⟨before, after, split, _⟩ := lookup_eq_some_iff.mp found
    exact .inl ⟨name, split ▸ mem_append_right before mem_cons_self, rfl⟩
  | none =>
    cases Token.keyword? spelling with
    | some k | none => exact .inr rfl

theorem classify_text (spelling : String) :
    (Token.classify spelling).2 = spelling ∨
      (Token.classify spelling).2 ∈ Token.dictionarySymbols.map Prod.snd := by
  rcases classify_cases spelling with ⟨name, listed, classified⟩ | same
  · rw [classified]
    exact .inr (mem_map.mpr ⟨_, listed, rfl⟩)
  · exact .inl same

/-- A token says what was written, unless that is a symbol for a function. -/
theorem text_of_token? {shape : Shape} {word : String} (found : token? shape text p = .ok (some t))
    (reads : t.payload = .text word) (unnamed : word ∉ Token.dictionarySymbols.map Prod.snd) :
    text = word.toList := by
  have written : ∀ {kind : Kind}, Token.mk kind (.text (String.ofList text)) p.line p.column = t →
      text = word.toList := by
    rintro kind rfl
    rw [← Token.Payload.text.inj reads, String.toList_ofList]
  have named : Token.mk (Token.classify (String.ofList text)).1
      (.text (Token.classify (String.ofList text)).2) p.line p.column = t → text = word.toList := by
    rintro rfl
    rcases classify_text (String.ofList text) with same | symbol
    · rw [← Token.Payload.text.inj reads, same, String.toList_ofList]
    · exact absurd (Token.Payload.text.inj reads ▸ symbol) unnamed
  cases shape with
  | comment | blank | newline | stray => cases found
  | number =>
    unfold token? at found
    cases read : numeral text with
    | error fault =>
      rw [read] at found
      cases found
    | ok n =>
      rw [read] at found
      cases found
      cases reads
  | symbol | word => exact named (Option.some.inj (Except.ok.inj found))
  | string | op | mark kind => exact written (Option.some.inj (Except.ok.inj found))

theorem kind_of_logical (member : t ∈ (lex source).tokens)
    (reads : t.hasText "&&" = true ∨ t.hasText "||" = true) : t.kind = .op := by
  obtain ⟨c, rest, q, found⟩ := exists_lexeme member
  have first : c = '&' ∨ c = '|' := by
    rcases reads with reads | reads
    · have text := text_of_token? found (eq_of_beq reads) (by decide)
      exact .inl (List.cons.inj text).1
    · have text := text_of_token? found (eq_of_beq reads) (by decide)
      exact .inr (List.cons.inj text).1
  rcases shape_logical first rest with op | stray
  · rw [op] at found
    cases found
    rfl
  · rw [stray] at found
    cases found

/-! ## Keywords -/

theorem classify_keyword {spelling : String} (isKeyword : (Token.classify spelling).1 = .keyword k) :
    (Token.classify spelling).2 = spelling ∧ (spelling, k) ∈ Token.lexicon := by
  unfold Token.classify at isKeyword ⊢
  cases symbol : Token.dictionarySymbols.lookup spelling with
  | some name =>
    rw [symbol] at isKeyword
    cases isKeyword
  | none =>
    rw [symbol] at isKeyword
    cases found : Token.keyword? spelling with
    | some word =>
      rw [found] at isKeyword
      cases isKeyword
      obtain ⟨before, after, split, _⟩ := lookup_eq_some_iff.mp found
      exact ⟨rfl, split ▸ mem_append_right before mem_cons_self⟩
    | none =>
      rw [found] at isKeyword
      cases isKeyword

theorem mark_ne_keyword {cs : List Char} {k : Keyword} : (lexeme cs).1 ≠ .mark (.keyword k) := by
  intro isMark
  rcases exists_rule cs with stray | ⟨rule, member, shape, _⟩
  · rw [stray] at isMark
    cases isMark
  · rw [isMark] at shape
    simp only [rules, mem_cons, not_mem_nil, or_false] at member
    rcases member with rfl | rfl | rfl | rfl | rfl | rfl | rfl | rfl | rfl | rfl | rfl | rfl |
      rfl | rfl | rfl | rfl | rfl | rfl | rfl <;> cases shape

theorem word_of_keyword (member : t ∈ (lex source).tokens) (isKeyword : t.kind = .keyword k) :
    ∃ word, t.payload = .text word ∧ (word, k) ∈ Token.lexicon := by
  obtain ⟨c, rest, q, found⟩ := exists_lexeme member
  have marked := @mark_ne_keyword (c :: rest) k
  generalize (lexeme (c :: rest)).1 = shape at found marked
  generalize c :: rest.take ((lexeme (c :: rest)).2 - 1) = text at found
  have named : Token.mk (Token.classify (String.ofList text)).1
      (.text (Token.classify (String.ofList text)).2) q.line q.column = t →
      ∃ word, t.payload = .text word ∧ (word, k) ∈ Token.lexicon := by
    rintro rfl
    obtain ⟨same, listed⟩ := classify_keyword isKeyword
    exact ⟨_, congrArg _ same, listed⟩
  cases shape with
  | comment | blank | newline | stray => cases found
  | number =>
    unfold token? at found
    cases read : numeral text with
    | error fault =>
      rw [read] at found
      cases found
    | ok n =>
      rw [read] at found
      cases found
      cases isKeyword
  | symbol | word => exact named (Option.some.inj (Except.ok.inj found))
  | string | op =>
    cases found
    cases isKeyword
  | mark kind =>
    cases found
    cases isKeyword
    exact absurd rfl marked

end Hetman.Lexer
