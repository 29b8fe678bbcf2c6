import Hetman.Proofs.Lexing.Reach

/-!
# The lexemes of a text

`Cuts text pieces` says into which lexemes a text is cut; blanks and comments are lexemes like the
others. Where a lexeme is cut does not depend on its place. So reading a text is cutting it
(`exists_cuts`) and placing the tokens of the pieces (`lexFrom_of_cuts`).
-/

namespace Hetman

open List

variable {p : Position} {text : List Char} {piece : Piece} {shape : Shape}

/-- A token without its place. -/
def Token.content (t : Token) : Kind × Token.Payload :=
  (t.kind, t.payload)

def Token.down (lines : Nat) (t : Token) : Token :=
  { t with line := t.line + lines }

def Position.down (lines : Nat) (p : Position) : Position :=
  { p with line := p.line + lines }

theorem Position.after_append (p : Position) (front rest : List Char) :
    p.after (front ++ rest) = (p.after front).after rest :=
  foldl_append

theorem Position.after_down (lines : Nat) (p : Position) (text : List Char) :
    (p.down lines).after text = (p.after text).down lines := by
  induction text generalizing p with
  | nil => rfl
  | cons c text ih =>
    have step : (p.down lines).step c = (p.step c).down lines := by
      unfold Position.step Position.down
      split
      · simp only [Position.mk.injEq, and_true]
        omega
      · rfl
    exact (congrArg (Position.after · text) step).trans (ih (p.step c))

namespace Lexer

/-- A lexeme of a text. -/
structure Piece where
  shape : Shape
  text : List Char
  deriving DecidableEq

/-- A text is cut into lexemes, one after the other. -/
inductive Cuts : List Char → List Piece → Prop
  | nil : Cuts [] []
  | cons {front rest : List Char} {shape : Shape} {pieces : List Piece} (nonempty : front ≠ [])
      (read : lexeme (front ++ rest) = (shape, front.length)) (later : Cuts rest pieces) :
      Cuts (front ++ rest) (⟨shape, front⟩ :: pieces)

theorem exists_cuts (text : List Char) : ∃ pieces, Cuts text pieces := by
  induction length : text.length using Nat.strong_induction_on generalizing text with
  | _ n ih =>
    by_cases nothing : text = []
    · exact ⟨[], nothing ▸ .nil⟩
    · rcases read : lexeme text with ⟨shape, m⟩
      obtain ⟨positive, within⟩ := lexeme_within nothing read
      obtain ⟨pieces, later⟩ := ih (text.drop m).length (by rw [length_drop]; omega) _ rfl
      have front : (text.take m).length = m := length_take_of_le within
      have nonempty : text.take m ≠ [] := ne_nil_of_length_pos (by omega)
      have cut : Cuts (text.take m ++ text.drop m) (⟨shape, text.take m⟩ :: pieces) :=
        .cons nonempty (by rw [take_append_drop, read, front]) later
      exact ⟨_, take_append_drop m text ▸ cut⟩

variable {pieces : List Piece}

theorem Cuts.text_eq (cuts : Cuts text pieces) :
    text = pieces.flatMap Piece.text := by
  induction cuts with
  | nil => rfl
  | cons nonempty read later ih => rw [flatMap_cons, ← ih]

theorem Cuts.uncons (cuts : Cuts text (piece :: pieces)) :
    ∃ rest, text = piece.text ++ rest ∧ piece.text ≠ [] ∧
      lexeme (piece.text ++ rest) = (piece.shape, piece.text.length) ∧ Cuts rest pieces := by
  cases cuts with
  | cons nonempty read later => exact ⟨_, rfl, nonempty, read, later⟩

theorem Cuts.split {front back : List Piece} (cuts : Cuts text (front ++ back)) :
    ∃ rest, text = front.flatMap Piece.text ++ rest ∧ Cuts rest back := by
  induction front generalizing text with
  | nil => exact ⟨text, rfl, cuts⟩
  | cons piece front ih =>
    obtain ⟨middle, rfl, -, -, later⟩ := Cuts.uncons cuts
    obtain ⟨rest, rfl, others⟩ := ih later
    exact ⟨rest, by rw [flatMap_cons, append_assoc], others⟩

theorem Cuts.unique {pieces' : List Piece} (cuts : Cuts text pieces)
    (cuts' : Cuts text pieces') : pieces = pieces' := by
  induction cuts generalizing pieces' with
  | nil =>
    rcases pieces' with _ | ⟨piece, pieces'⟩
    · rfl
    · obtain ⟨rest, same, nonempty, -⟩ := cuts'.uncons
      exact absurd (append_eq_nil_iff.mp same.symm).1 nonempty
  | @cons front rest shape pieces nonempty read later ih =>
    rcases pieces' with _ | ⟨⟨shape', front'⟩, pieces'⟩
    · exact absurd (append_eq_nil_iff.mp cuts'.text_eq).1 nonempty
    · obtain ⟨rest', same, -, read', later'⟩ := cuts'.uncons
      rw [← same, read] at read'
      obtain ⟨rfl, length⟩ := Prod.mk.inj read'
      obtain ⟨rfl, rfl⟩ := append_inj same length
      rw [ih later']

theorem Cuts.read_of_mem (cuts : Cuts text pieces)
    (member : piece ∈ pieces) :
    piece.text ≠ [] ∧ lexeme piece.text = (piece.shape, piece.text.length) := by
  induction cuts with
  | nil => cases member
  | cons nonempty read later ih =>
    rcases mem_cons.mp member with rfl | inside
    · exact ⟨nonempty, lexeme_cut read⟩
    · exact ih inside

theorem Cuts.inside_of_mem (cuts : Cuts text pieces)
    (member : piece ∈ pieces) : piece.text <:+: text := by
  obtain ⟨before, after, rfl⟩ := append_of_mem member
  rw [cuts.text_eq, flatMap_append, flatMap_cons, ← append_assoc]
  exact infix_append _ _ _

/-! ## What a lexeme says -/

def labelled (p : Position) (label : Kind × Token.Payload) : Token :=
  ⟨label.1, label.2, p.line, p.column⟩

theorem token?_moved {found : Option Token}
    (read : token? shape text p = .ok found) (q : Position) :
    token? shape text q = .ok (found.map fun t => labelled q t.content) := by
  cases shape with
  | number =>
    simp only [token?] at read ⊢
    cases value : numeral text with
    | error fault =>
      rw [value] at read
      cases read
    | ok n =>
      rw [value] at read
      cases read
      rfl
  | stray => cases read
  | symbol | string | comment | op | word | mark | blank | newline =>
    cases read
    rfl

def Shape.isSilent : Shape → Bool
  | .comment | .blank | .newline => true
  | _ => false

theorem token?_of_isSilent (silent : shape.isSilent = true) (text : List Char)
    (p : Position) : token? shape text p = .ok none := by
  cases shape with
  | comment | blank | newline => rfl
  | symbol | number | string | op | word | mark | stray => cases silent

theorem isSilent_of_token?
    (read : token? shape text p = .ok none) : shape.isSilent = true := by
  cases shape with
  | comment | blank | newline => rfl
  | symbol | string | op | word | mark | stray => cases read
  | number =>
    simp only [token?] at read
    cases value : numeral text with
    | error fault | ok n =>
      rw [value] at read
      cases read

/-- What a token is made of that a lexeme gives. -/
def Piece.label? (piece : Piece) : Option (Kind × Token.Payload) :=
  match token? piece.shape piece.text {} with
  | .ok found => found.map Token.content
  | .error _ => none

/-- A lexeme that is no stray character and no number with too many digits. -/
def Piece.Legible (piece : Piece) : Prop :=
  ∃ found, token? piece.shape piece.text {} = .ok found

theorem Piece.legible_of_token? {found : Option Token}
    (read : token? piece.shape piece.text p = .ok found) : piece.Legible :=
  ⟨_, token?_moved read {}⟩

theorem Piece.Legible.token?_eq (legible : piece.Legible) (p : Position) :
    token? piece.shape piece.text p = .ok (piece.label?.map (labelled p)) := by
  obtain ⟨found, read⟩ := legible
  rw [token?_moved read p, Piece.label?, read]
  cases found <;> rfl

theorem Piece.Legible.label?_eq_none_iff (legible : piece.Legible) :
    piece.label? = none ↔ piece.shape.isSilent = true := by
  constructor
  · intro nothing
    have read := legible.token?_eq {}
    rw [nothing] at read
    exact isSilent_of_token? read
  · intro silent
    rw [Piece.label?, token?_of_isSilent silent]
    rfl

theorem Piece.Legible.isSome_label?_iff (legible : piece.Legible) :
    piece.label?.isSome = true ↔ piece.shape.isSilent = false := by
  rw [Option.isSome_iff_ne_none, ne_eq, legible.label?_eq_none_iff, Bool.not_eq_true]

theorem Piece.Legible.known (legible : piece.Legible) :
    piece.shape ≠ .stray := by
  obtain ⟨found, read⟩ := legible
  intro stray
  rw [stray] at read
  cases read

/-! ## Reading -/

theorem lexFrom_step {front rest : List Char} (nonempty : front ≠ [])
    (read : lexeme (front ++ rest) = (shape, front.length)) (p : Position) :
    lexFrom p (front ++ rest) =
      match token? shape front p with
      | .error fault => ⟨[], .some fault⟩
      | .ok found => (lexFrom (p.after front) rest).after found.toList := by
  obtain ⟨c, front, rfl⟩ := exists_cons_of_ne_nil nonempty
  rw [cons_append] at read ⊢
  rw [lexFrom, read]
  simp only [length_cons, Nat.add_sub_cancel, take_left, drop_left]
  cases token? shape (c :: front) p with
  | error fault => rfl
  | ok found => cases found <;> rfl

/-- The tokens of lexemes that begin at a place. -/
def place (p : Position) : List Piece → List Token
  | [] => []
  | piece :: later => (piece.label?.map (labelled p)).toList ++ place (p.after piece.text) later

theorem lexFrom_of_cuts (cuts : Cuts text pieces)
    (legible : ∀ piece ∈ pieces, piece.Legible) (p : Position) :
    lexFrom p text = ⟨place p pieces, none⟩ := by
  induction cuts generalizing p with
  | nil => rw [lexFrom, place]
  | cons nonempty read later ih =>
    rw [forall_mem_cons] at legible
    rw [lexFrom_step nonempty read, legible.1.token?_eq]
    simp only [ih legible.2]
    rfl

theorem legible_of_lexFrom (cuts : Cuts text pieces)
    (succeeds : (lexFrom p text).fault = none) : ∀ piece ∈ pieces, piece.Legible := by
  induction cuts generalizing p with
  | nil => simp
  | @cons front rest shape pieces nonempty read later ih =>
    rw [lexFrom_step nonempty read] at succeeds
    rcases own : token? shape front p with fault | found
    · rw [own] at succeeds
      cases succeeds
    · rw [own] at succeeds
      exact forall_mem_cons.mpr ⟨Piece.legible_of_token? own, ih succeeds⟩

/-- A text that can be read is cut into legible lexemes, and gives their tokens. -/
theorem cuts_of_succeeds {source : String} (succeeds : (lex source).fault = none) :
    ∃ pieces, Cuts source.toList pieces ∧ (∀ piece ∈ pieces, piece.Legible) ∧
      lex source = ⟨place {} pieces, none⟩ := by
  obtain ⟨pieces, cuts⟩ := exists_cuts source.toList
  have legible := legible_of_lexFrom cuts succeeds
  exact ⟨pieces, cuts, legible, lexFrom_of_cuts cuts legible {}⟩

/-! ## Places -/

theorem place_append (p : Position) (pieces more : List Piece) :
    place p (pieces ++ more) =
      place p pieces ++ place (p.after (pieces.flatMap Piece.text)) more := by
  induction pieces generalizing p with
  | nil => rfl
  | cons piece pieces ih =>
    rw [cons_append, place, place, ih, flatMap_cons, Position.after_append, append_assoc]

theorem place_content (p : Position) (pieces : List Piece) :
    (place p pieces).map Token.content = pieces.filterMap Piece.label? := by
  induction pieces generalizing p with
  | nil => rfl
  | cons piece pieces ih =>
    rw [place, map_append, ih]
    cases label : piece.label? with
    | none => rw [filterMap_cons_none label]; rfl
    | some l => rw [filterMap_cons_some label]; rfl

theorem place_down (lines : Nat) (p : Position) (pieces : List Piece) :
    place (p.down lines) pieces = (place p pieces).map (Token.down lines) := by
  induction pieces generalizing p with
  | nil => rfl
  | cons piece pieces ih =>
    rw [place, place, Position.after_down, ih]
    cases piece.label? <;> rfl

end Lexer

end Hetman
