import Hetman.Proofs.Parser.Productions
import Hetman.Report

/-!
# The same program in other words

A program may be written in the words of any dialect, or of several (`Reworded`). Where it can be
read, that makes no difference to the tree and to a run (`run_reworded`), as long as two kinds of
words stay: the word for the length, which is read as a name, and the type of a declaration, which
the tree keeps as it is spelled.
-/

namespace Hetman

variable {tokens tokens' : List Token}

/-! ## Rewording -/

/-- The spelling of a token gets into the tree: it is the word for the length, or the type of a
declaration, with a name and an operator after it. -/
def Token.isKept (t : Token) (rest : List Token) : Bool :=
  t.kind == .keyword .length ||
    Parser.isTypeKind t.kind && rest[0]?.map (·.kind) == some .ident &&
      rest[1]?.map (·.kind) == some .op

/-- The first token list with other spellings for some keywords, perhaps at other places. -/
def Reworded : List Token → List Token → Prop
  | [], [] => True
  | t :: rest, t' :: rest' =>
    t'.kind = t.kind ∧
      (t'.payload = t.payload ∨
        t.isSpelled = true ∧ t'.isSpelled = true ∧ t.isKept rest = false) ∧
      Reworded rest rest'
  | _, _ => False

instance decidableReworded : (tokens tokens' : List Token) → Decidable (Reworded tokens tokens')
  | [], [] => isTrue trivial
  | [], _ :: _ => isFalse id
  | _ :: _, [] => isFalse id
  | _ :: rest, _ :: rest' =>
    have := decidableReworded rest rest'
    inferInstanceAs (Decidable (_ ∧ _ ∧ _))

namespace Reworded

theorem length_eq (h : Reworded tokens tokens') : tokens.length = tokens'.length := by
  induction tokens generalizing tokens' with
  | nil =>
    cases tokens' with
    | nil => rfl
    | cons t' rest' => exact h.elim
  | cons t rest ih =>
    cases tokens' with
    | nil => exact h.elim
    | cons t' rest' => rw [List.length_cons, List.length_cons, ih h.2.2]

end Reworded

namespace Token

variable {t : Token}

/-- A token without its place. -/
def unplaced (t : Token) : Token :=
  { t with line := 0, column := 0 }

/-- A token without its place and the spelling of a keyword other than the length. -/
def bare (t : Token) : Token :=
  if t.kind = .keyword .length then t.unplaced else t.unplaced.plain

theorem bare_kind (t : Token) : t.bare.kind = t.kind := by
  unfold bare
  split
  · rfl
  · exact t.unplaced.plain_kind

theorem bare_of_length (h : t.kind = .keyword .length) : t.bare = t.unplaced :=
  if_pos h

theorem bare_payload (h : ∀ k, t.kind ≠ .keyword k) : t.bare.payload = t.payload := by
  unfold bare
  rw [if_neg (h .length)]
  exact plain_payload h

theorem bare_hasText (t : Token) {text : String} (h : keyword? text = none) :
    t.bare.hasText text = t.hasText text := by
  unfold bare
  split
  · rfl
  · exact t.unplaced.plain_hasText h

theorem bare_eq {t' : Token} (hkind : t'.kind = t.kind)
    (h : t'.payload = t.payload ∨
      t.isSpelled = true ∧ t'.isSpelled = true ∧ t.kind ≠ .keyword .length) : t.bare = t'.bare := by
  rcases h with hpayload | ⟨spelled, spelled', other⟩
  · have same : t.unplaced = t'.unplaced := by
      rw [unplaced, unplaced, hkind, hpayload]
    rw [bare, bare, hkind, same]
  · rw [bare, bare, if_neg other, if_neg (hkind ▸ other)]
    exact plain_eq_of_spelled hkind rfl rfl spelled spelled'

end Token

namespace Reworded

variable {t t' : Token} {rest rest' : List Token}

theorem bare_head (h : Reworded (t :: rest) (t' :: rest')) : t.bare = t'.bare := by
  obtain ⟨hkind, hword, -⟩ := h
  apply Token.bare_eq hkind
  rcases hword with same | ⟨spelled, spelled', free⟩
  · exact .inl same
  · refine .inr ⟨spelled, spelled', fun isLength => ?_⟩
    simp [Token.isKept, isLength] at free

theorem display_declared (h : Reworded (t :: rest) (t' :: rest'))
    (isType : Parser.isTypeKind t.kind = true) (named : rest[0]?.map (·.kind) = some .ident)
    (operator : rest[1]?.map (·.kind) = some .op) : t.display = t'.display := by
  have kept : t.isKept rest = true := by
    simp only [Token.isKept, isType, named, operator]
    simp
  rcases h.2.1 with same | ⟨_, _, free⟩
  · rw [Token.display, Token.display, same]
  · rw [kept] at free
    cases free

end Reworded

theorem Token.display_of_bare_length {t t' : Token} (same : t.bare = t'.bare)
    (kind : t.kind = .keyword .length) : t.display = t'.display := by
  have kind' : t'.kind = .keyword .length := by
    rw [← bare_kind, ← same, bare_kind, kind]
  rw [bare_of_length kind, bare_of_length kind'] at same
  exact congrArg (·.payload.display) same

namespace Parser

/-- A text and the same text in other words. -/
def Pairing.rewording : Pairing :=
  { same with
    paired := Reworded
    face := Token.bare
    clean := True
    length_eq := fun _ _ h => h.length_eq
    uncons := fun _ _ _ _ h => ⟨h.bare_head, h.2.2⟩
    counted := .inl trivial
    kind_face := Token.bare_kind
    payload_face := fun _ => Token.bare_payload
    hasText_face := fun t _ => t.bare_hasText
    name_length := fun _ _ => Token.display_of_bare_length
    hint_declared := fun t t' l l' h isType named operated => by
      have none_follow : l ++ same.old = l := List.append_nil l
      rw [none_follow] at named operated
      exact h.display_declared isType named (operated trivial) }

end Parser

/-! ## Running -/

theorem parse_reworded (h : Reworded tokens tokens') (clean : (parse tokens).state.problems = []) :
    (parse tokens').node = (parse tokens).node ∧ (parse tokens').state.problems = [] := by
  have noComplaints : (parse tokens).state.complaints = [] := by
    rw [← Parser.Pairing.complaints_parse, clean]
  obtain ⟨nodes, -, matching⟩ := Parser.Pairing.parse_alike .rewording trivial false false h
    fun _ => noComplaints
  have shown : Parser.Pairing.rewording.node = id := funext Node.respell_id
  rw [shown, Except.map_id] at nodes
  refine ⟨nodes.symm, ?_⟩
  rw [noComplaints, List.map_nil, eq_comm, List.map_eq_nil_iff] at matching
  rw [Parser.Pairing.complaints_parse, matching]

/-- A program that can be read is read as the same tree in other words, and every run of it has the
same result: exit code, output and files, from the same input and files. -/
theorem run_reworded {a b : String} (lexed : (lex a).fault = none) (lexed' : (lex b).fault = none)
    (reworded : Reworded (lex a).tokens (lex b).tokens)
    (clean : (parse (lex a).tokens).state.problems = []) :
    (parse (lex b).tokens).node = (parse (lex a).tokens).node ∧
    (parse (lex b).tokens).state.problems = [] ∧
    ∀ (w : World) (folder : Option String),
      Report.run w b false folder = Report.run w a false folder := by
  obtain ⟨nodes, clean'⟩ := parse_reworded reworded clean
  have dialect : ∀ tokens, (parse tokens).state.dialect = none := fun tokens =>
    (Parser.Pairing.moves_parse tokens false).dialect rfl
  have runsIn : ∀ w folder, Report.runIn w b false folder = Report.runIn w a false folder := by
    intro w folder
    simp only [Report.runIn, lexed, lexed', nodes, clean, clean', dialect, List.isEmpty_nil, if_true]
  refine ⟨nodes, clean', fun w folder => ?_⟩
  simp only [Report.run, runsIn]

/-- The same program in two dialects. -/
theorem run_reworded_dialects :
    let a := "Chief Print(Int(True));"
    let b := ">>> !(i`**(1!));"
    Reworded (lex a).tokens (lex b).tokens ∧
      ∀ w folder, Report.run w b false folder = Report.run w a false folder := by
  intro a b
  have lexed : (lex a).fault = none := by decide +kernel
  have lexed' : (lex b).fault = none := by decide +kernel
  have reworded : Reworded (lex a).tokens (lex b).tokens := by decide +kernel
  have clean : (parse (lex a).tokens).state.problems = [] := by decide +kernel
  exact ⟨reworded, (run_reworded lexed lexed' reworded clean).2.2⟩

/-- Another dialect's word for a type, and some for the length, are not recognised. -/
theorem run_unrecognised :
    (Report.run {} "Chief Chyslo x := 5;" false none).1.toOption = some (.number 0) ∧
    (Report.run {} "Chief Int x := 5;" false none).1.toOption = some (.number 1) ∧
    (Report.run {} "Chief Print(dovzhyna([]));" false none).1.toOption = some (.number 0) ∧
    (Report.run {} "Chief Print(Length([]));" false none).1.toOption = some (.number 1) := by
  decide +kernel

end Hetman
