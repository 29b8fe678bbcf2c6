import Mathlib.Data.List.TakeWhile
import Hetman.Proofs.Parser.Productions

/-!
# The parser goes by the kinds of keywords

Two token lists that differ only in how keywords are spelled are read alike: both readings stop for
the same reason, or give the same tree up to the words that a tree keeps, with the same complaints
at the same tokens (`parse_respelled`).
-/

namespace Hetman

open List

variable {word : String}

/-! ## Plain words -/

namespace Token

/-- The plain word for a type. -/
def plainHint (word : String) : String :=
  match keyword? word with
  | some k => k.word
  | none => word

/-- The part of a name before its first point. -/
def object (name : String) : List Char :=
  name.toList.takeWhile (· ≠ '.')

/-- A name with the plain word for the length before its first point. -/
def plainName (name : String) : String :=
  if keyword? (String.ofList (object name)) = some .length then
    Keyword.length.word ++ String.ofList (name.toList.drop (object name).length)
  else name

theorem plainHint_plain (t : Token) : plainHint t.plain.display = plainHint t.display := by
  cases spelled : t.spelled? with
  | none => simp only [plain, spelled]
  | some k =>
    obtain ⟨_, word, hpayload, spells⟩ := spelled?_eq_some spelled
    have shown : t.display = word := by rw [display, hpayload, Payload.display]
    have plainly : t.plain.display = k.word := by
      rw [plain_of_spelled spelled]
      rfl
    rw [shown, plainly, plainHint, plainHint, spells, k.keyword?_word]

theorem object_length (h : keyword? word = some .length) : object word = word.toList := by
  have pointless : ∀ entry ∈ lexicon, entry.2 = .length → '.' ∉ entry.1.toList := by
    decide +kernel
  have listed : (word, Keyword.length) ∈ lexicon := by
    obtain ⟨before, after, eq, _⟩ := lookup_eq_some_iff.mp h
    rw [eq]
    exact mem_append_right _ (mem_cons_self ..)
  refine takeWhile_eq_self_iff.mpr fun c found => decide_eq_true fun same => ?_
  exact pointless _ listed rfl (same ▸ found)

theorem plainName_length (h : keyword? word = some .length) :
    plainName word = Keyword.length.word := by
  unfold plainName
  rw [object_length h, String.ofList_toList, if_pos h, drop_length]
  exact String.append_empty

theorem plainName_plain {t : Token} (kind : t.kind = .keyword .length) :
    plainName t.plain.display = plainName t.display := by
  cases spelled : t.spelled? with
  | none => simp only [plain, spelled]
  | some k =>
    obtain ⟨kind', word, hpayload, spells⟩ := spelled?_eq_some spelled
    cases kind.symm.trans kind'
    have shown : t.display = word := by rw [display, hpayload, Payload.display]
    have plainly : t.plain.display = Keyword.length.word := by
      rw [plain_of_spelled spelled]
      rfl
    rw [shown, plainly, plainName_length spells, plainName_length (Keyword.keyword?_word _)]

theorem toList_member (name member : String) :
    (s!"{name}.{member}").toList = name.toList ++ '.' :: member.toList := by
  simp only [String.toList_append, append_assoc]
  rfl

theorem object_member (name member : String) : object s!"{name}.{member}" = object name := by
  have upTo : ∀ cs rest : List Char,
      (cs ++ '.' :: rest).takeWhile (· ≠ '.') = cs.takeWhile (· ≠ '.') := by
    intro cs rest
    induction cs with
    | nil => rfl
    | cons c cs ih =>
      by_cases point : c = '.'
      · rw [cons_append, takeWhile_cons_of_neg (by simp [point]),
          takeWhile_cons_of_neg (by simp [point])]
      · rw [cons_append, takeWhile_cons_of_pos (by simp [point]),
          takeWhile_cons_of_pos (by simp [point]), ih]
  rw [object, object, toList_member, upTo]

theorem plainName_member (name member : String) :
    plainName s!"{name}.{member}" = s!"{plainName name}.{member}" := by
  unfold plainName
  rw [object_member]
  have within : (object name).length ≤ name.toList.length :=
    (List.takeWhile_prefix _).length_le
  split
  · apply String.toList_injective
    rw [toList_member, toList_member, drop_append_of_le_length within]
    simp only [String.toList_append, String.toList_ofList, append_assoc]
  · rfl

end Token

/-- A tree with the plain words for types and for the length. -/
def Node.plain : Node → Node :=
  Node.respell Token.plainHint Token.plainName

namespace Parser

/-- A problem at a token with its plain word. -/
def Problem.plain : Problem → Problem
  | .complaint token what => .complaint (token.map Token.plain) what
  | .foreign violation => .foreign { violation with token := violation.token.plain }

/-- The line and column of a problem. -/
def Problem.place : Problem → Option (Nat × Nat)
  | .complaint token _ => token.map fun t => (t.line, t.column)
  | .foreign violation => some (violation.token.line, violation.token.column)

theorem Problem.place_plain (problem : Problem) : problem.plain.place = problem.place := by
  rcases problem with ⟨token, what⟩ | violation
  · cases token with
    | none => rfl
    | some t => simp only [plain, place, Option.map_some, Token.plain_line, Token.plain_column]
  · simp only [plain, place, Token.plain_line, Token.plain_column]

/-- Two texts that differ in the spelling of keywords. -/
def Pairing.spelling : Pairing :=
  { same with
    paired := fun l l' => l.map Token.plain = l'.map Token.plain
    face := Token.plain
    hint := Token.plainHint
    name := Token.plainName
    length_eq := fun l l' h => by
      rw [← length_map Token.plain, h, length_map]
    uncons := fun _ _ _ _ h => List.cons.inj h
    kind_face := Token.plain_kind
    payload_face := fun _ => Token.plain_payload
    hasText_face := fun t _ => t.plain_hasText
    name_length := fun t t' same kind => by
      have kind' : t'.kind = .keyword .length := by
        rw [← Token.plain_kind, ← same, Token.plain_kind, kind]
      rw [← Token.plainName_plain kind, same, Token.plainName_plain kind']
    name_dotted := fun x y member same => by
      rw [Token.plainName_member, Token.plainName_member, same]
    hint_declared := fun t t' _ _ h _ _ _ => by
      have same : t.plain = t'.plain := (List.cons.inj h).1
      rw [← Token.plainHint_plain t, same, Token.plainHint_plain] }

/-- Token lists that are the same up to the spelling of keywords are read alike: for the same reason
to no end, or to the same tree up to the words for types and for the length. The problems are the
same, at the same places. -/
theorem parse_respelled {tokens tokens' : List Token}
    (h : List.Forall₂ Token.Respelled tokens tokens') :
    (parse tokens).node.map Node.plain = (parse tokens').node.map Node.plain ∧
    (parse tokens).state.pos = (parse tokens').state.pos ∧
    (parse tokens).state.problems.map Problem.plain =
      (parse tokens').state.problems.map Problem.plain ∧
    (parse tokens).state.problems.map Problem.place =
      (parse tokens').state.problems.map Problem.place := by
  have plainly : tokens.map Token.plain = tokens'.map Token.plain := by
    induction h with
    | nil => rfl
    | cons same _ ih => rw [map_cons, map_cons, same.plain_eq, ih]
  obtain ⟨nodes, pos, complaints⟩ :=
    Pairing.parse_alike .spelling trivial false false plainly False.elim
  have problems : (parse tokens).state.problems.map Problem.plain =
      (parse tokens').state.problems.map Problem.plain := by
    have shown : Pairing.spelling.problem = Problem.plain := by
      funext problem
      cases problem <;> rfl
    rw [Pairing.complaints_parse, Pairing.complaints_parse, ← shown]
    exact complaints
  have places : Problem.place = Problem.place ∘ Problem.plain :=
    funext fun problem => problem.place_plain.symm
  refine ⟨nodes, pos, problems, ?_⟩
  rw [places, ← map_map, problems, map_map]

/-- A declaration of the length of a text, with a problem in the next line, in words that are left
open. -/
def lengthTokens (start type length print : String) : List Token :=
  [⟨.keyword .start, .text start, 1, 1⟩, ⟨.keyword .intType, .text type, 2, 1⟩,
   ⟨.ident, .text "n", 2, 8⟩, ⟨.op, .text ":=", 2, 10⟩,
   ⟨.keyword .length, .text length, 2, 13⟩, ⟨.lparen, .text "(", 2, 21⟩,
   ⟨.string, .text "\"ab\"", 2, 22⟩, ⟨.rparen, .text ")", 2, 26⟩, ⟨.semicolon, .text ";", 2, 27⟩,
   ⟨.keyword .print, .text print, 3, 1⟩, ⟨.lparen, .text "(", 3, 8⟩,
   ⟨.semicolon, .text ";", 3, 9⟩]

theorem parse_respelled_length :
    List.Forall₂ Token.Respelled (lengthTokens "Hetman" "Chyslo" "dovzhyna" "Spivaty")
      (lengthTokens "Chief" "Int" "Length" "Print") ∧
    (parse (lengthTokens "Hetman" "Chyslo" "dovzhyna" "Spivaty")).node.map Node.plain =
      (parse (lengthTokens "Chief" "Int" "Length" "Print")).node.map Node.plain := by
  have respelled : List.Forall₂ Token.Respelled (lengthTokens "Hetman" "Chyslo" "dovzhyna" "Spivaty")
      (lengthTokens "Chief" "Int" "Length" "Print") := by
    have each : ∀ pair ∈ (lengthTokens "Hetman" "Chyslo" "dovzhyna" "Spivaty").zip
        (lengthTokens "Chief" "Int" "Length" "Print"), Token.Respelled pair.1 pair.2 := by
      decide +kernel
    exact List.forall₂_iff_zip.mpr ⟨rfl, fun found => each _ found⟩
  exact ⟨respelled, (parse_respelled respelled).1⟩

end Parser

end Hetman
