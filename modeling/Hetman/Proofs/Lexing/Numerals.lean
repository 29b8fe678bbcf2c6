import Hetman.Proofs.Lexing.Reach
import Mathlib.Data.Nat.Digits.Defs

/-!
# Numerals

`Denotes chars n` is the notation for numbers: digits in base ten, with a point and more digits or
without. The lexer takes the longest numeral (`length_le_numberLength`) and makes the number of it
that is denoted (`denotes_of_numeral`).
-/

namespace Hetman.Lexer

open List

variable {text digits : List Char} {values : List Nat} {n : Numeral}

/-- A numeral and the number that it denotes. -/
inductive Denotes : List Char → Numeral → Prop
  | whole {digits : List Char} {values : List Nat} (nonempty : digits ≠ [])
      (read : digits.map Text.digitValue? = values.map some) :
      Denotes digits (.int (Nat.ofDigits 10 values.reverse : Nat))
  | decimal {digits fraction : List Char} {values : List Nat} (nonempty : digits ≠ [])
      (read : (digits ++ fraction).map Text.digitValue? = values.map some) :
      Denotes (digits ++ '.' :: fraction)
        (.float (Float.ofScientific (Nat.ofDigits 10 values.reverse) true fraction.length))

theorem isDigit_of_values (read : digits.map Text.digitValue? = values.map some) :
    ∀ d ∈ digits, Text.isDigit d = true := by
  intro d member
  have value : Text.digitValue? d ∈ values.map some := read ▸ mem_map_of_mem member
  obtain ⟨v, -, same⟩ := mem_map.mp value
  rw [Text.isDigit, ← same]
  rfl

theorem exists_values (each : ∀ d ∈ digits, Text.isDigit d = true) :
    ∃ values : List Nat, digits.map Text.digitValue? = values.map some := by
  induction digits with
  | nil => exact ⟨[], rfl⟩
  | cons d digits ih =>
    rw [forall_mem_cons] at each
    obtain ⟨v, value⟩ := Option.isSome_iff_exists.mp each.1
    obtain ⟨values, read⟩ := ih each.2
    exact ⟨v :: values, by rw [map_cons, map_cons, value, read]⟩

theorem digitsToNat_eq (read : digits.map Text.digitValue? = values.map some) :
    Text.digitsToNat digits = Nat.ofDigits 10 values.reverse := by
  have fold : Text.digitsToNat digits = values.foldl (fun n v => 10 * n + v) 0 := by
    unfold Text.digitsToNat
    generalize 0 = n
    induction digits generalizing values n with
    | nil =>
      cases values with
      | nil => rfl
      | cons v values => cases read
    | cons d digits ih =>
      cases values with
      | nil => cases read
      | cons v values =>
        obtain ⟨value, later⟩ := List.cons.inj read
        rw [foldl_cons, value]
        exact ih later (10 * n + v)
  rw [fold, Nat.ofDigits_eq_foldr]
  simp [Nat.add_comm]

/-! ## What the lexer takes for a numeral -/

theorem numberLength_eq_length (nonempty : text ≠ []) (whole : numberLength text = text.length) :
    ∃ digits tail, text = digits ++ tail ∧ digits ≠ [] ∧ (∀ d ∈ digits, Text.isDigit d = true) ∧
      (tail = [] ∨ ∃ fraction, tail = '.' :: fraction ∧ ∀ d ∈ fraction, Text.isDigit d = true) := by
  have positive := length_pos_iff.mpr nonempty
  rw [numberLength_eq] at whole
  split at whole
  · omega
  · next digit =>
    refine ⟨text.takeWhile Text.isDigit, text.drop (runLength Text.isDigit text), ?_, ?_,
      fun d => mem_takeWhile_imp, ?_⟩
    · exact (prefix_iff_eq_append.mp (List.takeWhile_prefix _)).symm
    · exact fun empty => digit (congrArg List.length empty)
    · have tail := length_drop (i := runLength Text.isDigit text) (l := text)
      generalize text.drop (runLength Text.isDigit text) = tail at *
      unfold pointLength at whole
      split at whole
      · next fraction =>
        have all : runLength Text.isDigit fraction = fraction.length := by
          rw [length_cons] at *
          omega
        exact .inr ⟨fraction, rfl, takeWhile_eq_self_iff.mp
          ((List.takeWhile_prefix _).eq_of_length all)⟩
      · exact .inl (eq_nil_of_length_eq_zero (by omega))

theorem denotes_of_numeral (nonempty : text ≠ []) (whole : numberLength text = text.length)
    (read : numeral text = .ok n) : Denotes text n := by
  have pointless : ∀ {digits : List Char}, (∀ d ∈ digits, Text.isDigit d = true) →
      ∀ d ∈ digits, (d ≠ '.' : Bool) = true := by
    intro digits each d member
    apply decide_eq_true
    rintro rfl
    exact absurd (each '.' member) (by decide)
  obtain ⟨digits, tail, rfl, first, each, rfl | ⟨fraction, rfl, others⟩⟩ :=
    numberLength_eq_length nonempty whole
  · have same : digits.takeWhile (· ≠ '.') = digits :=
      takeWhile_eq_self_iff.mpr (pointless each)
    obtain ⟨values, reading⟩ := exists_values each
    rw [append_nil] at read ⊢
    unfold numeral at read
    simp only [same, if_true] at read
    split at read
    · cases read
      rw [digitsToNat_eq reading]
      exact .whole first reading
    · cases read
  · have same : (digits ++ '.' :: fraction).takeWhile (· ≠ '.') = digits := by
      rw [takeWhile_append_of_pos (pointless each), takeWhile_cons_of_neg (by decide), append_nil]
    have differs : digits.length ≠ (digits ++ '.' :: fraction).length := by
      rw [length_append, length_cons]
      omega
    have after : (digits ++ '.' :: fraction).drop (digits.length + 1) = fraction := by
      simp
    obtain ⟨values, reading⟩ := exists_values (forall_mem_append.mpr ⟨each, others⟩)
    unfold numeral at read
    simp only [same, if_neg differs, after] at read
    cases read
    rw [digitsToNat_eq reading]
    exact .decimal first reading

/-- No numeral at the start of a text is longer than the lexer's. -/
theorem length_le_numberLength {other : List Char} (denotes : Denotes other n)
    (present : other <+: text) : other.length ≤ numberLength text := by
  obtain ⟨rest, rfl⟩ := present
  rw [numberLength_eq]
  cases denotes with
  | @whole digits values nonempty read =>
    have bound := length_le_runLength (isDigit_of_values read) rest
    have positive := length_pos_iff.mpr nonempty
    rw [if_neg (by omega)]
    omega
  | @decimal digits fraction values nonempty read =>
    have each := forall_mem_append.mp (isDigit_of_values read)
    have run : runLength Text.isDigit (digits ++ '.' :: (fraction ++ rest)) = digits.length :=
      runLength_append each.1 fun c head => by
        cases head
        decide
    have bound := length_le_runLength each.2 rest
    have positive := length_pos_iff.mpr nonempty
    rw [append_assoc, cons_append, run, if_neg (by omega), drop_left,
      length_append, length_cons, pointLength]
    omega

theorem numberLength_of_lexeme {n : Nat} (read : lexeme text = (.number, n)) :
    numberLength text = n := by
  obtain ⟨rule, member, own, fits⟩ := lexeme_rule read (fun same => by cases same)
  rw [← rules_of_shape.1 rule member own, fits]

end Hetman.Lexer
