import Hetman.Proofs.Parser.Productions

/-!
# Strict mode only observes

Holding the words of a program against its dialect never changes what is read (`parse_strict`). The
tokens are paired with themselves, in strict mode on one side only.
-/

namespace Hetman.Parser

/-! ## The wordings -/

theorem head?_append {a b : String} {c : Char} (h : a.toList.head? = some c) :
    (a ++ b).toList.head? = some c := by
  rw [String.toList_append, List.head?_append, h, Option.some_or]

theorem head?_complaint (token : Option Token) (what : Complaint) :
    (Problem.complaint token what).message.toList.head? = some 'E' := by
  cases token with
  | none =>
    exact head?_append rfl
  | some t =>
    repeat apply head?_append
    rfl

theorem head?_violation (violation : Violation) : violation.message.toList.head? = some ' ' := by
  repeat apply head?_append
  rfl

theorem message_ne {problem : Problem} (complains : problem.violation? = none)
    (violation : Violation) : problem.message ≠ violation.message := by
  intro same
  have heads := congrArg (·.toList.head?) same
  rcases problem with ⟨token, what⟩ | own
  · simp only [head?_complaint, head?_violation, Option.some.injEq] at heads
    exact absurd heads (by decide)
  · cases complains

theorem messages_complaints (s : State) :
    (s.problems.map Problem.message).filter (fun message =>
        !(s.violations.map Violation.message).contains message) =
      s.complaints.map Problem.message := by
  rw [List.filter_map]
  congr 1
  apply List.filter_congr
  intro problem found
  cases foreign : problem.violation? with
  | none =>
    have absent : ¬(problem.message ∈ s.violations.map Violation.message) := by
      intro listed
      obtain ⟨violation, _, same⟩ := List.mem_map.mp listed
      exact message_ne foreign violation same.symm
    simpa using absent
  | some violation =>
    have worded : problem.message = violation.message := by
      rcases problem with ⟨token, what⟩ | own
      · cases foreign
      · cases foreign
        rfl
    have listed : problem.message ∈ s.violations.map Violation.message := by
      rw [worded]
      exact List.mem_map_of_mem (List.mem_filterMap.mpr ⟨problem, found, foreign⟩)
    simpa using listed

/-- Reading a text in strict mode gives the same node, or stops for the same reason, at the same
place as without; and of the problems, those without strict mode remain when the violations are
taken out. -/
theorem parse_strict (tokens : List Token) :
    (parse tokens true).node = (parse tokens false).node ∧
    (parse tokens true).state.pos = (parse tokens false).state.pos ∧
    (parse tokens true).state.problems.filter (·.violation?.isNone) =
      (parse tokens false).state.problems ∧
    ((parse tokens true).state.problems.map Problem.message).filter (fun message =>
        !((parse tokens true).state.violations.map Violation.message).contains message) =
      (parse tokens false).state.problems.map Problem.message := by
  obtain ⟨nodes, pos, matching⟩ :=
    Pairing.parse_alike .same trivial true false (Eq.refl tokens) False.elim
  have shown : Pairing.same.node = id := funext Node.respell_id
  have noted : Pairing.same.problem = id := by
    funext problem
    rcases problem with ⟨token, what⟩ | violation
    · exact congrArg (Problem.complaint · what) (Option.map_id_apply ..)
    · rfl
  have complaints : (parse tokens true).state.complaints = (parse tokens false).state.problems := by
    rw [noted, List.map_id, List.map_id, ← Pairing.complaints_parse] at matching
    exact matching
  refine ⟨?_, pos, complaints, ?_⟩
  · rw [shown, Except.map_id] at nodes
    exact nodes
  · rw [messages_complaints, complaints]

end Hetman.Parser
