import Hetman.Proofs.Parser.Statement

/-!
# Programs are read back

A program that is written out is parsed to the tree it was written from, and
nothing is found wrong with it.
-/

namespace Hetman

open List

namespace Parser

theorem setDialect_looks (t : Token) (rest : List Token) :
    Looks
      (modify fun s : State =>
        if s.strict then
          match Dialect.ofStarter? t.display with
          | some d => { s with dialect := some d }
          | none => s
        else s)
      PUnit.unit rest := by
  intro s strict _
  show EStateM.Result.ok PUnit.unit (if s.strict then _ else s) = _
  rw [strict]
  rfl

theorem program_reads {node : Node} (isProgram : node.IsProgram) :
    Reads program node.programLexemes node (fun rest => rest = []) := by
  cases isProgram with
  | @program statements each =>
    refine .peek fun t accepted => ?_
    simp only [accepted.1]
    refine .look (fun ts rest _ _ => setDialect_looks t (ts ++ rest)) ?_
    refine .advance ?_
    refine .give (statementLoop_reads ?_ ?_ ?_ ?_ ?_) Node.program
    · exact fun _ _ => rfl
    · rintro _ rfl
      exact nextIs_looks _ []
    · rintro _ rfl
      exact nofun
    · exact fun node member => wholeStatement_reads (each node member)
    · exact fun _ => lastSemicolon_reads

end Parser

/-- Every program is what parsing its tokens gives, in whatever dialect its keywords are spelled,
and no problem is noted. -/
theorem parse_programTokens {program : Node} (isProgram : program.IsProgram) :
    Spells program.programLexemes program.programTokens ∧
      ∀ tokens, Spells program.programLexemes tokens →
        (parse tokens).node = .ok program ∧ (parse tokens).state.problems = [] := by
  refine ⟨program.spells_programTokens, fun tokens spelled => ?_⟩
  let start : Parser.State := { tokens := tokens.toArray, strict := false }
  have left : start.rest = tokens ++ [] := by simp [start, Parser.State.rest]
  have read := Parser.program_reads isProgram start tokens [] rfl left spelled rfl
  have parsed : parse tokens = ⟨.ok program, start.skip tokens.length⟩ := by
    unfold parse Parser.runProgram
    rw [read]
  rw [parsed]
  exact ⟨rfl, rfl⟩

/-- A class whose constructor fills a field, a guarded block, and a declaration at the end. A
difference groups to the right, so it needs parentheses. -/
def sampleProgram : Node :=
  let difference := Node.binary (.number (.int 9)) .sub
    (.binary (.number (.int 4)) .sub (.number (.int 1)))
  let fill := Routine.mk constructorName ["start"]
    [.assignProperty (.var "this") "count" (.var "start")] [] none .publicAccess
  .program [
    .classDecl {
      name := "Counter", methods := [(constructorName, fill)], constructor := some fill,
      fieldAccess := [("count", .privateAccess)], friends := ["peek"] },
    .tryCatch
      [.ifElse (.comparison (.lookup (.var "items") difference) .lt (.number (.int 0)))
        [.throw (.text "low")] [] (some [.print [.property (.var "items") "size"]])]
      [(some "e", [.call "log.write" (some [.var "e"])])] (some [.step .increment (.var "n")]),
    .assign "last" difference (some "Int")]

theorem sampleProgram_isProgram : sampleProgram.IsProgram := by
  have difference : (Node.binary (.number (.int 9)) .sub
      (.binary (.number (.int 4)) .sub (.number (.int 1)))).IsExpression :=
    .binary (by decide) (.number _) (.binary (by decide) (.number _) (.number _))
  have items : (Node.var "items").IsExpression := .var (by decide)
  have caught : ∀ e ∈ [Node.var "e"], e.IsExpression :=
    forall_mem_singleton.mpr (.var (by decide))
  have size : ∀ e ∈ [Node.property (.var "items") "size"], e.IsExpression :=
    forall_mem_singleton.mpr (.property (.var _) items (by decide))
  refine .program (forall_mem_cons.mpr ⟨?_, forall_mem_cons.mpr ⟨?_, ?_⟩⟩)
  · refine .classDecl ?_ ?_ ?_ nofun nofun
    · exact {
        name := by decide
        parent := nofun
        fields := forall_mem_singleton.mpr ⟨by decide, trivial⟩
        fieldNames := by decide
        methods := forall_mem_singleton.mpr
          ⟨rfl, forall_mem_singleton.mpr (by decide), rfl, rfl⟩
        methodNames := by decide
        methodLevels := forall_mem_singleton.mpr fun differs => absurd rfl differs
        constructorLevel := forall_mem_singleton.mpr fun _ => rfl
        constructor := rfl
        methodAccess := rfl
        friends := forall_mem_singleton.mpr (by decide)
        friendClasses := nofun }
    · refine forall_mem_singleton.mpr (forall_mem_singleton.mpr ?_)
      exact .assignProperty (.var _) (.var (by decide)) (by decide) (.var (by decide))
    · exact forall_mem_singleton.mpr fun _ last => by cases last; rfl
  · refine .tryCatch (forall_mem_singleton.mpr ?_) ?_ ?_ ?_ ?_ ?_ ?_
    · refine .ifElse ?_ (forall_mem_singleton.mpr (.throw (.text _))) ?_ nofun nofun nofun ?_ ?_
      · exact .comparison trivial (.lookup (.var _) items difference) (.number _)
      · exact fun _ last => by cases last; rfl
      · rintro _ ⟨⟩
        exact forall_mem_singleton.mpr (.print size)
      · rintro _ ⟨⟩ _ ⟨⟩
        rfl
    · exact fun _ last => by cases last; rfl
    · rintro _ (_ | ⟨_, ⟨⟩⟩) _ ⟨⟩
      decide
    · refine forall_mem_singleton.mpr (forall_mem_singleton.mpr (.call ?_))
      exact @Node.IsExpression.callMethod "log" "write" _ (by decide) (by decide) caught
    · exact forall_mem_singleton.mpr fun _ last => by cases last; rfl
    · rintro _ ⟨⟩
      exact forall_mem_singleton.mpr (.increment (by decide))
    · rintro _ ⟨⟩ _ ⟨⟩
      rfl
  · exact forall_mem_singleton.mpr (.assign _ (by decide) difference)

theorem parse_sampleProgram :
    sampleProgram.IsProgram ∧ (parse sampleProgram.programTokens).node = .ok sampleProgram ∧
      (parse sampleProgram.programTokens).state.problems = [] := by
  obtain ⟨spelled, parsed⟩ := parse_programTokens sampleProgram_isProgram
  exact ⟨sampleProgram_isProgram, parsed _ spelled⟩

end Hetman
