import Hetman.Proofs.Eval.Super

/-!
# Construction of objects

A new object is built by a constructor of its class or of the parent of its class; the classes
further up are not asked, unlike for methods. If the nearest constructor stands further up, the
object stays bare and the arguments are not even evaluated (`built_within_two_classes`).
-/

namespace Hetman

open List

namespace ClassGraph

variable {g : ClassGraph} {id : Nat} {line : List Nat}

/-- Two classes of a line are asked for a constructor. -/
theorem Lineage.constructorOf (lineage : g.Lineage id line) :
    Eval.constructorOf g id = (line.take 2).findSome? fun c => (g.info c).constructor := by
  unfold Eval.constructorOf
  dsimp only
  cases lineage with
  | root orphan =>
    rw [orphan]
    cases own : (g.info id).constructor <;> simp [own]
  | @child _ parent rest isParent above =>
    have two : (id :: rest).take 2 = [id, parent] := by cases above <;> rfl
    rw [two, show (g.info id).parent = some parent from isParent]
    cases own : (g.info id).constructor <;> simp [own]

end ClassGraph

namespace Eval

/-- The session with a new object of a class. -/
def making (classId : Nat) (s : Session) : Session :=
  { s with heap := (s.heap.newObject { classId }).2 }

/-- The session in which the body of a constructor starts. -/
def constructing (routine : Routine Node) (ref : Nat) (args : List Value) (s : Session) : Session :=
  entered (("this", .object ref) :: routine.parameters.zip args) "Tvir" s

/-- What a constructor makes of a new object: the arguments are evaluated after it is made, and the
value is the object whatever the body returns. -/
structure BuiltBy (routine : Routine Node) (ev : Node → Eval Value)
    (arguments : Option (List Node)) (className : String) (ref : Nat) (made : Session)
    (result : EStateM.Result Signal Session Value) : Prop where
  stopped : ∀ signal t, evalArguments ev arguments made = .error signal t →
    result = .error signal t
  refused : ∀ args t, evalArguments ev arguments made = .ok args t →
    args.length ≠ routine.parameters.length →
    result = .error (.failed (.script
      (.constructorArity className routine.parameters.length args.length))) t
  ran : ∀ args t, evalArguments ev arguments made = .ok args t →
    args.length = routine.parameters.length →
    result = match runBlock ev routine.body (constructing routine ref args t) with
      | .ok _ u | .error (.returned _) u => .ok (.object ref) (left t u)
      | .error signal u => .error signal (left t u)
  this : ∀ args t, "this" ∉ routine.parameters →
    (constructing routine ref args t).this? = some ref

section

variable {ev : Node → Eval Value} {s : Session} {name : String} {id : Nat} {line : List Nat}
  (arguments : Option (List Node)) (found : s.classes.find name = .ok id)

include found

theorem construct_bare (unasked : constructorOf s.classes id = none) :
    construct ev name arguments s = .ok (.object s.heap.objects.size) (making id s) := by
  unfold construct
  rw [get_bind_apply, found]
  dsimp only
  rw [unasked]
  rfl

theorem construct_built {routine : Routine Node}
    (asked : constructorOf s.classes id = some routine) :
    BuiltBy routine ev arguments (s.classes.info id).name s.heap.objects.size (making id s)
      (construct ev name arguments s) := by
  have run : construct ev name arguments s = (evalArguments ev arguments >>= fun args =>
      if args.length ≠ routine.parameters.length then
        reject (.constructorArity (s.classes.info id).name routine.parameters.length args.length)
      else do
        let _ ← runMethod ev s.heap.objects.size routine args "Tvir"
        return .object s.heap.objects.size : Eval Value) (making id s) := by
    unfold construct
    rw [get_bind_apply, found]
    dsimp only
    rw [asked]
    rfl
  rw [run]
  refine ⟨fun signal t ended => bind_error ended, fun args t evaluated differs => ?_,
    fun args t evaluated same => ?_, fun args t free => this_entered free _ args "Tvir" t⟩
  · rw [bind_ok evaluated, if_pos differs]
    rfl
  · rw [bind_ok evaluated, if_neg (not_not_intro same)]
    have body := runBody_apply ev routine.body
      (("this", .object s.heap.objects.size) :: routine.parameters.zip args) "Tvir" t
    unfold constructing
    cases ended : runBlock ev routine.body (entered _ "Tvir" t) with
    | ok _ u =>
      rw [ended] at body
      exact bind_ok body
    | error signal u =>
      rw [ended] at body
      cases signal with
      | returned value => exact bind_ok body
      | _ => exact bind_error body

end

/-- Making an object adds one without fields. If the nearest class upwards with a constructor is the
class itself or its parent, that constructor makes the result. Otherwise the result is the bare
object, and nothing else happens. -/
theorem built_within_two_classes {s : Session} {name : String} {id : Nat} {line : List Nat}
    (found : s.classes.find name = .ok id) (lineage : s.classes.Lineage id line) (fuel : Nat)
    (arguments : Option (List Node)) :
    let ref := s.heap.objects.size
    let made := making id s
    let result := eval (fuel + 1) (.newObject name arguments) s
    made.heap.object ref = { classId := id } ∧
    (∀ old < ref, made.heap.object old = s.heap.object old) ∧
    (∀ below home above routine, line = below ++ home :: above →
      (∀ c ∈ below, (s.classes.info c).constructor = none) →
      (s.classes.info home).constructor = some routine →
      (below.length ≤ 1 →
        BuiltBy routine (eval fuel) arguments (s.classes.info id).name ref made result) ∧
      (2 ≤ below.length → result = .ok (.object ref) made)) ∧
    ((∀ c ∈ line, (s.classes.info c).constructor = none) → result = .ok (.object ref) made) := by
  intro ref made result
  have asked := lineage.constructorOf
  have bare : (∀ c ∈ line.take 2, (s.classes.info c).constructor = none) →
      result = .ok (.object ref) made := by
    intro without
    refine construct_bare arguments found (asked.trans ?_)
    exact findSome?_eq_none_iff.mpr without
  refine ⟨?_, fun old older => ?_, fun below home above routine split without own => ?_,
    fun without => bare fun c first => without c (mem_of_mem_take first)⟩
  · exact (Heap.object_newObject ..).trans (if_pos rfl)
  · exact (Heap.object_newObject ..).trans (if_neg (Nat.ne_of_lt older))
  · refine ⟨fun near => construct_built arguments found (asked.trans ?_), fun far => bare ?_⟩
    · obtain ⟨rest, two⟩ : ∃ rest, line.take 2 = below ++ home :: rest := by
        refine ⟨above.take (1 - below.length), ?_⟩
        have left : 2 - below.length = (1 - below.length) + 1 := by omega
        rw [split, take_append, take_of_length_le (by omega), left, take_succ_cons]
      rw [two, findSome?_append, findSome?_eq_none_iff.mpr without, findSome?_cons, own]
      rfl
    · intro c first
      rw [split, take_append_of_le_length far] at first
      exact without c (mem_of_mem_take first)

/-- Three classes in a line; the oldest has a constructor that prints its argument. -/
def generations : Session where
  classes := {
    classes := #[
      { name := "A",
        constructor := some { name := "Tvir", parameters := ["x"], body := [.print [.var "x"]] } },
      { name := "B", parent := some 0 },
      { name := "C", parent := some 1 }],
    byName := [("A", 0), ("B", 1), ("C", 2)] }

/-- The second class is built by the constructor, the third is not. -/
theorem built_within_two_classes_generations :
    (∃ routine, (generations.classes.info 0).constructor = some routine ∧
      BuiltBy routine (eval 4) (some [.text "made"]) "B" 0 (making 1 generations)
        (eval 5 (.newObject "B" (some [.text "made"])) generations)) ∧
    eval 5 (.newObject "C" (some [.text "made"])) generations =
      .ok (.object 0) (making 2 generations) := by
  have first : generations.classes.Lineage 0 [0] := .root rfl
  have second : generations.classes.Lineage 1 [1, 0] := .child rfl first
  have third : generations.classes.Lineage 2 [2, 1, 0] := .child rfl second
  have found : generations.classes.find "B" = .ok 1 := rfl
  have found' : generations.classes.find "C" = .ok 2 := rfl
  have children := built_within_two_classes found second 4 (some [.text "made"])
  have grandchildren := built_within_two_classes found' third 4 (some [.text "made"])
  have without : ∀ c ∈ [2, 1], (generations.classes.info c).constructor = none := by
    intro c between
    rcases mem_cons.mp between with rfl | last
    · rfl
    · cases mem_singleton.mp last
      rfl
  refine ⟨⟨_, rfl, ?_⟩, ?_⟩
  · refine (children.2.2.1 [1] 0 [] _ rfl (fun c between => ?_) rfl).1 (Nat.le_refl 1)
    exact without c (mem_cons_of_mem _ between)
  · exact (grandchildren.2.2.1 [2, 1] 0 [] _ rfl without rfl).2 (Nat.le_refl 2)

/-- The only constructor of a line prints the argument for a child of its class, and not for a
grandchild. -/
theorem grandchild_unbuilt :
    (ending (eval 5 (.newObject "B" (some [.text "made"])) generations)).output = "made\n" ∧
    (ending (eval 5 (.newObject "C" (some [.text "made"])) generations)).output = "" ∧
    ([2, 1, 0].findSome? fun c => (generations.classes.info c).constructor).isSome = true := by
  refine ⟨by decide +kernel, by decide +kernel, rfl⟩

end Eval

end Hetman
