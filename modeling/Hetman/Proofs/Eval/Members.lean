import Hetman.Proofs.Eval.Discipline
import Hetman.Report

/-!
# Who may use a member

A member of an object is read and written through one check, and a method is called by its name
through another. The first lets in friends and relatives that the second does not know; otherwise
they agree (`method_checks`).
-/

namespace Hetman

variable {level : Access}

namespace ClassGraph

theorem mem_ancestors_self (g : ClassGraph) (id : Nat) : id ∈ g.ancestors id := by
  exact List.mem_cons_self ..

theorem related_of_descendsFrom {g : ClassGraph} {id other : Nat}
    (descends : g.descendsFrom other id = true) : g.related id other = true := by
  exact List.any_eq_true.2 ⟨id, g.mem_ancestors_self id, descends⟩

end ClassGraph

namespace Object

variable {g : ClassGraph} {h h' : Heap} {ref : Nat} {name : String} {caller : Caller}

/-! ## Reading and writing -/

theorem get_of_destroyed (gone : (h.object ref).destroyed = true) :
    get g h ref name caller = .error (.destroyed (g.info (h.object ref).classId).name) := by
  unfold get
  rw [checkAlive_of_destroyed gone]
  rfl

theorem set_of_destroyed {value : Value} (gone : (h.object ref).destroyed = true) :
    set g h ref name value caller = .error (.destroyed (g.info (h.object ref).classId).name) := by
  unfold set
  rw [checkAlive_of_destroyed gone]
  rfl

theorem get_of_alive (alive : (h.object ref).destroyed = false) :
    get g h ref name caller =
      match (h.object ref).fields.get? name with
      | some value => do
        checkAccess g h ref caller .readField name (g.fieldAccess (h.object ref).classId name)
        return .field value
      | none =>
        match g.findMethod (h.object ref).classId name with
        | some routine => do
          checkAccess g h ref caller .callMethod name (g.methodAccess (h.object ref).classId name)
          return .method routine
        | none => throw (.noMember name (g.info (h.object ref).classId).name) := by
  unfold get
  rw [checkAlive_of_alive alive]
  rfl

theorem set_of_alive {value : Value} (alive : (h.object ref).destroyed = false) :
    set g h ref name value caller = do
      checkAccess g h ref caller .writeField name (g.fieldAccess (h.object ref).classId name)
      return h.setObject ref
        { h.object ref with fields := (h.object ref).fields.insert name value } := by
  unfold set
  rw [checkAlive_of_alive alive]
  rfl

theorem mayUsePrivate_iff :
    mayUsePrivate g h ref caller = true ↔ caller.object = some ref ∨
      friendFunction g (h.object ref).classId caller = true ∨
      friendObject g h (h.object ref).classId caller = true := by
  simp [mayUsePrivate, or_assoc]

theorem mayUseProtected_iff :
    mayUseProtected g h ref caller = true ↔
      friendFunction g (h.object ref).classId caller = true ∨
      friendObject g h (h.object ref).classId caller = true ∨
      ∃ other, caller.object = some other ∧
        (other = ref ∨ g.related (h.object ref).classId (h.object other).classId = true) := by
  obtain ⟨object, function⟩ := caller
  cases object with
  | none => simp [mayUseProtected]
  | some other => simp [mayUseProtected, or_assoc]

theorem checkAccess_private (use : MemberUse) :
    checkAccess g h ref caller use name .privateAccess =
      if mayUsePrivate g h ref caller then .ok ()
      else .error (.denied use .privateMember name (g.info (h.object ref).classId).name) := by
  unfold checkAccess refusal
  cases mayUsePrivate g h ref caller <;> rfl

theorem refusal_private :
    refusal g h ref caller .privateAccess = none ↔ mayUsePrivate g h ref caller = true := by
  unfold refusal
  split <;> simp_all

theorem refusal_protected :
    refusal g h ref caller .protectedAccess = none ↔ mayUseProtected g h ref caller = true := by
  unfold refusal
  split <;> simp_all

end Object

namespace Eval

variable {s : Session} {ref : Nat} {method : String}

variable {name : String}

/-! ## Two checks -/

/-- The check before the call of a method passes. -/
def CallPasses (s : Session) (ref : Nat) (method : String) : Prop :=
  checkMethodAccess ref method s = .ok () s

/-- The level of a member does not keep it from being read. -/
def GetPasses (s : Session) (ref : Nat) (name : String) : Prop :=
  ∀ use guard member className,
    Object.get s.classes s.heap ref name s.caller ≠ .error (.denied use guard member className)

/-- The objects whose code may call a method of a level. -/
def mayCall (s : Session) (ref : Nat) : Access → Bool
  | .privateAccess => s.this? == some ref
  | .protectedAccess => s.this?.any fun other =>
    s.classes.descendsFrom (s.heap.object other).classId (s.heap.object ref).classId
  | _ => true

theorem callPasses_iff :
    CallPasses s ref method ↔
      mayCall s ref (s.classes.methodAccess (s.heap.object ref).classId method) = true := by
  have refused : ∀ cause, (reject cause : Eval Unit) s ≠ .ok () s := by
    intro cause passed
    cases passed
  unfold CallPasses checkMethodAccess mayCall
  rw [get_bind_apply, bind_ok (this?_apply s)]
  cases s.classes.methodAccess (s.heap.object ref).classId method with
  | publicAccess | other level => exact ⟨fun _ => rfl, fun _ => rfl⟩
  | privateAccess =>
    by_cases same : s.this? = some ref
    · simp only [same]
      exact ⟨fun _ => beq_self_eq_true _, fun _ => rfl⟩
    · simpa [same] using refused _
  | protectedAccess =>
    cases s.this? with
    | none => simpa using refused _
    | some other =>
      cases descends : s.classes.descendsFrom (s.heap.object other).classId
          (s.heap.object ref).classId with
      | false => simpa [descends] using refused _
      | true =>
        simp only [Option.any_some, descends]
        exact ⟨fun _ => trivial, fun _ => rfl⟩

/-- A check that lets a member through is all that reading it depends on. -/
theorem getPasses_iff {use : MemberUse} {member : Member}
    (read : Object.get s.classes s.heap ref name s.caller = do
      Object.checkAccess s.classes s.heap ref s.caller use name level
      return member) :
    GetPasses s ref name ↔ Object.refusal s.classes s.heap ref s.caller level = none := by
  unfold GetPasses
  rw [read]
  unfold Object.checkAccess
  cases Object.refusal s.classes s.heap ref s.caller level with
  | none =>
    refine ⟨fun _ => rfl, fun _ use guard member className denied => ?_⟩
    cases denied
  | some guard =>
    refine ⟨fun passes => ?_, fun isNone => ?_⟩
    · exact absurd rfl (passes use guard name _)
    · cases isNone

theorem getPasses_field {value : Value} (alive : (s.heap.object ref).destroyed = false)
    (bound : (s.heap.object ref).fields.get? name = some value) :
    GetPasses s ref name ↔ Object.refusal s.classes s.heap ref s.caller
      (s.classes.fieldAccess (s.heap.object ref).classId name) = none := by
  apply getPasses_iff
  rw [Object.get_of_alive alive, bound]

theorem getPasses_method {routine : Routine Node} (alive : (s.heap.object ref).destroyed = false)
    (unbound : (s.heap.object ref).fields.get? method = none)
    (found : s.classes.findMethod (s.heap.object ref).classId method = some routine) :
    GetPasses s ref method ↔ Object.refusal s.classes s.heap ref s.caller
      (s.classes.methodAccess (s.heap.object ref).classId method) = none := by
  apply getPasses_iff
  rw [Object.get_of_alive alive, unbound]
  rw [found]

/-- The running code is a friend of an object's class, by its function or its object. -/
def Befriended (s : Session) (ref : Nat) : Prop :=
  Object.friendFunction s.classes (s.heap.object ref).classId s.caller = true ∨
    Object.friendObject s.classes s.heap (s.heap.object ref).classId s.caller = true

/-- The code of an object of a class or of a descendant is running. -/
def Descends (s : Session) (ref : Nat) : Prop :=
  ∃ other, s.this? = some other ∧
    s.classes.descendsFrom (s.heap.object other).classId (s.heap.object ref).classId = true

def Related (s : Session) (ref : Nat) : Prop :=
  ∃ other, s.this? = some other ∧
    s.classes.related (s.heap.object ref).classId (s.heap.object other).classId = true

/-- Who is let in to a level by friendship or kinship only. -/
def Favoured (s : Session) (ref : Nat) : Access → Prop
  | .privateAccess => s.this? ≠ some ref ∧ Befriended s ref
  | .protectedAccess => ¬ Descends s ref ∧ (Befriended s ref ∨ Related s ref)
  | _ => False

theorem mayCall_protected : mayCall s ref .protectedAccess = true ↔ Descends s ref := by
  unfold mayCall Descends
  cases s.this? <;> simp

theorem mayUseProtected_iff_favoured :
    Object.mayUseProtected s.classes s.heap ref s.caller = true ↔
      Descends s ref ∨ Favoured s ref .protectedAccess := by
  rw [Object.mayUseProtected_iff]
  have self : s.this? = some ref → Descends s ref := by
    intro same
    refine ⟨ref, same, ?_⟩
    exact List.contains_iff_mem.2 (s.classes.mem_ancestors_self _)
  have kin : Descends s ref → Related s ref := by
    rintro ⟨other, running, descends⟩
    exact ⟨other, running, ClassGraph.related_of_descendsFrom descends⟩
  constructor
  · intro allowed
    by_cases descends : Descends s ref
    · exact .inl descends
    · refine .inr ⟨descends, ?_⟩
      rcases allowed with friend | friend | ⟨other, running, rfl | related⟩
      · exact .inl (.inl friend)
      · exact .inl (.inr friend)
      · exact absurd (self running) descends
      · exact .inr ⟨other, running, related⟩
  · have related : Related s ref → ∃ other, s.caller.object = some other ∧ (other = ref ∨
        s.classes.related (s.heap.object ref).classId (s.heap.object other).classId = true) := by
      rintro ⟨other, running, related⟩
      exact ⟨other, running, .inr related⟩
    rintro (descends | ⟨-, (friend | friend) | kinship⟩)
    · exact .inr (.inr (related (kin descends)))
    · exact .inl friend
    · exact .inr (.inl friend)
    · exact .inr (.inr (related kinship))

/-- Who may read a member is who may call it, or is favoured. -/
theorem refusal_iff_favoured (level : Access) :
    Object.refusal s.classes s.heap ref s.caller level = none ↔
      mayCall s ref level = true ∨ Favoured s ref level := by
  cases level with
  | publicAccess | other level => simp [Object.refusal, mayCall]
  | privateAccess =>
    have mine : mayCall s ref .privateAccess = true ↔ s.this? = some ref := beq_iff_eq
    rw [Object.refusal_private, Object.mayUsePrivate_iff, mine]
    by_cases same : s.this? = some ref
    · exact ⟨fun _ => .inl same, fun _ => .inl same⟩
    · have other : s.caller.object ≠ some ref := same
      simp [same, other, Favoured, Befriended]
  | protectedAccess =>
    rw [Object.refusal_protected, mayCall_protected]
    exact mayUseProtected_iff_favoured

theorem not_mayCall_of_favoured (favoured : Favoured s ref level) : mayCall s ref level ≠ true := by
  cases level with
  | publicAccess | other level => exact favoured.elim
  | privateAccess => exact fun mine => favoured.1 (beq_iff_eq.1 mine)
  | protectedAccess => exact fun descends => favoured.1 (mayCall_protected.1 descends)

/-- A method may be called by its name only by who may read it, and the checks differ just for those
who are let in by friendship or kinship. A field by the name of the method is read in its place, and
its level decides then. -/
theorem method_checks {routine : Routine Node} (alive : (s.heap.object ref).destroyed = false)
    (found : s.classes.findMethod (s.heap.object ref).classId method = some routine) :
    ((s.heap.object ref).fields.get? method = none →
      (CallPasses s ref method → GetPasses s ref method) ∧
      ((CallPasses s ref method ↔ GetPasses s ref method) ↔
        ¬ Favoured s ref (s.classes.methodAccess (s.heap.object ref).classId method))) ∧
    ∀ value, (s.heap.object ref).fields.get? method = some value →
      (GetPasses s ref method ↔ Object.refusal s.classes s.heap ref s.caller
        (s.classes.fieldAccess (s.heap.object ref).classId method) = none) := by
  refine ⟨fun unbound => ?_, fun value bound => getPasses_field alive bound⟩
  rw [getPasses_method alive unbound found, callPasses_iff, refusal_iff_favoured]
  refine ⟨.inl, fun agree favoured => ?_, fun plain => ⟨.inl, fun passes => ?_⟩⟩
  · exact not_mayCall_of_favoured favoured (agree.2 (.inr favoured))
  · exact passes.resolve_right plain

/-- A session in which a friend of a class is running. -/
def befriending : Session where
  classes := { classes := #[{
    name := "A"
    methods := [("m", { name := "m", parameters := [], body := [] })]
    methodAccess := [("m", .privateAccess)]
    friends := ["f"] }] }
  heap := { objects := #[{ classId := 0 }] }
  function := some "f"

theorem method_checks_friend :
    GetPasses befriending 0 "m" ∧ ¬ CallPasses befriending 0 "m" := by
  have checks := (@method_checks befriending 0 "m" _ rfl rfl).1 rfl
  have favoured : Favoured befriending 0 .privateAccess := ⟨nofun, .inl (by decide)⟩
  have read : GetPasses befriending 0 "m" := by
    refine (getPasses_method rfl rfl rfl).2 ?_
    decide
  exact ⟨read, fun call => checks.2.1 ⟨fun _ => read, fun _ => call⟩ favoured⟩

theorem friend_call_refused :
    (Report.run {} ("Chief\nClass A \x7b Friend: f; " ++
      "Private Function m() \x7b Return 1; \x7d \x7d\n" ++
      "Function f(a) \x7b Return a.m(); \x7d\nPrint(f(new A()));") false none).2.output =
    "Bida, kozache! Runtime error:\nCannot access private method 'm' of class 'A'\n" := by
  decide +kernel

end Eval

end Hetman
