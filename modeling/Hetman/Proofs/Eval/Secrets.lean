import Hetman.Proofs.Eval.Members

/-!
# What outsiders learn of a private field

Whoever is not let in to a private field learns nothing of its value. Two heaps that differ in this
value only are kept so by every request (`perform_twins`), and answer every sequence of requests
alike, as long as only outsiders ask for the field (`answers_unobserved`).
-/

namespace Hetman

def Instance.put (o : Instance) (field : String) (value : Value) : Instance :=
  { o with fields := o.fields.insert field value }

/-- Two states of an object that differ only in the value of a field of theirs. -/
structure Instance.EqualBut (name : String) (o o' : Instance) : Prop where
  classId : o'.classId = o.classId
  destroyed : o'.destroyed = o.destroyed
  fields : ∀ other, other ≠ name → o'.fields.get? other = o.fields.get? other
  bound : ∃ value, o.fields.get? name = some value
  bound' : ∃ value, o'.fields.get? name = some value

/-- Heaps whose objects differ only in a field of one of them. -/
structure Heap.EqualBut (ref : Nat) (name : String) (h h' : Heap) : Prop where
  size : h'.objects.size = h.objects.size
  others : ∀ other, other ≠ ref → h'.object other = h.object other
  object : (h.object ref).EqualBut name (h'.object ref)

/-- A caller without a right to the private members of an object: another object, not of a friend
class, and a function that is no friend. -/
structure Object.Outsider (g : ClassGraph) (h : Heap) (ref : Nat) (caller : Caller) : Prop where
  object : caller.object ≠ some ref
  friendClass : ∀ other, caller.object = some other →
    g.isFriendClass (h.object ref).classId (g.info (h.object other).classId).name = false
  friend : ∀ function, caller.function = some function →
    g.isFriend (h.object ref).classId function = false

/-- What can be asked of an object. -/
inductive Request where
  | get (ref : Nat) (name : String) (caller : Caller)
  | set (ref : Nat) (name : String) (value : Value) (caller : Caller)
  | destroy (ref : Nat)

/-- What an object answers. -/
inductive Answer where
  | read (result : Except ObjectFault Member)
  | written (result : Except ObjectFault Unit)
  | destroyed (result : Except Signal Unit)

namespace Request

def perform (ev : Node → Eval Value) (s : Session) : Request → Answer × Session
  | .get ref name caller => (.read (Object.get s.classes s.heap ref name caller), s)
  | .set ref name value caller =>
    match Object.set s.classes s.heap ref name value caller with
    | .ok heap => (.written (.ok ()), { s with heap })
    | .error cause => (.written (.error cause), s)
  | .destroy ref =>
    match Eval.destroy ev ref s with
    | .ok _ t => (.destroyed (.ok ()), t)
    | .error signal t => (.destroyed (.error signal), t)

def answers (ev : Node → Eval Value) : Session → List Request → List Answer
  | _, [] => []
  | s, request :: rest => (request.perform ev s).1 :: answers ev (request.perform ev s).2 rest

/-- The field is asked for by outsiders only, and only objects without a destructor are destroyed.
What is written to the field does not depend on its value. -/
def Outside (g : ClassGraph) (h : Heap) (ref : Nat) (name : String) : Request → Prop
  | .get other n caller => other = ref → n = name → Object.Outsider g h ref caller
  | .set .. => True
  | .destroy other => (g.info (h.object other).classId).destructor = none

end Request

namespace Object

variable {g : ClassGraph} {h h' : Heap} {ref : Nat} {name : String} {caller : Caller}

theorem refusal_congr (classes : ∀ r, (h'.object r).classId = (h.object r).classId)
    (level : Access) : refusal g h' ref caller level = refusal g h ref caller level := by
  unfold refusal mayUsePrivate mayUseProtected friendObject
  simp only [classes]

theorem get_congr (classes : ∀ r, (h'.object r).classId = (h.object r).classId)
    (destroyed : (h'.object ref).destroyed = (h.object ref).destroyed)
    (field : (h'.object ref).fields.get? name = (h.object ref).fields.get? name) :
    get g h' ref name caller = get g h ref name caller := by
  unfold get checkAlive checkAccess
  simp only [classes, destroyed, field, refusal_congr classes]

/-- Whether a field may be written. -/
def checkWrite (g : ClassGraph) (h : Heap) (ref : Nat) (name : String) (caller : Caller) :
    Except ObjectFault Unit := do
  checkAlive g h ref
  checkAccess g h ref caller .writeField name (g.fieldAccess (h.object ref).classId name)

theorem set_eq (value : Value) :
    set g h ref name value caller = (checkWrite g h ref name caller).map fun _ =>
      h.setObject ref ((h.object ref).put name value) := by
  unfold checkWrite
  cases alive : (h.object ref).destroyed with
  | true =>
    rw [set_of_destroyed alive, checkAlive_of_destroyed alive]
    rfl
  | false =>
    rw [set_of_alive alive, checkAlive_of_alive alive]
    cases checkAccess g h ref caller .writeField name (g.fieldAccess (h.object ref).classId name)
    · rfl
    · rfl

theorem checkWrite_congr (classes : ∀ r, (h'.object r).classId = (h.object r).classId)
    (destroyed : (h'.object ref).destroyed = (h.object ref).destroyed) :
    checkWrite g h' ref name caller = checkWrite g h ref name caller := by
  unfold checkWrite checkAlive checkAccess
  simp only [classes, destroyed, refusal_congr classes]

theorem Outsider.refused (outsider : Outsider g h ref caller) :
    refusal g h ref caller .privateAccess = some .privateMember := by
  have closed : ¬ mayUsePrivate g h ref caller = true := by
    rw [mayUsePrivate_iff]
    rintro (own | friend | friend)
    · exact outsider.object own
    · unfold friendFunction at friend
      split at friend
      · rename_i function running
        simp [outsider.friend function running] at friend
      · cases friend
    · unfold friendObject at friend
      split at friend
      · rename_i other running
        simp [outsider.friendClass other running] at friend
      · cases friend
  exact if_neg closed

end Object

namespace Heap

variable {h h' : Heap} {ref : Nat} {name : String}

theorem classId_setObject {other : Nat} {o : Instance}
    (same : o.classId = (h.object other).classId) (r : Nat) :
    ((h.setObject other o).object r).classId = (h.object r).classId := by
  rw [object_setObject]
  split
  · rename_i here
    rw [← here.1]
    exact same
  · rfl

theorem EqualBut.alike (close : h.EqualBut ref name h') (r : Nat) :
    (h'.object r).classId = (h.object r).classId ∧
      (h'.object r).destroyed = (h.object r).destroyed := by
  by_cases same : r = ref
  · rw [same]
    exact ⟨close.object.classId, close.object.destroyed⟩
  · rw [close.others r same]
    exact ⟨rfl, rfl⟩

theorem EqualBut.setObject (close : h.EqualBut ref name h') (other : Nat)
    (change : Instance → Instance)
    (keeps : (change (h.object ref)).EqualBut name (change (h'.object ref))) :
    (h.setObject other (change (h.object other))).EqualBut ref name
      (h'.setObject other (change (h'.object other))) := by
  refine ⟨?_, fun r outside => ?_, ?_⟩
  · simp [Heap.setObject, close.size]
  · rw [object_setObject, object_setObject, close.size, close.others r outside]
    split
    · rename_i here
      rw [here.1, close.others r outside]
    · rfl
  · rw [object_setObject, object_setObject, close.size]
    split
    · rename_i here
      rw [here.1]
      exact keeps
    · exact close.object

end Heap

namespace Instance

variable {name : String} {o o' : Instance}

theorem EqualBut.put (close : o.EqualBut name o') (field : String) (value : Value) :
    (o.put field value).EqualBut name (o'.put field value) := by
  have kept : ∀ b : Bindings Value, (∃ v, b.get? name = some v) →
      ∃ v, (b.insert field value).get? name = some v := by
    intro b bound
    rw [Bindings.get?_insert]
    split
    · exact ⟨value, rfl⟩
    · exact bound
  refine ⟨close.classId, close.destroyed, fun other outside => ?_, kept _ close.bound,
    kept _ close.bound'⟩
  unfold Instance.put
  rw [Bindings.get?_insert, Bindings.get?_insert, close.fields other outside]

theorem EqualBut.destroy (close : o.EqualBut name o') :
    EqualBut name { o with destroyed := true } { o' with destroyed := true } :=
  ⟨close.classId, rfl, close.fields, close.bound, close.bound'⟩

end Instance

/-- Sessions with the same classes that differ only in the value of a field. -/
structure Twins (ref : Nat) (name : String) (s s' : Session) : Prop where
  classes : s'.classes = s.classes
  heap : s.heap.EqualBut ref name s'.heap

namespace Request

variable {s s' : Session} {ref : Nat} {name : String} {ev ev' : Node → Eval Value}
  {request : Request}

variable {other : Nat}

theorem perform_destroy
    (nothing : (s.classes.info (s.heap.object other).classId).destructor = none) :
    perform ev s (.destroy other) = (.destroyed (.ok ()),
      if (s.heap.object other).destroyed then s
      else { s with heap := Object.markDestroyed s.heap other }) := by
  unfold perform
  dsimp only
  rw [Eval.destroy_apply, nothing]
  cases (s.heap.object other).destroyed <;> rfl

theorem perform_set (other : Nat) (field : String) (value : Value) (caller : Caller) :
    perform ev s (.set other field value caller) =
      match Object.checkWrite s.classes s.heap other field caller with
      | .ok () =>
        (.written (.ok ()),
          { s with heap := s.heap.setObject other ((s.heap.object other).put field value) })
      | .error cause => (.written (.error cause), s) := by
  unfold perform
  dsimp only
  rw [Object.set_eq]
  cases Object.checkWrite s.classes s.heap other field caller <;> rfl

theorem perform_classes (outside : request.Outside s.classes s.heap ref name) :
    (request.perform ev s).2.classes = s.classes ∧
      ∀ r, ((request.perform ev s).2.heap.object r).classId = (s.heap.object r).classId := by
  cases request with
  | get other n caller => exact ⟨rfl, fun _ => rfl⟩
  | set other field value caller =>
    rw [perform_set]
    cases Object.checkWrite s.classes s.heap other field caller with
    | ok u => exact ⟨rfl, Heap.classId_setObject rfl⟩
    | error cause => exact ⟨rfl, fun _ => rfl⟩
  | destroy other =>
    rw [perform_destroy outside]
    split
    · exact ⟨rfl, fun _ => rfl⟩
    · exact ⟨rfl, Heap.classId_setObject rfl⟩

/-- An outsider is refused in both, and other members are the same. -/
theorem get_twins (twins : Twins ref name s s')
    (isPrivate : s.classes.fieldAccess (s.heap.object ref).classId name = .privateAccess)
    {n : String} {caller : Caller}
    (outside : (get other n caller).Outside s.classes s.heap ref name) :
    Object.get s'.classes s'.heap other n caller = Object.get s.classes s.heap other n caller := by
  have classes := fun r => (twins.heap.alike r).1
  have gone := (twins.heap.alike other).2
  rw [twins.classes]
  by_cases here : other = ref ∧ n = name
  · obtain ⟨rfl, rfl⟩ := here
    cases alive : (s.heap.object other).destroyed with
    | true =>
      rw [Object.get_of_destroyed alive, Object.get_of_destroyed (gone.trans alive), classes]
    | false =>
      -- Both refuse before the value is looked at.
      have refused := (outside rfl rfl).refused
      obtain ⟨value, bound⟩ := twins.heap.object.bound
      obtain ⟨value', bound'⟩ := twins.heap.object.bound'
      rw [Object.get_of_alive alive, Object.get_of_alive (gone.trans alive), bound, bound']
      unfold Object.checkAccess
      simp only [Object.refusal_congr classes, classes, isPrivate, refused]
      rfl
  · apply Object.get_congr classes gone
    by_cases same : other = ref
    · subst same
      exact twins.heap.object.fields n fun named => here ⟨rfl, named⟩
    · rw [twins.heap.others other same]

/-- A request has the same answer in twins, and leaves twins. -/
theorem perform_twins (twins : Twins ref name s s')
    (isPrivate : s.classes.fieldAccess (s.heap.object ref).classId name = .privateAccess)
    (outside : request.Outside s.classes s.heap ref name) :
    (request.perform ev' s').1 = (request.perform ev s).1 ∧
      Twins ref name (request.perform ev s).2 (request.perform ev' s').2 := by
  have classes := fun r => (twins.heap.alike r).1
  cases request with
  | get other n caller =>
    refine ⟨?_, twins⟩
    unfold perform
    dsimp only
    rw [get_twins twins isPrivate outside]
  | set other field value caller =>
    rw [perform_set, perform_set, twins.classes,
      Object.checkWrite_congr classes (twins.heap.alike other).2]
    cases Object.checkWrite s.classes s.heap other field caller with
    | ok u =>
      refine ⟨rfl, rfl, ?_⟩
      exact twins.heap.setObject other (·.put field value) (twins.heap.object.put field value)
    | error cause => exact ⟨rfl, twins⟩
  | destroy other =>
    have outside' : (s'.classes.info (s'.heap.object other).classId).destructor = none := by
      rw [twins.classes, classes]
      exact outside
    rw [perform_destroy outside, perform_destroy outside', (twins.heap.alike other).2]
    refine ⟨rfl, ?_⟩
    split
    · exact twins
    · refine ⟨twins.classes, ?_⟩
      exact twins.heap.setObject other ({ · with destroyed := true }) twins.heap.object.destroy

theorem Outside.of_classes {g : ClassGraph} {h h' : Heap}
    (outside : request.Outside g h ref name)
    (classes : ∀ r, (h'.object r).classId = (h.object r).classId) :
    request.Outside g h' ref name := by
  cases request with
  | get other n caller =>
    intro same named
    obtain ⟨object, friendClass, friend⟩ := outside same named
    refine ⟨object, fun other running => ?_, fun function running => ?_⟩
    · rw [classes, classes]
      exact friendClass other running
    · rw [classes]
      exact friend function running
  | set other field value caller => trivial
  | destroy other =>
    dsimp only [Outside] at outside ⊢
    rw [classes]
    exact outside

/-- Two sessions whose objects differ only in a private field of one of them give the same answers
to every sequence of requests in which only outsiders ask for it. -/
theorem answers_unobserved (ev ev' : Node → Eval Value) {requests : List Request}
    (twins : Twins ref name s s')
    (isPrivate : s.classes.fieldAccess (s.heap.object ref).classId name = .privateAccess)
    (outside : ∀ request ∈ requests, request.Outside s.classes s.heap ref name) :
    answers ev' s' requests = answers ev s requests := by
  induction requests generalizing s s' with
  | nil => rfl
  | cons request rest ih =>
    have first := outside request (List.mem_cons_self ..)
    obtain ⟨same, twins⟩ := perform_twins twins isPrivate first
    -- Objects keep their classes, so who is an outsider now is one later on.
    obtain ⟨classes, ids⟩ := perform_classes first
    have others : answers ev' (request.perform ev' s').2 rest =
        answers ev (request.perform ev s).2 rest := by
      refine ih twins ?_ fun r later => ?_
      · rw [classes, ids]
        exact isPrivate
      · rw [classes]
        exact (outside r (List.mem_cons_of_mem _ later)).of_classes ids
    unfold answers
    rw [same, others]

def keeping (value : Value) : Session where
  classes := { classes := #[{
    name := "A"
    fieldAccess := [("x", .privateAccess)]
    friends := ["f"] }] }
  heap := { objects := #[{ classId := 0, fields := [("x", value), ("y", .int 0)] }] }

/-- Others ask for a value while the object changes and is destroyed. -/
def inquiry : List Request :=
  [.get 0 "x" { function := some "g" }, .set 0 "y" (.int 3) { object := some 0 }, .get 0 "y" {},
    .destroy 0, .get 0 "x" { function := some "g" }]

/-- The object itself can tell the values apart. -/
theorem answers_unobserved_keeping :
    (∀ n, Object.get (keeping (.int n)).classes (keeping (.int n)).heap 0 "x"
      { object := some 0 } = .ok (.field (.int n))) ∧
    answers (Eval.eval 9) (keeping (.int 2)) inquiry =
      answers (Eval.eval 9) (keeping (.int 1)) inquiry := by
  have twins : Twins 0 "x" (keeping (.int 1)) (keeping (.int 2)) := by
    refine ⟨rfl, rfl, fun other outside => ?_, rfl, rfl, fun other outside => ?_, ⟨_, rfl⟩, ⟨_, rfl⟩⟩
    · simp [keeping, Heap.object, outside]
    · simp [keeping, Heap.object, Bindings.get?, Ne.symm outside]
  have stranger : Object.Outsider (keeping (.int 1)).classes (keeping (.int 1)).heap 0
      { function := some "g" } := by
    refine ⟨fun own => ?_, fun other running => ?_, fun function running => ?_⟩
    · cases own
    · cases running
    · cases running
      decide
  have kept : ((keeping (.int 1)).classes.info
      ((keeping (.int 1)).heap.object 0).classId).destructor = none := rfl
  refine ⟨fun n => rfl, answers_unobserved _ _ twins (by decide) ?_⟩
  simp [inquiry, Outside, stranger, kept]

end Request

end Hetman
