import Hetman.Proofs.Eval.Lineage
import Hetman.Proofs.Eval.Members

/-!
# Families of classes

Two classes are related if some class is in both of their lines. Related classes are those with the
same root (`related_iff`): they fall into families. Protected members are open to whom private ones
are, and to the family of the object (`protected_iff_private_or_family`).
-/

namespace Hetman

namespace ClassGraph

variable {g : ClassGraph} {id c root : Nat} {line : List Nat}

/-- The class without a parent that the parents of a class lead up to. -/
inductive RootOf (g : ClassGraph) : Nat → Nat → Prop
  | self {id : Nat} (orphan : (g.info id).parent = none) : g.RootOf id id
  | above {id parent root : Nat} (isParent : g.IsParent parent id)
      (further : g.RootOf parent root) : g.RootOf id root

theorem RootOf.unique {other : Nat} (first : g.RootOf id root) (second : g.RootOf id other) :
    root = other := by
  induction first with
  | self orphan =>
    cases second with
    | self => rfl
    | above isParent => cases orphan.symm.trans isParent
  | above isParent _ ih =>
    cases second with
    | self orphan => cases orphan.symm.trans isParent
    | above isParent' further =>
      cases isParent.symm.trans isParent'
      exact ih further

namespace Lineage

theorem rootOf (lineage : g.Lineage id line) : ∃ root ∈ line, g.RootOf id root := by
  induction lineage with
  | @root id orphan => exact ⟨id, List.mem_singleton_self id, .self orphan⟩
  | child isParent _ ih =>
    obtain ⟨root, inRest, isRoot⟩ := ih
    exact ⟨root, List.mem_cons_of_mem _ inRest, .above isParent isRoot⟩

/-- All classes of a line have the root of the line. -/
theorem rootOf_of_mem (lineage : g.Lineage id line) (inLine : c ∈ line)
    (isRoot : g.RootOf c root) : g.RootOf id root := by
  induction lineage with
  | root =>
    cases List.mem_singleton.mp inLine
    exact isRoot
  | child isParent _ ih =>
    rcases List.mem_cons.mp inLine with rfl | inRest
    · exact isRoot
    · exact .above isParent (ih inRest)

end Lineage

section

variable (older : ∀ {parent id}, g.IsParent parent id → parent < id)

include older

/-- The bound of a search for ancestors cuts no line short. -/
theorem lineage_ancestors (id : Nat) : g.Lineage id (g.ancestors id) := by
  obtain ⟨line, lineage, -, -, short⟩ := lineage_of_older older id
  have whole : g.ancestors id = line := lineage.ancestorsUpTo short
  rw [whole]
  exact lineage

theorem exists_rootOf (id : Nat) :
    ∃ root, g.RootOf id root ∧ ∀ other, g.RootOf id other → other = root := by
  obtain ⟨root, -, isRoot⟩ := (lineage_ancestors older id).rootOf
  exact ⟨root, isRoot, fun other isRoot' => isRoot'.unique isRoot⟩

/-- Classes are related if they have the same root. -/
theorem related_iff {a b : Nat} :
    g.related a b = true ↔ ∃ root, g.RootOf a root ∧ g.RootOf b root := by
  have shared : g.related a b = true ↔ ∃ c ∈ g.ancestors a, c ∈ g.ancestors b := by
    simp [related]
  rw [shared]
  constructor
  · rintro ⟨c, above, above'⟩
    obtain ⟨root, -, isRoot⟩ := (lineage_ancestors older c).rootOf
    exact ⟨root, (lineage_ancestors older a).rootOf_of_mem above isRoot,
      (lineage_ancestors older b).rootOf_of_mem above' isRoot⟩
  · rintro ⟨root, isRoot, isRoot'⟩
    obtain ⟨last, inLine, isLast⟩ := (lineage_ancestors older a).rootOf
    obtain ⟨last', inLine', isLast'⟩ := (lineage_ancestors older b).rootOf
    cases isLast.unique isRoot
    cases isLast'.unique isRoot'
    exact ⟨root, inLine, inLine'⟩

theorem related_equivalence : Equivalence fun a b => g.related a b = true where
  refl a := by
    obtain ⟨root, isRoot, -⟩ := exists_rootOf older a
    exact (related_iff older).mpr ⟨root, isRoot, isRoot⟩
  symm := by
    intro a b related
    obtain ⟨root, isRoot, isRoot'⟩ := (related_iff older).mp related
    exact (related_iff older).mpr ⟨root, isRoot', isRoot⟩
  trans := by
    intro a b c first second
    obtain ⟨root, isRoot, shared⟩ := (related_iff older).mp first
    obtain ⟨root', shared', isRoot'⟩ := (related_iff older).mp second
    cases shared.unique shared'
    exact (related_iff older).mpr ⟨root, isRoot, isRoot'⟩

end

end ClassGraph

namespace Object

variable {g : ClassGraph} {h : Heap} {ref : Nat} {caller : Caller}

/-- An object may use its own protected members: it is of its own family. -/
theorem mayUseProtected_of_mayUsePrivate (may : mayUsePrivate g h ref caller = true) :
    mayUseProtected g h ref caller = true := by
  rw [mayUseProtected_iff]
  rcases mayUsePrivate_iff.mp may with itself | function | object
  · exact .inr (.inr ⟨ref, itself, .inl rfl⟩)
  · exact .inl function
  · exact .inr (.inl object)

/-- Where parents are older than their children, every class has one root. Protected members of an
object may be used exactly by who may use its private ones, and by an object whose class has the
same root. Being related is an equivalence, and who may use private members may use protected ones.
-/
theorem protected_iff_private_or_family
    (older : ∀ {parent id}, g.IsParent parent id → parent < id) (h : Heap) (ref : Nat)
    (caller : Caller) :
    (∀ id, ∃ root, g.RootOf id root ∧ ∀ other, g.RootOf id other → other = root) ∧
    (mayUseProtected g h ref caller = true ↔ mayUsePrivate g h ref caller = true ∨
      ∃ other root, caller.object = some other ∧ g.RootOf (h.object other).classId root ∧
        g.RootOf (h.object ref).classId root) ∧
    (Equivalence fun a b => g.related a b = true) ∧
    (mayUsePrivate g h ref caller = true → mayUseProtected g h ref caller = true) := by
  refine ⟨ClassGraph.exists_rootOf older, ⟨fun may => ?_, ?_⟩,
    ClassGraph.related_equivalence older, mayUseProtected_of_mayUsePrivate⟩
  · rcases mayUseProtected_iff.mp may with function | object | ⟨other, asks, itself | related⟩
    · exact .inl (mayUsePrivate_iff.mpr (.inr (.inl function)))
    · exact .inl (mayUsePrivate_iff.mpr (.inr (.inr object)))
    · cases itself
      exact .inl (mayUsePrivate_iff.mpr (.inl asks))
    · obtain ⟨root, own, theirs⟩ := (ClassGraph.related_iff older).mp related
      exact .inr ⟨other, root, asks, theirs, own⟩
  · rintro (may | ⟨other, root, asks, theirs, own⟩)
    · exact mayUseProtected_of_mayUsePrivate may
    · have related := (ClassGraph.related_iff older).mpr ⟨root, own, theirs⟩
      exact mayUseProtected_iff.mpr (.inr (.inr ⟨other, asks, .inr related⟩))

/-- A class with two children, and a class of another family. -/
def siblings : ClassGraph where
  classes := #[{ name := "Base" }, { name := "Left", parent := some 0 },
    { name := "Right", parent := some 0 }, { name := "Other" }]

/-- An object of each of the four classes. -/
def fourObjects : Heap where
  objects := #[{ classId := 0 }, { classId := 1 }, { classId := 2 }, { classId := 3 }]

theorem older_siblings {parent id : Nat} (isParent : siblings.IsParent parent id) :
    parent < id := by
  rcases id with _ | _ | _ | _ | id <;> cases isParent <;> decide

/-- A sibling may use protected but no private members, and an object of another family neither. -/
theorem protected_iff_private_or_family_siblings :
    (siblings.RootOf 1 0 ∧ siblings.RootOf 2 0 ∧
      mayUsePrivate siblings fourObjects 1 { object := some 2 } = false ∧
      mayUseProtected siblings fourObjects 1 { object := some 2 } = true) ∧
    mayUseProtected siblings fourObjects 1 { object := some 3 } = false ∧
    ¬ ∃ root, siblings.RootOf 3 root ∧ siblings.RootOf 1 root := by
  have left : siblings.RootOf 1 0 := .above rfl (.self rfl)
  have right : siblings.RootOf 2 0 := .above rfl (.self rfl)
  have sibling := protected_iff_private_or_family older_siblings fourObjects 1 { object := some 2 }
  have other := protected_iff_private_or_family older_siblings fourObjects 1 { object := some 3 }
  have refused : mayUseProtected siblings fourObjects 1 { object := some 3 } = false := by decide
  refine ⟨⟨left, right, by decide, sibling.2.1.mpr (.inr ⟨2, 0, rfl, right, left⟩)⟩, refused, ?_⟩
  rintro ⟨root, theirs, own⟩
  have may := other.2.1.mpr (.inr ⟨3, root, rfl, theirs, own⟩)
  rw [refused] at may
  cases may

end Object

end Hetman
