import Hetman.Proofs.Eval.Monitor

/-!
# The lines of classes

A class is defined under a parent that a name means at that moment, so every parent is older than
its children. The line of a class is therefore finite and without repetition (`lineage_of_older`),
and all that is asked of a class is answered along its line (`Lineage.answers`). Evaluation only
adds classes (`Grows`).
-/

namespace Hetman

open List

namespace ClassGraph

variable {g h : ClassGraph} {id : Nat} {line : List Nat}

/-! ## Lines -/

def IsParent (g : ClassGraph) (parent id : Nat) : Prop :=
  (g.info id).parent = some parent

/-- A class, its parent and so on, up to a class without a parent. -/
inductive Lineage (g : ClassGraph) : Nat → List Nat → Prop
  | root {id : Nat} (orphan : (g.info id).parent = none) : g.Lineage id [id]
  | child {id parent : Nat} {rest : List Nat} (isParent : g.IsParent parent id)
      (above : g.Lineage parent rest) : g.Lineage id (id :: rest)

/-- Questions about a class are answered along its line. -/
structure Answers (g : ClassGraph) (id : Nat) (line : List Nat) : Prop where
  lineage : g.Lineage id line
  distinct : line.Nodup
  ancestors : g.ancestors id = line
  method : ∀ name, g.findMethod id name = line.findSome? fun c => (g.info c).methods.get? name
  methodAccess : ∀ name, g.methodAccess id name =
    (line.findSome? fun c => (g.info c).methodAccess.get? name).getD .publicAccess
  fieldAccess : ∀ name, g.fieldAccess id name =
    (line.findSome? fun c => (g.info c).fieldAccess.get? name).getD .publicAccess
  friend : ∀ function, g.isFriend id function =
    line.any fun c => (g.info c).friends.contains function
  friendClass : ∀ name, g.isFriendClass id name =
    line.any fun c => (g.info c).friendClasses.contains name
  /-- No search ends because of its bound. -/
  unbounded : ∀ {α : Type} (ask : ClassInfo → Option α) bound, line.length ≤ bound →
    g.searchUpTo ask bound id = g.search ask id ∧ g.ancestorsUpTo bound id = g.ancestors id

/-- Parents lead up to a class without one, and classes answer along their lines. -/
def Orderly (g : ClassGraph) : Prop :=
  WellFounded g.IsParent ∧ ∀ id, ∃ line, g.Answers id line

namespace Lineage

variable {bound : Nat}

theorem searchUpTo (lineage : g.Lineage id line) {α : Type} (ask : ClassInfo → Option α)
    (enough : line.length ≤ bound) :
    g.searchUpTo ask bound id = line.findSome? fun c => ask (g.info c) := by
  induction lineage generalizing bound with
  | @root id orphan =>
    obtain ⟨bound, rfl⟩ : ∃ n, bound = n + 1 := Nat.exists_eq_add_of_le' enough
    unfold ClassGraph.searchUpTo
    dsimp only
    rw [findSome?_singleton, orphan]
    cases ask (g.info id) <;> rfl
  | @child id parent rest isParent _ ih =>
    obtain ⟨bound, rfl⟩ : ∃ n, bound = n + 1 :=
      Nat.exists_eq_add_of_le' (Nat.le_trans (Nat.le_add_left 1 _) enough)
    unfold ClassGraph.searchUpTo
    dsimp only
    rw [findSome?_cons, isParent, ← ih (Nat.le_of_succ_le_succ enough)]
    cases ask (g.info id) <;> rfl

theorem ancestorsUpTo (lineage : g.Lineage id line) (enough : line.length ≤ bound) :
    g.ancestorsUpTo bound id = line := by
  induction lineage generalizing bound with
  | @root id orphan =>
    obtain ⟨bound, rfl⟩ : ∃ n, bound = n + 1 := Nat.exists_eq_add_of_le' enough
    unfold ClassGraph.ancestorsUpTo
    rw [orphan]
  | @child id parent rest isParent _ ih =>
    obtain ⟨bound, rfl⟩ : ∃ n, bound = n + 1 :=
      Nat.exists_eq_add_of_le' (Nat.le_trans (Nat.le_add_left 1 _) enough)
    unfold ClassGraph.ancestorsUpTo
    rw [isParent]
    exact congrArg (id :: ·) (ih (Nat.le_of_succ_le_succ enough))

/-- Whether some class of the line says yes. -/
theorem search_isSome (lineage : g.Lineage id line) (enough : line.length ≤ id + 1)
    (ask : ClassInfo → Bool) :
    (g.search (fun c => if ask c then some () else none) id).isSome =
      line.any fun c => ask (g.info c) := by
  have found : g.search (fun c => if ask c then some () else none) id = _ :=
    lineage.searchUpTo _ enough
  rw [found, Bool.eq_iff_iff, findSome?_isSome_iff, any_eq_true]
  constructor
  · rintro ⟨c, inLine, answered⟩
    refine ⟨c, inLine, ?_⟩
    cases answer : ask (g.info c) with
    | true => rfl
    | false =>
      rw [answer] at answered
      cases answered
  · rintro ⟨c, inLine, yes⟩
    refine ⟨c, inLine, ?_⟩
    rw [if_pos yes]
    rfl

/-- A line without repetition, no longer than the number of older classes. -/
theorem answers (lineage : g.Lineage id line) (distinct : line.Nodup)
    (enough : line.length ≤ id + 1) : g.Answers id line where
  lineage := lineage
  distinct := distinct
  ancestors := lineage.ancestorsUpTo enough
  method _ := lineage.searchUpTo _ enough
  methodAccess _ := congrArg (Option.getD · _) (lineage.searchUpTo _ enough)
  fieldAccess _ := congrArg (Option.getD · _) (lineage.searchUpTo _ enough)
  friend function := lineage.search_isSome enough fun c => c.friends.contains function
  friendClass name := lineage.search_isSome enough fun c => c.friendClasses.contains name
  unbounded ask bound fits := by
    constructor
    · exact (lineage.searchUpTo ask fits).trans (lineage.searchUpTo ask enough).symm
    · exact (lineage.ancestorsUpTo fits).trans (lineage.ancestorsUpTo enough).symm

end Lineage

/-! ## Parents are older -/

/-- The line of a class leads to ever older classes. -/
theorem lineage_of_older (older : ∀ {parent id}, g.IsParent parent id → parent < id) (id : Nat) :
    ∃ line, g.Lineage id line ∧ (∀ c ∈ line, c ≤ id) ∧ line.Nodup ∧ line.length ≤ id + 1 := by
  induction id using Nat.strongRecOn with
  | ind id ih =>
    cases parent : (g.info id).parent with
    | none => exact ⟨[id], .root parent, by simp, by simp, by simp⟩
    | some above =>
      have older : above < id := older parent
      obtain ⟨rest, lineage, below, distinct, short⟩ := ih above older
      refine ⟨id :: rest, .child parent lineage, ?_, ?_, ?_⟩
      · intro c inLine
        rcases mem_cons.1 inLine with rfl | inRest
        · exact Nat.le_refl c
        · have := below c inRest
          omega
      · refine nodup_cons.2 ⟨fun repeated => ?_, distinct⟩
        have := below id repeated
        omega
      · rw [length_cons]
        omega

/-- Parents are older than their children, and names mean classes that exist. -/
structure Sound (g : ClassGraph) : Prop where
  older : ∀ {parent id}, g.IsParent parent id → parent < id
  known : ∀ {name id}, g.find name = .ok id → id < g.classes.size

namespace Sound

theorem empty : Sound {} where
  older isParent := nomatch isParent
  known found := nomatch found

theorem orderly (sound : g.Sound) : g.Orderly := by
  constructor
  · exact Subrelation.wf (fun isParent => sound.older isParent) Nat.lt_wfRel.wf
  · intro id
    obtain ⟨line, lineage, _, distinct, short⟩ := lineage_of_older sound.older id
    exact ⟨line, lineage.answers distinct short⟩

/-- A class may be defined under any class that a name means, even its own. -/
theorem define (sound : g.Sound) {c : ClassInfo}
    (named : ∀ id, c.parent = some id → ∃ name, g.find name = .ok id) :
    (g.define c).2.Sound where
  older := by
    intro parent id isParent
    unfold IsParent at isParent
    rw [info_define] at isParent
    split at isParent
    · rename_i new
      obtain ⟨name, found⟩ := named parent isParent
      rw [new]
      exact sound.known found
    · exact sound.older isParent
  known := by
    intro name id found
    have size : (g.define c).2.classes.size = g.classes.size + 1 := Array.size_push ..
    unfold find ClassGraph.define at found
    rw [Bindings.get?_insert] at found
    split at found
    · rename_i meant isNew
      split at isNew
      · cases isNew
        cases found
        omega
      · have older : g.find name = .ok id := by
          unfold find
          rw [isNew]
          exact found
        have := sound.known older
        omega
    · cases found

end Sound

/-! ## Growth -/

/-- All classes are still there, as they were. -/
structure Grows (g h : ClassGraph) : Prop where
  size : g.classes.size ≤ h.classes.size
  info : ∀ id, id < g.classes.size → h.info id = g.info id

namespace Grows

theorem refl (g : ClassGraph) : g.Grows g :=
  ⟨Nat.le_refl _, fun _ _ => rfl⟩

theorem trans {k : ClassGraph} (first : g.Grows h) (second : h.Grows k) : g.Grows k where
  size := Nat.le_trans first.size second.size
  info id old := (second.info id (Nat.lt_of_lt_of_le old first.size)).trans (first.info id old)

theorem define (g : ClassGraph) (c : ClassInfo) : g.Grows (g.define c).2 where
  size := by
    have size : (g.define c).2.classes.size = g.classes.size + 1 := Array.size_push ..
    omega
  info id old := by
    rw [info_define, if_neg (Nat.ne_of_lt old)]

theorem ancestors (grows : g.Grows h) (sound : g.Sound) (old : id < g.classes.size) :
    h.ancestors id = g.ancestors id := by
  have same : ∀ bound id, id < g.classes.size →
      h.ancestorsUpTo bound id = g.ancestorsUpTo bound id := by
    intro bound
    induction bound with
    | zero => exact fun _ _ => rfl
    | succ bound ih =>
      intro id old
      unfold ancestorsUpTo
      rw [grows.info id old]
      cases parent : (g.info id).parent with
      | none => rfl
      | some above =>
        have older : above < id := sound.older parent
        exact congrArg (id :: ·) (ih above (Nat.lt_trans older old))
  exact same (id + 1) id old

end Grows

end ClassGraph

namespace Eval

/-! ## Evaluation -/

/-- Classes are added whose parents are older. -/
def defining : Discipline where
  start s := s.classes.Sound
  change s t := s.classes.Grows t.classes ∧ t.classes.Sound
  returns := True
  quiet start q := by
    rw [q.classes]
    exact ⟨.refl _, start⟩
  trans first second := ⟨first.1.trans second.1, second.2⟩
  keeps _ change := change.2

theorem defining_about : defining.About (·.classes) where
  unscoped _ _ _ _ _ _ := rfl
  change s t start same := by
    have grown : s.classes.Grows t.classes ∧ t.classes.Sound := by
      rw [same]
      exact ⟨.refl _, start⟩
    exact grown
  returns := trivial
  writes _ _ start _ := ⟨.refl _, start⟩
  defines _ _ _ start named := ⟨.define _ _, start.define named⟩

/-- Whoever looks at the classes finds them in order, at every node. -/
theorem runs_defining {look : Eval Unit}
    (content : ∀ u : Session, u.classes.Orderly → look u = .ok () u) (fuel : Nat) (node : Node) :
    Runs defining (monitored { node := fun _ => look } fuel [] node) (eval fuel node) := by
  apply defining_about.monitored fun _ _ start => ⟨.refl _, start⟩
  · exact fun _ u start => content u start.orderly
  · exact fun _ _ _ _ _ => rfl
  · exact fun _ _ _ _ _ _ => rfl

/-- In a session that starts without classes, after every statement and before every node on the
way, parents lead up to a class without one, and all questions about a class are answered along its
line. A defined class stays as it is, with its line. -/
theorem class_lines_orderly (statements : List Node) (fuel : Nat) (s : Session)
    (fresh : s.classes = {}) :
    (∀ result ∈ outcomes (eval fuel) statements s, (ending result).classes.Orderly) ∧
    (∀ look : Eval Unit, (∀ u : Session, u.classes.Orderly → look u = .ok () u) →
      outcomes (monitored { node := fun _ => look } fuel []) statements s =
        outcomes (eval fuel) statements s) ∧
    (outcomes (eval fuel) statements s).Pairwise fun earlier later =>
      ∀ id, id < (ending earlier).classes.classes.size →
        (ending later).classes.info id = (ending earlier).classes.info id ∧
        (ending later).classes.ancestors id = (ending earlier).classes.ancestors id := by
  have start : s.classes.Sound := by
    rw [fresh]
    exact .empty
  have unnoticed := fun (look : Eval Unit)
      (content : ∀ u : Session, u.classes.Orderly → look u = .ok () u) =>
    outcomes_of_runs (runs_defining content fuel) statements start
  obtain ⟨-, changes⟩ := unnoticed (pure ()) fun _ _ => rfl
  obtain ⟨fromStart, between⟩ := pairwise_cons.1 changes
  have sound : ∀ result ∈ outcomes (eval fuel) statements s, (ending result).classes.Sound :=
    fun result isResult => (fromStart _ (mem_map_of_mem isResult)).2
  refine ⟨fun result isResult => (sound result isResult).orderly, ?_, ?_⟩
  · exact fun look content => (unnoticed look content).1
  · refine (pairwise_map.1 between).imp_of_mem fun {earlier later} isEarlier _ change => ?_
    intro id old
    exact ⟨change.1.info id old, change.1.ancestors (sound earlier isEarlier) old⟩

/-- Three classes: one takes its parent's name, and the last is defined under that name. -/
def handedDown : List Node :=
  [.classDecl { name := "A", methods := [], fieldAccess := [("x", .privateAccess)], friends := ["f"] },
    .classDecl { name := "A", methods := [], parent := some "A" },
    .classDecl { name := "B", methods := [], parent := some "A" }]

/-- The name means the child by then. -/
theorem class_lines_orderly_handedDown :
    (∀ result ∈ outcomes (eval 2) handedDown {}, (ending result).classes.Orderly) ∧
    (outcomes (eval 2) handedDown {}).map (fun result => (ending result).classes.ancestors 2) =
      [[2], [2], [2, 1, 0]] ∧
    (outcomes (eval 2) handedDown {}).map (fun result => (ending result).classes.find "A") =
      [.ok 0, .ok 1, .ok 1] ∧
    (outcomes (eval 2) handedDown {}).map (fun result =>
        let g := (ending result).classes
        (g.fieldAccess 2 "x", g.isFriend 2 "f")) =
      [(.publicAccess, false), (.publicAccess, false), (.privateAccess, true)] :=
  ⟨(class_lines_orderly handedDown 2 {} rfl).1, rfl, rfl, rfl⟩

end Eval

end Hetman
