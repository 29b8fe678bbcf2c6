import Hetman.Proofs.Parser.Block

/-!
# Reading classes

A `Member` is what is written for one entry of a class, and `Member.addTo` what reading it adds; all
the members of a plain class added to an empty one give the class back (`foldl_members`).
-/

namespace Hetman.Parser

open List

variable {decl decl' : ClassDecl Node} {α : Type} {ls : List Lexeme} {b : Bindings α}

section Classes

variable {statement : Parser Node}

theorem friendLexemes_eq {names : List String} (nonempty : names ≠ []) (word : Keyword) :
    Node.friendLexemes word names =
      .mark (.keyword word) :: .mark .colon :: (Node.nameLexemes names ++ [.mark .semicolon]) := by
  cases names with
  | nil => exact absurd rfl nonempty
  | cons name names => rfl

theorem friendNames_reads {t : Token} {names : List String} (word : Keyword)
    (nonempty : names ≠ []) :
    Reads (friendNames t) (Node.friendLexemes word names) names Anything := by
  rw [friendLexemes_eq nonempty]
  refine .checked ?_
  refine .advance ?_
  refine .mark ?_
  refine (nameList_reads nonempty).before (.mark (.pure _ _)) ?_
  exact fun rest begins => notNext_mark (by simp) begins

/-- The members of a class, as they are written. -/
inductive Member where
  | field (name : String) (access : Access)
  | method (name : String) (routine : Routine Node)
  | destructor (body : List Node)
  | friends (names : List String)
  | friendClasses (names : List String)

namespace Member

def lexemes : Member → List Lexeme
  | .field name access => Node.fieldLexemes (name, access)
  | .method name routine =>
    if name = constructorName then Node.constructorLexemes routine
    else Node.accessLexemes routine.access ++ Node.routineLexemes routine
  | .destructor body => Node.destructorLexemes (some body)
  | .friends names => Node.friendLexemes .friend names
  | .friendClasses names => Node.friendLexemes .friendClass names

def addTo (decl : ClassDecl Node) : Member → ClassDecl Node
  | .field name access =>
    { decl with fieldAccess := Bindings.insert decl.fieldAccess name access }
  | .method name routine =>
    if name = constructorName then
      { decl with
        constructor := some routine, methods := Bindings.insert decl.methods name routine }
    else
      { decl with
        methods := Bindings.insert decl.methods name routine,
        methodAccess := Bindings.insert decl.methodAccess name routine.access }
  | .destructor body => { decl with destructor := some body }
  | .friends names => { decl with friends := decl.friends ++ names }
  | .friendClasses names => { decl with friendClasses := decl.friendClasses ++ names }

/-- A member that is read, given the parser for statements. -/
inductive IsReady (statement : Parser Node) : Member → Prop
  | field {name : String} {access : Access} : access.IsPlain → IsReady statement (.field name access)
  | constructor {routine : Routine Node} : routine.name = constructorName → routine.IsPlain →
    routine.access = .publicAccess → IsBlock statement routine.body →
    IsReady statement (.method constructorName routine)
  | method {routine : Routine Node} : routine.name ≠ constructorName → routine.IsPlain →
    routine.access.IsPlain → IsBlock statement routine.body →
    IsReady statement (.method routine.name routine)
  | destructor {body : List Node} : IsBlock statement body → IsReady statement (.destructor body)
  | friends {names : List String} : names ≠ [] → IsReady statement (.friends names)
  | friendClasses {names : List String} : names ≠ [] → IsReady statement (.friendClasses names)

end Member

theorem public_member_reads (l : Lexeme) (noLevel : ∀ t, l.Accepts t → accessOf? t.kind = none)
    (read : Reads (memberOver statement .publicAccess decl) (l :: ls) decl' Anything) :
    Reads (memberRound statement decl) (l :: ls) decl' Anything := by
  refine .peek fun t fits => ?_
  simp only [noLevel t fits]
  exact read

/-- A member behind its level, which public ones do not show. -/
theorem level_member_reads {access : Access} {kind : Kind} (plain : access.IsPlain)
    (noLevel : accessOf? kind = none)
    (read : Reads (memberOver statement access decl) (.mark kind :: ls) decl' Anything) :
    Reads (memberRound statement decl) (Node.accessLexemes access ++ .mark kind :: ls) decl'
      Anything := by
  cases access with
  | publicAccess => exact public_member_reads _ (fun t fits => fits.1 ▸ noLevel) read
  | privateAccess | protectedAccess =>
    refine .peek fun t fits => ?_
    simp only [fits.1]
    refine .checked ?_
    exact .advance read
  | other _ => exact plain.elim

variable {m : Member}

theorem member_reads (decl : ClassDecl Node) (ready : m.IsReady statement) :
    Reads (memberRound statement decl) m.lexemes (m.addTo decl) Anything := by
  cases ready with
  | @field name access plain =>
    refine level_member_reads plain rfl ?_
    refine .peek fun t fits => ?_
    simp only [fits.1, namesDestructor]
    refine .advance ?_
    refine .name ?_
    exact .mark (.pure _ _)
  | @constructor routine name plain level block =>
    obtain ⟨_, parameters, body, parameterTypes, returnType, access⟩ := routine
    cases name
    cases plain.parameterTypes
    cases plain.returnType
    cases level
    refine public_member_reads (.mark _) (fun t fits => by rw [fits.1]; rfl) ?_
    refine .peek fun t fits => ?_
    simp only [fits.1]
    refine .checked ?_
    refine .advance ?_
    refine (parameters_reads parameters).andThen ?_
    exact (braced_reads block).give fun body => { decl with
      constructor := some { name := "Tvir", parameters, body },
      methods := Bindings.insert decl.methods "Tvir" { name := "Tvir", parameters, body } }
  | @method routine name plain level block =>
    have read := routine_reads plain block
    rw [Member.lexemes, if_neg name, Member.addTo, if_neg name]
    rw [Node.routineLexemes] at read ⊢
    refine level_member_reads level rfl ?_
    refine .peek fun t fits => ?_
    simp only [fits.1]
    exact read.give fun routine' => { decl with
      methods := Bindings.insert decl.methods routine'.name routine',
      methodAccess := Bindings.insert decl.methodAccess routine'.name routine.access }
  | @destructor body block =>
    refine public_member_reads (.name _) (fun t fits => by rw [fits.1]; rfl) ?_
    refine .peek fun t fits => ?_
    have named : namesDestructor t = true := by
      simp [namesDestructor, destructorNames, fits.1, Token.hasText_eq fits.2]
    simp only [fits.1, named]
    refine .checked ?_
    refine .advance ?_
    refine .mark ?_
    refine .mark ?_
    exact (braced_reads block).give fun body => { decl with destructor := some body }
  | @friends names nonempty =>
    have read {t : Token} : Reads (friendNames t) _ names Anything :=
      friendNames_reads .friend nonempty
    rw [Member.lexemes]
    rw [friendLexemes_eq nonempty] at read ⊢
    refine public_member_reads (.mark _) (fun t fits => by rw [fits.1]; rfl) ?_
    refine .peek fun t fits => ?_
    simp only [fits.1]
    exact read.give fun names => { decl with friends := decl.friends ++ names }
  | @friendClasses names nonempty =>
    have read {t : Token} : Reads (friendNames t) _ names Anything :=
      friendNames_reads .friendClass nonempty
    rw [Member.lexemes]
    rw [friendLexemes_eq nonempty] at read ⊢
    refine public_member_reads (.mark _) (fun t fits => by rw [fits.1]; rfl) ?_
    refine .peek fun t fits => ?_
    simp only [fits.1]
    exact read.give fun names => { decl with friendClasses := decl.friendClasses ++ names }

theorem member_head (ready : m.IsReady statement) :
    ∃ l ls, m.lexemes = l :: ls ∧ ∀ t, l.Accepts t → t.kind ≠ .rbrace := by
  have marked : ∀ {kind : Kind} {ls : List Lexeme}, m.lexemes = .mark kind :: ls → kind ≠ .rbrace →
      ∃ l ls, m.lexemes = l :: ls ∧ ∀ t, l.Accepts t → t.kind ≠ .rbrace :=
    fun written differs => ⟨_, _, written, fun t fits => fits.1 ▸ differs⟩
  have leveled : ∀ {access : Access} {kind : Kind} {ls : List Lexeme},
      m.lexemes = Node.accessLexemes access ++ .mark kind :: ls → kind ≠ .rbrace →
      ∃ l ls, m.lexemes = l :: ls ∧ ∀ t, l.Accepts t → t.kind ≠ .rbrace := by
    intro access kind ls written differs
    cases access with
    | publicAccess | other _ => exact marked written differs
    | privateAccess | protectedAccess => exact marked written (by simp)
  cases ready with
  | field _ => exact leveled rfl (by simp)
  | constructor _ _ _ _ =>
    exact marked (by rw [Member.lexemes, if_pos rfl, Node.constructorLexemes]) (by simp)
  | method name _ _ _ =>
    exact leveled (by rw [Member.lexemes, if_neg name, Node.routineLexemes]) (by simp)
  | destructor _ =>
    refine ⟨.name "Destructor", _, by rw [Member.lexemes, Node.destructorLexemes], ?_⟩
    intro t fits
    simp [fits.1]
  | friends nonempty => exact marked (friendLexemes_eq nonempty .friend) (by simp)
  | friendClasses nonempty => exact marked (friendLexemes_eq nonempty .friendClass) (by simp)

theorem members_reads {members : List Member} (decl : ClassDecl Node)
    (ready : ∀ m ∈ members, m.IsReady statement) :
    Reads (membersOver statement decl) (members.flatMap Member.lexemes ++ [.mark .rbrace])
      (members.foldl Member.addTo decl) Anything := by
  have begun : Leads Member.lexemes members (Looks (nextIs (·.kind ≠ .rbrace)) true) := by
    intro m member
    obtain ⟨l, ls, written, differs⟩ := member_head (ready m member)
    exact ⟨l, ls, written, fun _ => nextIs_true fun t fits => decide_eq_true (differs t fits)⟩
  refine .until (Reads.loop (fun done => done.foldl Member.addTo decl) rfl rfl (fun _ => begun) ?_ ?_
    (fun m member => ?_) fun _ _ => trivial) (.mark (.pure _ _))
  · rintro _ _ ⟨t, tail, rfl, fits⟩
    refine nextIs_false fun next head => ?_
    cases head
    simp [fits.1]
  · intro done m member
    rw [foldl_concat]
    exact member_reads _ (ready m member)
  · obtain ⟨l, ls, written, _⟩ := begun m member
    exact ⟨l, ls, written, fun _ _ => trivial⟩

end Classes

/-! ## Whole classes -/

theorem insert_of_not_mem {name : String} (h : name ∉ b.names) (value : α) :
    b.insert name value = b ++ [(name, value)] := by
  induction b with
  | nil => rfl
  | cons entry b ih =>
    have split := not_or.mp (mt mem_cons.mpr h)
    rw [Bindings.insert, if_neg (Ne.symm split.1), ih split.2, cons_append]

theorem insertAll_of_nodup {front back : Bindings α} (h : (Bindings.names (front ++ back)).Nodup) :
    front.insertAll back = front ++ back := by
  induction back generalizing front with
  | nil => rw [append_nil]; rfl
  | cons entry back ih =>
    have fresh : entry.1 ∉ front.names := by
      intro member
      rw [Bindings.names, map_append, nodup_append] at h
      exact h.2.2 _ member _ (mem_cons_self ..) rfl
    have step : front.insertAll (entry :: back) =
        Bindings.insertAll (front.insert entry.1 entry.2) back := rfl
    rw [step, insert_of_not_mem fresh, ih (by simpa using h), append_assoc]
    rfl

theorem foldl_fields (fields : List (String × Access)) (decl : ClassDecl Node) :
    (fields.map fun f => Member.field f.1 f.2).foldl Member.addTo decl =
      { decl with fieldAccess := Bindings.insertAll decl.fieldAccess fields } := by
  induction fields generalizing decl with
  | nil => rfl
  | cons field fields ih => rw [map_cons, foldl_cons, ih]; rfl

/-- The levels of methods; constructors have none. -/
def methodLevels (methods : List (String × Routine Node)) : List (String × Access) :=
  (methods.filter fun m => m.1 ≠ constructorName).map fun m => (m.1, m.2.access)

theorem foldl_methods (methods : List (String × Routine Node)) (decl : ClassDecl Node)
    (nodup : (Bindings.names methods).Nodup) :
    (methods.map fun m => Member.method m.1 m.2).foldl Member.addTo decl =
      { decl with
        methods := Bindings.insertAll decl.methods methods
        methodAccess := Bindings.insertAll decl.methodAccess (methodLevels methods)
        constructor := (Bindings.get? methods constructorName).or decl.constructor } := by
  induction methods generalizing decl with
  | nil => rfl
  | cons method methods ih =>
    obtain ⟨name, routine⟩ := method
    obtain ⟨fresh, nodup⟩ := nodup_cons.mp nodup
    rw [map_cons, foldl_cons, ih _ nodup]
    by_cases own : name = constructorName
    · subst own
      rw [Bindings.get?_eq_none_iff.2 fresh]
      simp [Member.addTo, Bindings.get?, methodLevels, Bindings.insertAll]
    · simp [Member.addTo, Bindings.get?, methodLevels, Bindings.insertAll, own]

/-- Friends as a member, if there are any. -/
def listed (build : List String → Member) : List String → List Member
  | [] => []
  | names => [build names]

theorem mem_listed {build : List String → Member} {names : List String} {m : Member} :
    m ∈ listed build names ↔ names ≠ [] ∧ m = build names := by
  cases names <;> simp [listed]

/-- The members of a class in the order of writing. -/
def membersOf (decl : ClassDecl Node) : List Member :=
  (decl.fieldAccess.map fun f => .field f.1 f.2) ++
    ((decl.methods.map fun m => .method m.1 m.2) ++
      (decl.destructor.toList.map .destructor ++
        (listed .friends decl.friends ++ listed .friendClasses decl.friendClasses)))

theorem foldl_friends (names : List String) (decl : ClassDecl Node) :
    (listed .friends names).foldl Member.addTo decl =
      { decl with friends := decl.friends ++ names } := by
  cases names <;> simp [listed, Member.addTo]

theorem foldl_friendClasses (names : List String) (decl : ClassDecl Node) :
    (listed .friendClasses names).foldl Member.addTo decl =
      { decl with friendClasses := decl.friendClasses ++ names } := by
  cases names <;> simp [listed, Member.addTo]

theorem foldl_members (plain : decl.IsPlain) :
    (membersOf decl).foldl Member.addTo { name := decl.name, methods := [], parent := decl.parent } =
      decl := by
  obtain ⟨name, methods, constructor, destructor, parent, fieldAccess, methodAccess, friends,
    friendClasses⟩ := decl
  have fields : Bindings.insertAll [] fieldAccess = fieldAccess :=
    insertAll_of_nodup plain.fieldNames
  have bodies : Bindings.insertAll [] methods = methods := insertAll_of_nodup plain.methodNames
  have levels : Bindings.insertAll [] (methodLevels methods) = methodAccess := by
    rw [show methodAccess = methodLevels methods from plain.methodAccess]
    refine insertAll_of_nodup (plain.methodNames.sublist ?_)
    rw [methodLevels, nil_append, Bindings.names, map_map]
    exact List.Sublist.map Prod.fst filter_sublist
  have creator : (Bindings.get? methods constructorName).or none = constructor := by
    rw [Option.or_none]
    exact plain.constructor.symm
  rw [membersOf, foldl_append, foldl_append, foldl_append, foldl_append,
    foldl_fields, foldl_methods _ _ plain.methodNames, foldl_friends, foldl_friendClasses]
  cases destructor <;>
    simp only [fields, bodies, levels, creator, Option.toList_none, Option.toList_some,
      map_nil, map_cons, foldl_nil, foldl_cons, Member.addTo, nil_append]

theorem flatMap_members (decl : ClassDecl Node) :
    Node.classLexemes decl = .mark (.keyword .classDef) :: .name decl.name ::
      (Node.parentLexemes decl.parent ++
        Lexeme.inBraces ((membersOf decl).flatMap Member.lexemes)) := by
  have methods : ∀ methods : List (String × Routine Node), Node.methodLexemes methods =
      (methods.map fun m => Member.method m.1 m.2).flatMap Member.lexemes := by
    intro methods
    induction methods with
    | nil => rw [Node.methodLexemes]; rfl
    | cons method methods ih =>
      rw [Node.methodLexemes, ih, map_cons, flatMap_cons, Member.lexemes]
  have fields : ∀ fields : List (String × Access), fields.flatMap Node.fieldLexemes =
      (fields.map fun f => Member.field f.1 f.2).flatMap Member.lexemes := by
    intro fields
    rw [flatMap_map]
    rfl
  obtain ⟨name, bodies, constructor, destructor, parent, fieldAccess, methodAccess, friends,
    friendClasses⟩ := decl
  rw [Node.classLexemes, methods, fields, membersOf]
  cases destructor <;> cases friends <;> cases friendClasses <;>
    simp [listed, Member.lexemes, Node.destructorLexemes, Node.friendLexemes]

theorem length_lt_classLexemes {m : Member} (h : m ∈ membersOf decl) :
    m.lexemes.length < (Node.classLexemes decl).length := by
  have := length_le_flatMap (f := Member.lexemes) h
  simp only [flatMap_members, length_cons, length_append, length_inBraces]
  omega

theorem length_lt_method {method : String × Routine Node} (h : method ∈ decl.methods) :
    (Node.blockLexemes method.2.body).length < (Node.classLexemes decl).length := by
  have member : Member.method method.1 method.2 ∈ membersOf decl := by
    simp only [membersOf, mem_append, mem_map]
    exact .inr (.inl ⟨method, h, rfl⟩)
  refine Nat.lt_trans ?_ (length_lt_classLexemes member)
  obtain ⟨name, _, parameters, body, _, _, access⟩ := method
  rw [Member.lexemes]
  split
  · rw [Node.constructorLexemes]
    simp only [length_cons, length_append, length_inBraces]
    omega
  · rw [Node.routineLexemes]
    simp only [length_cons, length_append, length_inBraces]
    omega

theorem length_lt_destructor {body : List Node} (h : body ∈ decl.destructor) :
    (Node.blockLexemes body).length < (Node.classLexemes decl).length := by
  have member : Member.destructor body ∈ membersOf decl := by
    simp only [membersOf, mem_append, mem_map]
    exact .inr (.inr (.inl ⟨body, Option.mem_toList.mpr h, rfl⟩))
  refine Nat.lt_trans ?_ (length_lt_classLexemes member)
  rw [Member.lexemes, Node.destructorLexemes]
  simp only [length_cons, length_append, length_inBraces]
  omega

/-- The blocks inside a class are read. -/
structure HasBlocks (statement : Parser Node) (decl : ClassDecl Node) : Prop where
  methods : ∀ m ∈ decl.methods, IsBlock statement m.2.body
  destructor : ∀ body ∈ decl.destructor, IsBlock statement body

theorem members_ready {statement : Parser Node} (plain : decl.IsPlain)
    (blocks : HasBlocks statement decl) : ∀ m ∈ membersOf decl, m.IsReady statement := by
  intro m member
  simp only [membersOf, mem_append, mem_map] at member
  rcases member with ⟨field, member, rfl⟩ | ⟨method, member, rfl⟩ | ⟨body, member, rfl⟩ |
    member | member
  · exact .field (plain.fields field member).2
  · obtain ⟨name, isPlain⟩ := plain.methods method member
    have block := blocks.methods method member
    by_cases own : method.1 = constructorName
    · have level := plain.constructorLevel method member own
      rw [own] at name ⊢
      exact .constructor name isPlain level block
    · have level := (plain.methodLevels method member own).2
      rw [← name] at own ⊢
      exact .method own isPlain level block
  · exact .destructor (blocks.destructor body (Option.mem_toList.mp member))
  · obtain ⟨nonempty, rfl⟩ := mem_listed.1 member
    exact .friends nonempty
  · obtain ⟨nonempty, rfl⟩ := mem_listed.1 member
    exact .friendClasses nonempty

theorem class_reads {statement : Parser Node} (plain : decl.IsPlain)
    (blocks : HasBlocks statement decl) :
    Reads (classOver statement) (Node.classDecl decl).statementLexemes (.classDecl decl)
      Anything := by
  have members := members_reads { name := decl.name, methods := [], parent := decl.parent }
    (members_ready plain blocks)
  rw [foldl_members plain] at members
  rw [Node.statementLexemes, flatMap_members]
  refine .mark ?_
  refine .expect (fun t fits => fits.1) fun t fits => ?_
  simp only [Token.display, fits.2]
  cases parent : decl.parent with
  | none =>
    rw [parent] at members
    refine .lookAt (a := false) (fun rest begins => ?_) ?_
    · exact nextHas_false (notNext_mark (by simp) begins)
    · refine .mark ?_
      exact members.give Node.classDecl
  | some name =>
    rw [parent] at members
    refine .lookAt (a := true) (fun rest begins => nextHas_mark begins) ?_
    refine .advance ?_
    refine .expect (fun t fits => fits.1) fun t fits => ?_
    simp only [fits.2]
    refine .mark ?_
    exact members.give Node.classDecl

end Hetman.Parser
