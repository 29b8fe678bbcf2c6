import Hetman.Proofs.Parser.Insertion

/-!
# Empty statements

A statement begins by skipping semicolons and closing braces. So a semicolon put after another one
changes nothing (`parse_insert_semicolon`), as long as the next thing is a statement or the end of
the program. Before the closing brace of a block, the brace is skipped too, and the block goes on
(`insert_semicolon_before_brace`).

Every production is taken through both texts by the rules for `Weaves`. The place of insertion can
be met between two statements of a block.
-/

namespace Hetman.Parser

open List

variable {back : List Token} {extra : Token} {start : State → Prop}

variable {front : List Token} {s' : State} {n m : Nat} {before nodes : List Node}

/-! ## Expressions and names -/

theorem weaves_orExpression : Threads back extra start orExpression orExpression := by
  refine .calm (fun _ _ _ _ _ _ => Pairing.agree_orExpression.ofNode) (takes_orExpression.mono ?_)
  rintro used node ⟨_, shown, _⟩
  exact shown.unended

theorem weaves_factor : Threads back extra start factor factor := by
  have taking : Takes start factor Shown :=
    fun s a t => takes_factorAt _ s a t
  refine .calm (fun _ _ _ _ _ _ => Pairing.agree_factor.ofNode) (taking.mono ?_)
  rintro used node ⟨_, shown, _⟩
  exact shown.unended

theorem weaves_elements (close : Kind) :
    Threads back extra start (withFactors fun factor => elementsOver factor close)
      (withFactors fun factor => elementsOver factor close) := by
  have taking : Takes start (withFactors fun factor => elementsOver factor close) ShownList :=
    fun s a t => takes_elementsOver (takes_factorAt _) close s a t
  have blind : Blind (withFactors fun factor => elementsOver factor close)
      (withFactors fun factor => elementsOver factor close) := fun _ _ _ _ _ _ =>
    (Pairing.agree_withFactors fun _ _ h => Pairing.agree_elementsOver h close).ofNodes
  refine .calm blind (taking.mono ?_)
  rintro used nodes ⟨_, shown⟩
  exact shown.unended

theorem calm_nextName (names : List String) (t : Token)
    (isComma : decide (t.kind = .comma) = true) :
    Takes (At t)
      (do
        advance
        let name ← expectName
        return names ++ [name])
      fun used _ => ∀ front : List Token, (∀ t ∈ front, t.kind ≠ .semicolon) →
        ∀ t ∈ front ++ used, t.kind ≠ .semicolon := by
  refine Takes.advance.bind fun _ => (Takes.expectText .ident).bind fun name => .pure ?_
  rintro _ ⟨u, isName, rfl⟩ _ rfl front unended
  refine forall_mem_append.mpr ⟨unended, forall_mem_cons.mpr ⟨?_, ?_⟩⟩
  · rw [of_decide_eq_true isComma]
    exact nofun
  · refine forall_mem_singleton.mpr ?_
    rw [isName]
    exact nofun

theorem calm_nameList : Calm start nameList := by
  refine (Takes.expectText .ident).bind fun first => (Takes.loop
    (P := fun used _ => ∀ t ∈ used, t.kind ≠ .semicolon) (fun _ => asks_nextIs _)
    calm_nextName [first]).mono ?_
  rintro later names kept _ ⟨t, isName, rfl⟩
  refine kept [t] (forall_mem_singleton.mpr ?_)
  rw [isName]
  exact nofun

theorem weaves_nameList : Threads back extra start nameList nameList :=
  .calm (fun _ _ _ _ _ _ => Pairing.agree_nameList) calm_nameList

theorem weaves_parameters : Threads back extra start parameters parameters := by
  refine .mark nofun <| Weaves.nextKind.bind fun kind =>
    .ite (fun _ => .mark (by decide) <| .pure _) fun _ => ?_
  refine Weaves.expectName.bind fun first =>
    .bind (.loop (fun _ => asks_nextKind _) (fun _ _ _ _ _ _ _ => ?_) (fun names t isComma => ?_) _)
    fun names => .mark (by decide) <| .pure _
  · exact Pairing.agree_nextKind.andThen fun kind => .pure rfl
  · exact (Weaves.advanceKind isComma nofun).bind fun _ =>
      Weaves.expectName.bind fun name => .pure _

/-! ## Lines that reserve their semicolon -/

/-- The head of a loop with a counter, up to its first semicolon. -/
def forStart : Parser (Option (String × Node)) := do
  demand (.keyword .forLoop)
  demand .lparen
  let name ← expectName
  if name.isEmpty then return none
  else
    let op ← expect .op
    if (op.map (·.hasText ":=")).getD false then
      let init ← orExpression
      return some (name, init)
    else
      complain op .forStart
      return none

/-- What comes after it. -/
def forRest (statement step : Parser Node) : Option (String × Node) → Parser Node
  | none => return .missing
  | some (name, init) => do
    demand .semicolon
    let condition ← orExpression
    demand .semicolon
    let advanceNode ← step
    demand .rparen
    let body ← bracedOver statement
    return .forLoop (.assign name init none) condition advanceNode body

theorem forOver_eq (statement step : Parser Node) :
    forOver statement step = forStart >>= forRest statement step := by
  unfold forOver forStart
  simp only [bind_assoc]
  refine bind_congr fun _ => bind_congr fun _ => bind_congr fun name => ?_
  by_cases unnamed : name.isEmpty = true
  · simp only [if_pos unnamed]
    rfl
  · simp only [if_neg unnamed, bind_assoc]
    refine bind_congr fun op => ?_
    by_cases assigns : (op.map (·.hasText ":=")).getD false = true
    · simp only [if_pos assigns, bind_assoc]
      rfl
    · simp only [if_neg assigns, bind_assoc]
      rfl

/-- `For (` reserves the semicolon. -/
theorem reservedLine_for {first second : Token} {later : List Token}
    (isFor : first.kind = .keyword .forLoop) (opens : second.kind = .lparen)
    (unended : ∀ t ∈ later, t.kind ≠ .semicolon) : ReservedLine (first :: second :: later) := by
  refine ⟨?_, ?_⟩
  · refine forall_mem_cons.mpr ⟨by simp [isFor], forall_mem_cons.mpr ⟨?_, unended⟩⟩
    simp [opens]
  · simp [reserves, isFor, opens]

theorem reserves_forStart : Takes start forStart fun used _ => ReservedLine used := by
  have named : ∀ {t : Token}, t.kind = .ident → ∀ u ∈ [t], u.kind ≠ .semicolon := by
    intro t isName
    exact forall_mem_singleton.mpr (by simp [isName])
  refine (Takes.demand _).bind fun _ => (Takes.demand .lparen).bind fun _ =>
    (Takes.expectText .ident).bind fun name => .ite (fun _ => .pure ?_) fun _ => ?_
  · rintro _ ⟨t, isName, rfl⟩ _ ⟨u, opens, rfl⟩ _ ⟨v, isFor, rfl⟩
    exact reservedLine_for isFor opens (named isName)
  refine (Takes.expect .op).bind fun op => .ite (fun _ => ?_) fun _ => .complains (.pure trivial)
  refine takes_orExpression.bind fun init => .pure ?_
  rintro used ⟨_, shown, _⟩ _ ⟨o, isOp, rfl, _⟩ _ ⟨t, isName, rfl⟩ _ ⟨u, opens, rfl⟩
    _ ⟨v, isFor, rfl⟩
  refine reservedLine_for isFor opens (forall_mem_cons.mpr ⟨by simp [isName], ?_⟩)
  refine forall_mem_cons.mpr ⟨by simp [isOp], ?_⟩
  rw [append_nil]
  exact shown.unended

theorem weaves_forStart : Weaves back extra Ended Long start forStart forStart := by
  refine .reserving ?_ reserves_forStart
  refine .word <| .mark nofun <|
    Weaves.expectName.bind fun name => .ite (fun _ => .pure _) fun _ => ?_
  refine (Weaves.expect .op nofun).bind fun op => .ite (fun _ => ?_) fun _ => ?_
  · exact weaves_orExpression.bind fun init => .pure _
  · exact .complains fun _ => .pure _

/-- `: name, name` after a friend keyword. -/
theorem weaves_friendLine (t : Token)
    (is : t.kind = .keyword .friend ∨ t.kind = .keyword .friendClass) :
    Weaves back extra Ended Long (At t) (do advance; demand .colon; nameList)
      (do advance; demand .colon; nameList) := by
  have other : t.kind ≠ .semicolon := by rcases is with kind | kind <;> simp [kind]
  refine .reserving ((Weaves.advance other).bind fun _ => .mark nofun weaves_nameList) ?_
  refine Takes.advance.bind fun _ => (Takes.demand .colon).bind fun _ => calm_nameList.mono ?_
  rintro names _ unended _ ⟨u, isColon, rfl⟩ _ rfl
  refine ⟨forall_mem_cons.mpr ⟨other, forall_mem_cons.mpr ⟨?_, unended⟩⟩, ?_⟩
  · simp [isColon]
  · rcases is with kind | kind <;> simp [reserves, kind]

theorem weaves_friendNames (t : Token)
    (is : t.kind = .keyword .friend ∨ t.kind = .keyword .friendClass) :
    Threads back extra (At t) (friendNames t) (friendNames t) := by
  have whole : Threads back extra (At t) _ _ :=
    (weaves_friendLine t is).bind fun names => Weaves.reservedSemicolon.bind fun _ => .pure names
  simp only [bind_assoc] at whole
  exact .checked whole

theorem ne_semicolon_of_isTypeKind {t : Token} (isType : isTypeKind t.kind = true) :
    t.kind ≠ .semicolon := by
  intro same
  rw [same] at isType
  cases isType

/-- A field's type and name. -/
theorem weaves_fieldLine (t : Token) (isType : isTypeKind t.kind = true) :
    Weaves back extra Ended Long (At t) (do advance; expectName) (do advance; expectName) := by
  have other := ne_semicolon_of_isTypeKind isType
  refine .reserving ((Weaves.advance other).bind fun _ => Weaves.expectName) ?_
  refine Takes.advance.bind fun _ => (Takes.expectText .ident).mono ?_
  rintro _ _ ⟨u, isName, rfl⟩ _ rfl
  refine ⟨forall_mem_cons.mpr ⟨other, forall_mem_singleton.mpr (by simp [isName])⟩, ?_⟩
  cases kind : t.kind with
  | keyword k =>
    rw [kind] at isType
    cases k <;> first | simp [reserves, kind, isName, isTypeKind]; done | cases isType
  | _ =>
    rw [kind] at isType
    cases isType

/-! ## Blocks -/

/-- The statements of a block, after some. -/
def blockFrom (statement : Parser Node) (fuel : Nat) (body : List Node) : Parser (List Node) := do
  let body ← repeatWhile (fun _ => nextIs fun t => t.kind ≠ .rbrace)
    (fun body => do
      let node ← statement
      return if isPresent node then body ++ [node] else body)
    fuel body
  demand .rbrace
  return body

section BlockFrom

variable {statement : Parser Node} {fuel : Nat} {body : List Node} {s : State} {t : Token}

theorem blockFrom_more (here : s.token? = some t) (other : t.kind ≠ .rbrace) :
    blockFrom statement (fuel + 1) body s =
      (statement >>= fun node => blockFrom statement fuel (body ++ present node)) s := by
  have goes : nextIs (fun t => t.kind ≠ .rbrace) s = .ok true s := by
    rw [nextIs_apply, ← State.token?_eq, here]
    simp [other]
  have next : ∀ node, (pure (if isPresent node then body ++ [node] else body) >>= fun body =>
      blockFrom statement fuel body) = blockFrom statement fuel (body ++ present node) := by
    intro node
    rw [pure_bind, append_present]
  simp only [← next]
  unfold blockFrom
  nth_rewrite 1 [repeatWhile]
  rw [bind_assoc, bind_apply goes]
  simp only [if_true, bind_assoc]

theorem blockFrom_end (ends : ∀ t, s.token? = some t → t.kind = .rbrace) :
    blockFrom statement (fuel + 1) body s = (do demand .rbrace; return body) s := by
  have stops : nextIs (fun t => t.kind ≠ .rbrace) s = .ok false s := by
    rw [nextIs_apply, ← State.token?_eq]
    cases here : s.token? with
    | none => rfl
    | some t => simp [ends t here]
  unfold blockFrom repeatWhile
  rw [bind_assoc, bind_apply stops]
  rfl

end BlockFrom

section Statements

variable {statement statement' : Parser Node} (isExtra : extra.kind = .semicolon)
  (h : Weaves back extra Loose Loose Anywhere statement statement')

include h isExtra

/-- The induction is on the rounds. At the place of insertion the block goes on in both texts,
unless its brace is there. -/
theorem weaves_blockFrom (le : n ≤ m) (body : List Node) :
    Weaves back extra Loose Ended Anywhere (blockFrom statement n body)
      (blockFrom statement' m body) := by
  have closing : ∀ {body : List Node}, Weaves back extra Loose Ended Anywhere
      (do demand .rbrace; return body) (do demand .rbrace; return body) :=
    (Weaves.close (.inl rfl)).bind fun _ => .pure _
  have late : ∀ {n m : Nat} (body : List Node), n ≤ m → Pairing.together.Agree id
      (blockFrom statement n body) (blockFrom statement' m body) := by
    intro n m body le
    refine .andThen (.repeatWhile (fun _ _ _ => (blind_nextIs _).late) (fun body body' same => ?_)
      ⟨le, False.elim⟩ rfl) fun _ => closing.late
    cases same
    exact h.late.andThen fun _ => .pure rfl
  induction n generalizing m body with
  | zero => exact ⟨late body le, fun _ _ _ result => nomatch result⟩
  | succ n ih =>
    obtain ⟨m, rfl⟩ : ∃ k, m = k + 1 := ⟨m - 1, by omega⟩
    have going := h.bind fun node => ih (Nat.le_of_succ_le_succ le) (body ++ present node)
    refine ⟨late body le, ?_⟩
    intro front s s' a t beside loose _ result same
    by_cases ends : ∀ w, s.token? = some w → w.kind = .rbrace
    · rw [blockFrom_end ends] at result
      rcases loose with rfl | ended
      -- With the semicolon before it, the brace would not end the block.
      · obtain ⟨_, u, closed, stay⟩ := bind_eq_ok result
        cases stay
        obtain ⟨shut, short⟩ := Weaves.shut_of_close (.inl rfl) beside closed same
        exact .lost shut short
      · have ends' : ∀ w, s'.token? = some w → w.kind = .rbrace := by
          rwa [beside.head? ended.ne_nil]
        exact (closing.weaves beside (.inr ended) trivial result same).moved
          (blockFrom_end ends') rfl
    · obtain ⟨w, here, other⟩ : ∃ w, s.token? = some w ∧ w.kind ≠ .rbrace := by
        simpa using ends
      rw [blockFrom_more here other] at result
      -- The inserted semicolon is no brace either.
      have next : ∃ w', s'.token? = some w' ∧ w'.kind ≠ .rbrace := by
        rcases loose with rfl | ended
        · refine ⟨extra, ?_, by simp [isExtra]⟩
          rw [State.token?_eq, beside.rest']
          rfl
        · exact ⟨w, (beside.head? ended.ne_nil).trans here, other⟩
      obtain ⟨w', here', other'⟩ := next
      exact (going.weaves beside loose trivial result same).moved (blockFrom_more here' other') rfl

theorem weaves_blockOver :
    Threads back extra start (blockOver statement) (blockOver statement') := by
  have block : ∀ {n m : Nat}, n ≤ m → Threads back extra start
      (blockFrom statement (n + 1) []) (blockFrom statement' (m + 1) []) := fun le =>
    (weaves_blockFrom isExtra h (Nat.succ_le_succ le) []).anywhere.mono (fun _ => .inr)
      fun _ => id
  exact Weaves.given block

theorem weaves_bracedOver :
    Threads back extra start (bracedOver statement) (bracedOver statement') :=
  .mark nofun <| weaves_blockOver isExtra h

theorem weaves_branchOver :
    Threads back extra start (branchOver statement) (branchOver statement') := by
  refine .mark nofun <| weaves_orExpression.bind fun condition => ?_
  exact .mark nofun <| (weaves_bracedOver isExtra h).bind fun body => .pure _

theorem weaves_lastBlock (k : Keyword) {f : Option (List Node) → Parser Node}
    (then_ : ∀ final, Threads back extra Anywhere (f final) (f final)) :
    Threads back extra start
      (do
        let final ← if ← nextHas (.keyword k) then do
            advance
            pure (some (← bracedOver statement))
          else pure none
        f final)
      (do
        let final ← if ← nextHas (.keyword k) then do
            advance
            pure (some (← bracedOver statement'))
          else pure none
        f final) := by
  refine .ifNext (fun t is => ?_) (then_ none)
  exact .bind (.advanceKind is nofun) fun _ =>
    (weaves_bracedOver isExtra h).bind fun body => then_ (some body)

/-! ## Compound statements -/

theorem weaves_ifOver :
    Threads back extra start (ifOver statement) (ifOver statement') := by
  refine .word <| (weaves_branchOver isExtra h).bind fun branch => ?_
  refine .bind (.loopNext (fun branches t is => ?_) _) fun elseIfs => ?_
  · exact (Weaves.advanceKind is nofun).bind fun _ =>
      (weaves_branchOver isExtra h).bind fun branch => .pure _
  · exact weaves_lastBlock isExtra h _ fun final => .pure _

theorem weaves_whileOver :
    Threads back extra start (whileOver statement) (whileOver statement') :=
  .word <| (weaves_branchOver isExtra h).bind fun _ => .pure _

theorem weaves_forEachOver :
    Threads back extra start (forEachOver statement) (forEachOver statement') := by
  refine .word <| Weaves.expectName.bind fun name => .word ?_
  exact weaves_orExpression.bind fun array => (weaves_bracedOver isExtra h).bind fun body => .pure _

theorem weaves_routineOver (access : Access) :
    Threads back extra start (routineOver statement access)
      (routineOver statement' access) := by
  refine .word <| Weaves.expectName.bind fun name => weaves_parameters.bind fun names => ?_
  exact (weaves_bracedOver isExtra h).bind fun body => .pure _

theorem weaves_catchRest (catches : List (Option String × List Node)) (name : Option String) :
    Threads back extra start (catchRest statement catches name)
      (catchRest statement' catches name) :=
  .mark nofun <| (weaves_bracedOver isExtra h).bind fun _ => .pure _

theorem weaves_tryOver :
    Threads back extra start (tryOver statement) (tryOver statement') := by
  refine .word <| (weaves_bracedOver isExtra h).bind fun body => ?_
  refine .bind (.loopNext (fun catches t is => ?_) _) fun catches => ?_
  · refine (Weaves.advanceKind is nofun).bind fun _ => .mark nofun ?_
    refine .ifNext (fun u _ => ?_) (weaves_catchRest isExtra h _ _)
    exact Weaves.expectName.bind fun name => weaves_catchRest isExtra h _ _
  · exact weaves_lastBlock isExtra h _ fun final => .pure _

/-- The step may begin at the place of insertion, but not end there. -/
theorem weaves_forOver {step step' : Parser Node}
    (hstep : Weaves back extra Loose Loose Anywhere step step') :
    Threads back extra start (forOver statement step) (forOver statement' step') := by
  rw [forOver_eq, forOver_eq]
  refine weaves_forStart.bind fun begun => ?_
  rcases begun with _ | ⟨name, init⟩
  · exact (Weaves.pure _).mono (fun _ => id) fun _ => And.left
  refine Weaves.reservedSemicolon.bind fun _ => weaves_orExpression.bind fun condition => ?_
  refine Weaves.semicolon.bind fun _ => hstep.bind fun change => ?_
  exact (Weaves.close (.inr rfl)).bind fun _ =>
    (weaves_bracedOver isExtra h).bind fun body => .pure _

/-! ## Classes -/

theorem weaves_otherMember (access : Access) (decl : ClassDecl Node) (t : Token) :
    Threads back extra (At t) (otherMember statement access decl t t.kind)
      (otherMember statement' access decl t t.kind) := by
  refine .ite (fun names => ?_) fun _ => .ite (fun isType => ?_) fun _ => ?_
  · have isName : t.kind = .ident := by
      simp only [namesDestructor, Bool.and_eq_true, decide_eq_true_eq] at names
      exact names.1
    refine .checked ((Weaves.advance (by simp [isName])).bind fun _ =>
      .mark (by decide) <| .mark (by decide) ?_)
    exact (weaves_bracedOver isExtra h).bind fun body => .pure _
  · have whole : Threads back extra (At t) _ _ :=
      (weaves_fieldLine t isType).bind fun name => Weaves.reservedSemicolon.bind fun _ =>
        .pure { decl with fieldAccess := Bindings.insert decl.fieldAccess name access }
    exact whole
  · have rest : ∀ a : Unit, Steady (do advance; return decl) := fun _ =>
      Steady.advance.bind fun _ => .pure _
    exact .objects ((objects_report _ _).bind rest) (.bind (fun s => .note s _ _) rest)

theorem weaves_memberOver (access : Access) (decl : ClassDecl Node) :
    Threads back extra start (memberOver statement access decl)
      (memberOver statement' access decl) := by
  refine .peekSome rfl fun t => ?_
  have others := weaves_otherMember isExtra h access decl t
  obtain ⟨kind, payload, line, column⟩ := t
  cases kind with
  | keyword k =>
    cases k with
    | friend => exact (weaves_friendNames _ (.inl rfl)).bind fun names => .pure _
    | friendClass => exact (weaves_friendNames _ (.inr rfl)).bind fun names => .pure _
    | constructor =>
      refine .checked ((Weaves.advance (by simp)).bind fun _ =>
        weaves_parameters.bind fun names => ?_)
      exact (weaves_bracedOver isExtra h).bind fun body => .pure _
    | function => exact (weaves_routineOver isExtra h access).bind fun routine => .pure _
    | _ => exact others
  | _ => exact others

theorem weaves_memberRound (decl : ClassDecl Node) :
    Threads back extra start (memberRound statement decl)
      (memberRound statement' decl) := by
  refine .peekSome rfl fun t => ?_
  cases found : accessOf? t.kind with
  | none =>
    simp only [found]
    exact weaves_memberOver isExtra h _ decl
  | some access =>
    simp only [found]
    have other : t.kind ≠ .semicolon := by
      intro same
      rw [same] at found
      cases found
    exact .checked ((Weaves.advance other).bind fun _ => weaves_memberOver isExtra h access decl)

theorem weaves_membersOver (decl : ClassDecl Node) :
    Threads back extra start (membersOver statement decl)
      (membersOver statement' decl) := by
  refine .bind (.loopNext (fun decl t _ => weaves_memberRound isExtra h decl) _) fun decl => ?_
  exact .mark nofun <| .pure _

theorem weaves_classBody (decl : ClassDecl Node) :
    Threads back extra start (classBody statement decl) (classBody statement' decl) :=
  .mark nofun <| (weaves_membersOver isExtra h decl).bind fun _ => .pure _

theorem weaves_classOver :
    Threads back extra start (classOver statement) (classOver statement') := by
  refine .word <| (Weaves.expect .ident nofun).bind fun name => ?_
  cases name with
  | none => exact .pure _
  | some name =>
    refine .ifNext (fun u isColon => ?_) (weaves_classBody isExtra h _)
    refine (Weaves.advanceKind isColon nofun).bind fun _ =>
      (Weaves.expect .ident nofun).bind fun parent => ?_
    cases parent with
    | none => exact .pure _
    | some parent => exact weaves_classBody isExtra h _

end Statements

/-! ## Simple statements -/

theorem weaves_printStatement :
    Threads back extra start printStatement printStatement := by
  refine .word <| .mark nofun ?_
  exact (weaves_elements _).bind fun arguments => .mark nofun <| .pure _

theorem weaves_returnStatement :
    Weaves back extra Ended Loose start returnStatement returnStatement := by
  refine .word <| weaves_orExpression.bind fun value => ?_
  exact Weaves.semicolon.bind fun _ => .pure _

theorem weaves_wordStatement (k : Keyword) (build : Node → Node) :
    Weaves back extra Ended Loose start (wordStatement k build) (wordStatement k build) :=
  .word <| .mark nofun <| weaves_orExpression.bind fun _ => .mark nofun <|
    Weaves.semicolon.bind fun _ => .pure _

theorem weaves_exitStatement :
    Weaves back extra Ended Loose start exitStatement exitStatement := by
  refine .word <| .ifNext (fun t _ => ?_) (Weaves.semicolon.bind fun _ => .pure _)
  refine .mark nofun <| weaves_orExpression.bind fun code => .mark nofun ?_
  exact Weaves.semicolon.bind fun _ => .pure _

theorem weaves_typedDeclaration (t : Token) (isType : isTypeKind t.kind = true) :
    Threads back extra (At t) (typedDeclaration t) (typedDeclaration t) := by
  have other := ne_semicolon_of_isTypeKind isType
  refine .checked ((Weaves.advance other).bind fun _ => Weaves.expectName.bind fun name => ?_)
  exact .mark nofun <| weaves_orExpression.bind fun value => .pure _

theorem weaves_assignment (target : Node) :
    Threads back extra start (assignment target) (assignment target) := by
  refine (Weaves.expect .op nofun).bind fun op => ?_
  cases op with
  | none => exact .pure _
  | some op =>
    refine .ite (fun _ => ?_) fun _ => .failNode _ _
    exact weaves_orExpression.bind fun value => .pure _

theorem weaves_finish (closed : Bool) (node : Option Node) :
    Weaves back extra Ended Loose start (finish closed node)
      (finish closed node) := by
  cases node with
  | none => exact (Weaves.pure _).loosen
  | some node =>
    cases closed with
    | true => exact Weaves.semicolon.bind fun _ => .pure _
    | false => exact (Weaves.pure _).loosen

theorem weaves_bareCall (t : Token) (target : Node) :
    Threads back extra start (referenceStatement.bareCall t target)
      (referenceStatement.bareCall t target) := by
  cases target with
  | call name arguments => exact .pure _
  | _ => exact .complains fun _ => .pure _

theorem weaves_referenceStatement (t : Token) :
    Threads back extra start (referenceStatement t) (referenceStatement t) := by
  have other : ∀ {ops : List String} {op : Token}, isOpAmong ops op = true →
      op.kind ≠ .semicolon := by
    intro ops op among
    simp only [isOpAmong, Bool.and_eq_true, decide_eq_true_eq] at among
    simp [among.1]
  have bare : ∀ target, Threads back extra Anywhere
      (referenceStatement.bareCall t target) (referenceStatement.bareCall t target) :=
    weaves_bareCall t
  refine weaves_factor.bind fun target => .peek (bare target).late fun op => ?_
  refine .ite (fun _ => ?_) fun _ => .ite (fun compound => ?_) fun _ => .ite (fun steps => ?_) ?_
  · exact (weaves_assignment target).bind fun node => .pure _
  · refine (Weaves.advance (other compound)).bind fun _ => ?_
    exact weaves_orExpression.bind fun right => .pure _
  · cases target with
    | var name => exact (Weaves.advance (other steps)).bind fun _ => .pure _
    | _ => exact .complains fun _ => .pure _
  · exact fun _ => (bare target).anywhere

theorem weaves_superStatement (t : Token) :
    Threads back extra (At t) (superStatement t) (superStatement t) := by
  refine .checked (weaves_factor.bind fun node => ?_)
  cases node with
  | super method arguments => exact .pure _
  | _ => exact .complains fun _ => .pure _

/-! ## All statements -/

/-- Which loop a keyword begins shows before the last semicolon. -/
theorem eachAhead_ended {t : Token} (ended : Ended front) (first : front.head? = some t)
    (other : t.kind ≠ .semicolon) (old more : List Token) :
    eachAhead (front ++ old) = eachAhead (front ++ more) := by
  obtain ⟨line, last, rfl, isLast, _⟩ := ended
  rcases line with _ | ⟨a, _ | ⟨b, line⟩⟩
  · cases first
    exact absurd isLast other
  · simp [eachAhead, isLast]
  · have three : 3 ≤ (a :: b :: line ++ [last]).length := by simp
    generalize a :: b :: line ++ [last] = shown at three
    unfold eachAhead
    rw [getElem?_append_left (by omega), getElem?_append_left (by omega),
      getElem?_append_left (by omega), getElem?_append_left (by omega)]

section Statement

variable {statement statement' : Bool → Parser Node} (isExtra : extra.kind = .semicolon)
  (h : ∀ b, Weaves back extra Loose Loose Anywhere (statement b) (statement' b))

variable {s : State}

include h isExtra

theorem weaves_for (t : Token) (isFor : t.kind = .keyword .forLoop) :
    Threads back extra (At t)
      (forAhead t (forEachOver (statement true)) (forOver (statement true) (statement false)))
      (forAhead t (forEachOver (statement' true))
        (forOver (statement' true) (statement' false))) := by
  have chosen : ∀ each : Bool, Threads back extra (At t)
      (checkDialect t >>= fun _ =>
        if each then forEachOver (statement true) else forOver (statement true) (statement false))
      (checkDialect t >>= fun _ =>
        if each then forEachOver (statement' true)
        else forOver (statement' true) (statement' false)) := fun each =>
    .checked (.ite (fun _ => weaves_forEachOver isExtra (h true)) fun _ =>
      weaves_forOver isExtra (h true) (h false))
  refine ⟨.choose eachLook_apply (fun each => (chosen each).late) ?_, ?_⟩
  · rintro s s' ⟨front, _, left, right, rfl⟩ _
    rw [left, right]
    rfl
  · intro front s s' b u beside ended starts result same
    have first : front.head? = some t := by
      rw [At, State.token?_eq, beside.rest, head?_append_of_ne_nil _ ended.ne_nil] at starts
      exact starts
    have agree := eachAhead_ended ended first (by simp [isFor]) back (extra :: back)
    rw [forAhead, bind_apply (eachLook_apply s), beside.rest, agree, ← beside.rest'] at result
    exact ((chosen _).weaves beside ended starts result same).moved (bind_apply (eachLook_apply s'))
      rfl

theorem weaves_statementFrom (closed : Bool) (t : Token) :
    Weaves back extra Ended Loose (At t) (statementFrom statement closed t)
      (statementFrom statement' closed t) := by
  refine .ite (fun isType => (weaves_typedDeclaration t isType).loosen) fun _ => ?_
  cases kind : t.kind with
  | ident => exact (weaves_referenceStatement t).bind fun node => weaves_finish _ node
  | keyword k =>
    cases k with
    | ifBranch => exact .checked (weaves_ifOver isExtra (h true)).loosen
    | whileLoop => exact .checked (weaves_whileOver isExtra (h true)).loosen
    | forLoop => exact .checked (weaves_for isExtra h t kind).loosen
    | function =>
      exact .checked ((weaves_routineOver isExtra (h true) _).bind fun routine => .pure _).loosen
    | tryBlock => exact .checked (weaves_tryOver isExtra (h true)).loosen
    | throw => exact .checked (weaves_wordStatement _ _)
    | exit => exact .checked weaves_exitStatement
    | importFile => exact .checked (weaves_wordStatement _ _)
    | super => exact (weaves_superStatement t).bind fun node => weaves_finish _ node
    | this => exact (weaves_referenceStatement t).bind fun node => weaves_finish _ node
    | print =>
      exact .checked (weaves_printStatement.bind fun node => weaves_finish _ (some node))
    | ret => exact .checked weaves_returnStatement
    | classDef => exact .checked (weaves_classOver isExtra (h true)).loosen
    | _ => exact .failNode _ _
  | _ => exact .failNode _ _

theorem weaves_statementHere (closed : Bool) :
    Weaves back extra Ended Loose start (statementHere statement closed)
      (statementHere statement' closed) := by
  have here := weaves_statementFrom isExtra h closed
  exact .peek (.pure rfl) fun t => .ite (fun _ => .checked (here t)) fun _ => here t

omit isExtra h in
theorem statementStep_apply (statement : Bool → Parser Node) (closed : Bool) (s : State) :
    statementStep statement closed s =
      statementHere statement closed (s.skip (runOf isSeparator s.rest)) := by
  exact bind_apply (skipLoop_apply isSeparator s)

omit h in
/-- Where only separators stand before the place, the inserted semicolon is skipped with them. -/
theorem past_of_separators (every : ∀ t ∈ front, isSeparator t = true)
    (beside : Beside back (extra :: back) front s s') :
    Beside [] [] (s.skip (runOf isSeparator s.rest)).rest (s.skip (runOf isSeparator s.rest))
      (s'.skip (runOf isSeparator s'.rest)) := by
  have one : runOf isSeparator (extra :: back) = runOf isSeparator back + 1 := by
    rw [runOf, takeWhile_cons_of_pos (by simp [isSeparator, isExtra])]
    rfl
  refine ⟨(append_nil _).symm, ?_⟩
  rw [State.rest_skip, State.rest_skip, beside.rest, beside.rest', runOf_append every,
    runOf_append every, one, drop_length_add_append, drop_length_add_append,
    append_nil]
  rfl

omit isExtra h in
/-- Otherwise the statement begins before the place. -/
theorem beside_of_statement (loose : Loose front) (begins : ¬∀ t ∈ front, isSeparator t = true)
    (beside : Beside back (extra :: back) front s s') :
    ∃ left, Ended left ∧ Beside back (extra :: back) left (s.skip (runOf isSeparator s.rest))
      (s'.skip (runOf isSeparator s'.rest)) := by
  have stopped : front.drop (runOf isSeparator front) ≠ [] := by
    rw [drop_runOf, ne_eq, dropWhile_eq_nil_iff]
    exact begins
  have ended : Ended front := by
    refine loose.resolve_left ?_
    rintro rfl
    exact begins nofun
  refine ⟨_, ended.suffix (drop_suffix (runOf isSeparator front) front) stopped, ?_⟩
  rw [beside.rest, beside.rest', runOf_append_left stopped, runOf_append_left stopped]
  exact beside.skip (runOf_le isSeparator front)

theorem weaves_statementStep (closed : Bool) :
    Weaves back extra Loose Loose start (statementStep statement closed)
      (statementStep statement' closed) := by
  have here : Weaves back extra Ended Loose Anywhere (statementHere statement closed)
      (statementHere statement' closed) :=
    weaves_statementHere isExtra h closed
  constructor
  · exact .andThen (.loop (fun _ _ _ => (blind_nextIs _).late)
      (fun _ _ _ => Pairing.agree_advance) rfl) fun _ => here.late
  · intro front s s' a t beside loose _ result same
    rw [statementStep_apply] at result
    have equal := statementStep_apply statement' closed s'
    by_cases every : ∀ t ∈ front, isSeparator t = true
    · have past := past_of_separators isExtra every beside
      obtain ⟨t', result', last, same'⟩ := read_together here.late past result same
      exact .past (equal.trans result') same' last
    · obtain ⟨left, ended, beside'⟩ := beside_of_statement loose every beside
      exact (here.weaves beside' ended trivial result same).moved equal rfl

end Statement

theorem weaves_statementAt (isExtra : extra.kind = .semicolon) (le : n ≤ m)
    (closed : Bool) :
    Weaves back extra Loose Loose Anywhere (statementAt n closed)
      (statementAt m closed) := by
  induction n generalizing m closed with
  | zero => exact ⟨.stops False.elim, fun _ _ _ result => nomatch result⟩
  | succ n ih =>
    obtain ⟨m, rfl⟩ : ∃ k, m = k + 1 := ⟨m - 1, by omega⟩
    exact weaves_statementStep isExtra (fun b => ih (Nat.le_of_succ_le_succ le) b) closed

theorem weaves_statement (isExtra : extra.kind = .semicolon) (closed : Bool) :
    Weaves back extra Loose Loose Anywhere (statement closed)
      (statement closed) :=
  .given fun le => weaves_statementAt isExtra (Nat.succ_le_succ le) closed

/-! ## Programs -/

/-- A reading from one state to another, statement by statement. -/
inductive Passes : State → State → Prop
  | here (s : State) : Passes s s
  | next {s t u : State} {node : Node} (some_left : s.rest ≠ [])
      (read : statement true s = .ok node t) (later : Passes t u) : Passes s u

/-- The program goes on with `back` between two of its statements. -/
def TopLevel (s : State) (back : List Token) : Prop :=
  ∃ u separators, Passes s u ∧ u.rest = separators ++ back ∧
    ∀ t ∈ separators, isSeparator t = true

theorem Passes.moves {s u : State} (h : Passes s u) : Moves s u := by
  induction h with
  | here s => exact .refl s
  | next _ read _ ih => exact ((steady_statement true).ok read).trans ih

section Programs

variable (isExtra : extra.kind = .semicolon)

variable {s t : State}

include isExtra

theorem statement_of_separators {node : Node} (every : ∀ t ∈ front, isSeparator t = true)
    (beside : Beside back (extra :: back) front s s') (read : statement true s = .ok node t)
    (same : t.complaints = s.complaints) :
    ∃ t', statement true s' = .ok node t' ∧ Beside [] [] t.rest t t' ∧
      t'.complaints = s'.complaints := by
  have here : Weaves back extra Ended Loose Anywhere (statementHere (statementAt s.remaining) true)
      (statementHere (statementAt s'.remaining) true) :=
    weaves_statementHere isExtra
      (weaves_statementAt isExtra (beside.remaining_le (Nat.le_succ _))) true
  rw [statement_apply] at read ⊢
  exact read_together here.late (past_of_separators isExtra every beside) read same

omit back isExtra in
theorem statementsFrom_past (le : n ≤ m) (beside : Beside [] [] s.rest s s')
    (result : statementsFrom n before s = .ok nodes t) (same : t.complaints = s.complaints) :
    ∃ t', statementsFrom m before s' = .ok nodes t' ∧ t'.complaints = s'.complaints := by
  have loops : Pairing.together.Agree id (statementsFrom n before) (statementsFrom m before) := by
    refine .repeatWhile (fun _ _ _ => (blind_nextIs _).late) (fun nodes nodes' same => ?_)
      ⟨le, False.elim⟩ rfl
    cases same
    exact (Pairing.agree_statement Pairing.together_shut true).ofNode.andThen fun _ => .pure rfl
  obtain ⟨t', result', _, same'⟩ := read_together loops beside result same
  exact ⟨t', result', same'⟩

/-- The induction is on the statements of the program. -/
theorem statementsFrom_insert (less : n < m) (loose : Loose front)
    (beside : Beside back (extra :: back) front s s') (safe : ¬Shut back ∨ TopLevel s back)
    (result : statementsFrom n before s = .ok nodes t) (same : t.complaints = s.complaints) :
    ∃ t', statementsFrom m before s' = .ok nodes t' ∧ t'.complaints = s'.complaints := by
  induction n generalizing m before front s s' with
  | zero => cases result
  | succ n ih =>
    obtain ⟨m, rfl⟩ : ∃ k, m = k + 1 := ⟨m - 1, by omega⟩
    have some_left' : s'.rest ≠ [] := by rw [beside.rest']; simp
    by_cases none_left : s.rest = []
    -- The semicolon comes last: one more round skips it.
    · rw [statementsFrom_nil none_left] at result
      cases result
      have empty := beside.rest
      rw [none_left, eq_comm, append_eq_nil_iff] at empty
      obtain ⟨rfl, rfl⟩ := empty
      have ended : s'.rest.drop (runOf isSeparator s'.rest) = [] := by
        rw [beside.rest', drop_runOf]
        simp [isSeparator, isExtra]
      have enough : s'.rest.length < m + 1 := by
        rw [beside.rest']
        show 1 < m + 1
        omega
      obtain ⟨t', result', same'⟩ := statementsFrom_separators ended enough
      exact ⟨t', result', congrArg (List.filter _) same'⟩
    obtain ⟨node, u, read, sameEarly, result, sameLate⟩ := round_of_read none_left result same
    have going : ∀ {u'}, statement true s' = .ok node u' → u'.complaints = s'.complaints →
        (∃ t', statementsFrom m (before ++ present node) u' = .ok nodes t' ∧
          t'.complaints = u'.complaints) →
        ∃ t', statementsFrom (m + 1) before s' = .ok nodes t' ∧ t'.complaints = s'.complaints := by
      rintro u' read' same' ⟨t', result', same''⟩
      rw [statementsFrom_cons some_left', bind_apply read']
      exact ⟨t', result', same''.trans same'⟩
    by_cases every : ∀ t ∈ front, isSeparator t = true
    · obtain ⟨u', read', beside', same'⟩ :=
        statement_of_separators isExtra every beside read sameEarly
      exact going read' same' (statementsFrom_past (by omega) beside' result sameLate)
    -- A statement begins before the place, so the program comes to the place after it.
    have onward : ¬Shut back ∨ TopLevel u back := by
      refine safe.imp_right ?_
      rintro ⟨v, separators, passes, rest, all⟩
      cases passes with
      | here => exact absurd (beside.left_eq rest ▸ all) every
      | next _ read' later =>
        cases read.symm.trans read'
        exact ⟨v, separators, later, rest, all⟩
    cases (weaves_statement isExtra true).weaves beside loose trivial read sameEarly with
    | before read' same' beside' within =>
      exact going read' same' (ih (by omega) within beside' onward result sameLate)
    | past read' same' beside' =>
      exact going read' same' (statementsFrom_past (by omega) beside' result sameLate)
    | lost shut short =>
      obtain ⟨v, separators, passes, rest, _⟩ := onward.resolve_left fun open_ => open_ shut
      have shorter := passes.moves.rest.length_le
      rw [rest, length_append] at shorter
      omega

end Programs

/-- An empty statement changes nothing: in a text that is read without a problem, a semicolon may be
put after a semicolon, unless that one belongs to the head of a loop or to a class (`reserved`) or a
closing bracket follows. Between two statements of the program a bracket may follow as well. -/
theorem parse_insert_semicolon {starter semicolon extra : Token} {front back : List Token}
    {tree : Node} (isSemicolon : semicolon.kind = .semicolon) (isExtra : extra.kind = .semicolon)
    (read : (parse (starter :: (front ++ semicolon :: back))).node = .ok tree)
    (clean : (parse (starter :: (front ++ semicolon :: back))).state.problems = [])
    (free : reserved front = false)
    (safe : ¬Shut back ∨ TopLevel (started starter (front ++ semicolon :: back)) back) :
    (parse (starter :: (front ++ semicolon :: extra :: back))).node = .ok tree ∧
      (parse (starter :: (front ++ semicolon :: extra :: back))).state.problems = [] := by
  have isStarter := isStarter_of_parse read
  have result := parse_ok read
  rw [program_apply isStarter] at result
  obtain ⟨nodes, t, loops, stay⟩ := bind_eq_ok result
  cases stay
  have loose : Loose (front ++ [semicolon]) := .inr ⟨front, semicolon, rfl, isSemicolon, free⟩
  have beside : Beside back (extra :: back) (front ++ [semicolon])
      (started starter (front ++ semicolon :: back))
      (started starter (front ++ semicolon :: extra :: back)) := by
    refine ⟨?_, ?_⟩
    · rw [rest_started, append_assoc]
      rfl
    · rw [rest_started, append_assoc]
      rfl
  have less : (front ++ semicolon :: back).length + 1 <
      (front ++ semicolon :: extra :: back).length + 1 := by
    simp
  obtain ⟨t', loops', same'⟩ := statementsFrom_insert isExtra less loose beside safe loops
    (congrArg (List.filter _) clean)
  have result' : program (starting (starter :: (front ++ semicolon :: extra :: back)) false) =
      .ok (.program nodes) t' := by
    rw [program_apply isStarter, bind_apply loops']
    rfl
  have parsed : parse (starter :: (front ++ semicolon :: extra :: back)) =
      ⟨.ok (.program nodes), t'⟩ := by
    rw [parse_eq, runProgram, result']
  rw [Pairing.complaints_parse, parsed]
  exact ⟨rfl, same'⟩

/-- `If (True) {` and a statement without its semicolon. -/
def openBranch : List Token :=
  [⟨.keyword .ifBranch, .text "If", 1, 7⟩, ⟨.lparen, .text "(", 1, 10⟩,
    ⟨.keyword .yes, .text "True", 1, 11⟩, ⟨.rparen, .text ")", 1, 15⟩,
    ⟨.lbrace, .text "\x7b", 1, 17⟩, ⟨.ident, .text "z", 1, 19⟩, ⟨.op, .text "++", 1, 20⟩]

/-- `;`. -/
def semicolonMark : Token := ⟨.semicolon, .text ";", 1, 22⟩

/-- `}`. -/
def braceMark : Token := ⟨.rbrace, .text "\x7d", 1, 24⟩

/-- `If (True) { z++; z++; }` with an empty statement in the block, and `z++; } z++;` with one
before a brace that closes nothing. -/
theorem parse_insert_semicolon_twice :
    let nested := openBranch ++ semicolonMark :: semicolonMark :: (countUp ++ [braceMark])
    let outer := countUp.dropLast ++ semicolonMark :: semicolonMark :: braceMark :: countUp
    let count : Node := .step .increment (.var "z")
    ((parse (chief :: nested)).node =
          .ok (.program [.ifElse (.boolean true) [count, count] [] none]) ∧
        (parse (chief :: nested)).state.problems = []) ∧
      (parse (chief :: outer)).node = .ok (.program [count, count]) ∧
        (parse (chief :: outer)).state.problems = [] := by
  intro nested outer count
  refine ⟨?_, ?_⟩
  · refine parse_insert_semicolon rfl rfl rfl rfl rfl (.inl ?_)
    rintro ⟨t, first, closes⟩
    cases first
    rcases closes with same | same <;> cases same
  · let before := started chief (countUp.dropLast ++ semicolonMark :: braceMark :: countUp)
    have first : statement true before = .ok count (before.skip 3) := rfl
    have top : TopLevel before (braceMark :: countUp) :=
      ⟨before.skip 3, [], .next nofun first (.here _), rfl, nofun⟩
    exact parse_insert_semicolon rfl rfl rfl rfl rfl (.inr top)

/-- `If (True) { z++; } z++;` is read without a problem; with an empty statement at the end of the
block, the brace is skipped and the block goes on. -/
theorem insert_semicolon_before_brace :
    let tokens := openBranch ++ semicolonMark :: braceMark :: countUp
    let changed := openBranch ++ semicolonMark :: semicolonMark :: braceMark :: countUp
    let count : Node := .step .increment (.var "z")
    (parse (chief :: tokens)).node =
        .ok (.program [.ifElse (.boolean true) [count] [] none, count]) ∧
      (parse (chief :: tokens)).state.problems = [] ∧
      (parse (chief :: changed)).node =
        .ok (.program [.ifElse (.boolean true) [count, count] [] none]) ∧
      (parse (chief :: changed)).state.problems = [.complaint none (.expected .rbrace)] :=
  ⟨rfl, rfl, rfl, rfl⟩

end Hetman.Parser
