import Hetman.Proofs.Parser.Productions
import Hetman.Proofs.Parser.Progress
import Hetman.Proofs.Tree

/-!
# Reading comes to an end

Every production moves forward: it uses up its first token before the parser for the nodes inside it
is called, so a nesting needs no more levels than there are tokens.

On the way every token is accounted for. The word that begins a statement has mostly been held
against the dialect twice when the statement takes it, and that of a loop three times. A type is
looked at where it declares a variable or converts a value, not where it declares a field.

What is read as an expression is made of expressions only; a part that could not be read is
`missing`. And each class tells the access to its methods as these do.
-/

namespace Hetman.Parser

variable {start : State → Prop} {t : Token} {k : Option Nat} {n : Nat} {asked : Bool}

variable {kind : Kind} {s u : State} {α : Type} {a : α} {ops : List String} {Q : α → Prop}

/-! ## Types -/

theorem checks_of_isTypeKind (isType : isTypeKind kind = true) :
    asksForName kind = true ∧ mostChecks kind = 1 ∧
      ∀ field, usualChecks kind field = [if field then 0 else 1] := by
  unfold isTypeKind at isType
  split at isType
  iterate 4 exact ⟨rfl, rfl, fun field => by cases field <;> rfl⟩
  cases isType

theorem rest_of_demand {g : Unit → Parser α} (later : Forward Anywhere n asked 0 (g ()) Q)
    (reached : Reached n asked s) (read : (demand kind >>= g) s = .ok a u)
    (clean : u.complaints = []) : ∃ w rest, s.rest = w :: rest ∧ w.kind = kind := by
  obtain ⟨_, t, demanded, rest⟩ := bind_eq_ok read
  have asking : ForwardFrom Anywhere none n asked 1 (demand kind) := forward_keyword .unbooked
  have went := asking s trivial reached
  rw [demanded] at went
  obtain ⟨taken, t', expected, done⟩ := bind_eq_ok demanded
  cases done
  rcases expect_eq_ok expected with ⟨w, -, here, same, -⟩ | ⟨-, moves, complained⟩
  · exact ⟨w, _, State.rest_eq_cons here, same⟩
  · cases went with
    | ok onward _ _ _ =>
      have went := later t trivial (reached.onward onward)
      rw [rest] at went
      cases went with
      | ok _ _ carried _ =>
        have late := (carried 0 rfl).complaints clean
        have early := List.prefix_nil.mp (late ▸ moves.complaints)
        exact absurd (late.trans early.symm) complained

theorem rest_of_expectName {g : String → Parser α} (reached : Reached n asked s)
    (read : (expectName >>= g) s = .ok a u) :
    ∃ w, s.rest = w :: (s.skip 1).rest ∧ w.kind = .ident ∧ g w.display (s.skip 1) = .ok a u ∧
      Reached n asked (s.skip 1) := by
  obtain ⟨name, t, named, rest⟩ := bind_eq_ok read
  obtain ⟨taken, t', expected, named⟩ := bind_eq_ok named
  rcases expect_eq_ok expected with ⟨w, rfl, here, same, rfl⟩ | ⟨rfl, -⟩
  · cases named
    have left := State.rest_eq_cons here
    refine ⟨w, ?_, same, rest, reached.onward (onward_skip reached.inside ?_)⟩
    · rw [State.rest_skip, List.drop_one]
      exact left
    · rw [left]
      exact Nat.le_add_left 1 _
  · cases named

/-! ## Expressions -/

/-- A parser that uses up a token and gives an expression. -/
abbrev Phrase (start : State → Prop) (n : Nat) (asked : Bool) (p : Parser Node) : Prop :=
  Forward start n asked 1 p Node.OnlyExpressions

/-- Nodes that are made of expressions only. -/
abbrev Phrases (nodes : List Node) : Prop :=
  ∀ node ∈ nodes, node.OnlyExpressions

open Node

theorem phrases_snoc {nodes : List Node} {node : Node} (h : Phrases nodes)
    (last : node.OnlyExpressions) : Phrases (nodes ++ [node]) :=
  List.forall_mem_append.2 ⟨h, List.forall_mem_singleton.2 last⟩

theorem phrases_pair {left right : Node} (hleft : left.OnlyExpressions)
    (hright : right.OnlyExpressions) : Phrases [left, right] :=
  phrases_snoc (List.forall_mem_singleton.2 hleft) hright

theorem phrase_failNode (token : Option Token) (what : Complaint) :
    Phrase start n asked (failNode token what) :=
  (forward_failNode token what).imp fun _ missing => missing ▸ onlyExpressions_leaf rfl rfl

theorem forward_level {isOp : Token → Bool} {build : Node → String → Node → Node}
    {operand : Parser Node} (h : Phrase Anywhere n false operand)
    (ops : ∀ t, isOp t = true → t.kind = .op ∨ t.hasText "&&" = true ∨ t.hasText "||" = true)
    (built : ∀ left op right, Phrases [left, right] → (build left op right).OnlyExpressions) :
    Phrase start n asked (level isOp build operand) := by
  refine h.anywhere.andThen fun first hfirst => .loop (fun _ => asks_nextIs isOp)
    (fun left t hleft reads => ?_) hfirst
  refine ((forwardAt_operator (ops t reads)).first fun op _ => ?_).fewer (Nat.le_succ n)
  exact h.anywhere.next fun right hright => .pure (built _ _ _ (phrases_pair hleft hright))

section Factors

variable {factor : Parser Node} (h : Phrase Anywhere n false factor)

include h

omit h in
theorem kind_of_isOpAmong (isOp : isOpAmong ops t = true) : t.kind = .op :=
  of_decide_eq_true (Bool.and_eq_true_iff.mp isOp).1

omit h in
theorem reads_of_isOpAmong (t : Token) (isOp : isOpAmong ops t = true) :
    t.kind = .op ∨ t.hasText "&&" = true ∨ t.hasText "||" = true :=
  .inl (kind_of_isOpAmong isOp)

omit h in
theorem onlyExpressions_binary (left : Node) (op : String) (right : Node)
    (parts : Phrases [left, right]) : (binaryNode left op right).OnlyExpressions :=
  onlyExpressions_of_parts rfl parts

omit h in
theorem onlyExpressions_comparison (left : Node) (op : String) (right : Node)
    (parts : Phrases [left, right]) : (comparisonNode left op right).OnlyExpressions :=
  onlyExpressions_of_parts rfl parts

theorem forward_exponentOver : Phrase start n asked (exponentOver factor) :=
  forward_level h reads_of_isOpAmong onlyExpressions_binary

theorem forward_termOver : Phrase start n asked (termOver factor) :=
  forward_level (forward_exponentOver h) reads_of_isOpAmong onlyExpressions_binary

theorem forward_sumOver : Phrase start n asked (sumOver factor) :=
  forward_level (forward_termOver h) reads_of_isOpAmong onlyExpressions_binary

theorem forward_comparisonOver : Phrase start n asked (comparisonOver factor) :=
  forward_level (forward_sumOver h) reads_of_isOpAmong onlyExpressions_comparison

theorem forward_andOver : Phrase start n asked (andOver factor) :=
  forward_level (forward_comparisonOver h) (fun _ reads => .inr (.inl reads)) onlyExpressions_binary

theorem forward_orOver : Phrase start n asked (orOver factor) :=
  forward_level (forward_andOver h) (fun _ reads => .inr (.inr reads)) onlyExpressions_binary

omit h in
theorem forward_mark {f : Unit → Parser α} (same : t.kind = kind) (passes : passable kind 0 = true)
    (second : Forward Anywhere n asked 0 (f ()) Q) :
    ForwardAt t (some 0) n asked (advance >>= f) Q := by
  refine (ForwardFrom.first (.advance ?_) fun _ _ => second).fewer (Nat.le_succ n)
  rw [same]
  exact passes

theorem forward_elementsOver (close : Kind) :
    Forward start n asked 0 (elementsOver factor close) Phrases := by
  refine forward_nextKind.andThen fun kind _ => .ite (fun _ => .pure nofun) fun _ => ?_
  refine (forward_orOver h).next fun first hfirst => .loop (fun _ => asks_nextIs _) ?_
    (List.forall_mem_singleton.2 hfirst)
  intro elements t helements isComma
  refine forward_mark (of_decide_eq_true isComma) rfl ?_
  exact (forward_orOver h).next fun element helement => .pure (phrases_snoc helements helement)

omit h in
theorem forward_closing (passes : passable kind 0 = true) (gives : Q a) :
    Forward start n asked 0 (do
      demand kind
      return a) Q :=
  (forward_demand passes).next fun _ _ => .pure gives

theorem forward_argumentsOver :
    Forward start n asked 1 (argumentsOver factor) (Phrases <| ·.getD []) := by
  refine (forward_demand rfl).andThen fun _ _ => forward_nextKind.andThen fun kind _ => ?_
  refine .ite (fun _ => forward_closing rfl nofun) fun _ => ?_
  refine (forward_orOver h).next fun first hfirst => ?_
  refine (ForwardFrom.loop (Q := (Phrases <| ·.getD [])) (fun arguments => (asks_nextIs _).guarded _)
    ?_ (List.forall_mem_singleton.2 hfirst)).andThen fun arguments harguments =>
      .ite (fun _ => forward_closing rfl harguments) fun _ => .pure harguments
  intro arguments t harguments isComma
  refine forward_mark (of_decide_eq_true isComma) rfl (.look (looks_nextIs _) fun closed => ?_)
  refine .ite (fun _ => ?_) fun _ => (forward_orOver h).next fun argument hargument => .pure ?_
  · refine .look (fun s => ⟨_, peek_apply s⟩) fun next => ?_
    exact (forward_complain _ _).next fun _ _ => .pure nofun
  · cases arguments with
    | none => exact nofun
    | some nodes => exact phrases_snoc harguments hargument

theorem forward_pairOver :
    Forward start n asked 1 (pairOver factor) fun pair => Phrases [pair.1, pair.2] := by
  refine (forward_orOver h).andThen fun key hkey => .demand rfl ?_
  exact (forward_orOver h).next fun value hvalue => .pure (phrases_pair hkey hvalue)

theorem forward_dictionaryOver (t : Token) :
    ForwardAt t (some 0) (n + 1) asked (dictionaryOver factor) OnlyExpressions := by
  refine (forward_demand rfl).first fun _ _ => .look (looks_nextIs _) fun opened => ?_
  cases opened with
  | true =>
    refine (forward_pairOver h).next fun first hfirst => ?_
    refine (ForwardFrom.loop (Q := fun state => ∀ pair ∈ state.1, Phrases [pair.1, pair.2])
      (fun state => (asks_nextIs _).guarded _) ?_ (by simpa using hfirst)).andThen
        fun state hstate => forward_closing rfl (onlyExpressions_of_parts rfl fun p isPart => ?_)
    · intro state t hstate isComma
      refine forward_mark (of_decide_eq_true isComma) rfl (.look (looks_nextIs _) fun closed => ?_)
      refine .ite (fun _ => .pure hstate) fun _ => (forward_pairOver h).next fun pair hpair => ?_
      exact .pure (List.forall_mem_append.2 ⟨hstate, List.forall_mem_singleton.2 hpair⟩)
    · obtain ⟨pair, inPairs, inPair⟩ := List.mem_flatMap.1 isPart
      exact hstate pair inPairs p inPair
  | false => exact forward_closing rfl (onlyExpressions_leaf rfl rfl)

/-- A parenthesis follows the type, so it is not that of a field. -/
theorem forward_castOver (isType : ∀ c ∈ k, c = 0 ∧ isTypeKind t.kind = true) :
    ForwardAt t k (n + 1) asked (castOver factor) OnlyExpressions := by
  have inner : Forward Anywhere n false 0 (do
      let operand ← orOver factor
      demand .rparen
      return Node.cast t.kind operand) OnlyExpressions :=
    (forward_orOver h).next fun operand hoperand => forward_closing rfl
      (onlyExpressions_of_parts rfl (List.forall_mem_singleton.2 hoperand))
  have known : ∀ c ∈ k.map (· + 1), c = 1 ∧ isTypeKind t.kind = true := by
    intro c found
    obtain ⟨c', known, rfl⟩ := Option.map_eq_some_iff.mp found
    exact ⟨congrArg (· + 1) (isType c' known).1, (isType c' known).2⟩
  refine .peekAt (.advanceChecked (.checked (.advanceThen false nofun
    (.demand rfl <| inner) (fun c found => ?_)
    fun c found s a u reached read none => ?_)))
  · obtain ⟨rfl, isType⟩ := known c found
    exact Nat.le_of_eq (checks_of_isTypeKind isType).2.1.symm
  · obtain ⟨rfl, isType⟩ := known c found
    obtain ⟨paren, rest, left, opens⟩ := rest_of_demand inner reached read none
    have noField : declaresField s.rest = false := by
      rw [left]
      cases rest with
      | nil => rfl
      | cons next rest => simp [declaresField, opens]
    rw [(checks_of_isTypeKind isType).2.2, noField]
    exact List.mem_singleton_self _

theorem forward_inputOver (t : Token) :
    ForwardAt t (some 0) (n + 1) asked (inputOver factor) OnlyExpressions := by
  refine (forward_expectChecked rfl).first fun _ _ => .demand rfl ?_
  exact (forward_orOver h).next fun prompt hprompt => forward_closing rfl
    (onlyExpressions_of_parts rfl (List.forall_mem_singleton.2 hprompt))

theorem forward_indicesOver {node : Node} (hnode : node.OnlyExpressions) :
    Forward start n asked 0 (indicesOver factor node) OnlyExpressions := by
  refine .loop (fun _ => asks_nextIs _) (fun base t hbase opens => ?_) hnode
  refine forward_mark (of_decide_eq_true opens) rfl ?_
  exact (forward_orOver h).next fun index hindex => forward_closing rfl
    (onlyExpressions_of_parts rfl (phrases_pair hbase hindex))

theorem forward_propertiesOver {node : Node} (hnode : node.OnlyExpressions) :
    Forward start n asked 0 (propertiesOver factor node) OnlyExpressions := by
  refine .loop (fun _ => asks_nextIs _) (fun base t hbase isDot => ?_) hnode
  have isDot : t.kind = .dot := of_decide_eq_true isDot
  have property : ∀ name, (Node.property base name).OnlyExpressions := fun name =>
    onlyExpressions_of_parts rfl (List.forall_mem_singleton.2 hbase)
  refine (ForwardFrom.asking (by rw [isDot]; rfl) (.advance (by rw [isDot]; rfl)) fun _ => ?_).fewer
    (Nat.le_succ n)
  refine forward_expectName.next fun name _ => .look (looks_nextIs _) fun called => ?_
  refine .ite (fun _ => ?_) fun _ => .pure (property name)
  refine (forward_argumentsOver h).next fun arguments harguments => ?_
  cases base with
  | var object => exact .pure (onlyExpressions_of_parts rfl harguments)
  | _ => exact .pure (property name)

theorem forward_referenceOver (passes : (k.map (· + 1)).all (passable t.kind) = true) :
    ForwardAt t k (n + 1) asked (referenceOver factor t) OnlyExpressions := by
  have chain : ∀ node, OnlyExpressions node → Forward Anywhere n asked 0 (do
      let node ← indicesOver factor node
      propertiesOver factor node) OnlyExpressions :=
    fun node hnode => (forward_indicesOver h hnode).andThen fun _ => forward_propertiesOver h
  refine .checked (ForwardFrom.first (.advance passes) fun _ _ => .look (looks_nextIs _) fun called =>
    .ite (fun _ => ?_) fun _ => chain _ (onlyExpressions_leaf rfl rfl))
  exact (forward_argumentsOver h).next fun arguments harguments =>
    chain _ (onlyExpressions_of_parts rfl harguments)

theorem forward_newObjectOver (isNew : t.kind = .keyword .new) :
    ForwardAt t (some 0) (n + 1) asked (newObjectOver factor t) OnlyExpressions := by
  refine .checked (.asking (by rw [isNew]; rfl) (.advance (by rw [isNew]; rfl)) fun _ => ?_)
  refine forward_expectName.next fun className _ =>
    .ite (fun _ => .pure (onlyExpressions_leaf rfl rfl)) fun _ => ?_
  exact (forward_argumentsOver h).next fun arguments harguments =>
    .pure (onlyExpressions_of_parts rfl harguments)

/-- `Super` may have been held against the dialect before. -/
theorem forward_superOver (isSuper : t.kind = .keyword .super)
    (passes : (k.map (· + 1)).all (passable (.keyword .super)) = true) :
    ForwardAt t k (n + 1) asked (superOver factor t) OnlyExpressions := by
  refine .checked (.asking (by rw [isSuper]; rfl) (.advance (by rw [isSuper]; exact passes)) ?_)
  intro _
  refine .demand rfl <| forward_expectName.next fun method _ => ?_
  refine .look (looks_nextIs _) fun called => .ite (fun _ => ?_) fun _ => (phrase_failNode _ _).mono
  exact (forward_argumentsOver h).next fun arguments harguments =>
    .pure (onlyExpressions_of_parts rfl harguments)

theorem forward_arrayOver (passes : k.all (passable t.kind) = true) :
    ForwardAt t k (n + 1) asked (arrayOver factor) OnlyExpressions :=
  ForwardFrom.first (.advance passes) fun _ _ => (forward_elementsOver h _).andThen fun _ elements =>
    forward_closing rfl (onlyExpressions_of_parts rfl elements)

theorem forward_groupOver (passes : k.all (passable t.kind) = true) :
    ForwardAt t k (n + 1) asked (groupOver factor) OnlyExpressions :=
  ForwardFrom.first (.advance passes) fun _ _ => (forward_orOver h).next fun _ inner =>
    forward_closing rfl inner

theorem forward_factorStep : Phrase start (n + 1) asked (factorStep factor) := by
  have leaf : ∀ {node : Node}, node.isExpressionForm = true → node.parts = [] →
      Forward Anywhere n asked 0 (pure node) OnlyExpressions :=
    fun form parts => .pure (onlyExpressions_leaf form parts)
  refine .peekSome rfl fun t => .ite (fun minus => ?_) fun _ => .ite (fun plus => ?_) fun _ => ?_
  · have isOp : t.kind = .op := of_decide_eq_true (Bool.and_eq_true_iff.mp minus).1
    refine .first (.advance (by rw [isOp]; rfl)) fun _ _ => ?_
    exact h.anywhere.next fun operand hoperand => .pure (onlyExpressions_of_parts rfl
      (phrases_pair (onlyExpressions_leaf rfl rfl) hoperand))
  · have isOp : t.kind = .op := of_decide_eq_true (Bool.and_eq_true_iff.mp plus).1
    exact .first (.advance (by rw [isOp]; rfl)) fun _ _ => h.anywhere.mono
  have cast : isTypeKind t.kind = true →
      ForwardAt t (some 0) (n + 1) asked (castOver factor) OnlyExpressions := by
    intro isType
    refine forward_castOver h fun c known => ?_
    cases known
    exact ⟨rfl, isType⟩
  cases kind : t.kind with
  | number =>
    refine .first (.advance (by rw [kind]; rfl)) fun _ _ => ?_
    cases t.payload <;> exact leaf rfl rfl
  | string => exact .first (.advance (by rw [kind]; rfl)) fun _ _ => leaf rfl rfl
  | ident => exact forward_referenceOver h (by rw [kind]; rfl)
  | lbracket => exact forward_arrayOver h (by rw [kind]; rfl)
  | lbrace =>
    refine .look (fun s => ⟨_, opensDictionary_apply s⟩) fun opens => .ite (fun _ => ?_) fun _ => ?_
    · exact forward_dictionaryOver h t
    · exact phrase_failNode _ _
  | lparen => exact forward_groupOver h (by rw [kind]; rfl)
  | keyword word =>
    cases word with
    | yes | no =>
      exact .checked (ForwardFrom.first (.advance (by rw [kind]; rfl)) fun _ _ => leaf rfl rfl)
    | new => exact forward_newObjectOver h kind
    | super => exact forward_superOver h kind rfl
    | length | this => exact forward_referenceOver h (by rw [kind]; rfl)
    | intType | textType | boolType | floatType => exact cast (by rw [kind]; rfl)
    | input => exact forward_inputOver h t
    | _ => exact phrase_failNode _ _
  | _ => exact phrase_failNode _ _

end Factors

theorem forward_factorAt (n : Nat) : Phrase start n asked (factorAt n) := by
  induction n generalizing start asked with
  | zero => exact fun s _ reached => absurd reached.few (Nat.not_lt_zero _)
  | succ n ih => exact forward_factorStep ih

theorem forward_withFactors {least : Nat} {production : Parser Node → Parser α}
    (h : ∀ n factor, Phrase Anywhere n false factor →
      Forward Anywhere n false least (production factor) Q) :
    Forward start n asked least (withFactors production) Q := by
  intro s _ reached
  exact h _ _ (forward_factorAt _) s trivial ⟨reached.inside, Nat.lt_succ_self _, nofun⟩

theorem forward_factor : Phrase start n asked factor :=
  forward_withFactors fun _ _ h => h

theorem forward_orExpression : Phrase start n asked orExpression :=
  forward_withFactors fun _ _ h => forward_orOver h

theorem onlyExpressions_of_read {node : Node} (read : orExpression s = .ok node u) :
    node.OnlyExpressions := by
  have inside : s.Inside := by
    refine Nat.le_of_not_lt fun beyond => ?_
    have none_left : s.rest = [] := (s.rest_eq_nil_iff).mpr (Array.getElem?_eq_none (by omega))
    exact Pairing.hungry_orOver (P := .same) ⟨(Pairing.operands_factorAt ⟨Nat.le_refl _,
      fun _ => rfl⟩).agree, Pairing.hungry_factorAt _⟩ s node u none_left read
  have reading : Phrase Anywhere (s.remaining + 1) false orExpression := forward_orExpression
  have went := reading s trivial ⟨inside, Nat.lt_succ_self _, nofun⟩
  rw [read] at went
  cases went with
  | ok _ _ _ gives => exact gives

/-- `Super` at the beginning of a statement has been held against the dialect once. -/
theorem forward_superFactor (isSuper : t.kind = .keyword .super) :
    ForwardAt t (some 1) n asked factor OnlyExpressions := by
  have noOp : ∀ text, ¬(decide (t.kind = .op) && t.hasText text) = true := by
    rw [isSuper]
    exact fun _ isOp => Bool.false_ne_true isOp
  have steps : ∀ n, ForwardAt t (some 1) (n + 1) asked (factorStep (factorAt n)) OnlyExpressions := by
    intro n
    refine .peekAt (.ite (fun minus => absurd minus (noOp _)) fun _ => ?_)
    simp only [isSuper]
    exact forward_superOver (forward_factorAt n) isSuper rfl
  exact fun s here reached =>
    steps s.remaining s here ⟨reached.inside, Nat.lt_succ_self _, reached.asks⟩

/-! ## Blocks -/

theorem forward_names {again : List String → Parser Bool}
    (asks : ∀ names, Asks (fun t => t.kind = .comma) (again names)) (names : List String) :
    Forward start n true 0 (loop again
      (fun names => do
        advance
        let name ← expectName
        return names ++ [name])
      names) := by
  refine .loop asks (fun names t _ isComma => ?_) trivial
  refine forward_mark (of_decide_eq_true isComma) rfl ?_
  exact forward_expectName.next fun name _ => .pure trivial

theorem forward_nameList : Forward start n true 1 nameList :=
  forward_expectName.andThen fun _ _ => forward_names (fun _ => asks_nextIs _) _

theorem forward_parameters : Forward start n true 1 parameters := by
  refine (forward_demand rfl).andThen fun _ _ => forward_nextKind.andThen fun kind _ => ?_
  refine .ite (fun _ => forward_closing rfl trivial) fun _ => forward_expectName.next fun first _ => ?_
  exact (forward_names (fun _ => asks_nextKind _) _).andThen fun names _ =>
    forward_closing rfl trivial

abbrev Sound (nodes : List Node) : Prop :=
  ∀ node ∈ nodes, node.Coherent

theorem sound_present {nodes : List Node} {node : Node} (h : Sound nodes) (last : node.Coherent) :
    Sound (if isPresent node then nodes ++ [node] else nodes) := by
  split
  · exact List.forall_mem_append.2 ⟨h, List.forall_mem_singleton.2 last⟩
  · exact h

section Statements

variable {statement : Parser Node} (h : Forward Anywhere n false 1 statement Coherent)

include h

theorem forward_blockOver : Forward start n asked 1 (blockOver statement) Sound := by
  refine .before (.loop (Q := Sound) (fun _ => asks_nextIs _) (fun body t hbody _ => ?_) nofun)
    fun body hbody => ?_
  · exact h.anywhere.andThen fun node hnode => .pure (sound_present hbody hnode)
  · exact (forward_demand rfl).andThen fun _ _ => .pure hbody

theorem forward_bracedOver : Forward start n asked 0 (bracedOver statement) Sound :=
  .demand rfl <| (forward_blockOver h).mono

theorem forward_branchOver :
    Forward start n asked 0 (branchOver statement) fun branch => Sound (branch.1 :: branch.2) := by
  refine .demand rfl <| forward_orExpression.next fun condition hcondition => ?_
  refine .demand rfl <| (forward_bracedOver h).andThen fun body hbody => ?_
  exact .pure (List.forall_mem_cons.2 ⟨hcondition.everyClass, hbody⟩)

theorem forward_lastBlock (passes : passable kind 0 = true) {f : Option (List Node) → Parser Node}
    (then_ : ∀ final, Sound (final.getD []) → Forward Anywhere n asked 0 (f final) Coherent) :
    Forward start n asked 0 (do
      let final ← if ← nextHas kind then do
          advance
          pure (some (← bracedOver statement))
        else pure none
      f final) Coherent := by
  refine .ifNext (fun t same => ?_) (then_ none nofun)
  refine forward_mark (of_decide_eq_true same) passes ?_
  exact (forward_bracedOver h).andThen fun body => then_ (some body)

theorem forward_ifOver (begins : MayAsk (At t) k (.keyword .ifBranch)) :
    ForwardAt t k (n + 1) asked (ifOver statement) Coherent := by
  refine (forward_keyword begins).first fun _ _ => (forward_branchOver h).andThen fun branch whole => ?_
  refine (ForwardFrom.loop (Q := fun branches => ∀ branch ∈ branches, Sound (branch.1 :: branch.2))
    (fun _ => asks_nextIs _) (fun branches t hbranches isElse => ?_) nofun).andThen
      fun elseIfs others => forward_lastBlock h rfl fun final hfinal => .pure ?_
  · refine forward_mark (of_decide_eq_true isElse) rfl ?_
    exact (forward_branchOver h).andThen fun branch hbranch => .pure
      (List.forall_mem_append.2 ⟨hbranches, List.forall_mem_singleton.2 hbranch⟩)
  · refine everyClass_of_parts rfl (List.forall_mem_append.2 ⟨List.forall_mem_flatMap.2 ?_, hfinal⟩)
    exact List.forall_mem_cons.2 ⟨whole, others⟩

theorem forward_whileOver (begins : MayAsk (At t) k (.keyword .whileLoop)) :
    ForwardAt t k (n + 1) asked (whileOver statement) Coherent :=
  (forward_keyword begins).first fun _ _ => (forward_branchOver h).andThen fun _ whole =>
    .pure (everyClass_of_parts rfl whole)

theorem forward_forOver (isFor : t.kind = .keyword .forLoop)
    (passes : k.all (passable (.keyword .forLoop)) = true) {step : Parser Node}
    (hstep : Forward Anywhere n false 1 step Coherent) :
    ForwardAt t k (n + 1) asked (forOver statement step) Coherent := by
  refine .asking (by rw [isFor]; rfl) (forward_keyword (.of_kind isFor passes)) fun _ => ?_
  refine .demand rfl <| forward_expectName.next fun name _ => ?_
  refine .ite (fun _ => .pure (everyClass_of_parts rfl nofun)) fun _ =>
    (forward_expect (.unchecked rfl)).next fun op _ => ?_
  refine .ite (fun _ => ?_) fun _ => ((phrase_failNode _ _).imp fun _ => OnlyExpressions.everyClass).mono
  refine forward_orExpression.next fun init hinit => .demand rfl ?_
  refine forward_orExpression.next fun condition hcondition => .demand rfl ?_
  refine hstep.anywhere.next fun change hchange => .demand rfl ?_
  refine (forward_bracedOver h).andThen fun body hbody => .pure (everyClass_of_parts rfl ?_)
  have starts : (Node.assign name init none).Coherent :=
    everyClass_of_parts rfl (List.forall_mem_singleton.2 hinit.everyClass)
  simp only [Node.parts, List.forall_mem_cons]
  exact ⟨starts, hcondition.everyClass, hchange, hbody⟩

theorem forward_forEachOver (isFor : t.kind = .keyword .forLoop)
    (passes : k.all (passable (.keyword .forLoop)) = true) :
    ForwardAt t k (n + 1) asked (forEachOver statement) Coherent := by
  refine .asking (by rw [isFor]; rfl) (forward_keyword (.of_kind isFor passes)) fun _ => ?_
  refine forward_expectName.next fun name _ => .demand rfl ?_
  refine forward_orExpression.next fun array harray => (forward_bracedOver h).andThen fun body hbody => ?_
  exact .pure (everyClass_of_parts rfl (List.forall_mem_cons.2 ⟨harray.everyClass, hbody⟩))

/-- A function that stands alone has been held against the dialect twice, a member never. -/
theorem forward_routineOver (isFunction : t.kind = .keyword .function)
    (passes : k.all (passable (.keyword .function)) = true) (access : Access) :
    ForwardAt t k (n + 1) asked (routineOver statement access)
      fun routine => Sound routine.body ∧ routine.access = access := by
  refine .asking (by rw [isFunction]; rfl) (forward_keyword (.of_kind isFunction passes))
    fun _ => ?_
  refine forward_expectName.next fun name _ => forward_parameters.next fun names _ => ?_
  exact (forward_bracedOver h).andThen fun body hbody => .pure ⟨hbody, rfl⟩

theorem forward_catchRest {catches : List (Option String × List Node)}
    (hcatches : ∀ handler ∈ catches, Sound handler.2) (name : Option String) :
    Forward start n asked 0 (catchRest statement catches name)
      fun catches => ∀ handler ∈ catches, Sound handler.2 :=
  .demand rfl <| (forward_bracedOver h).andThen fun _ body =>
    .pure (List.forall_mem_append.2 ⟨hcatches, List.forall_mem_singleton.2 body⟩)

theorem forward_tryOver (begins : MayAsk (At t) k (.keyword .tryBlock)) :
    ForwardAt t k (n + 1) asked (tryOver statement) Coherent := by
  refine (forward_keyword begins).first fun _ _ => (forward_bracedOver h).andThen fun body hbody => ?_
  refine (ForwardFrom.loop (Q := fun catches => ∀ handler ∈ catches, Sound handler.2)
    (fun _ => asks_nextIs _) (fun catches t hcatches isCatch => ?_) nofun).andThen
      fun catches hcatches => forward_lastBlock h rfl fun final hfinal => .pure ?_
  · refine forward_mark (of_decide_eq_true isCatch) rfl (.demand rfl ?_)
    refine .ifNext (fun u isName => ?_) (forward_catchRest h hcatches none)
    refine .fewer (n := n + 1) ?_ (Nat.le_succ n)
    exact (forwardAt_name (of_decide_eq_true isName)).first fun name _ =>
      forward_catchRest h hcatches _
  · exact everyClass_of_parts rfl (List.forall_mem_append.2
      ⟨List.forall_mem_append.2 ⟨hbody, List.forall_mem_flatMap.2 hcatches⟩, hfinal⟩)

/-! ## Classes -/

omit h in
theorem forward_friendNames (asks : asksForName t.kind = true)
    (passes : passable t.kind 1 = true) :
    ForwardAt t (some 0) (n + 1) asked (friendNames t) := by
  refine .checked (.asking asks (.advance passes) fun _ => .demand rfl ?_)
  exact forward_nameList.next fun names _ => forward_closing rfl trivial

/-- What is made of a class is coherent if the class is. -/
abbrev CoherentIf (C : Prop) (decl : ClassDecl Node) : Prop :=
  C → decl.Within ClassDecl.Coherent

variable {decl : ClassDecl Node} {C : Prop} (hdecl : CoherentIf C decl)

include hdecl

omit h in
/-- A name and a semicolon follow the type of a field. -/
theorem forward_field (isType : isTypeKind t.kind = true) (access : Access) :
    ForwardAt t (some 0) (n + 1) asked (do
      advance
      let name ← expectName
      let decl := { decl with fieldAccess := Bindings.insert decl.fieldAccess name access }
      demand .semicolon
      return decl) (CoherentIf C) := by
  have closing : ∀ name, Forward Anywhere n true 0 (do
      demand .semicolon
      return { decl with fieldAccess := Bindings.insert decl.fieldAccess name access })
      (CoherentIf C) :=
    fun _ => forward_closing rfl fun c =>
      ⟨(hdecl c).own, (hdecl c).methods, (hdecl c).constructor, (hdecl c).destructor⟩
  obtain ⟨asks, -, usual⟩ := checks_of_isTypeKind isType
  refine .advanceThen true (fun _ => asks) ?_ (fun c known => ?_)
    fun c known s a u reached read none => ?_
  · exact forward_expectName.next fun name _ => closing name
  · cases known
    exact Nat.zero_le _
  · cases known
    obtain ⟨name, left, isName, marked, reached⟩ := rest_of_expectName reached read
    have giving : ∀ decl : ClassDecl Node, Forward Anywhere n true 0 (pure decl) :=
      fun _ => .pure trivial
    obtain ⟨mark, rest, next, isMark⟩ := rest_of_demand (giving _) reached marked none
    have field : declaresField s.rest = true := by
      rw [left, next]
      simp [declaresField, isName, isMark]
    rw [usual, field]
    exact List.mem_singleton_self _

theorem forward_otherMember (t : Token) (access : Access) :
    ForwardAt t (some 0) (n + 1) asked (otherMember statement access decl t t.kind)
      (CoherentIf C) := by
  refine .ite (fun destroys => ?_) fun _ => .ite (fun isType => ?_) fun _ => ?_
  · have isName : t.kind = .ident := of_decide_eq_true (Bool.and_eq_true_iff.mp destroys).1
    refine .checked (ForwardFrom.first (.advance (by rw [isName]; rfl)) fun _ _ => ?_)
    refine .demand rfl <| .demand rfl ?_
    exact (forward_bracedOver h).andThen fun body hbody =>
      .pure fun c => ⟨(hdecl c).own, (hdecl c).methods, (hdecl c).constructor, hbody⟩
  · exact forward_field hdecl isType access
  · intro s here reached
    refine went_noted reached.inside (some t) .strayMember ?_ (fun _ => Nat.le_refl 1) hdecl
    rw [State.rest_eq_cons here]
    exact Nat.le_add_left 1 _

theorem forward_memberOver (access : Access) :
    Forward start (n + 1) asked 1 (memberOver statement access decl) (CoherentIf C) := by
  refine .peekSome rfl fun t => ?_
  have friends : ∀ {g : List String → ClassDecl Node}, (∀ names, CoherentIf C (g names)) →
      asksForName t.kind = true → passable t.kind 1 = true → ForwardAt t (some 0) (n + 1) asked (do
        let names ← friendNames t
        return g names) (CoherentIf C) :=
    fun made asks passes => (forward_friendNames asks passes).first fun names _ => .pure (made names)
  have others : ForwardAt t (some 0) (n + 1) asked (otherMember statement access decl t t.kind)
      (CoherentIf C) := forward_otherMember h hdecl t access
  obtain ⟨kind, payload, line, column⟩ := t
  cases kind with
  | keyword word =>
    cases word with
    | friend | friendClass =>
      exact friends (fun _ c => ⟨(hdecl c).own, (hdecl c).methods, (hdecl c).constructor,
        (hdecl c).destructor⟩) rfl rfl
    | constructor =>
      refine .checked (.asking rfl (.advance rfl) fun _ => ?_)
      refine forward_parameters.next fun names _ => (forward_bracedOver h).andThen fun body hbody => ?_
      refine .pure fun c => ⟨fun name other => ?_, Bindings.forall_insert
        (P := (Sound <| Routine.body ·)) (hdecl c).methods _ hbody, hbody, (hdecl c).destructor⟩
      rw [Bindings.get?_insert, if_neg other.symm]
      exact (hdecl c).own name other
    | function =>
      refine (forward_routineOver h rfl rfl access).first fun routine hroutine => ?_
      refine .pure fun c => ⟨fun name other => ?_, Bindings.forall_insert
        (P := (Sound <| Routine.body ·)) (hdecl c).methods _ hroutine.1, (hdecl c).constructor,
        (hdecl c).destructor⟩
      rw [Bindings.get?_insert, Bindings.get?_insert]
      split
      · exact congrArg some hroutine.2.symm
      · exact (hdecl c).own name other
    | _ => exact others
  | _ => exact others

omit h hdecl in
theorem passable_of_accessOf? {access : Access} (h : accessOf? kind = some access) :
    passable kind 1 = true := by
  unfold accessOf? at h
  split at h <;> first | rfl | cases h

theorem forward_memberRound (t : Token) :
    ForwardAt t (some 0) n asked (memberRound statement decl) (CoherentIf C) := by
  refine .peekAt ?_
  cases found : accessOf? t.kind with
  | none =>
    simp only [found]
    exact (forward_memberOver h hdecl _).fewer (Nat.le_succ n)
  | some access =>
    simp only [found]
    refine .fewer (n := n + 1) ?_ (Nat.le_succ n)
    refine .checked (ForwardFrom.first (.advance (passable_of_accessOf? found)) fun _ _ => ?_)
    exact ((forward_memberOver h hdecl access).fewer (Nat.le_succ n)).mono

theorem forward_membersOver :
    Forward start n asked 0 (membersOver statement decl) (CoherentIf C) := by
  refine (ForwardFrom.loop (fun _ => asks_nextIs _) (fun _ t held _ => ?_) hdecl).andThen fun _ whole =>
    forward_closing rfl whole
  exact forward_memberRound h held t

omit hdecl in
theorem forward_classBody (hdecl : decl.Within ClassDecl.Coherent) :
    Forward start n asked 0 (classBody statement decl) Coherent :=
  .demand rfl <| (forward_membersOver h fun _ : True => hdecl).andThen fun _ whole =>
    .pure (everyClass_classDecl (whole trivial))

omit hdecl in
theorem forward_classOver (begins : MayAsk (At t) k (.keyword .classDef)) :
    ForwardAt t k (n + 1) asked (classOver statement) Coherent := by
  have empty : ∀ name parent,
      ({ name := name, parent := parent, methods := [] } : ClassDecl Node).Within ClassDecl.Coherent :=
    fun _ _ => ⟨fun _ _ => rfl, nofun, nofun, nofun⟩
  have absent : Forward Anywhere n asked 0 (pure Node.missing) Coherent :=
    .pure (everyClass_of_parts rfl nofun)
  refine (forward_keyword begins).first fun _ _ =>
    (forward_expect (.unchecked rfl)).next fun name _ => ?_
  cases name with
  | none => exact absent
  | some name =>
    refine .ifNext (fun u isColon => ?_) (forward_classBody h (empty _ _))
    refine forward_mark (of_decide_eq_true isColon) rfl ?_
    refine (forward_expect (.unchecked rfl)).next fun parent _ => ?_
    cases parent with
    | none => exact absent
    | some parent => exact forward_classBody h (empty _ _)

end Statements

/-! ## Simple statements -/

section Simple

variable {C : ClassDecl Node → Prop}

theorem forward_printStatement (begins : MayAsk start k (.keyword .print)) :
    ForwardFrom start k n asked 1 printStatement (EveryClass C) := by
  refine (forward_keyword begins).andThen fun _ _ => .demand rfl ?_
  refine (forward_withFactors fun _ _ h => forward_elementsOver h _).andThen fun arguments all => ?_
  exact forward_closing rfl (everyClass_of_parts rfl fun p isPart => (all p isPart).everyClass)

theorem everyClass_around {node part : Node} (plain : node.isDefinition = false)
    (parts : node.parts = [part]) (h : part.OnlyExpressions) : node.EveryClass C := by
  refine everyClass_of_parts plain ?_
  rw [parts]
  exact List.forall_mem_singleton.2 h.everyClass

theorem forward_returnStatement (begins : MayAsk start k (.keyword .ret)) :
    ForwardFrom start k n asked 1 returnStatement (EveryClass C) :=
  (forward_keyword begins).andThen fun _ _ => forward_orExpression.next fun _ value =>
    forward_closing rfl (everyClass_around rfl rfl value)

theorem forward_wordStatement {word : Keyword} {build : Node → Node}
    (begins : MayAsk start k (.keyword word))
    (built : ∀ node, node.OnlyExpressions → (build node).EveryClass C) :
    ForwardFrom start k n asked 1 (wordStatement word build) (EveryClass C) := by
  refine (forward_keyword begins).andThen fun _ _ => .demand rfl ?_
  exact forward_orExpression.next fun value hvalue =>
    .demand rfl <| forward_closing rfl (built value hvalue)

theorem forward_exitStatement (begins : MayAsk start k (.keyword .exit)) :
    ForwardFrom start k n asked 1 exitStatement (EveryClass C) := by
  refine (forward_keyword begins).andThen fun _ _ => .look (looks_nextIs _) fun called => ?_
  refine .ite (fun _ => .demand rfl ?_) fun _ =>
    forward_closing rfl (everyClass_around rfl rfl (onlyExpressions_leaf rfl rfl))
  refine forward_orExpression.next fun code hcode => ?_
  exact .demand rfl <| forward_closing rfl (everyClass_around rfl rfl hcode)

/-- A name and an operator follow the type of a declaration. -/
theorem forward_typedDeclaration (isType : isTypeKind t.kind = true) :
    ForwardAt t (some 0) (n + 1) asked (typedDeclaration t) (EveryClass C) := by
  have value : ∀ name, Forward Anywhere n true 0 (do
      let value ← orExpression
      return Node.assign name value (some t.display)) (EveryClass C) :=
    fun name => forward_orExpression.next fun _ value => .pure (everyClass_around rfl rfl value)
  obtain ⟨asks, most, usual⟩ := checks_of_isTypeKind isType
  refine .checked (.advanceThen true (fun _ => asks) ?_ (fun c known => ?_)
    fun c known s a u reached read none => ?_)
  · exact forward_expectName.next fun name _ => .demand rfl <| value name
  · cases known
    exact Nat.le_of_eq most.symm
  · cases known
    obtain ⟨name, left, isName, assigned, reached⟩ := rest_of_expectName reached read
    obtain ⟨op, rest, next, isOp⟩ := rest_of_demand (value _) reached assigned none
    have noField : declaresField s.rest = false := by
      rw [left, next]
      simp [declaresField, isOp]
    rw [usual, noField]
    exact List.mem_singleton_self _

theorem everyClass_assignTo {target value : Node} (htarget : target.OnlyExpressions)
    (hvalue : value.OnlyExpressions) : (assignTo target value).EveryClass C := by
  have held : ∀ {node : Node}, node.isDefinition = false → (∀ p ∈ node.parts,
      p = value ∨ p ∈ target.parts) → node.EveryClass C := by
    intro node plain parts
    refine everyClass_of_parts plain fun p isPart => ?_
    rcases parts p isPart with rfl | isPart
    · exact hvalue.everyClass
    · exact OnlyExpressions.everyClass fun m occurs => htarget m (.part isPart occurs)
  unfold assignTo
  split
  all_goals exact held rfl (by simp [Node.parts])

theorem forward_assignment {target : Node} (htarget : target.OnlyExpressions) :
    Forward start n asked 0 (assignment target) (EveryClass C) := by
  refine (forward_expect (.unchecked rfl)).next fun op _ => ?_
  cases op with
  | none => exact .pure (everyClass_of_parts rfl nofun)
  | some op =>
    refine .ite (fun _ => ?_) fun _ =>
      ((phrase_failNode _ _).imp fun _ => OnlyExpressions.everyClass).mono
    exact forward_orExpression.next fun value hvalue => .pure (everyClass_assignTo htarget hvalue)

theorem forward_bareCall (t : Token) {target : Node} (htarget : target.OnlyExpressions) :
    Forward start n asked 0 (referenceStatement.bareCall t target) (∀ node ∈ ·, EveryClass C node) := by
  cases target with
  | call name arguments => exact .pure fun _ same => Option.some.inj same ▸ htarget.everyClass
  | _ => exact (forward_complain _ _).next fun _ _ => .pure nofun

theorem forward_referenceStatement (t : Token) :
    Forward start n asked 1 (referenceStatement t) (∀ node ∈ ·, EveryClass C node) := by
  have present : ∀ {node : Node}, node.EveryClass C →
      ∀ found ∈ if isPresent node then some node else none, EveryClass C found := by
    intro node hnode found isFound
    split at isFound
    · exact Option.some.inj isFound ▸ hnode
    · cases isFound
  refine forward_factor.andThen fun target htarget =>
    .glance (forward_bareCall t htarget) fun op => ?_
  refine .ite (fun _ => (forward_assignment htarget).andThen fun node hnode => .pure (present hnode))
    fun _ => ?_
  refine .ite (fun compound => ?_) fun _ => .ite (fun steps => ?_) fun _ =>
    forward_bareCall t htarget
  · refine (forward_mark (kind_of_isOpAmong compound) rfl ?_).mono
    exact forward_orExpression.next fun right hright => .pure (present (everyClass_assignTo htarget
      (onlyExpressions_of_parts rfl (phrases_pair htarget hright))))
  · cases target with
    | var name =>
      refine (forward_mark (kind_of_isOpAmong steps) rfl ?_).mono
      exact .pure fun _ same => Option.some.inj same ▸ everyClass_around rfl rfl htarget
    | _ => exact (forward_complain _ _).next fun _ _ => .pure nofun

theorem forward_superStatement (isSuper : ∀ c ∈ k, c = 0 ∧ t.kind = .keyword .super) :
    ForwardAt t k n asked (superStatement t) (∀ node ∈ ·, EveryClass C node) := by
  have read : ForwardAt t (k.map (· + 1)) n asked factor OnlyExpressions := by
    cases k with
    | none => exact forward_factor.unbooked
    | some c =>
      obtain ⟨rfl, begins⟩ := isSuper c rfl
      exact forward_superFactor begins
  refine .checked (read.andThen fun node hnode => ?_)
  cases node with
  | super method arguments => exact .pure fun _ same => Option.some.inj same ▸ hnode.everyClass
  | _ => exact (forward_complain _ _).next fun _ _ => .pure nofun

theorem forward_finish (closed : Bool) {node : Option Node} (hnode : ∀ found ∈ node, found.EveryClass C) :
    Forward start n asked 0 (finish closed node) (EveryClass C) := by
  cases node with
  | none => exact .pure (everyClass_of_parts rfl nofun)
  | some node =>
    cases closed with
    | true => exact forward_closing rfl (hnode node rfl)
    | false => exact .pure (hnode node rfl)

/-- The words that begin statements with others in them. -/
def isCompound : Kind → Bool
  | .keyword k => [.ifBranch, .whileLoop, .forLoop, .function, .tryBlock, .classDef].contains k
  | _ => false

/-- Words that begin statements have mostly been held against the dialect once. -/
theorem forward_simpleStatement {statement : Bool → Parser Node} (simple : isCompound t.kind = false)
    (closed : Bool) :
    ForwardAt t (some (if isStatementKeyword t.kind then 1 else 0)) (n + 1) asked
      (statementFrom statement closed t) (EveryClass C) := by
  have reference : ForwardAt t (some 0) (n + 1) asked
      (do finish closed (← referenceStatement t)) (EveryClass C) :=
    (forward_referenceStatement t).first fun node hnode => forward_finish _ hnode
  have failing : ∀ what, ForwardAt t (some 0) (n + 1) asked (failNode (some t) what) (EveryClass C) :=
    fun what => (phrase_failNode _ what).imp fun _ => OnlyExpressions.everyClass
  unfold statementFrom
  cases kind : t.kind with
  | ident => exact reference
  | keyword word =>
    rw [kind] at simple
    cases word with
    | intType | textType | boolType | floatType =>
      exact forward_typedDeclaration (by rw [kind]; rfl)
    | ifBranch | whileLoop | forLoop | function | tryBlock | classDef => cases simple
    | throw | importFile =>
      exact .checked (forward_wordStatement (.of_kind kind rfl) fun _ => everyClass_around rfl rfl)
    | exit => exact .checked (forward_exitStatement (.of_kind kind rfl))
    | super =>
      refine (forward_superStatement fun c known => ?_).first fun node hnode => forward_finish _ hnode
      cases known
      exact ⟨rfl, kind⟩
    | this => exact reference
    | print =>
      refine .checked (ForwardFrom.first (Q := EveryClass C)
        (forward_printStatement (.of_kind kind rfl)) fun node hnode => ?_)
      exact forward_finish _ fun _ same => Option.some.inj same ▸ hnode
    | ret => exact .checked (forward_returnStatement (.of_kind kind rfl))
    | _ => exact failing _
  | _ => exact failing _

end Simple

/-! ## All statements -/

section Statement

variable {statement : Bool → Parser Node}
  (h : ∀ b, Forward Anywhere n false 1 (statement b) Coherent)

include h

theorem forward_statementFrom (closed : Bool) (t : Token) :
    ForwardAt t (some (if isStatementKeyword t.kind then 1 else 0)) (n + 1) asked
      (statementFrom statement closed t) Coherent := by
  cases simple : isCompound t.kind with
  | false => exact forward_simpleStatement simple closed
  | true =>
    unfold statementFrom
    cases kind : t.kind with
    | keyword word =>
      rw [kind] at simple
      cases word with
      | ifBranch => exact .checked (forward_ifOver (h true) (.of_kind kind rfl))
      | whileLoop => exact .checked (forward_whileOver (h true) (.of_kind kind rfl))
      | forLoop =>
        refine .checked (.look (looks_peekAhead 1) fun name =>
          .look (looks_peekAhead 2) fun each => ?_)
        refine .checked (.ite (fun _ => forward_forEachOver (h true) kind rfl) fun _ => ?_)
        exact forward_forOver (h true) kind rfl (h false)
      | function =>
        exact .checked ((forward_routineOver (h true) kind rfl _).first fun routine hroutine =>
          .pure (everyClass_function hroutine.1))
      | tryBlock => exact .checked (forward_tryOver (h true) (.of_kind kind rfl))
      | classDef => exact .checked (forward_classOver (h true) (.of_kind kind rfl))
      | _ => cases simple
    | _ =>
      rw [kind] at simple
      cases simple

theorem forward_statementStep (closed : Bool) :
    Forward start (n + 1) asked 1 (statementStep statement closed) Coherent := by
  refine .before (.loop (Q := AnyResult) (fun _ => asks_nextIs _)
    (fun _ t _ skipped => .advance ?_) trivial) fun _ _ => ?_
  · rcases Bool.or_eq_true_iff.mp skipped with isMark | closes
    · rw [of_decide_eq_true isMark]
      rfl
    · rw [of_decide_eq_true closes]
      rfl
  refine .glance (.pure (everyClass_of_parts rfl nofun)) fun t => ?_
  have read : ForwardAt t _ (n + 1) asked _ Coherent := forward_statementFrom h closed t
  refine .ite (fun begins => ?_) fun other => ?_
  · rw [if_pos begins] at read
    exact .checked read
  · rw [if_neg other] at read
    exact read

end Statement

theorem forward_statementAt (n : Nat) (closed : Bool) :
    Forward start n asked 1 (statementAt n closed) Coherent := by
  induction n generalizing start asked closed with
  | zero => exact fun s _ reached => absurd reached.few (Nat.not_lt_zero _)
  | succ n ih => exact forward_statementStep (fun b => ih b) closed

theorem forward_statement (closed : Bool) :
    Forward start n asked 1 (statement closed) Coherent := by
  intro s _ reached
  have reading : Forward Anywhere (s.remaining + 1) asked 1 _ Coherent :=
    forward_statementAt _ closed
  exact reading s trivial ⟨reached.inside, Nat.lt_succ_self _, reached.asks⟩

/-! ## Programs -/

def State.announce (s : State) (word : String) : State :=
  if s.strict then
    match Dialect.ofStarter? word with
    | some d => { s with dialect := some d }
    | none => s
  else s

theorem State.announce_eq (s : State) (word : String) :
    ∃ found, s.announce word = { s with dialect := found } := by
  unfold State.announce
  split
  · split
    · exact ⟨_, rfl⟩
    · exact ⟨s.dialect, rfl⟩
  · exact ⟨s.dialect, rfl⟩

def statementsToEnd : Parser Node := do
  let statements ← loop (fun _ => nextIs fun _ => true)
    (fun statements => do
      let node ← statement
      return if isPresent node then statements ++ [node] else statements)
    []
  return .program statements

theorem program_announced {t : Token} (isStarter : t.kind = .keyword .start)
    (here : s.token? = some t) :
    program s = (advance >>= fun _ => statementsToEnd) (s.announce t.display) := by
  unfold program
  rw [bind_apply (peek_apply s), here]
  simp only [if_pos isStarter]
  rfl

theorem forward_statementsToEnd : Forward start n asked 0 statementsToEnd Coherent := by
  refine (ForwardFrom.loop (Q := Sound) (fun _ => asks_nextIs _) (fun statements u held _ => ?_)
    (List.forall_mem_nil _)).andThen fun _ whole => .pure (everyClass_of_parts rfl whole)
  exact (forward_statement true).andThen fun node hnode => .pure (sound_present held hnode)

theorem went_announced (isStarter : t.kind = .keyword .start) (inside : s.Inside)
    (here : s.token? = some t) : Went 1 (some 0) (s.announce t.display) Coherent (program s) := by
  obtain ⟨found, announced⟩ := s.announce_eq t.display
  rw [program_announced isStarter here, announced]
  have forward : ForwardAt t (some 0) (s.remaining + 1) false
      (advance >>= fun _ => statementsToEnd) Coherent :=
    ForwardFrom.first (.advance (by rw [isStarter]; rfl)) fun _ _ => forward_statementsToEnd
  exact forward { s with dialect := found } here ⟨inside, Nat.lt_succ_self _, nofun⟩

theorem went_undecided (isStarter : t.kind = .keyword .start) (inside : s.Inside)
    (here : s.token? = some t) (undecided : s.dialect = none) :
    Went 1 none s Coherent (program s) := by
  have went := went_announced isStarter inside here
  obtain ⟨found, announced⟩ := s.announce_eq t.display
  rw [announced] at went
  have onward : Onward s { s with dialect := found } :=
    onward_of_stays inside rfl rfl (.of_undecided rfl undecided)
  exact went.after (i := 0) (k := none) onward (Nat.le_refl _) nofun

/-- A reading that comes to its end leaves nothing, and gives a program. -/
theorem program_eq_ok {t : State} {node : Node} (h : program s = .ok node t) :
    (∃ statements, node = .program statements) ∧ t.token? = none := by
  unfold program at h
  rw [bind_apply (peek_apply s)] at h
  cases here : s.token? with
  | none =>
    rw [here] at h
    cases h
  | some first =>
    rw [here] at h
    by_cases isStarter : first.kind = .keyword .start
    · simp only [if_pos isStarter] at h
      obtain ⟨_, _, _, h⟩ := bind_eq_ok h
      obtain ⟨_, u, _, h⟩ := bind_eq_ok h
      obtain ⟨statements, v, looped, h⟩ := bind_eq_ok h
      cases h
      obtain ⟨w, ended⟩ := repeatWhile_eq_ok looped
      refine ⟨⟨statements, rfl⟩, ?_⟩
      rw [nextIs_apply, ← State.token?_eq, EStateM.Result.ok.injEq] at ended
      obtain ⟨none_passes, rfl⟩ := ended
      cases left : w.token? with
      | none => rfl
      | some last =>
        rw [left] at none_passes
        cases none_passes
    · simp only [if_neg isStarter] at h
      cases h

end Hetman.Parser
