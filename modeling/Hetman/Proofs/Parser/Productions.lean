import Hetman.Proofs.Parser.Agreement

/-!
# The productions read alike

In a pairing, each production goes through the two sides in the same way if the parser for the nodes
inside it does; the nesting is unrolled by induction on the fuel. The main statements are
`agree_program`, and `parse_alike` for whole texts.
-/

namespace Hetman.Parser

variable {t t' : Token} {b a : Node} {decl decl' : ClassDecl Node} {n m : Nat}
  {step step' : Parser Node} {s : State} {closed : Bool}

/-- A member without a keyword of its own: a destructor, a field, or nothing that a class has. -/
def otherMember (statement : Parser Node) (access : Access) (decl : ClassDecl Node) (t : Token)
    (kind : Kind) : Parser (ClassDecl Node) :=
  if namesDestructor t then do
    checkDialect t
    advance
    demand .lparen
    demand .rparen
    let body ← bracedOver statement
    return { decl with destructor := some body }
  else if isTypeKind kind then do
    advance
    let name ← expectName
    let decl := { decl with fieldAccess := Bindings.insert decl.fieldAccess name access }
    demand .semicolon
    return decl
  else do
    report (.complaint (some t) .strayMember)
    advance
    return decl

/-- A loop with a counter after its name. -/
def forTail (statement step : Parser Node) (name : String) : Parser Node := do
  if name.isEmpty then return .missing
  else
    let op ← expect .op
    if (op.map (·.hasText ":=")).getD false then
      let init ← orExpression
      demand .semicolon
      let condition ← orExpression
      demand .semicolon
      let change ← step
      demand .rparen
      let body ← bracedOver statement
      return .forLoop (.assign name init none) condition change body
    else failNode op .forStart

/-- A loop over an array after its name. -/
def eachTail (statement : Parser Node) (name : String) : Parser Node := do
  let array ← orExpression
  let body ← bracedOver statement
  return .forEach name array body

/-- The two tokens after a keyword make it a loop over an array. -/
def eachAhead (rest : List Token) : Bool :=
  rest[1]?.map (·.kind) = some .ident && rest[2]?.map (·.kind) = some (.keyword .each)

def eachLook : Parser Bool := do
  let next ← peekAhead 1
  let afterNext ← peekAhead 2
  return (next.map (·.kind)) = some .ident && (afterNext.map (·.kind)) = some (.keyword .each)

/-- The choice between the two kinds of loops. -/
def forAhead (t : Token) (each counted : Parser Node) : Parser Node := do
  let isEach ← eachLook
  checkDialect t
  if isEach then each else counted

theorem eachLook_apply (s : State) : eachLook s = .ok (eachAhead s.rest) s := by
  have first : peekAhead 1 s = .ok s.rest[1]? s := peekAhead_apply 1 s
  have second : peekAhead 2 s = .ok s.rest[2]? s := peekAhead_apply 2 s
  unfold eachLook
  rw [bind_apply first, bind_apply second]
  rfl

/-- A keyword and an expression in parentheses. -/
def wordStatement (k : Keyword) (build : Node → Node) : Parser Node := do
  demand (.keyword k)
  demand .lparen
  let value ← orExpression
  demand .rparen
  demand .semicolon
  return build value

/-- A clause that catches, after what it catches. -/
def catchRest (statement : Parser Node) (catches : List (Option String × List Node))
    (name : Option String) : Parser (List (Option String × List Node)) := do
  demand .rparen
  let handler ← bracedOver statement
  return catches ++ [(name, handler)]

/-- The body of a class. -/
def classBody (statement : Parser Node) (decl : ClassDecl Node) : Parser Node := do
  demand .lbrace
  return .classDecl (← membersOver statement decl)

/-- The pairs of a dictionary after the first one. -/
def morePairs (factor : Parser Node) (first : Node × Node) : Parser (List (Node × Node) × Bool) :=
  loop
    (fun (state : List (Node × Node) × Bool) => do
      if state.2 then nextHas .comma else return false)
    (fun state => do
      advance
      if ← nextHas .rbrace then return (state.1, false)
      else
        let pair ← pairOver factor
        return (state.1 ++ [pair], true))
    ([first], true)

namespace Pairing

variable {P : Pairing} {start : State → State → Prop} {γ : Type}

/-! ## A token and what follows it -/

namespace AgreeFrom

variable {α : Type} {w : α → γ} {kind : Kind} {f g : Unit → Parser α}
  (next : P.Agree w (f ()) (g ()))

include next

theorem advance : P.AgreeFrom start w (Parser.advance >>= f) (Parser.advance >>= g) :=
  agree_advance.andThen fun _ => next

theorem demand : P.AgreeFrom start w (Parser.demand kind >>= f) (Parser.demand kind >>= g) :=
  (agree_demand kind).andThen fun _ => next

theorem checkDialect :
    P.AgreeFrom start w (Parser.checkDialect t >>= f) (Parser.checkDialect t' >>= g) :=
  (agree_checkDialect t t').andThen fun _ => next

end AgreeFrom

theorem agree_closing {α : Type} {w : α → γ} {a b : α} (kind : Kind) (same : w a = w b) :
    P.AgreeFrom start w (do demand kind; return a) (do demand kind; return b) :=
  .demand <| .pure same

/-! ## Levels -/

theorem agree_level {isOp : Token → Bool} {build : Node → String → Node → Node}
    {operand operand' : Parser Node} (h : P.Agree P.node operand operand')
    (ops : ∀ t t', P.face t = P.face t' → isOp t' = isOp t) (quiet : P.Quiet isOp)
    (built : ∀ left left' op right right', P.node left = P.node left' →
      P.node right = P.node right' → P.node (build left op right) = P.node (build left' op right')) :
    P.Agree P.node (level isOp build operand) (level isOp build operand') := by
  refine h.bind fun first first' same => .loop (fun _ _ _ => agree_nextIs ops quiet) ?_ same
  intro left left' sameLeft
  refine (agree_expectText fun _ => Kind.noConfusion).andThen fun op => ?_
  exact h.bind fun right right' sameRight => .pure (built _ _ _ _ _ sameLeft sameRight)

/-- Factors that read alike and stop where there is no token. -/
structure Operands (P : Pairing) (factor factor' : Parser Node) : Prop where
  agree : P.Agree P.node factor factor'
  hungry : Hungry factor

variable {v : Node → γ}

section Factors

variable {factor factor' : Parser Node} (h : P.Operands factor factor')

include h

theorem agree_orOver : P.Agree P.node (orOver factor) (orOver factor') := by
  have binary : ∀ left left' op right right', P.node left = P.node left' →
      P.node right = P.node right' →
        P.node (binaryNode left op right) = P.node (binaryNode left' op right') := by
    intro left left' op right right' sameLeft sameRight
    exact congrArg₂ (Node.binary · (.ofSymbol op) ·) sameLeft sameRight
  have comparison : ∀ left left' op right right', P.node left = P.node left' →
      P.node right = P.node right' →
        P.node (comparisonNode left op right) = P.node (comparisonNode left' op right') := by
    intro left left' op right right' sameLeft sameRight
    exact congrArg₂ (Node.comparison · (.ofSymbol op) ·) sameLeft sameRight
  have among : ∀ ops t t', P.face t = P.face t' → isOpAmong ops t' = isOpAmong ops t :=
    fun ops _ _ same => isOpAmong_eq same ops
  have quiet : ∀ ops, P.Quiet (isOpAmong ops) :=
    fun ops opened => (P.apart opened.1).isOpAmong ops
  have power : P.Agree P.node (exponentOver factor) (exponentOver factor') :=
    agree_level h.agree (among _) (quiet _) binary
  have term : P.Agree P.node (termOver factor) (termOver factor') :=
    agree_level power (among _) (quiet _) binary
  have sum : P.Agree P.node (sumOver factor) (sumOver factor') :=
    agree_level term (among _) (quiet _) binary
  have compared : P.Agree P.node (comparisonOver factor) (comparisonOver factor') :=
    agree_level sum (among _) (quiet _) comparison
  -- the two loosest levels go by the text of a token of any kind, which no keyword is spelled like
  have both : P.Agree P.node (andOver factor) (andOver factor') :=
    agree_level compared (fun t t' same => hasText_eq same (by decide +kernel))
      (fun opened t first => (P.apart opened.1 t first).2.1) binary
  exact agree_level both (fun t t' same => hasText_eq same (by decide +kernel))
    (fun opened t first => (P.apart opened.1 t first).2.2) binary

theorem hungry_orOver : Hungry (orOver factor) :=
  (((((h.hungry.bind _).bind _).bind _).bind _).bind _).bind _

/-! ## Parts of factors -/

theorem agree_elementsOver (close : Kind) :
    P.Agree P.nodes (elementsOver factor close) (elementsOver factor' close) := by
  refine agree_nextKind.andThen fun kind => .ite Iff.rfl (fun _ => .pure rfl) fun _ => ?_
  refine (agree_orOver h).bind fun first first' same => ?_
  refine .loop (fun _ _ _ => agree_prolongs rfl) (fun elements elements' sameElements => ?_) ?_
  · refine .advance ?_
    exact (agree_orOver h).bind fun element element' sameElement =>
      .pure (nodes_snoc sameElements sameElement)
  · exact congrArg ([·]) same

omit h in
theorem isSome_eq {arguments arguments' : Option (List Node)}
    (same : P.nodes? arguments = P.nodes? arguments') : arguments'.isSome = arguments.isSome := by
  have isSome : ∀ nodes, (P.nodes? nodes).isSome = nodes.isSome := by
    intro nodes
    cases nodes <;> rfl
  rw [← isSome arguments', ← same, isSome]

theorem agree_argumentsOver :
    P.Agree P.nodes? (argumentsOver factor) (argumentsOver factor') := by
  refine .demand <| agree_nextKind.andThen fun kind => ?_
  refine .ite Iff.rfl (fun _ => .demand (.pure rfl)) fun _ => ?_
  refine (agree_orOver h).bind fun first first' same => ?_
  refine .bind (.loop (v := P.nodes?) ?_ ?_ ?_) fun arguments arguments' sameArguments => ?_
  · intro arguments arguments' sameArguments
    exact .ite (by rw [isSome_eq sameArguments]) (fun _ => agree_prolongs rfl) fun _ => .pure rfl
  · intro arguments arguments' sameArguments
    refine .advance <| agree_ifHas ?_ fun closed => ?_
    · exact fun _ => ((hungry_orOver h).bind _).needs
    cases closed with
    | true =>
      refine .peek ?_ (fun _ => ?_) fun t t' sameToken => ?_
      · exact (agree_complain rfl _).andThen fun _ => .pure rfl
      · exact ((objects_complain _ _).bind fun _ => .pure _).needs
      · exact (agree_complain (faces_some sameToken) _).andThen fun _ => .pure rfl
    | false =>
      refine (agree_orOver h).bind fun argument argument' sameArgument => .pure ?_
      cases arguments with
      | none =>
        cases arguments' with
        | none => rfl
        | some nodes' => cases sameArguments
      | some nodes =>
        cases arguments' with
        | none => cases sameArguments
        | some nodes' =>
          exact congrArg some (nodes_snoc (Option.some.inj sameArguments) sameArgument)
  · exact congrArg (some [·]) same
  · refine .ite (by rw [isSome_eq sameArguments]) (fun _ => ?_) fun _ => .pure sameArguments
    exact .demand <| .pure sameArguments

theorem agree_pairOver :
    P.Agree (fun pair => (P.node pair.1, P.node pair.2)) (pairOver factor) (pairOver factor') := by
  refine (agree_orOver h).bind fun key key' sameKey => .demand ?_
  exact (agree_orOver h).bind fun value value' sameValue =>
    .pure (congrArg₂ Prod.mk sameKey sameValue)

theorem agree_morePairs {first first' : Node × Node}
    (same : (P.node first.1, P.node first.2) = (P.node first'.1, P.node first'.2)) :
    P.Agree (fun state => (Node.respellPairs P.hint P.name state.1, state.2))
      (morePairs factor first) (morePairs factor' first') := by
  have added : ∀ (pairs pairs' : List (Node × Node)) (pair pair' : Node × Node),
      Node.respellPairs P.hint P.name pairs = Node.respellPairs P.hint P.name pairs' →
      (P.node pair.1, P.node pair.2) = (P.node pair'.1, P.node pair'.2) →
        Node.respellPairs P.hint P.name (pairs ++ [pair]) =
          Node.respellPairs P.hint P.name (pairs' ++ [pair']) := by
    intro pairs pairs' pair pair' same samePair
    obtain ⟨sameKey, sameValue⟩ := Prod.mk.inj samePair
    simp only [Node.respellPairs_append, Node.respellPairs, same, sameKey, sameValue]
  refine .loop (fun state state' same => ?_) (fun state state' same => ?_)
    (congrArg (·, true) (added [] [] _ _ rfl same))
  · exact .ite (by rw [(Prod.mk.inj same).2]) (fun _ => agree_prolongs rfl) fun _ => .pure rfl
  · obtain ⟨samePairs, _⟩ := Prod.mk.inj same
    refine .advance <| agree_ifHas ?_ fun closed => ?_
    · exact fun _ => (((hungry_orOver h).bind _).bind _).needs
    cases closed with
    | true => exact .pure (congrArg (·, false) samePairs)
    | false =>
      exact (agree_pairOver h).bind fun pair pair' samePair =>
        .pure (congrArg (·, true) (added _ _ _ _ samePairs samePair))

theorem agree_dictionaryOver :
    P.Agree P.node (dictionaryOver factor) (dictionaryOver factor') := by
  refine .demand ?_
  refine agree_ifNeeding (fun t t' same => by rw [kind_eq same]) (fun _ => ?_) fun opened => ?_
  · exact needs_demand (.pure _)
  cases opened with
  | true =>
    refine (agree_pairOver h).bind fun first first' sameFirst => ?_
    exact (agree_morePairs h sameFirst).bind fun state state' sameState =>
      agree_closing _ (congrArg Node.dictionary (Prod.mk.inj sameState).1)
  | false => exact agree_closing _ rfl

theorem spends_dictionaryOver : Spends 2 (dictionaryOver factor) := by
  have closing : ∀ pairs, Spends 1 (do demand .rbrace; return Node.dictionary pairs) :=
    fun pairs => (Spends.demand _).bind fun _ => .ofSteady (.pure _)
  refine (Spends.demand _).bind fun _ => .after (steady_nextIs _) fun opened => ?_
  cases opened with
  | false => exact closing []
  | true =>
    refine .after (agree_pairOver h).moves fun first => ?_
    exact .after (agree_morePairs h rfl).moves fun state => closing state.1

theorem agree_castOver : P.Agree P.node (castOver factor) (castOver factor') := by
  refine .peekSome rfl rfl fun t t' same => ?_
  refine .advance <| .checkDialect ?_
  refine .demand <| (agree_orOver h).bind fun operand operand' sameOperand => ?_
  exact .demand <| .pure (congrArg₂ Node.cast (kind_eq same).symm sameOperand)

theorem agree_inputOver : P.Agree P.node (inputOver factor) (inputOver factor') := by
  refine (agree_expectChecked fun _ _ same _ => same).bind fun _ _ _ => ?_
  refine .demand <| (agree_orOver h).bind fun prompt prompt' same => ?_
  exact .demand <| .pure (congrArg Node.input same)

/-! ## References -/

/-- A view that shows what the sides have in common at a node, and no more but for variables. -/
structure Sees (P : Pairing) (v : Node → γ) : Prop where
  node : ∀ a b, v a = v b → P.node a = P.node b
  other : ∀ a b, a.varName? = none → b.varName? = none → P.node a = P.node b → v a = v b

omit h in
theorem sees_node : Sees P P.node :=
  ⟨fun _ _ same => same, fun _ _ _ _ same => same⟩

/-- What can be assigned to: a variable shows its own name. -/
def target (P : Pairing) (a : Node) : Node × Option String :=
  (P.node a, a.varName?)

omit h in
theorem sees_target : Sees P P.target where
  node _ _ same := (Prod.mk.inj same).1
  other _ _ ha hb same := by rw [target, target, same, ha, hb]

omit h in
theorem eq_var_of_node {x : String} (same : P.node (.var x) = P.node b) :
    ∃ y, b = .var y ∧ P.name x = P.name y := by
  have names := congrArg Node.varName? same
  rw [Node.varName?_respell, Node.varName?_respell] at names
  obtain ⟨y, found, sameName⟩ := Option.map_eq_some_iff.mp names.symm
  exact ⟨y, Node.eq_var_of_varName? found, sameName.symm⟩

theorem agree_indicesOver (sees : Sees P v) (same : v a = v b) :
    P.Agree v (indicesOver factor a) (indicesOver factor' b) := by
  refine .loop (fun _ _ _ => agree_prolongs rfl) (fun base base' sameBase => ?_) same
  refine .advance <| (agree_orOver h).bind fun index index' sameIndex => ?_
  refine .demand <| .pure (sees.other _ _ rfl rfl ?_)
  exact congrArg₂ Node.lookup (sees.node _ _ sameBase) sameIndex

theorem agree_propertiesOver (sees : Sees P v) (same : v a = v b) :
    P.Agree v (propertiesOver factor a) (propertiesOver factor' b) := by
  refine .loop (fun _ _ _ => agree_prolongs rfl) (fun base base' sameBase => ?_) same
  have bases := sees.node _ _ sameBase
  have property : ∀ name, v (.property base name) = v (.property base' name) := fun name =>
    sees.other _ _ rfl rfl (congrArg (Node.property · name) bases)
  refine .advance <| agree_expectName.andThen fun name => ?_
  refine (agree_prolongs rfl).andThen fun called => ?_
  cases called with
  | true =>
    refine (agree_argumentsOver h).bind fun arguments arguments' sameArguments => ?_
    split
    · rename_i object
      obtain ⟨object', rfl, sameObject⟩ := eq_var_of_node bases
      refine .pure (sees.other _ _ rfl rfl ?_)
      exact congrArg₂ Node.call (P.name_dotted object object' name sameObject) sameArguments
    · rename_i other
      split
      · rename_i object'
        obtain ⟨object, rfl, _⟩ := eq_var_of_node bases.symm
        exact (other object rfl).elim
      · exact .pure (property name)
  | false => exact .pure (property name)

theorem agree_referenceOver (sees : Sees P v)
    (named : v (.var (if t.kind = .keyword .this then "this" else t.display)) =
      v (.var (if t'.kind = .keyword .this then "this" else t'.display))) :
    P.AgreeFrom start v (referenceOver factor t) (referenceOver factor' t') := by
  have chain : ∀ a b : Node, v a = v b → P.Agree v
      (indicesOver factor a >>= propertiesOver factor)
      (indicesOver factor' b >>= propertiesOver factor') := fun a b sameNode =>
    (agree_indicesOver h sees sameNode).bind fun _ _ sameBase =>
      agree_propertiesOver h sees sameBase
  refine .checkDialect <| .advance ?_
  refine (agree_prolongs rfl).andThen fun called => ?_
  cases called with
  | true =>
    refine (agree_argumentsOver h).bind fun arguments arguments' sameArguments => ?_
    refine chain _ _ (sees.other _ _ rfl rfl ?_)
    exact congrArg₂ Node.call (Node.var.inj (sees.node _ _ named)) sameArguments
  | false => exact chain _ _ named

theorem agree_newObjectOver (t t' : Token) :
    P.AgreeFrom start P.node (newObjectOver factor t) (newObjectOver factor' t') := by
  refine .checkDialect <| .advance ?_
  refine agree_expectName.andThen fun className => .ite Iff.rfl (fun _ => .pure rfl) fun _ => ?_
  exact (agree_argumentsOver h).bind fun arguments arguments' same =>
    .pure (congrArg (Node.newObject className) same)

theorem agree_superOver (same : P.face t = P.face t') :
    P.AgreeFrom start P.node (superOver factor t) (superOver factor' t') := by
  refine .checkDialect <| .advance ?_
  refine .demand <| agree_expectName.andThen fun method => ?_
  refine (agree_prolongs rfl).andThen fun called => ?_
  cases called with
  | true =>
    exact (agree_argumentsOver h).bind fun arguments arguments' sameArguments =>
      .pure (congrArg (Node.super method) sameArguments)
  | false => exact agree_failNode (faces_some same) _

omit h in
theorem keyAhead_eq {next next' after after' : Option Token}
    (same : next'.map (·.kind) = next.map (·.kind))
    (same' : after'.map (·.kind) = after.map (·.kind)) :
    keyAhead next' after' = keyAhead next after := by
  have seen : ∀ next after : Option Token, keyAhead next after = (next.map (·.kind)).any fun k =>
      [.string, .ident, .number].contains k || (after.map (·.kind)).any (· = .colon) := by
    intro next after
    cases next <;> cases after <;> rfl
  rw [seen, seen, same, same']

omit h in
theorem keyAhead_append {rest : List Token} (h : keyAhead rest[1]? rest[2]? = true)
    (more : List Token) : keyAhead (rest ++ more)[1]? (rest ++ more)[2]? = true := by
  rcases rest with _ | ⟨a, _ | ⟨b, _ | ⟨c, rest⟩⟩⟩
  · cases h
  · cases h
  · have isKey : [Kind.string, .ident, .number].contains b.kind = true := by
      simpa [keyAhead] using h
    show ([Kind.string, .ident, .number].contains b.kind || _) = true
    rw [isKey]
    rfl
  · exact h

/-- A brace opens a dictionary by the two tokens after it; without these there is a problem. -/
theorem agree_braced (same : P.face t = P.face t') (what : Complaint) :
    P.AgreeFrom start P.node
      (do if ← opensDictionary then dictionaryOver factor else failNode (some t) what)
      (do if ← opensDictionary then dictionaryOver factor' else failNode (some t') what) := by
  refine .choose opensDictionary_apply (fun opens => ?_) fun s s' related near => ?_
  · cases opens with
    | true => exact (agree_dictionaryOver h).everywhere
    | false => exact agree_failNode (faces_some same) _
  have seen : P.exact ∨ P.old.length + 2 < s.rest.length →
      keyAhead s'.rest[1]? s'.rest[2]? = keyAhead s.rest[1]? s.rest[2]? := fun near =>
    keyAhead_eq (related.kind_at (near.imp_right fun far => by omega)) (related.kind_at near)
  by_cases exact : P.exact
  · exact seen (.inl exact)
  obtain ⟨a, u, result, counts⟩ := near.resolve_left exact
  have clean := counts.clean (P.counted.resolve_left exact)
  cases opened : keyAhead s.rest[1]? s.rest[2]? with
  | false =>
    rw [opened] at result
    exact absurd clean (objects_failNode _ _ s a u result).2
  | true =>
    rw [opened] at result
    have spent := (spends_dictionaryOver h s a u result).2 clean
    rcases counts.within with before | ⟨_, none_old, _⟩
    · rw [seen (.inr (by omega)), opened]
    · obtain ⟨front, front', left, right, paired⟩ := related
      rw [left, none_old, List.append_nil] at opened
      rw [right]
      refine keyAhead_append ?_ P.more
      rw [keyAhead_eq (kind_at paired 1) (kind_at paired 2), opened]

theorem agree_arrayOver : P.Agree P.node (arrayOver factor) (arrayOver factor') := by
  refine .advance <| (agree_elementsOver h _).bind fun _ _ same => ?_
  exact .demand <| .pure (congrArg Node.array same)

theorem agree_groupOver : P.Agree P.node (groupOver factor) (groupOver factor') := by
  refine .advance <| (agree_orOver h).bind fun inner inner' same => ?_
  exact .demand <| .pure same

omit h in
theorem referenceText_eq (same : P.face t = P.face t')
    (kinds : t.kind = .ident ∨ t.kind = .keyword .this) :
    (if t.kind = .keyword .this then "this" else t.display) =
      if t'.kind = .keyword .this then "this" else t'.display := by
  rw [kind_eq same]
  rcases kinds with kind | kind
  · have plain : ∀ k, t.kind ≠ .keyword k := by
      rw [kind]
      exact fun _ => Kind.noConfusion
    rw [display_eq same plain]
  · rw [if_pos kind, if_pos kind]

theorem agree_factorStep : P.Agree P.node (factorStep factor) (factorStep factor') := by
  refine .peekSome rfl rfl fun t t' same => ?_
  have isSign : ∀ sign, Token.keyword? sign = none →
      ((decide (t'.kind = .op) && t'.hasText sign) = true ↔
        (decide (t.kind = .op) && t.hasText sign) = true) := fun sign other => by
    rw [kind_eq same, hasText_eq same other]
  have reads : (t.kind = .ident ∨ t.kind = .keyword .this) →
      P.AgreeFrom (At t t') P.node (referenceOver factor t)
        (referenceOver factor' t') := fun kinds =>
    agree_referenceOver h sees_node (congrArg (P.node ∘ Node.var) (referenceText_eq same kinds))
  refine .ite (isSign "-" (by decide +kernel)) (fun _ => ?_) fun _ => ?_
  · refine .advance <| h.agree.bind fun operand operand' sameOperand => .pure ?_
    exact congrArg (Node.binary (.number (.int 0)) .sub) sameOperand
  refine .ite (isSign "+" (by decide +kernel)) (fun _ => .advance <| h.agree) fun _ => ?_
  simp only [kind_eq same]
  cases kind : t.kind with
  | number =>
    refine .advance ?_
    rw [payload_eq same (by rw [kind]; exact fun _ => Kind.noConfusion)]
    cases t.payload with
    | number n | text s => exact .pure rfl
  | ident => exact reads (.inl kind)
  | lbracket => exact (agree_arrayOver h).everywhere
  | lbrace => exact agree_braced h same _
  | lparen => exact (agree_groupOver h).everywhere
  | string =>
    refine .advance <| .pure ?_
    rw [display_eq same (by rw [kind]; exact fun _ => Kind.noConfusion)]
  | keyword k =>
    cases k with
    | yes | no =>
      exact .checkDialect <| .advance <| .pure rfl
    | new => exact agree_newObjectOver h t t'
    | super => exact agree_superOver h same
    | this => exact reads (.inr kind)
    | length =>
      refine agree_referenceOver h sees_node ?_
      rw [kind_eq same, kind]
      exact congrArg Node.var (P.name_length t t' same kind)
    | intType | textType | boolType | floatType => exact (agree_castOver h).everywhere
    | input => exact (agree_inputOver h).everywhere
    | _ => exact agree_failNode (faces_some same) _
  | _ => exact agree_failNode (faces_some same) _

/-- A factor that starts with a name or `this` can be assigned to. -/
theorem agree_factorStep_target (same : P.face t = P.face t')
    (kinds : t.kind = .ident ∨ t.kind = .keyword .this) :
    P.AgreeFrom (At t t') P.target (factorStep factor) (factorStep factor') := by
  refine .peekAt (agree_factorStep h).moves ?_
  have reads : P.AgreeFrom (At t t') P.target (referenceOver factor t)
      (referenceOver factor' t') :=
    agree_referenceOver h sees_target
      (congrArg (P.target ∘ Node.var) (referenceText_eq same kinds))
  -- a name is no sign, so both sides go straight to the reference
  simp only [kind_eq same]
  rcases kinds with kind | kind
  · simp only [kind]
    exact reads
  · simp only [kind]
    exact reads

end Factors

/-! ## Whole expressions -/

theorem hungry_factorAt (n : Nat) : Hungry (factorAt n) := by
  intro s a t none_left result
  cases n with
  | zero => cases result
  | succ n =>
    unfold factorAt factorStep at result
    rw [bind_apply (peek_apply s), (s.rest_eq_nil_iff).mp none_left] at result
    cases result

theorem operands_factorAt (levels : P.Levels n m) : P.Operands (factorAt n) (factorAt m) := by
  refine ⟨?_, hungry_factorAt n⟩
  induction n generalizing m with
  | zero =>
    refine .stops fun exact => ?_
    rw [← levels.2 exact]
    rfl
  | succ n ih =>
    obtain ⟨k, rfl, fewer⟩ := levels.pred
    exact agree_factorStep ⟨ih fewer, hungry_factorAt n⟩

theorem agree_withFactors {α : Type} {v : α → γ} {production : Parser Node → Parser α}
    (h : ∀ factor factor', P.Operands factor factor' →
      P.Agree v (production factor) (production factor')) :
    P.Agree v (withFactors production) (withFactors production) :=
  .remaining fun levels => h _ _ (operands_factorAt levels.succ)

theorem agree_orExpression : P.Agree P.node orExpression orExpression :=
  agree_withFactors fun _ _ h => agree_orOver h

theorem agree_factor : P.Agree P.node factor factor :=
  agree_withFactors fun _ _ h => h.agree

theorem agree_factor_target (same : P.face t = P.face t')
    (kinds : t.kind = .ident ∨ t.kind = .keyword .this) :
    P.AgreeFrom (At t t') P.target factor factor :=
  .remaining fun levels => agree_factorStep_target (operands_factorAt levels) same kinds

/-! ## Parts of statements -/

theorem isPresent_eq (same : P.node a = P.node b) : isPresent b = isPresent a := by
  have seen : ∀ n, isPresent (P.node n) = isPresent n := Node.isPresent_respell
  rw [← seen b, ← same, seen]

theorem nodes_present {nodes nodes' : List Node} (same : P.nodes nodes = P.nodes nodes')
    (last : P.node a = P.node b) :
    P.nodes (if isPresent a then nodes ++ [a] else nodes) =
      P.nodes (if isPresent b then nodes' ++ [b] else nodes') := by
  rw [isPresent_eq last]
  by_cases present : isPresent a = true
  · rw [if_pos present, if_pos present]
    exact nodes_snoc same last
  · rw [if_neg present, if_neg present]
    exact same

theorem agree_nameList : P.Agree id nameList nameList := by
  apply agree_expectName.andThen
  intro first
  refine .loop (fun _ _ _ => agree_prolongs rfl) (fun names names' same => ?_) rfl
  cases same
  exact .advance <| agree_expectName.andThen fun name => .pure rfl

theorem agree_parameters : P.Agree id parameters parameters := by
  refine .demand <| agree_nextKind.andThen fun kind => ?_
  refine .ite Iff.rfl (fun _ => agree_closing _ rfl) fun _ =>
    agree_expectName.andThen fun first => ?_
  refine .andThen (.loop (fun _ _ _ => ?_) (fun names names' same => ?_) rfl) fun _ =>
    agree_closing _ rfl
  · exact agree_nextKind.andThen fun next => .pure rfl
  · cases same
    exact .advance <| agree_expectName.andThen fun name => .pure rfl

/-- Inner statements that read alike; what follows an open text begins a statement. -/
structure Parts (P : Pairing) (statement statement' : Parser Node) : Prop where
  agree : P.inner.Agree P.node statement statement'
  detached : P.Open → Detached P.more

theorem inner_shut : ¬P.inner.Open :=
  fun opened => opened.2 opened.1.2

theorem Parts.inner {statement statement' : Parser Node} (h : P.Parts statement statement') :
    P.inner.Parts statement statement' := by
  have same : P.inner.inner = P.inner := by
    simp only [Pairing.inner, and_assoc, and_self]
  have agree : P.inner.inner.Agree P.node statement statement' := by
    rw [same]
    exact h.agree
  exact ⟨agree, fun opened => absurd opened inner_shut⟩

theorem Parts.nextHas {statement statement' : Parser Node} (h : P.Parts statement statement')
    {kind : Kind} (other : beginsStatement kind = false) :
    P.AgreeFrom start id (nextHas kind) (nextHas kind) :=
  agree_nextHas fun opened => (h.detached opened).kind other

section Statements

variable {statement statement' : Parser Node} (h : P.Parts statement statement')

include h

theorem agree_blockOver : P.Agree P.nodes (blockOver statement) (blockOver statement') := by
  refine .bindNeeding (.loop (v := P.nodes) (fun _ _ _ => ?_) (fun body body' same => ?_) rfl)
    (fun body body' same => .demand <| .pure same)
    fun _ body => needs_demand (.pure _)
  · exact agree_nextIs_kind (fun kind => decide (kind ≠ .rbrace)) (quiet_of_shut inner_shut)
  · exact h.agree.bind fun node node' sameNode => .pure (nodes_present same sameNode)

theorem agree_bracedOver : P.Agree P.nodes (bracedOver statement) (bracedOver statement') :=
  .demand <| agree_blockOver h

theorem agree_branchOver :
    P.Agree (fun branch => (P.node branch.1, P.nodes branch.2)) (branchOver statement)
      (branchOver statement') := by
  refine .demand <| agree_orExpression.bind fun condition condition' same => ?_
  refine .demand <| (agree_bracedOver h).bind fun body body' sameBody => ?_
  exact .pure (congrArg₂ Prod.mk same sameBody)

theorem agree_lastBlock {keyword : Kind} (other : beginsStatement keyword = false)
    {f g : Option (List Node) → Parser Node}
    (rest : ∀ body body', P.nodes? body = P.nodes? body' → P.Agree P.node (f body) (g body')) :
    P.Agree P.node
      (do
        let body ← if ← nextHas keyword then do
            advance
            pure (some (← bracedOver statement))
          else pure none
        f body)
      (do
        let body ← if ← nextHas keyword then do
            advance
            pure (some (← bracedOver statement'))
          else pure none
        g body) := by
  refine (h.nextHas other).andThen fun found => ?_
  cases found with
  | true =>
    refine .advance <| (agree_bracedOver h).bind fun body body' same => ?_
    exact rest _ _ (congrArg some same)
  | false => exact rest none none rfl

theorem agree_ifOver : P.Agree P.node (ifOver statement) (ifOver statement') := by
  refine .demand <| (agree_branchOver h).bind fun branch branch' same => ?_
  obtain ⟨condition, body⟩ := branch
  obtain ⟨sameCondition, sameBody⟩ := Prod.mk.inj same
  refine .bind (.loop (v := Node.respellBranches P.hint P.name) (fun _ _ _ => h.nextHas rfl)
    (fun branches branches' sameBranches => ?_) rfl) fun elseIfs elseIfs' sameElseIfs => ?_
  · refine .advance <| (agree_branchOver h).bind fun more more' sameMore => ?_
    obtain ⟨moreCondition, moreBody⟩ := Prod.mk.inj sameMore
    apply AgreeFrom.pure
    simp only [Node.respellBranches_append, sameBranches]
    exact congrArg (_ ++ [·]) (congrArg₂ Prod.mk moreCondition moreBody)
  · refine agree_lastBlock h rfl fun otherwise otherwise' sameOtherwise => .pure ?_
    show Node.ifElse (P.node condition) (P.nodes body) (Node.respellBranches P.hint P.name elseIfs)
      (P.nodes? otherwise) = _
    rw [sameCondition, sameBody, sameElseIfs, sameOtherwise]
    rfl

theorem agree_whileOver : P.Agree P.node (whileOver statement) (whileOver statement') := by
  refine .demand <| (agree_branchOver h).bind fun branch branch' same => ?_
  obtain ⟨sameCondition, sameBody⟩ := Prod.mk.inj same
  exact .pure (congrArg₂ Node.whileLoop sameCondition sameBody)

theorem agree_forTail (hstep : P.inner.Agree P.node step step') (name : String) :
    P.Agree P.node (forTail statement step name) (forTail statement' step' name) := by
  refine .ite Iff.rfl (fun _ => .pure rfl) fun _ => ?_
  refine (agree_expect fun _ _ same _ => same).bind fun op op' sameOp => ?_
  have assigns : (op'.map (·.hasText ":=")).getD false = (op.map (·.hasText ":=")).getD false := by
    rcases both_or_none sameOp with ⟨rfl, rfl⟩ | ⟨t, t', rfl, rfl, same⟩
    · rfl
    · exact hasText_eq same (by decide +kernel)
  refine .ite (by rw [assigns]) (fun _ => ?_) fun _ => agree_failNode sameOp _
  refine agree_orExpression.bind fun init init' sameInit => .demand ?_
  refine agree_orExpression.bind fun condition condition' sameCondition => ?_
  have body : ∀ change, Steady (do
      return Node.forLoop (.assign name init none) condition change (← bracedOver statement)) :=
    fun change => (agree_bracedOver h).moves.bind fun _ => .pure _
  refine .demand <| hstep.bindNeeding (fun change change' sameChange => ?_)
    fun _ change => needs_demand (body change)
  refine .demand <| (agree_bracedOver h).bind fun body body' sameBody => ?_
  apply AgreeFrom.pure
  show Node.forLoop (.assign name (P.node init) none) (P.node condition) (P.node change)
    (P.nodes body) = _
  rw [sameInit, sameCondition, sameChange, sameBody]
  rfl

theorem agree_forOver (hstep : P.inner.Agree P.node step step') :
    P.Agree P.node (forOver statement step) (forOver statement' step') :=
  .demand <| .demand <|
    agree_expectName.andThen (agree_forTail h hstep)

/-- A loop with a counter has three tokens at least. -/
theorem spends_forOver (hstep : P.inner.Agree P.node step step') :
    Spends 3 (forOver statement step) :=
  (Spends.demand _).bind fun _ => (Spends.demand _).bind fun _ =>
    Spends.expectName.bind fun name => .ofSteady (agree_forTail h hstep name).moves

theorem agree_eachTail (name : String) :
    P.Agree P.node (eachTail statement name) (eachTail statement' name) := by
  refine agree_orExpression.bind fun items items' sameItems => ?_
  refine (agree_bracedOver h).bind fun body body' sameBody => ?_
  exact .pure (congrArg₂ (Node.forEach name) sameItems sameBody)

theorem agree_forEachOver : P.Agree P.node (forEachOver statement) (forEachOver statement') :=
  .demand <| agree_expectName.andThen fun name =>
    .demand <| agree_eachTail h name

theorem spends_forEachOver : Spends 3 (forEachOver statement) :=
  (Spends.demand _).bind fun _ => Spends.expectName.bind fun name =>
    (Spends.demand _).bind fun _ => .ofSteady (agree_eachTail h name).moves

theorem agree_routineOver (access : Access) :
    P.Agree (Node.respellRoutine P.hint P.name) (routineOver statement access)
      (routineOver statement' access) := by
  refine .demand <| agree_expectName.andThen fun name => ?_
  refine agree_parameters.andThen fun names => (agree_bracedOver h).bind fun body body' same => ?_
  exact .pure (congrArg (Routine.mk name names · [] none access) same)

theorem agree_catchRest {catches catches' : List (Option String × List Node)}
    (same : Node.respellCatches P.hint P.name catches = Node.respellCatches P.hint P.name catches')
    (name : Option String) : P.Agree (Node.respellCatches P.hint P.name)
      (catchRest statement catches name) (catchRest statement' catches' name) := by
  refine .demand <| (agree_bracedOver h).bind fun handler handler' sameHandler => ?_
  apply AgreeFrom.pure
  rw [Node.respellCatches_append, Node.respellCatches_append, same]
  exact congrArg (fun handler => _ ++ [(name, handler)]) sameHandler

theorem agree_tryOver : P.Agree P.node (tryOver statement) (tryOver statement') := by
  refine .demand <| (agree_bracedOver h).bind fun body body' sameBody => ?_
  refine .bind (.loop (v := Node.respellCatches P.hint P.name) (fun _ _ _ => h.nextHas rfl)
    (fun catches catches' same => ?_) rfl) fun catches catches' sameCatches => ?_
  · refine .advance <| .demand ?_
    refine agree_ifHas (fun _ => ?_) fun named => ?_
    · exact needs_demand ((agree_bracedOver h).moves.bind fun _ => .pure _)
    cases named with
    | true => exact agree_expectName.andThen fun name => agree_catchRest h same (some name)
    | false => exact agree_catchRest h same none
  · refine agree_lastBlock h rfl fun final final' sameFinal => .pure ?_
    show Node.tryCatch (P.nodes body) (Node.respellCatches P.hint P.name catches)
      (P.nodes? final) = _
    rw [sameBody, sameCatches, sameFinal]
    rfl

/-! ## Classes -/

omit h in
theorem agree_friendNames (t t' : Token) :
    P.AgreeFrom start id (friendNames t) (friendNames t') := by
  refine .checkDialect <| .advance ?_
  refine .demand <| agree_nameList.andThen fun names => ?_
  exact .demand (.pure rfl)

theorem agree_otherMember (access : Access) (same : P.class_ decl = P.class_ decl')
    (sameToken : P.face t = P.face t') (kind : Kind) :
    P.Agree P.class_ (otherMember statement access decl t kind)
      (otherMember statement' access decl' t' kind) := by
  have parts := Node.respellClass_eq_iff.mp same
  refine .ite (by rw [namesDestructor_eq sameToken]) (fun _ => ?_) fun _ => ?_
  · refine .checkDialect <| .advance ?_
    refine .demand <| .demand ?_
    refine (agree_bracedOver h).bind fun body body' sameBody => .pure ?_
    have sameDestructor : P.nodes? (some body) = P.nodes? (some body') := congrArg some sameBody
    exact Node.respellClass_eq_iff.mpr (by simp only [parts, sameDestructor, and_self])
  · refine .ite Iff.rfl (fun _ => ?_) fun _ => ?_
    · refine .advance <| agree_expectName.andThen fun name => ?_
      refine .demand <| .pure ?_
      exact Node.respellClass_eq_iff.mpr (by simp only [parts, and_self])
    · refine (agree_report (faces_some sameToken) _).andThen fun _ => ?_
      exact .advance <| .pure same

theorem agree_memberOver (access : Access) (same : P.class_ decl = P.class_ decl') :
    P.Agree P.class_ (memberOver statement access decl) (memberOver statement' access decl') := by
  refine .peekSome rfl rfl fun t t' sameToken => ?_
  have parts := Node.respellClass_eq_iff.mp same
  have others := agree_otherMember h access same sameToken
  simp only [kind_eq sameToken]
  cases t.kind with
  | keyword k =>
    cases k with
    | friend | friendClass =>
      refine (agree_friendNames t t').andThen fun names => .pure ?_
      exact Node.respellClass_eq_iff.mpr (by simp only [parts, and_self])
    | constructor =>
      refine .checkDialect <| .advance ?_
      refine agree_parameters.andThen fun names => ?_
      refine (agree_bracedOver h).bind fun body body' sameBody => .pure ?_
      refine Node.respellClass_eq_iff.mpr ?_
      simp only [parts, Node.respellMethods_insert, Node.respellRoutine?, Node.respellRoutine,
        sameBody, and_self]
    | function =>
      have reads : P.Agree P.class_
          (do
            let routine ← routineOver statement access
            return { decl with
              methods := Bindings.insert decl.methods routine.name routine,
              methodAccess := Bindings.insert decl.methodAccess routine.name access })
          (do
            let routine ← routineOver statement' access
            return { decl' with
              methods := Bindings.insert decl'.methods routine.name routine,
              methodAccess := Bindings.insert decl'.methodAccess routine.name access }) := by
        refine (agree_routineOver h access).bind fun routine routine' sameRoutine => .pure ?_
        have names : routine.name = routine'.name := by
          simpa only [Node.respellRoutine_name] using congrArg Routine.name sameRoutine
        refine Node.respellClass_eq_iff.mpr ?_
        simp only [parts, Node.respellMethods_insert, sameRoutine, names, and_self]
      exact reads.everywhere
    | _ => exact (others _).everywhere
  | _ => exact (others _).everywhere

theorem agree_memberRound (same : P.class_ decl = P.class_ decl') :
    P.Agree P.class_ (memberRound statement decl) (memberRound statement' decl') := by
  refine .peekSome rfl rfl fun t t' sameToken => ?_
  simp only [kind_eq sameToken]
  cases accessOf? t.kind with
  | none => exact (agree_memberOver h _ same).everywhere
  | some access =>
    refine .checkDialect <| .advance ?_
    exact agree_memberOver h access same

theorem agree_membersOver (same : P.class_ decl = P.class_ decl') :
    P.Agree P.class_ (membersOver statement decl) (membersOver statement' decl') := by
  refine .bindNeeding (.loop (fun _ _ _ => ?_) (fun _ _ => agree_memberRound h.inner) same)
    (fun _ _ whole => .demand <| .pure whole)
    fun _ _ => needs_demand (.pure _)
  exact agree_nextIs_kind (fun kind => decide (kind ≠ .rbrace)) (quiet_of_shut inner_shut)

theorem agree_classBody (decl : ClassDecl Node) :
    P.Agree P.node (classBody statement decl) (classBody statement' decl) :=
  .demand <| (agree_membersOver h rfl).bind fun _ _ whole => .pure (congrArg Node.classDecl whole)

theorem agree_classOver : P.Agree P.node (classOver statement) (classOver statement') := by
  have named : ∀ k, Kind.ident ≠ .keyword k := fun _ => Kind.noConfusion
  refine .demand <| (agree_expect_display named).bind fun name name' sameName => ?_
  rcases both_or_none sameName with ⟨rfl, rfl⟩ | ⟨t, t', rfl, rfl, nameText⟩
  · exact .pure rfl
  simp only [nameText]
  refine (h.nextHas rfl).andThen fun derived => ?_
  cases derived with
  | true =>
    refine .advance <| (agree_expect_display named).bind fun parent parent' same => ?_
    rcases both_or_none same with ⟨rfl, rfl⟩ | ⟨u, u', rfl, rfl, parentText⟩
    · exact .pure rfl
    · simp only [parentText]
      exact agree_classBody h _
  | false => exact agree_classBody h _

end Statements

/-! ## Simple statements -/

theorem agree_printStatement : P.Agree P.node printStatement printStatement := by
  refine .demand <| .demand ?_
  refine (agree_withFactors fun _ _ h => agree_elementsOver h _).bind fun arguments arguments' same => ?_
  exact .demand <| .pure (congrArg Node.print same)

theorem agree_returnStatement : P.Agree P.node returnStatement returnStatement := by
  refine .demand <| agree_orExpression.bind fun value value' same => ?_
  exact .demand <| .pure (congrArg Node.ret same)

theorem agree_wordStatement {k : Keyword} {build : Node → Node}
    (built : ∀ value value', P.node value = P.node value' →
      P.node (build value) = P.node (build value')) :
    P.Agree P.node (wordStatement k build) (wordStatement k build) :=
  .demand <| .demand <| agree_orExpression.bind fun value value' same =>
    .demand <| agree_closing _ (built value value' same)

theorem agree_exitStatement : P.Agree P.node exitStatement exitStatement := by
  refine .demand <| (agree_prolongs rfl).andThen fun given => ?_
  cases given with
  | true =>
    refine .demand <| agree_orExpression.bind fun code code' same => ?_
    exact .demand <| agree_closing _ (congrArg Node.exit same)
  | false => exact agree_closing _ rfl

/-! ## Declarations

The word for the type of a declaration gets into the tree. It does so only if a name follows,
and without an operator after the name there is a complaint. -/

theorem typedDeclaration_eq_ok {u : State} {node : Node} (h : typedDeclaration t s = .ok node u) :
    s.rest[1]?.map (·.kind) = some .ident ∧
      (s.rest[2]?.map (·.kind) = some .op ∨ u.complaints ≠ s.complaints) := by
  obtain ⟨_, s₁, checked, h⟩ := bind_eq_ok h
  obtain ⟨s₁', checked', observed⟩ := watches_checkDialect t s
  cases checked'.symm.trans checked
  obtain ⟨_, s₂, advanced, h⟩ := bind_eq_ok h
  cases advanced
  obtain ⟨name, s₃, named, h⟩ := bind_eq_ok h
  obtain ⟨taken, s₃', expected, named⟩ := bind_eq_ok named
  have place : ∀ n, (s₁.skip n).token? = s.rest[n]? := by
    intro n
    rw [State.token?_eq, State.rest_skip, List.head?_drop, observed.rest]
  rcases expect_eq_ok expected with ⟨word, rfl, next, isName, rfl⟩ | ⟨rfl, _⟩
  · cases named
    obtain ⟨_, s₄, demanded, h⟩ := bind_eq_ok h
    obtain ⟨op, s₄', expected, demanded⟩ := bind_eq_ok demanded
    cases demanded
    obtain ⟨value, s₅, read, h⟩ := bind_eq_ok h
    cases h
    have late := (agree_orExpression (P := same)).moves.ok read
    refine ⟨by rw [← place 1, show (s₁.skip 1).token? = _ from next, Option.map_some, isName], ?_⟩
    rcases expect_eq_ok expected with ⟨sign, _, after, isOp, _⟩ | ⟨_, early, complained⟩
    · exact .inl (by rw [← place 2, show (s₁.skip 2).token? = _ from after, Option.map_some, isOp])
    · refine .inr fun clean => complained ?_
      exact ((early.clean late) (clean.trans observed.complaints.symm)).1
  · cases named

/-- Declarations are read alike in views that do not show types. -/
theorem agree_declared
    (shows : ∀ name value value', P.node value = P.node value' →
      v (.assign name value (some t.display)) = v (.assign name value' (some t'.display))) :
    P.AgreeFrom start v (typedDeclaration t) (typedDeclaration t') := by
  refine .checkDialect <| .advance ?_
  refine agree_expectName.andThen fun name => .demand ?_
  exact agree_orExpression.bind fun value value' same => .pure (shows name value value' same)

theorem agree_typedDeclaration (isType : isTypeKind t.kind = true) :
    P.AgreeFrom (At t t') P.node (typedDeclaration t) (typedDeclaration t') := by
  by_cases hints : P.hint t.display = P.hint t'.display
  · exact agree_declared fun name value value' same =>
      congrArg₂ (fun value hint => Node.assign name value (some hint)) same hints
  · have blind : P.AgreeFrom (At t t') (fun _ => ()) (typedDeclaration t) (typedDeclaration t') :=
      agree_declared fun _ _ _ _ => rfl
    refine ⟨blind.moves, fun s s' related here counts => ?_⟩
    have locked := blind.locks s s' related here counts
    cases result : typedDeclaration t s with
    | error stop u =>
      rw [result] at locked
      cases locked with
      | error alike => exact .error alike
    | ok node u =>
      have moved := blind.moves.ok result
      rw [result] at counts
      obtain ⟨named, operated⟩ := typedDeclaration_eq_ok result
      obtain ⟨front, front', left, right, paired⟩ := related
      rcases paired_cases paired with ⟨rfl, rfl⟩ | ⟨w, w', r, r', rfl, rfl, _, _⟩
      · rcases counts.within.back moved with before | ⟨_, none_old, _⟩
        · rw [left] at before
          exact absurd before (Nat.lt_irrefl _)
        · have absent := here.left
          rw [State.token?_eq, left, none_old] at absent
          cases absent
      · have first := here.left
        have first' := here.right
        rw [State.token?_eq, left] at first
        rw [State.token?_eq, right] at first'
        cases first
        cases first'
        rw [left] at named operated
        refine absurd (P.hint_declared _ _ r r' paired isType named fun clean => ?_) hints
        exact operated.resolve_right fun complained => complained (counts.clean clean)

/-! ## Assignments and calls -/

theorem node_assignTo {value value' : Node} (same : P.target a = P.target b)
    (sameValue : P.node value = P.node value') :
    P.node (assignTo a value) = P.node (assignTo b value') := by
  obtain ⟨sameNode, sameName⟩ := Prod.mk.inj same
  have built : ∀ a value, P.node (assignTo a value) = _ := Node.respell_assignTo
  rw [built, built, sameName, show a.respell P.hint P.name = b.respell P.hint P.name from sameNode,
    show value.respell P.hint P.name = value'.respell P.hint P.name from sameValue]

theorem agree_assignment (same : P.target a = P.target b) :
    P.Agree P.node (assignment a) (assignment b) := by
  refine (agree_expect fun _ _ same _ => same).bind fun op op' sameOp => ?_
  rcases both_or_none sameOp with ⟨rfl, rfl⟩ | ⟨t, t', rfl, rfl, sameToken⟩
  · exact .pure rfl
  · have assigns : t'.hasText ":=" = t.hasText ":=" := hasText_eq sameToken (by decide +kernel)
    refine .ite (by rw [assigns]) (fun _ => ?_) fun _ => agree_failNode (faces_some sameToken) _
    exact agree_orExpression.bind fun value value' sameValue => .pure (node_assignTo same sameValue)

theorem agree_bareCall (sameToken : P.face t = P.face t') (same : P.node a = P.node b) :
    P.Agree (Option.map P.node) (referenceStatement.bareCall t a)
      (referenceStatement.bareCall t' b) := by
  have calls : a.isCall = b.isCall := by
    have seen : ∀ n, (P.node n).isCall = n.isCall := Node.isCall_respell
    rw [← seen a, same, seen]
  unfold referenceStatement.bareCall
  split
  · obtain ⟨f, arguments, rfl⟩ := Node.eq_call_of_isCall calls.symm
    exact .pure (congrArg some same)
  · rename_i other
    split
    · obtain ⟨f, arguments, rfl⟩ := Node.eq_call_of_isCall calls
      exact (other _ _ rfl).elim
    · exact (agree_complain (faces_some sameToken) _).andThen fun _ => .pure rfl

theorem present_eq (same : P.node a = P.node b) :
    (if isPresent a then some a else none).map P.node =
      (if isPresent b then some b else none).map P.node := by
  rw [isPresent_eq same]
  by_cases present : isPresent a = true
  · rw [if_pos present, if_pos present]
    exact congrArg some same
  · rw [if_neg present, if_neg present]

theorem agree_superStatement (sameToken : P.face t = P.face t') :
    P.AgreeFrom start (Option.map P.node) (superStatement t) (superStatement t') := by
  refine .checkDialect <| agree_factor.bind fun a b same => ?_
  have calls : a.isSuper = b.isSuper := by
    have seen : ∀ n, (P.node n).isSuper = n.isSuper := Node.isSuper_respell
    rw [← seen a, same, seen]
  split
  · obtain ⟨method, arguments, rfl⟩ := Node.eq_super_of_isSuper calls.symm
    exact .pure (congrArg some same)
  · rename_i other
    split
    · obtain ⟨method, arguments, rfl⟩ := Node.eq_super_of_isSuper calls
      exact (other _ _ rfl).elim
    · exact (agree_complain (faces_some sameToken) _).andThen fun _ => .pure rfl

theorem agree_finish (closed : Bool) {node node' : Option Node}
    (same : node.map P.node = node'.map P.node) :
    P.Agree P.node (finish closed node) (finish closed node') := by
  cases node with
  | none =>
    cases node' with
    | none => exact .pure rfl
    | some b => cases same
  | some a =>
    cases node' with
    | none => cases same
    | some b =>
      refine .ite Iff.rfl (fun _ => ?_) fun _ => .pure (Option.some.inj same)
      exact .demand <| .pure (Option.some.inj same)

/-- At the end of the text a call lacks a semicolon; all else is a problem. -/
theorem needs_bareCall (t : Token) (a : Node) :
    Needs (referenceStatement.bareCall t a >>= finish true) := by
  have ending : ∀ node, Steady (finish true node) := fun node =>
    (agree_finish (P := same) true rfl).moves
  cases a with
  | call name arguments =>
    have needs : Needs (finish true (some (.call name arguments))) := needs_demand (.pure _)
    exact needs
  | _ => exact (((objects_complain _ _).bind fun _ => .pure _).bind ending).needs

/-- A statement that starts with a name or `this`, with its semicolon. -/
theorem agree_reference (required : P.Open → closed = true)
    (sameToken : P.face t = P.face t') (kinds : t.kind = .ident ∨ t.kind = .keyword .this) :
    P.AgreeFrom (At t t') P.node (referenceStatement t >>= finish closed)
      (referenceStatement t' >>= finish closed) := by
  have finishing : ∀ a b : Option Node, a.map P.node = b.map P.node →
      P.Agree P.node (finish closed a) (finish closed b) :=
    fun _ _ read => agree_finish closed read
  unfold referenceStatement
  simp only [bind_assoc]
  refine (agree_factor_target sameToken kinds).bind fun a b same => ?_
  have sameNode : P.node a = P.node b := (Prod.mk.inj same).1
  refine .peek ((agree_bareCall sameToken sameNode).bind finishing) (fun opened => ?_)
    fun op op' sameOp => AgreeFrom.bind ?_ finishing
  · rw [required opened]
    exact needs_bareCall t a
  have assigns : ((decide (op'.kind = .op) && op'.hasText ":=") = true ↔
      (decide (op.kind = .op) && op.hasText ":=") = true) := by
    rw [kind_eq sameOp, hasText_eq sameOp (by decide +kernel)]
  have display : ∀ ops, isOpAmong ops op = true → op'.display = op.display := by
    intro ops among
    have isOp : op.kind = .op := by
      simp only [isOpAmong, Bool.and_eq_true, decide_eq_true_eq] at among
      exact among.1
    refine display_eq sameOp ?_
    rw [isOp]
    exact fun _ => Kind.noConfusion
  refine .ite assigns (fun _ => ?_) fun _ => ?_
  · refine (agree_assignment same).everywhere.bind fun node node' sameAssigned => ?_
    exact .pure (present_eq sameAssigned)
  refine .ite (by rw [isOpAmong_eq sameOp]) (fun among => ?_) fun _ => ?_
  · refine .advance <| agree_orExpression.bind fun right right' sameRight => ?_
    rw [display _ among]
    exact .pure (present_eq (node_assignTo same
      (congrArg₂ (Node.binary · (.ofSymbol _) ·) sameNode sameRight)))
  refine .ite (by rw [isOpAmong_eq sameOp]) (fun among => ?_) fun _ => ?_
  · split
    · obtain ⟨y, rfl, names⟩ := eq_var_of_node sameNode
      refine .advance <| .pure ?_
      rw [display _ among]
      exact congrArg (fun target => some (Node.step _ target)) sameNode
    · rename_i other
      split
      · obtain ⟨x, rfl, _⟩ := eq_var_of_node sameNode.symm
        exact (other x rfl).elim
      · exact (agree_complain (faces_some sameToken) _).andThen fun _ => .pure rfl
  · exact (agree_bareCall sameToken sameNode).everywhere

/-! ## Loops -/

/-- Which loop it is shows in the two tokens after the first, and a loop has three. -/
theorem agree_forAhead {each each' counted counted' : Parser Node}
    (array : P.Agree P.node each each') (counter : P.Agree P.node counted counted')
    (three : Spends 3 each) (three' : Spends 3 counted) (t t' : Token) :
    P.Agree P.node (forAhead t each counted) (forAhead t' each' counted') := by
  refine .choose eachLook_apply (fun isEach => ?_) fun s s' related near => ?_
  · exact .checkDialect <| .ite Iff.rfl (fun _ => array) fun _ => counter
  have far : P.exact ∨ P.old.length + 2 < s.rest.length := by
    by_cases exact : P.exact
    · exact .inl exact
    obtain ⟨a, u, result, counts⟩ := near.resolve_left exact
    have clean := counts.clean (P.counted.resolve_left exact)
    have chosen : ∀ isEach : Bool, Spends 3 (checkDialect t >>= fun _ =>
        if isEach then each else counted) := by
      intro isEach
      refine .after (agree_checkDialect t t : same.Agree id _ _).moves fun _ => ?_
      cases isEach with
      | true => exact three
      | false => exact three'
    have spent := (chosen _ s a u result).2 clean
    rcases counts.within with before | ⟨_, none_old, _⟩
    · omega
    · rw [none_old, List.length_nil]
      omega
  unfold eachAhead
  rw [related.kind_at far, related.kind_at (far.imp_right fun far => by omega)]

/-! ## Whole statements and programs -/

section Statement

variable {statement statement' : Bool → Parser Node}
  (h : ∀ closed, P.Parts (statement closed) (statement' closed))

include h

theorem agree_statementFrom (required : P.Open → closed = true)
    (same : P.face t = P.face t') :
    P.AgreeFrom (At t t') P.node (statementFrom statement closed t)
      (statementFrom statement' closed t') := by
  refine .ite (by rw [kind_eq same]) (fun isType => agree_typedDeclaration isType) fun _ => ?_
  simp only [kind_eq same]
  cases kind : t.kind with
  | ident => exact agree_reference required same (.inl kind)
  | keyword k =>
    cases k with
    | ifBranch => exact .checkDialect (agree_ifOver (h true))
    | whileLoop => exact .checkDialect (agree_whileOver (h true))
    | forLoop =>
      exact .checkDialect (agree_forAhead (agree_forEachOver (h true))
        (agree_forOver (h true) (h false).agree) (spends_forEachOver (h true))
        (spends_forOver (h true) (h false).agree) t t')
    | function =>
      refine .checkDialect ((agree_routineOver (h true) _).bind fun routine routine' sameRoutine => ?_)
      exact .pure (congrArg Node.function sameRoutine)
    | tryBlock => exact .checkDialect (agree_tryOver (h true))
    | throw => exact .checkDialect <| agree_wordStatement fun _ _ => congrArg Node.throw
    | exit => exact .checkDialect agree_exitStatement
    | importFile => exact .checkDialect <| agree_wordStatement fun _ _ => congrArg Node.importFile
    | super =>
      exact (agree_superStatement same).bind fun _ _ read => agree_finish closed read
    | this => exact agree_reference required same (.inr kind)
    | print =>
      refine .checkDialect (agree_printStatement.bind fun node node' sameNode => ?_)
      exact agree_finish closed (congrArg some sameNode)
    | ret => exact .checkDialect agree_returnStatement
    | classDef => exact .checkDialect (agree_classOver (h true))
    | _ => exact agree_failNode (faces_some same) _
  | _ => exact agree_failNode (faces_some same) _

theorem agree_statementStep (shut : ¬P.Open) (closed : Bool) :
    P.Agree P.node (statementStep statement closed)
      (statementStep statement' closed) := by
  refine .andThen (.loop (fun _ _ _ => ?_) (fun _ _ _ => agree_advance) rfl) fun _ => ?_
  · exact agree_nextIs_kind (fun kind => decide (kind = .semicolon) || decide (kind = .rbrace))
      (quiet_of_shut shut)
  · refine .peek (.pure rfl) (fun opened => absurd opened shut) fun t t' same => ?_
    have reading : P.AgreeFrom (At t t') P.node (statementFrom statement closed t)
        (statementFrom statement' closed t') :=
      agree_statementFrom h (fun opened => absurd opened shut) same
    refine .ite (by rw [kind_eq same]) (fun _ => ?_) fun _ => reading
    exact .checked reading

end Statement

theorem agree_statementAt (shut : ¬P.Open) (levels : P.Levels n m) (closed : Bool) :
    P.Agree P.node (statementAt n closed) (statementAt m closed) := by
  induction n generalizing P m closed with
  | zero =>
    refine .stops fun exact => ?_
    rw [← levels.2 exact]
    rfl
  | succ n ih =>
    obtain ⟨k, rfl, fewer⟩ := levels.pred
    refine agree_statementStep (fun b => ?_) shut closed
    exact ⟨ih inner_shut fewer b, fun opened => absurd opened shut⟩

theorem parts_statementAt (detached : P.Open → Detached P.more) (levels : P.Levels n m)
    (closed : Bool) :
    P.Parts (statementAt n closed) (statementAt m closed) :=
  ⟨agree_statementAt inner_shut levels closed, detached⟩

theorem agree_statement (shut : ¬P.Open) (closed : Bool) :
    P.Agree P.node (statement closed) (statement closed) :=
  .remaining fun levels => agree_statementAt shut levels.succ closed

theorem watches_starter (word : String) :
    Watches (modify fun s =>
      if s.strict then
        match Dialect.ofStarter? word with
        | some d => { s with dialect := some d }
        | none => s
      else s) := by
  intro s
  refine ⟨_, rfl, ?_⟩
  by_cases strict : s.strict = true
  · simp only [if_pos strict]
    cases Dialect.ofStarter? word with
    | none => exact .refl s
    | some d =>
      refine ⟨rfl, rfl, rfl, List.prefix_rfl, rfl, fun plain => ?_⟩
      rw [strict] at plain
      cases plain
  · simp only [if_neg strict]
    exact .refl s

theorem agree_program (shut : ¬P.Open) : P.Agree P.node program program := by
  refine .peekSome rfl rfl fun t t' same => ?_
  refine .ite (by rw [kind_eq same]) (fun _ => ?_) fun _ => .throw _
  refine (agree_watching (watches_starter _) (watches_starter _)).andThen fun _ => ?_
  refine .advance <| .bind (.loop (v := P.nodes) (fun _ _ _ => ?_)
    (fun statements statements' sameStatements => ?_) rfl) fun statements statements' whole => ?_
  · exact agree_nextIs (fun _ _ _ => rfl) (quiet_of_shut shut)
  · exact (agree_statement shut true).bind fun node node' sameNode =>
      .pure (nodes_present sameStatements sameNode)
  · exact .pure (congrArg Node.program whole)

/-! ## Whole texts -/

theorem runProgram_state (s : State) : (runProgram s).state = ending (program s) := by
  unfold runProgram
  cases program s <;> rfl

theorem same_shut : ¬same.Open :=
  fun opened => opened.2 rfl

theorem moves_parse (tokens : List Token) (strict : Bool) :
    Moves { tokens := tokens.toArray, strict := strict } (parse tokens strict).state := by
  have moved := (agree_program same_shut).moves { tokens := tokens.toArray, strict := strict }
  rw [← runProgram_state] at moved
  exact moved

theorem problems_eq_complaints (h : s.violations = []) : s.problems = s.complaints := by
  symm
  refine List.filter_eq_self.mpr fun problem found => ?_
  rw [Option.isNone_iff_eq_none]
  exact List.filterMap_eq_nil_iff.mp h problem found

theorem complaints_parse (tokens : List Token) :
    (parse tokens).state.problems = (parse tokens).state.complaints :=
  problems_eq_complaints ((moves_parse tokens false).violations rfl)

/-- Two paired texts are read alike, each in its own mode: to the same node, or they stop for the
same reason, at the same place and with the same complaints. -/
theorem parse_alike (P : Pairing) (exact : P.exact) {tokens tokens' : List Token}
    (strict strict' : Bool) (paired : P.paired tokens tokens')
    (clean : P.clean → (parse tokens strict).state.complaints = []) :
    (parse tokens strict).node.map P.node = (parse tokens' strict').node.map P.node ∧
      (parse tokens strict).state.pos = (parse tokens' strict').state.pos ∧
      (parse tokens strict).state.complaints.map P.problem =
        (parse tokens' strict').state.complaints.map P.problem := by
  obtain ⟨whole, none_old, none_more⟩ := P.closed exact
  have starts : P.Related { tokens := tokens.toArray, strict := strict }
      { tokens := tokens'.toArray, strict := strict' } := related_of_paired exact paired
  have ends : (parse tokens strict).state = ending (program _) := runProgram_state _
  have shut : ¬P.Open := fun opened => opened.2 none_more
  have locked := (agree_program shut).locks _ _ starts trivial
    ⟨ends ▸ clean, .inr ⟨whole, none_old, fun more => absurd none_more more⟩⟩
  have noted : ∀ {t t' : State}, P.Abreast { tokens := tokens.toArray, strict := strict }
      { tokens := tokens'.toArray, strict := strict' } t t' →
        t.pos = t'.pos ∧ t.complaints.map P.problem = t'.complaints.map P.problem := by
    rintro t t' ⟨pos, new, new', noted, noted', same⟩
    rw [noted, noted']
    exact ⟨pos, same⟩
  unfold parse runProgram
  generalize program { tokens := tokens.toArray, strict := strict } = read at locked
  generalize program { tokens := tokens'.toArray, strict := strict' } = read' at locked
  cases locked with
  | ok same _ abreast => exact ⟨congrArg Except.ok same, noted abreast⟩
  | error alike =>
    obtain ⟨t', rfl, abreast⟩ := alike exact
    exact ⟨rfl, noted abreast⟩

end Pairing

end Hetman.Parser
