import Hetman.Proofs.Parser.Termination

/-!
# How a reading ends

`Call s least α p` lists the functions of the parser as a reading calls them at the state `s`, with
the number of levels and what their callers have made sure of. None goes back or beyond the last
token, and none runs out of levels or rounds (`Call.went`).
-/

namespace Hetman.Parser

variable {s : State} {tokens : List Token} {least : Nat} {α : Type} {p : Parser α} {stop : Stop}
  {strict : Bool}

/-- The calls of a reading at a state, with the number of tokens that each uses up at least, if so
many are left. -/
inductive Call (s : State) : Nat → (α : Type) → Parser α → Prop
  -- Basic moves.
  | synchronize : Call s 1 Unit synchronize
  | complain (token : Option Token) (what : Complaint) : Call s 1 Unit (complain token what)
  | expect (kind : Kind) : Call s 1 (Option Token) (expect kind)
  | expectName (asked : s.Asked) : Call s 1 String expectName
  -- Expressions.
  | factor {n : Nat} (few : s.remaining < n) : Call s 1 Node (factorAt n)
  | power {n : Nat} (few : s.remaining < n) : Call s 1 Node (exponentOver (factorAt n))
  | term {n : Nat} (few : s.remaining < n) : Call s 1 Node (termOver (factorAt n))
  | sum {n : Nat} (few : s.remaining < n) : Call s 1 Node (sumOver (factorAt n))
  | comparison {n : Nat} (few : s.remaining < n) : Call s 1 Node (comparisonOver (factorAt n))
  | conjunction {n : Nat} (few : s.remaining < n) : Call s 1 Node (andOver (factorAt n))
  | expression {n : Nat} (few : s.remaining < n) : Call s 1 Node (orOver (factorAt n))
  | elements {n : Nat} (few : s.remaining < n) (close : Kind) :
    Call s 0 (List Node) (elementsOver (factorAt n) close)
  | arguments {n : Nat} (few : s.remaining < n) :
    Call s 1 (Option (List Node)) (argumentsOver (factorAt n))
  | dictionary {n : Nat} (few : s.remaining < n + 1) {t : Token} (here : s.token? = some t) :
    Call s 1 Node (dictionaryOver (factorAt n))
  | cast {n : Nat} (few : s.remaining < n + 1) {t : Token} (here : s.token? = some t) :
    Call s 1 Node (castOver (factorAt n))
  | input {n : Nat} (few : s.remaining < n + 1) {t : Token} (here : s.token? = some t) :
    Call s 1 Node (inputOver (factorAt n))
  | array {n : Nat} (few : s.remaining < n + 1) {t : Token} (here : s.token? = some t) :
    Call s 1 Node (arrayOver (factorAt n))
  | group {n : Nat} (few : s.remaining < n + 1) {t : Token} (here : s.token? = some t) :
    Call s 1 Node (groupOver (factorAt n))
  | reference {n : Nat} (few : s.remaining < n + 1) {t : Token} (here : s.token? = some t) :
    Call s 1 Node (referenceOver (factorAt n) t)
  | newObject {n : Nat} (few : s.remaining < n + 1) {t : Token} (here : s.token? = some t)
      (isNew : t.kind = .keyword .new) : Call s 1 Node (newObjectOver (factorAt n) t)
  | super {n : Nat} (few : s.remaining < n + 1) {t : Token} (here : s.token? = some t)
      (isSuper : t.kind = .keyword .super) : Call s 1 Node (superOver (factorAt n) t)
  | wholeFactor : Call s 1 Node factor
  | wholeExpression : Call s 1 Node orExpression
  -- Statements.
  | statement {n : Nat} (few : s.remaining < n) (closed : Bool) :
    Call s 1 Node (statementAt n closed)
  | block {n : Nat} (few : s.remaining < n) : Call s 1 (List Node) (blockOver (statementAt n true))
  | parameters (asked : s.Asked) : Call s 1 (List String) parameters
  | ifElse {n : Nat} (few : s.remaining < n + 1) {t : Token} (here : s.token? = some t) :
    Call s 1 Node (ifOver (statementAt n true))
  | whileLoop {n : Nat} (few : s.remaining < n + 1) {t : Token} (here : s.token? = some t) :
    Call s 1 Node (whileOver (statementAt n true))
  | forLoop {n : Nat} (few : s.remaining < n + 1) {t : Token} (here : s.token? = some t)
      (isFor : t.kind = .keyword .forLoop) :
    Call s 1 Node (forOver (statementAt n true) (statementAt n false))
  | forEach {n : Nat} (few : s.remaining < n + 1) {t : Token} (here : s.token? = some t)
      (isFor : t.kind = .keyword .forLoop) : Call s 1 Node (forEachOver (statementAt n true))
  | function {n : Nat} (few : s.remaining < n + 1) {t : Token} (here : s.token? = some t)
      (isFunction : t.kind = .keyword .function) (access : Access) :
    Call s 1 (Routine Node) (routineOver (statementAt n true) access)
  | tryCatch {n : Nat} (few : s.remaining < n + 1) {t : Token} (here : s.token? = some t) :
    Call s 1 Node (tryOver (statementAt n true))
  | classDef {n : Nat} (few : s.remaining < n + 1) {t : Token} (here : s.token? = some t) :
    Call s 1 Node (classOver (statementAt n true))
  | members {n : Nat} (few : s.remaining < n) (decl : ClassDecl Node) :
    Call s 0 (ClassDecl Node) (membersOver (statementAt n true) decl)
  | declaration {t : Token} (here : s.token? = some t) (isType : isTypeKind t.kind = true) :
    Call s 1 Node (typedDeclaration t)
  | referenceStatement (t : Token) : Call s 1 (Option Node) (referenceStatement t)
  | superStatement {t : Token} (here : s.token? = some t) :
    Call s 1 (Option Node) (superStatement t)
  | print : Call s 1 Node printStatement
  | ret : Call s 1 Node returnStatement
  | throw : Call s 1 Node throwStatement
  | exit : Call s 1 Node exitStatement
  | importFile : Call s 1 Node importStatement
  | wholeStatement (closed : Bool) : Call s 1 Node (Parser.statement closed)

theorem Call.went (call : Call s least α p) (inside : s.Inside) :
    Went least none s AnyResult (p s) := by
  have last : s.remaining < s.remaining + 1 := Nat.lt_succ_self _
  have read : ∀ {n : Nat} {k : Option Nat} {start : State → Prop} {least : Nat} {α : Type}
      {p : Parser α} {Q : α → Prop}, ForwardFrom start k n false least p Q → s.remaining < n →
      start s → Went least none s AnyResult (p s) := by
    intro n k start least α p Q forward few begins
    exact (forward s begins ⟨inside, few, nofun⟩).unbooked.imp (.inl (Nat.le_refl _))
      fun _ _ => trivial
  have statements : ∀ {n b}, Forward Anywhere n false 1 (statementAt n b) Node.Coherent :=
    forward_statementAt _ _
  have factors : ∀ {n}, Phrase Anywhere n false (factorAt n) := forward_factorAt _
  have any : Anywhere s := trivial
  let C : ClassDecl Node → Prop := ClassDecl.Coherent
  cases call with
  | synchronize => exact read forward_synchronize last any
  | complain token what => exact read (forward_complain token what) last any
  | expect kind => exact read (forward_expect .unbooked) last any
  | expectName asked => exact (forward_expectName s any ⟨inside, last, fun _ => asked⟩).unbooked
  | factor few => exact read factors few any
  | power few => exact read (forward_exponentOver factors) few any
  | term few => exact read (forward_termOver factors) few any
  | sum few => exact read (forward_sumOver factors) few any
  | comparison few => exact read (forward_comparisonOver factors) few any
  | conjunction few => exact read (forward_andOver factors) few any
  | expression few => exact read (forward_orOver factors) few any
  | elements few close => exact read (forward_elementsOver factors close) few any
  | arguments few => exact read (forward_argumentsOver factors) few any
  | dictionary few here => exact read (forward_dictionaryOver factors _) few here
  | cast few here => exact read (forward_castOver (k := none) factors nofun) few here
  | input few here => exact read (forward_inputOver factors _) few here
  | array few here => exact read (forward_arrayOver (k := none) factors rfl) few here
  | group few here => exact read (forward_groupOver (k := none) factors rfl) few here
  | reference few here => exact read (forward_referenceOver (k := none) factors rfl) few here
  | newObject few here isNew => exact read (forward_newObjectOver factors isNew) few here
  | super few here isSuper =>
    exact read (forward_superOver (k := none) factors isSuper rfl) few here
  | wholeFactor => exact read forward_factor last any
  | wholeExpression => exact read forward_orExpression last any
  | statement few closed => exact read statements few any
  | block few => exact read (forward_blockOver statements) few any
  | parameters asked => exact (forward_parameters s any ⟨inside, last, fun _ => asked⟩).unbooked
  | ifElse few here => exact read (forward_ifOver statements .unbooked) few here
  | whileLoop few here => exact read (forward_whileOver statements .unbooked) few here
  | forLoop few here isFor =>
    exact read (forward_forOver (k := none) statements isFor rfl statements) few here
  | forEach few here isFor =>
    exact read (forward_forEachOver (k := none) statements isFor rfl) few here
  | function few here isFunction access =>
    exact read (forward_routineOver (k := none) statements isFunction rfl access) few here
  | tryCatch few here => exact read (forward_tryOver statements .unbooked) few here
  | classDef few here => exact read (forward_classOver statements .unbooked) few here
  | members few decl => exact read (forward_membersOver statements False.elim) few any
  | declaration here isType => exact read (forward_typedDeclaration (C := C) isType) last here
  | referenceStatement t => exact read (forward_referenceStatement (C := C) t) last any
  | superStatement here => exact read (forward_superStatement (C := C) (k := none) nofun) last here
  | print => exact read (forward_printStatement (C := C) .unbooked) last any
  | ret => exact read (forward_returnStatement (C := C) .unbooked) last any
  | throw | importFile =>
    exact read (forward_wordStatement (C := C) .unbooked fun _ => everyClass_around rfl rfl) last any
  | exit => exact read (forward_exitStatement (C := C) .unbooked) last any
  | wholeStatement closed => exact read (forward_statement closed) last any

theorem Breaks.ne_exhausted (h : Breaks stop s) : stop ≠ .exhausted := by
  intro out
  cases h <;> cases out

theorem Went.places {Q : α → Prop} (went : Went least none s Q (p s)) :
    (∀ t, p s ≠ .error .exhausted t) ∧
      (ending (p s)).tokens = s.tokens ∧
      s.pos ≤ (ending (p s)).pos ∧ (ending (p s)).pos ≤ s.tokens.size ∧
      ∀ a t, p s = .ok a t → s.pos + least ≤ s.tokens.size → s.pos + least ≤ t.pos := by
  generalize p s = result at went
  cases went with
  | @ok a t onward used _ _ =>
    have inside : t.pos ≤ s.tokens.size := onward.tokens ▸ onward.inside
    refine ⟨fun t stopped => (nomatch stopped), onward.tokens, onward.pos, inside, ?_⟩
    rintro _ _ same left
    cases same
    unfold State.remaining at used
    rw [onward.tokens] at used
    omega
  | @stop stop t onward breaks =>
    have inside : t.pos ≤ s.tokens.size := onward.tokens ▸ onward.inside
    refine ⟨?_, onward.tokens, onward.pos, inside, ?_⟩
    · intro u out
      cases out
      exact breaks.ne_exhausted rfl
    · intro a u same
      cases same

/-! ## Whole texts -/

/-- The state in which the parser starts on a text. -/
def starting (tokens : List Token) (strict : Bool) : State :=
  { tokens := tokens.toArray, strict := strict }

theorem parse_eq (tokens : List Token) (strict : Bool) :
    parse tokens strict = runProgram (starting tokens strict) := rfl

theorem went_program {t : Token} {rest : List Token} (isStarter : t.kind = .keyword .start)
    (strict : Bool) :
    Went 1 none (starting (t :: rest) strict) Node.Coherent
      (program (starting (t :: rest) strict)) := by
  have inside : (starting (t :: rest) strict).Inside := Nat.zero_le _
  exact went_undecided isStarter inside rfl rfl

theorem program_of_unstarted (unstarted : ∀ t, s.token? = some t → t.kind ≠ .keyword .start) :
    program s = .error .noStarter s := by
  unfold program
  rw [bind_apply (peek_apply s)]
  cases here : s.token? with
  | none => rfl
  | some t =>
    simp only [if_neg (unstarted t here)]
    rfl

theorem program_unstarted (unstarted : ∀ t, tokens.head? = some t → t.kind ≠ .keyword .start)
    (strict : Bool) :
    program (starting tokens strict) = .error .noStarter (starting tokens strict) := by
  refine program_of_unstarted fun t here => unstarted t ?_
  rw [List.head?_eq_getElem?]
  exact List.getElem?_toArray.symm.trans here

theorem program_cases (tokens : List Token) (strict : Bool) :
    program (starting tokens strict) = .error .noStarter (starting tokens strict) ∨
      Went 0 none (starting tokens strict) Node.Coherent (program (starting tokens strict)) := by
  by_cases started : ∃ t, tokens.head? = some t ∧ t.kind = .keyword .start
  · obtain ⟨t, first, isStarter⟩ := started
    obtain ⟨rest, rfl⟩ := List.head?_eq_some_iff.mp first
    exact .inr ((went_program isStarter strict).mono (Nat.zero_le _))
  · refine .inl (program_unstarted (fun t first isStarter => ?_) strict)
    exact started ⟨t, first, isStarter⟩

theorem program_eq (tokens : List Token) (strict : Bool) :
    program (starting tokens strict) =
      match (parse tokens strict).node with
      | .ok node => .ok node (parse tokens strict).state
      | .error stop => .error stop (parse tokens strict).state := by
  rw [parse_eq, runProgram]
  cases program (starting tokens strict) <;> rfl

theorem parse_ok {node : Node} (h : (parse tokens strict).node = .ok node) :
    program (starting tokens strict) = .ok node (parse tokens strict).state := by
  rw [program_eq, h]

theorem parse_error (h : (parse tokens strict).node = .error stop) :
    program (starting tokens strict) = .error stop (parse tokens strict).state := by
  rw [program_eq, h]

theorem mem_of_asked (text : s.tokens = tokens.toArray) (asked : s.Asked) :
    ∃ word ∈ tokens, asksForName word.kind = true := by
  obtain ⟨i, word, _, found, asks⟩ := asked
  rw [text, List.getElem?_toArray] at found
  exact ⟨word, List.mem_of_getElem? found, asks⟩

theorem parse_inside (tokens : List Token) (strict : Bool) :
    (parse tokens strict).node ≠ .error .exhausted ∧
      (parse tokens strict).state.tokens = tokens.toArray ∧ (parse tokens strict).state.Inside := by
  have state : (parse tokens strict).state = ending (program (starting tokens strict)) :=
    Pairing.runProgram_state _
  rcases program_cases tokens strict with unstarted | went
  · rw [unstarted] at state
    refine ⟨?_, by rw [state]; rfl, by rw [state]; exact Nat.zero_le _⟩
    intro out
    have stopped := parse_error out
    rw [unstarted] at stopped
    cases stopped
  · obtain ⟨ends, text, _, bound, _⟩ := went.places
    rw [← state] at text bound
    refine ⟨fun out => ends _ (parse_error out), text, ?_⟩
    unfold State.Inside
    rw [text]
    exact bound

/-- Every text is read without running out of levels or rounds. The place never goes beyond the last
token, and is there whenever a tree comes out. Each call at a place of the text goes on within the
text; those that use up a token do so before they return. -/
theorem parse_comes_to_end (tokens : List Token) (strict : Bool) :
    (parse tokens strict).node ≠ .error .exhausted ∧
      (parse tokens strict).state.pos ≤ tokens.length ∧
      (∀ node, (parse tokens strict).node = .ok node →
        (parse tokens strict).state.pos = tokens.length) ∧
      ∀ (s : State) (least : Nat) (α : Type) (p : Parser α),
        s.tokens = tokens.toArray → s.pos ≤ tokens.length → Call s least α p →
          (∀ t, p s ≠ .error .exhausted t) ∧
          (ending (p s)).tokens = tokens.toArray ∧
          s.pos ≤ (ending (p s)).pos ∧ (ending (p s)).pos ≤ tokens.length ∧
          ∀ a t, p s = .ok a t → s.pos + least ≤ tokens.length → s.pos + least ≤ t.pos := by
  have size : tokens.toArray.size = tokens.length := List.size_toArray
  obtain ⟨ends, same, inside⟩ := parse_inside tokens strict
  refine ⟨ends, ?_, ?_, ?_⟩
  · unfold State.Inside at inside
    rwa [same, size] at inside
  · intro node read
    have last := State.pos_eq_size inside (program_eq_ok (parse_ok read)).2
    rwa [same, size] at last
  · intro s least α p text inside call
    have here : s.Inside := by
      unfold State.Inside
      rw [text, size]
      exact inside
    have places := (call.went here).places
    rw [text, size] at places
    exact places

/-- A declaration that is cut off after its type. -/
def bareType : List Token :=
  [⟨.keyword .start, .text "Chief", 1, 1⟩, ⟨.keyword .intType, .text "Int", 1, 7⟩]

/-- An assignment that is cut off after its operator. -/
def bareAssignment : List Token :=
  [⟨.keyword .start, .text "Chief", 1, 1⟩, ⟨.ident, .text "x", 1, 7⟩, ⟨.op, .text ":=", 1, 9⟩]

theorem parse_comes_to_end_bareType :
    (parse bareType).node ≠ .error .exhausted ∧ (parse bareType).state.pos ≤ 2 ∧
      ∀ a t, statementAt 2 true ⟨bareType.toArray, 1, [], false, none⟩ = .ok a t → 2 ≤ t.pos := by
  obtain ⟨ends, bound, _, calls⟩ := parse_comes_to_end bareType false
  refine ⟨ends, bound, fun a t read => ?_⟩
  have few : (⟨bareType.toArray, 1, [], false, none⟩ : State).remaining < 2 := by decide
  have places := calls _ _ _ _ rfl (by decide) (.statement few true)
  exact places.2.2.2.2 a t read (by decide)

/-- A text that begins with a start word gives a program; or the reading stops: a token is needed
after the last one, or something else stands where a name or an operator is needed, and the last
problem says so. -/
theorem parse_started {starter : Token} {rest : List Token}
    (isStarter : starter.kind = .keyword .start) (strict : Bool) :
    (∃ statements, (parse (starter :: rest) strict).node = .ok (.program statements)) ∨
      ((parse (starter :: rest) strict).node = .error (.noToken .kind) ∧
        (parse (starter :: rest) strict).state.pos = rest.length + 1) ∨
      ((parse (starter :: rest) strict).node = .error (.noToken .value) ∧
        ∃ found kind,
          (parse (starter :: rest) strict).state.problems.getLast? =
            some (.complaint found (.expected kind)) ∧
          (∀ t, found = some t → t.kind ≠ kind) ∧
          ((kind = .ident ∧ ∃ word ∈ starter :: rest, asksForName word.kind = true) ∨
            (kind = .op ∧
              ∃ t, found = some t ∧ (t.hasText "&&" = true ∨ t.hasText "||" = true)))) := by
  have went := @went_program starter rest isStarter strict
  cases outcome : (parse (starter :: rest) strict).node with
  | ok node =>
    have result := parse_ok outcome
    obtain ⟨⟨statements, rfl⟩, _⟩ := program_eq_ok result
    exact .inl ⟨statements, rfl⟩
  | error stop =>
    refine .inr ?_
    have result := parse_error outcome
    rw [result] at went
    cases went with
    | stop onward breaks =>
      cases breaks with
      | atEnd none_left =>
        have last := State.pos_eq_size onward.inside none_left
        rw [onward.tokens] at last
        exact .inl ⟨rfl, last⟩
      | nameless asked other noted =>
        refine .inr ⟨rfl, _, .ident, noted, other, .inl ⟨rfl, ?_⟩⟩
        exact mem_of_asked onward.tokens asked
      | @notOperator _ t reads other noted =>
        refine .inr ⟨rfl, some t, .op, noted, ?_, .inr ⟨rfl, t, rfl, reads⟩⟩
        intro u same
        exact Option.some.inj same ▸ other

theorem parse_started_bareType :
    (∃ statements, (parse bareType).node = .ok (.program statements)) ∨
      ((parse bareType).node = .error (.noToken .kind) ∧ (parse bareType).state.pos = 2) ∨
      ((parse bareType).node = .error (.noToken .value) ∧ ∃ found kind,
        (parse bareType).state.problems.getLast? = some (.complaint found (.expected kind))) := by
  rcases @parse_started ⟨.keyword .start, .text "Chief", 1, 1⟩
      [⟨.keyword .intType, .text "Int", 1, 7⟩] rfl false with
    read | atEnd | ⟨stopped, found, kind, noted, _⟩
  · exact .inl read
  · exact .inr (.inl atEnd)
  · exact .inr (.inr ⟨stopped, found, kind, noted⟩)

/-- Recovery is not total: the name after a type and the value after an operator are read off tokens
that are not there. -/
theorem parse_cut_off :
    (parse bareType).node = .error (.noToken .value) ∧
      (parse bareType).state.problems = [.complaint none (.expected .ident)] ∧
      (parse bareAssignment).node = .error (.noToken .kind) ∧
      (parse bareAssignment).state.problems = [] := by
  refine ⟨rfl, rfl, rfl, rfl⟩

end Hetman.Parser
