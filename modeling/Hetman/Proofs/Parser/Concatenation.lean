import Hetman.Proofs.Lexer
import Hetman.Proofs.Parser.Following
import Hetman.Proofs.Parser.Outcomes
import Hetman.Proofs.Parser.RoundTrip
import Mathlib.Data.List.TakeWhile

/-!
# Texts one after the other

`Gives tokens nodes`: these tokens stand for these statements, wherever they are read. A reading
without a problem gives such a fact (`gives_of_read`) about all texts that begin with the tokens, as
long as what follows gives statements too and is `Detached`. So programs in a row are read one after
the other.
-/

namespace Hetman.Parser

open List

variable {s u : State} {nodes before later : List Node} {fuel : Nat} {starter t first : Token}
  {more tokens front : List Token} {closed : Bool} {node : Node} {test : Token → Bool}

/-! ## Statements at a place -/

/-- The tokens that may stand between statements. -/
def isSeparator (t : Token) : Bool :=
  t.kind = .semicolon || t.kind = .rbrace

/-- A statement without the separators before it. -/
def statementHere (statement : Bool → Parser Node) (closed : Bool) : Parser Node := do
  match ← peek with
  | none => return .missing
  | some t =>
    if isStatementKeyword t.kind then checkDialect t
    statementFrom statement closed t

theorem statement_apply (closed : Bool) (s : State) :
    statement closed s =
      statementHere (statementAt s.remaining) closed
        (s.skip (runOf isSeparator s.rest)) := by
  exact bind_apply (skipLoop_apply isSeparator s)

theorem statementHere_none {statement : Bool → Parser Node} (none_left : s.rest = []) :
    statementHere statement closed s = .ok .missing s := by
  unfold statementHere
  rw [bind_apply (peek_apply s), (s.rest_eq_nil_iff).mp none_left]
  rfl

theorem statementHere_some {statement : Bool → Parser Node} (plain : s.strict = false)
    (here : s.token? = some t) :
    statementHere statement closed s = statementFrom statement closed t s := by
  unfold statementHere
  rw [bind_apply (peek_apply s), here]
  by_cases isKeyword : isStatementKeyword t.kind = true
  · simp only [if_pos isKeyword]
    exact bind_apply (checkDialect_looks t s.rest s plain rfl)
  · simp only [if_neg isKeyword]

/-- A token that begins no statement is a problem. -/
theorem objects_statementFrom {statement : Bool → Parser Node}
    (other : beginsStatement t.kind = false) :
    Objects (statementFrom statement closed t) := by
  obtain ⟨kind, payload, line, column⟩ := t
  cases kind with
  | keyword k => cases k <;> first | exact objects_failNode _ _ | cases other
  | ident | semicolon | rbrace => cases other
  | _ => exact objects_failNode _ _

theorem not_isSeparator (other : beginsStatement t.kind = false) : isSeparator t = false := by
  obtain ⟨kind, payload, line, column⟩ := t
  cases kind with
  | semicolon | rbrace => cases other
  | _ => rfl

/-! ## What tokens stand for -/

/-- The statements of a program, after some. -/
def statementsFrom (fuel : Nat) (nodes : List Node) : Parser (List Node) :=
  repeatWhile (fun _ => nextIs fun _ => true)
    (fun nodes => do
      let node ← statement
      return if isPresent node then nodes ++ [node] else nodes)
    fuel nodes

/-- A node that was read, as a list. -/
def present (node : Node) : List Node :=
  if isPresent node then [node] else []

theorem append_present (nodes : List Node) (node : Node) :
    (if isPresent node then nodes ++ [node] else nodes) = nodes ++ present node := by
  unfold present
  by_cases read : isPresent node = true
  · rw [if_pos read, if_pos read]
  · rw [if_neg read, if_neg read, append_nil]

theorem statementsFrom_nil (none_left : s.rest = []) :
    statementsFrom (fuel + 1) nodes s = .ok nodes s := by
  unfold statementsFrom repeatWhile
  rw [bind_apply (nextIs_apply _ s), none_left]
  rfl

theorem statementsFrom_cons (some_left : s.rest ≠ []) :
    statementsFrom (fuel + 1) nodes s =
      (statement >>= fun node => statementsFrom fuel (nodes ++ present node)) s := by
  obtain ⟨t, rest, left⟩ := exists_cons_of_ne_nil some_left
  show (nextIs _ >>= _) s = _
  rw [bind_apply (nextIs_apply _ s), left]
  show ((statement >>= fun node => pure (if isPresent node then nodes ++ [node] else nodes)) >>=
    statementsFrom fuel) s = _
  have next : (fun node => pure (if isPresent node then nodes ++ [node] else nodes) >>=
      statementsFrom fuel) = fun node => statementsFrom fuel (nodes ++ present node) := by
    funext node
    rw [pure_bind, append_present]
  rw [bind_assoc, next]

/-- The tokens give these statements in every reading without strict mode that comes to them,
whatever separators stand before them. -/
def Gives (tokens : List Token) (nodes : List Node) : Prop :=
  ∀ (separators : List Token) (s : State) (before : List Node) (fuel : Nat),
    (∀ t ∈ separators, isSeparator t = true) → s.strict = false → s.rest = separators ++ tokens →
    s.rest.length < fuel →
      ∃ t, statementsFrom fuel before s = .ok (before ++ nodes) t ∧ t.problems = s.problems

theorem runOf_append (all : ∀ t ∈ front, test t = true) (rest : List Token) :
    runOf test (front ++ rest) = front.length + runOf test rest := by
  unfold runOf
  rw [takeWhile_append_of_pos all, length_append]

theorem runOf_append_left {rest : List Token} (stopped : rest.drop (runOf test rest) ≠ [])
    (more : List Token) : runOf test (rest ++ more) = runOf test rest := by
  have few : ¬(rest.takeWhile test).length = rest.length := by
    intro every
    refine stopped ?_
    unfold runOf
    rw [every, drop_length]
  unfold runOf
  rw [takeWhile_append, if_neg few]

theorem statementsFrom_separators (ended : s.rest.drop (runOf isSeparator s.rest) = [])
    (enough : s.rest.length < fuel) :
    ∃ t, statementsFrom fuel before s = .ok before t ∧ t.problems = s.problems := by
  obtain ⟨fuel, rfl⟩ : ∃ k, fuel = k + 1 := ⟨fuel - 1, by omega⟩
  by_cases none_left : s.rest = []
  · rw [statementsFrom_nil none_left]
    exact ⟨s, rfl, rfl⟩
  · have last : (s.skip (runOf isSeparator s.rest)).rest = [] := by rw [State.rest_skip, ended]
    have skipped : statement true s = .ok .missing (s.skip (runOf isSeparator s.rest)) := by
      rw [statement_apply, statementHere_none last]
    obtain ⟨fuel, rfl⟩ : ∃ k, fuel = k + 1 := by
      have some_left := length_pos_of_ne_nil none_left
      exact ⟨fuel - 1, by omega⟩
    rw [statementsFrom_cons none_left, bind_apply skipped, statementsFrom_nil last]
    refine ⟨s.skip (runOf isSeparator s.rest), ?_, rfl⟩
    rw [present, isPresent, if_neg Bool.false_ne_true, append_nil]

theorem gives_nil : Gives [] [] := by
  intro separators s before fuel all plain left enough
  rw [append_nil] at left ⊢
  refine statementsFrom_separators ?_ enough
  rw [drop_runOf, left]
  exact dropWhile_eq_nil_iff.mpr all

theorem detached_nil : Detached [] := by
  intro t first
  cases first

/-! ## One text after the other -/

theorem steady_statement (closed : Bool) : Steady (statement closed) :=
  (Pairing.agree_statement Pairing.same_shut closed).moves

theorem steady_statementsFrom (fuel : Nat) (before : List Node) :
    Steady (statementsFrom fuel before) := by
  intro s
  induction fuel generalizing before s with
  | zero => exact .refl s
  | succ fuel ih =>
    by_cases none_left : s.rest = []
    · rw [statementsFrom_nil none_left]
      exact .refl s
    · rw [statementsFrom_cons none_left]
      exact (steady_statement true).bind (fun node => ih (before ++ present node)) s

theorem round_of_read {t : State} (some_left : s.rest ≠ [])
    (result : statementsFrom (fuel + 1) before s = .ok nodes t)
    (clean : t.complaints = s.complaints) :
    ∃ node u, statement true s = .ok node u ∧ u.complaints = s.complaints ∧
      statementsFrom fuel (before ++ present node) u = .ok nodes t ∧
      t.complaints = u.complaints := by
  rw [statementsFrom_cons some_left] at result
  obtain ⟨node, u, read, result⟩ := bind_eq_ok result
  have early := (steady_statement true).ok read
  obtain ⟨same, same'⟩ := early.clean ((steady_statementsFrom _ _).ok result) clean
  exact ⟨node, u, read, same, result, same'⟩

theorem Gives.separators (every : ∀ t ∈ front, isSeparator t = true) (gives : Gives more nodes) :
    Gives (front ++ more) nodes := by
  intro separators s before fuel all plain left enough
  refine gives (separators ++ front) s before fuel ?_ plain ?_ enough
  · intro t member
    exact (mem_append.mp member).elim (all t) (every t)
  · rw [left, append_assoc]

/-- A clean statement is read alike after further separators and before detached text. -/
theorem statement_follow {v : State} {separators : List Token} (plain : s.strict = false)
    (detached : Detached more) (here : (s.skip (runOf isSeparator s.rest)).token? = some first)
    (read : statement true s = .ok node u) (clean : u.complaints = s.complaints) (inside : u.Inside)
    (all : ∀ t ∈ separators, isSeparator t = true) (plain' : v.strict = false)
    (left : v.rest = separators ++ (s.rest ++ more)) :
    ∃ v', statement true v = .ok node v' ∧ v'.rest = u.rest ++ more ∧ v'.strict = false ∧
      v'.problems = v.problems := by
  have stopped : s.rest.drop (runOf isSeparator s.rest) ≠ [] := by
    rw [← State.rest_skip, State.rest_eq_cons here]
    exact cons_ne_nil _ _
  have count : runOf isSeparator v.rest = separators.length + runOf isSeparator s.rest := by
    rw [left, runOf_append all, runOf_append_left stopped]
  have beside : Beside [] more (s.rest.drop (runOf isSeparator s.rest))
      (s.skip (runOf isSeparator s.rest)) (v.skip (runOf isSeparator v.rest)) := by
    refine ⟨?_, ?_⟩
    · rw [State.rest_skip, append_nil]
    · rw [State.rest_skip, count, left, drop_length_add_append,
        drop_append_of_le_length (runOf_le _ _)]
  have here' : (v.skip (runOf isSeparator v.rest)).token? = some first :=
    (beside.head? stopped).trans here
  have le : s.remaining ≤ v.remaining := by
    rw [State.remaining_eq, State.remaining_eq, left]
    simp only [length_append]
    omega
  let P := Pairing.following [] more True (Nat.zero_le _) fun _ => detached.apart
  have parts : ∀ b, P.Parts (statementAt s.remaining b) (statementAt v.remaining b) := fun b =>
    Pairing.parts_statementAt (fun _ => detached) ⟨le, False.elim⟩ b
  have agree := (Pairing.agree_statementFrom parts (fun _ => rfl) (Eq.refl first)).ofNode
  rw [statement_apply, statementHere_some (s := s.skip _) plain here] at read
  obtain ⟨v', rest, read', beside', clean'⟩ := Pairing.follow agree beside ⟨here, here'⟩ read
    clean (.inr ⟨trivial, rfl, fun _ => inside⟩)
  rw [← statementHere_some (s := v.skip _) plain' here', ← statement_apply] at read'
  have moves := (steady_statement true).ok read'
  refine ⟨v', read', ?_, moves.strict.trans plain', moves.problems_eq plain' clean'⟩
  rw [beside'.rest', beside'.rest, append_nil]

/-- One statement, and what comes after it: what holds of the tokens after it holds of those from it
on. -/
theorem Gives.statement (plain : s.strict = false) (detached : Detached more)
    (here : (s.skip (runOf isSeparator s.rest)).token? = some first)
    (read : statement true s = .ok node u) (clean : u.complaints = s.complaints) (inside : u.Inside)
    (shorter : u.rest.length < s.rest.length) (gives : Gives (u.rest ++ more) later) :
    Gives (s.rest ++ more) (present node ++ later) := by
  intro separators v before fuel all plain' left enough
  obtain ⟨v', read', left', plain'', clean'⟩ :=
    statement_follow plain detached here read clean inside all plain' left
  obtain ⟨fuel, rfl⟩ : ∃ k, fuel = k + 1 := ⟨fuel - 1, by omega⟩
  have some_left : v.rest ≠ [] := by
    refine ne_nil_of_length_pos ?_
    rw [left]
    simp only [length_append]
    omega
  have enough' : v'.rest.length < fuel := by
    rw [left] at enough
    rw [left']
    simp only [length_append] at enough ⊢
    omega
  obtain ⟨w, result, same⟩ :=
    gives [] v' (before ++ present node) fuel (fun _ none => nomatch none) plain'' left' enough'
  rw [statementsFrom_cons some_left, bind_apply read', result, append_assoc]
  exact ⟨w, rfl, same.trans clean'⟩

/-- What a reading makes of the tokens left: it adds statements, which the tokens give whatever
detached text follows. -/
theorem gives_of_read {t : State} (plain : s.strict = false) (inside : s.Inside)
    (enough : s.rest.length < fuel) (result : statementsFrom fuel before s = .ok nodes t)
    (clean : t.complaints = s.complaints) :
    ∃ added, nodes = before ++ added ∧ ∀ more later, Detached more → Gives more later →
      Gives (s.rest ++ more) (added ++ later) := by
  induction fuel generalizing s before with
  | zero => cases result
  | succ fuel ih =>
    cases here : (s.skip (runOf isSeparator s.rest)).token? with
    | none =>
      have ended : s.rest.drop (runOf isSeparator s.rest) = [] := by
        rw [← State.rest_skip]
        exact (State.rest_eq_nil_iff _).mpr here
      obtain ⟨_, skipped, _⟩ := statementsFrom_separators ended enough
      rw [skipped] at result
      cases result
      rw [drop_runOf] at ended
      refine ⟨[], (append_nil _).symm, fun more later _ gives => ?_⟩
      exact gives.separators (dropWhile_eq_nil_iff.mp ended)
    | some first =>
      have some_left : s.rest ≠ [] := by
        intro none_left
        rw [State.token?_eq, State.rest_skip, none_left] at here
        cases here
      obtain ⟨node, u, read, same, result, same'⟩ := round_of_read some_left result clean
      have plain' : u.strict = false := ((steady_statement true).ok read).strict.trans plain
      have reached : Reached (s.remaining + 1) false s := ⟨inside, Nat.lt_succ_self _, nofun⟩
      have reading : Forward Anywhere (s.remaining + 1) false 1 _ Node.Coherent :=
        forward_statement true
      have went := reading s trivial reached
      rw [read] at went
      cases went with
      | ok onward used _ _ =>
        have shorter : u.rest.length < s.rest.length := by
          have count := length_pos_of_ne_nil some_left
          rw [State.remaining_eq, State.remaining_eq] at used
          omega
        obtain ⟨added, rfl, gives⟩ := ih plain' onward.inside (by omega) result same'
        refine ⟨present node ++ added, append_assoc _ _ _, fun more later detached follows => ?_⟩
        rw [append_assoc]
        exact .statement plain detached here read same onward.inside shorter
          (gives more later detached follows)

theorem beginsStatement_of_read {t : State} (plain : s.strict = false)
    (here : s.token? = some first) (result : statementsFrom (fuel + 1) before s = .ok nodes t)
    (clean : t.complaints = s.complaints) : beginsStatement first.kind = true := by
  by_contra other
  rw [Bool.not_eq_true] at other
  have left : s.rest = first :: s.rest.tail := State.rest_eq_cons here
  have some_left : s.rest ≠ [] := left ▸ cons_ne_nil _ _
  have stays : runOf isSeparator s.rest = 0 := by
    rw [left, runOf, takeWhile_cons_of_neg]
    · rfl
    · rw [not_isSeparator other]
      exact Bool.false_ne_true
  obtain ⟨node, u, read, same, _⟩ := round_of_read some_left result clean
  rw [statement_apply, stays, State.skip_zero, statementHere_some plain here] at read
  exact (objects_statementFrom other _ _ _ read).2 same

/-! ## Programs -/

/-- The state behind the start word. -/
def started (starter : Token) (tokens : List Token) : State :=
  (starting (starter :: tokens) false).skip 1

theorem rest_started (starter : Token) (tokens : List Token) :
    (started starter tokens).rest = tokens := by
  simp [started, starting, State.rest, State.skip]

theorem program_apply (isStarter : starter.kind = .keyword .start) (tokens : List Token) :
    program (starting (starter :: tokens) false) =
      (do return Node.program (← statementsFrom (tokens.length + 1) []))
        (started starter tokens) := by
  have first : (starting (starter :: tokens) false).token? = some starter := rfl
  unfold program
  rw [bind_apply (peek_apply _), first]
  simp only [if_pos isStarter]
  have unset := setDialect_looks starter _ (starting (starter :: tokens) false) rfl rfl
  rfl

theorem isStarter_of_parse (read : (parse (starter :: tokens)).node = .ok node) :
    starter.kind = .keyword .start := by
  by_contra other
  have unstarted : ∀ t, (starter :: tokens).head? = some t → t.kind ≠ .keyword .start := by
    rintro t ⟨⟩
    exact other
  have stopped := program_unstarted unstarted false
  rw [parse_ok read] at stopped
  cases stopped

theorem read_program (read : (parse (starter :: tokens)).node = .ok (.program nodes))
    (clean : (parse (starter :: tokens)).state.problems = []) :
    ∃ t, statementsFrom (tokens.length + 1) [] (started starter tokens) = .ok nodes t ∧
      t.complaints = (started starter tokens).complaints := by
  have result := parse_ok read
  rw [program_apply (isStarter_of_parse read)] at result
  obtain ⟨found, t, loops, stay⟩ := bind_eq_ok result
  cases stay
  exact ⟨_, loops, congrArg (List.filter _) clean⟩

theorem gives_of_parse (read : (parse (starter :: tokens)).node = .ok (.program nodes))
    (clean : (parse (starter :: tokens)).state.problems = []) (detached : Detached more)
    (gives : Gives more later) : Gives (tokens ++ more) (nodes ++ later) := by
  obtain ⟨t, loops, same⟩ := read_program read clean
  have inside : (started starter tokens).Inside := by
    show 1 ≤ (starter :: tokens).toArray.size
    simp
  have enough : (started starter tokens).rest.length < tokens.length + 1 := by
    exact Nat.lt_succ_self _
  obtain ⟨added, rfl, whole⟩ := gives_of_read rfl inside enough loops same
  exact whole more later detached gives

/-- A text that can be read by itself goes on with no reading before it. -/
theorem detached_of_parse (lexed : ∀ t ∈ tokens, ∃ source, t ∈ (lex source).tokens)
    (read : (parse (starter :: tokens)).node = .ok (.program nodes))
    (clean : (parse (starter :: tokens)).state.problems = []) : Detached tokens := by
  intro t first
  obtain ⟨u, loops, same⟩ := read_program read clean
  have here : (started starter tokens).token? = some t := by
    rw [State.token?_eq]
    exact first
  have begins := beginsStatement_of_read rfl here loops same
  obtain ⟨source, member⟩ := lexed t (mem_of_mem_head? first)
  have other : t.kind ≠ .op := by
    intro isOp
    rw [isOp] at begins
    cases begins
  refine ⟨begins, ?_, ?_⟩
  · refine Bool.eq_false_iff.mpr fun reads => other ?_
    exact Lexer.kind_of_logical member (.inl reads)
  · refine Bool.eq_false_iff.mpr fun reads => other ?_
    exact Lexer.kind_of_logical member (.inr reads)

/-- Two texts that are read without a problem can be put one after the other: the statements of the
first come out, then those of the second. -/
theorem parse_append {first second starter : Token} {front back : List Token}
    {nodes nodes' : List Node}
    (isStarter : starter.kind = .keyword .start)
    (lexed : ∀ t ∈ back, ∃ source, t ∈ (lex source).tokens)
    (read : (parse (first :: front)).node = .ok (.program nodes))
    (clean : (parse (first :: front)).state.problems = [])
    (read' : (parse (second :: back)).node = .ok (.program nodes'))
    (clean' : (parse (second :: back)).state.problems = []) :
    (parse (starter :: (front ++ back))).node = .ok (.program (nodes ++ nodes')) ∧
      (parse (starter :: (front ++ back))).state.problems = [] := by
  have gives' : Gives back nodes' := by
    have gives := gives_of_parse read' clean' detached_nil gives_nil
    rw [append_nil, append_nil] at gives
    exact gives
  have gives : Gives (front ++ back) (nodes ++ nodes') :=
    gives_of_parse read clean (detached_of_parse lexed read' clean') gives'
  have left := rest_started starter (front ++ back)
  obtain ⟨t, loops, same⟩ := gives [] (started starter (front ++ back)) []
    ((front ++ back).length + 1) (fun _ none => nomatch none) rfl left (by rw [left]; omega)
  have result : program (starting (starter :: (front ++ back)) false) =
      .ok (.program (nodes ++ nodes')) t := by
    rw [program_apply isStarter, bind_apply loops]
    rfl
  have parsed : parse (starter :: (front ++ back)) = ⟨.ok (.program (nodes ++ nodes')), t⟩ := by
    rw [parse_eq, runProgram, result]
  rw [parsed]
  exact ⟨rfl, same⟩

/-- A start word. -/
def chief : Token := ⟨.keyword .start, .text "Chief", 1, 1⟩

/-- `Int x := y`, without a semicolon. -/
def openDeclaration : List Token :=
  [⟨.keyword .intType, .text "Int", 1, 7⟩, ⟨.ident, .text "x", 1, 11⟩, ⟨.op, .text ":=", 1, 13⟩,
    ⟨.ident, .text "y", 1, 16⟩]

/-- `z++;`. -/
def countUp : List Token :=
  [⟨.ident, .text "z", 1, 7⟩, ⟨.op, .text "++", 1, 8⟩, ⟨.semicolon, .text ";", 1, 10⟩]

theorem parse_append_openDeclaration :
    (parse (chief :: (openDeclaration ++ countUp))).node =
      .ok (.program [.assign "x" (.var "y") (some "Int"), .step .increment (.var "z")]) ∧
    (parse (chief :: (openDeclaration ++ countUp))).state.problems = [] := by
  have written : (lex "Chief z++;").tokens = chief :: countUp := by decide +kernel
  have lexed : ∀ t ∈ countUp, ∃ source, t ∈ (lex source).tokens := by
    intro t member
    exact ⟨"Chief z++;", written ▸ mem_cons_of_mem _ member⟩
  have declared : (parse (chief :: openDeclaration)).node =
      .ok (.program [.assign "x" (.var "y") (some "Int")]) := rfl
  have counted :
      (parse (chief :: countUp)).node = .ok (.program [.step .increment (.var "z")]) := rfl
  exact parse_append rfl lexed declared rfl counted rfl

end Hetman.Parser
