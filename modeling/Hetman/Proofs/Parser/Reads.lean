import Hetman.Proofs.Parser.Printing

/-!
# What a parser reads

`Reads p ls a follow`: the parser `p`, without strict mode, takes exactly the tokens that spell `ls`
and gives `a`, whatever comes after, as long as that satisfies `follow`. The rules follow the
structure of a parser: `Reads.bind`, `Reads.look` for a glance at the next token, and
`Reads.repeatWhile` for a loop that takes one item in each round.
-/

namespace Hetman

open List

variable {kind : Kind} {ts : List Token} {between : List Token → Prop} {t : Token} {text : String}
  {s : State} {f : Token → Bool}

/-! ## Spelled lists -/

theorem Spells.length_eq {ls : List Lexeme} (h : Spells ls ts) : ts.length = ls.length :=
  (List.Forall₂.length_eq h).symm

theorem Spells.nil_eq (h : Spells [] ts) : ts = [] :=
  List.forall₂_nil_left_iff.mp h

theorem Spells.cons_split {l : Lexeme} {ls : List Lexeme} (h : Spells (l :: ls) ts) :
    ∃ t rest, ts = t :: rest ∧ l.Accepts t ∧ Spells ls rest := by
  obtain ⟨t, rest, accepted, spelled, eq⟩ := List.forall₂_cons_left_iff.mp h
  exact ⟨t, rest, eq, accepted, spelled⟩

theorem Spells.append_split {ls ls' : List Lexeme} (h : Spells (ls ++ ls') ts) :
    ∃ front back, ts = front ++ back ∧ Spells ls front ∧ Spells ls' back := by
  refine ⟨ts.take ls.length, ts.drop ls.length, (take_append_drop _ _).symm, ?_, ?_⟩
  · simpa [Spells] using List.forall₂_take ls.length h
  · simpa [Spells] using List.forall₂_drop ls.length h

/-- The tokens begin with one that fits a lexeme. -/
def Begins (l : Lexeme) (tokens : List Token) : Prop :=
  ∃ t rest, tokens = t :: rest ∧ l.Accepts t

theorem Spells.begins {l : Lexeme} {ls : List Lexeme} (h : Spells (l :: ls) ts) (rest : List Token) :
    Begins l (ts ++ rest) := by
  obtain ⟨t, tail, rfl, accepted, _⟩ := h.cons_split
  exact ⟨t, tail ++ rest, rfl, accepted⟩

theorem Token.hasText_eq (h : t.payload = .text text) (other : String) :
    t.hasText other = (text == other) := by
  rw [Token.hasText, h, Bool.eq_iff_iff, beq_iff_eq, beq_iff_eq, Token.Payload.text.injEq]

theorem Lexeme.accepts_token (l : Lexeme) : l.Accepts l.token := by
  cases l with
  | mark kind =>
    refine ⟨rfl, ?_⟩
    cases kind with
    | keyword k => cases k <;> decide
    | other name => exact ⟨rfl, rfl⟩
    | _ => decide
  | op symbol | name text => exact ⟨rfl, rfl⟩
  | reference text =>
    by_cases hthis : text = "this"
    · exact .inr ⟨by simp [token, referenceKind, hthis], hthis⟩
    · refine .inl ⟨?_, rfl⟩
      by_cases hlength : Token.keyword? text = some .length
      · exact .inr (by simp [token, referenceKind, hthis, hlength])
      · exact .inl (by simp [token, referenceKind, hthis, hlength])
  | target text =>
    by_cases hthis : text = "this"
    · exact .inr ⟨by simp [token, hthis], hthis⟩
    · exact .inl ⟨by simp [token, hthis], rfl⟩
  | typeWord text =>
    refine ⟨?_, rfl⟩
    simp only [token, typeWordKind]
    split
    · split
      · assumption
      · rfl
    · rfl
  | number value => exact ⟨rfl, rfl⟩
  | quoted text =>
    refine ⟨rfl, ?_⟩
    by_cases hquote : text.toList.contains '"' = true
    · exact .inr (by simp only [token, if_pos hquote])
    · exact .inl (by simp only [token, if_neg hquote])

theorem Node.spells_programTokens (node : Node) :
    Spells node.programLexemes node.programTokens :=
  List.forall₂_map_right_iff.mpr (List.forall₂_same.mpr fun l _ => l.accepts_token)

namespace Parser

/-! ## The rest of the tokens -/

/-- The tokens from the current one on. -/
def State.rest (s : State) : List Token :=
  s.tokens.toList.drop s.pos

/-- The state some tokens further on. -/
def State.skip (s : State) (n : Nat) : State :=
  { s with pos := s.pos + n }

namespace State

@[simp] theorem skip_zero (s : State) : s.skip 0 = s := rfl

@[simp] theorem skip_skip (s : State) (m n : Nat) : (s.skip m).skip n = s.skip (m + n) := by
  simp [skip, Nat.add_assoc]

@[simp] theorem rest_skip (s : State) (n : Nat) : (s.skip n).rest = s.rest.drop n := by
  simp [skip, rest]

theorem getElem?_rest (s : State) (n : Nat) : s.tokens[s.pos + n]? = s.rest[n]? := by
  simp [rest]

theorem token?_eq (s : State) : s.token? = s.rest.head? := by
  simp [token?, rest]

theorem remaining_eq (s : State) : s.remaining = s.rest.length := by
  simp [remaining, rest]

end State

/-! ## Looking and reading -/

/-- The parser `p` gives `a` and takes nothing when these tokens are left. -/
def Looks {α : Type} (p : Parser α) (a : α) (rest : List Token) : Prop :=
  ∀ s : State, s.strict = false → s.rest = rest → p s = .ok a s

/-- `p` takes the tokens that spell `ls` and gives `a`, if what follows satisfies `follow`. -/
def Reads {α : Type} (p : Parser α) (ls : List Lexeme) (a : α)
    (follow : List Token → Prop) : Prop :=
  ∀ (s : State) (ts rest : List Token), s.strict = false → s.rest = ts ++ rest →
    Spells ls ts → follow rest → p s = .ok a (s.skip ts.length)

def Anything (_ : List Token) : Prop := True

variable {α β : Type} {p : Parser α} {q : α → Parser β} {a : α} {b : β}
  {ls ls' : List Lexeme} {l : Lexeme} {follow follow' : List Token → Prop} {rest : List Token}

theorem bind_apply {s' : State} (h : p s = .ok a s') : (p >>= q) s = q a s' := by
  simp only [bind, EStateM.bind, h]

theorem get_apply (f : State → Parser α) (s : State) : (get >>= f) s = f s s :=
  rfl

theorem Reads.pure (a : α) (follow : List Token → Prop) :
    Reads (Pure.pure a) [] a follow := by
  intro s ts rest strict left spelled _
  cases spelled.nil_eq
  rfl

theorem Reads.weaken (h : Reads p ls a follow) (imp : ∀ rest, follow' rest → follow rest) :
    Reads p ls a follow' :=
  fun s ts rest strict left spelled after => h s ts rest strict left spelled (imp rest after)

/-- What the second parser reads may come after the first. -/
theorem Reads.bind (first : Reads p ls a follow) (second : Reads (q a) ls' b follow')
    (meets : ∀ ts rest, Spells ls' ts → follow' rest → follow (ts ++ rest)) :
    Reads (p >>= q) (ls ++ ls') b follow' := by
  intro s ts rest strict left spelled after
  obtain ⟨front, back, rfl, spelledFront, spelledBack⟩ := spelled.append_split
  rw [append_assoc] at left
  rw [bind_apply (first s front (back ++ rest) strict left spelledFront
    (meets back rest spelledBack after))]
  rw [second (s.skip front.length) back rest strict (by simp [left]) spelledBack after]
  simp

theorem Reads.andThen (first : Reads p ls a Anything) (second : Reads (q a) ls' b follow') :
    Reads (p >>= q) (ls ++ ls') b follow' :=
  first.bind second fun _ _ _ _ => trivial

theorem Reads.first (first : Reads p [l] a Anything) (second : Reads (q a) ls b follow) :
    Reads (p >>= q) (l :: ls) b follow :=
  first.andThen second

/-- After the first parser comes a token that the second begins with. -/
theorem Reads.before (first : Reads p ls a follow) (second : Reads (q a) (l :: ls') b follow')
    (meets : ∀ rest, Begins l rest → follow rest) :
    Reads (p >>= q) (ls ++ l :: ls') b follow' :=
  first.bind second fun _ rest spelled _ => meets _ (spelled.begins rest)

theorem Reads.until (first : Reads p ls a (Begins l)) (second : Reads (q a) (l :: ls') b follow') :
    Reads (p >>= q) (ls ++ l :: ls') b follow' :=
  first.before second fun _ begins => begins

theorem Reads.atEnd (first : Reads p ls a follow) (second : Reads (q a) [] b follow')
    (meets : ∀ rest, follow' rest → follow rest) : Reads (p >>= q) ls b follow' := by
  rw [← append_nil ls]
  refine first.bind second fun ts rest spelled after => ?_
  cases spelled.nil_eq
  exact meets rest after

theorem Reads.give (h : Reads p ls a follow) (g : α → β) :
    Reads (p >>= fun x => Pure.pure (g x)) ls (g a) follow := by
  intro s ts rest strict left spelled after
  rw [bind_apply (h s ts rest strict left spelled after)]
  rfl

theorem Reads.look (glance : ∀ ts rest, Spells ls ts → follow rest → Looks p a (ts ++ rest))
    (second : Reads (q a) ls b follow) : Reads (p >>= q) ls b follow := by
  intro s ts rest strict left spelled after
  rw [bind_apply (glance ts rest spelled after s strict left)]
  exact second s ts rest strict left spelled after

theorem Reads.lookSome (known : α → Prop)
    (glance : ∀ ts rest, Spells ls ts → follow rest → ∃ a, known a ∧ Looks p a (ts ++ rest))
    (second : ∀ a, known a → Reads (q a) ls b follow) : Reads (p >>= q) ls b follow := by
  intro s ts rest strict left spelled after
  obtain ⟨a, holds, looks⟩ := glance ts rest spelled after
  rw [bind_apply (looks s strict left)]
  exact second a holds s ts rest strict left spelled after

theorem Reads.lookAt (glance : ∀ rest, Begins l rest → Looks p a rest)
    (second : Reads (q a) (l :: ls) b follow) : Reads (p >>= q) (l :: ls) b follow :=
  Reads.look (fun _ rest spelled _ => glance _ (spelled.begins rest)) second

/-- A glance at what follows. -/
theorem Reads.lookPast (glance : ∀ rest, follow rest → Looks p a rest)
    (second : Reads (q a) [] b follow) : Reads (p >>= q) [] b follow :=
  Reads.look (fun ts rest spelled after => by
    cases spelled.nil_eq
    exact glance rest after) second

/-- A parser that is given the tokens left. -/
theorem Reads.get {f : State → Parser β}
    (h : ∀ s : State, s.strict = false → ls.length ≤ s.remaining → Reads (f s) ls b follow) :
    Reads (MonadState.get >>= f) ls b follow := by
  intro s ts rest strict left spelled after
  have room : ls.length ≤ s.remaining := by
    rw [State.remaining_eq, left, ← spelled.length_eq, length_append]
    omega
  exact h s strict room s ts rest strict left spelled after

/-! ## Single tokens -/

theorem peek_apply (s : State) : peek s = .ok s.token? s := rfl

theorem nextIs_apply (test : Token → Bool) (s : State) :
    nextIs test s = .ok (s.rest.head?.any test) s := by
  show EStateM.Result.ok _ s = _
  rw [State.token?_eq]
  cases s.rest with
  | nil | cons t rest => rfl

theorem advance_apply (s : State) : advance s = .ok () (s.skip 1) := rfl

theorem isAtEnd_apply (s : State) : isAtEnd s = .ok s.rest.isEmpty s := by
  show EStateM.Result.ok (decide (s.tokens.size ≤ s.pos)) s = _
  have count := s.remaining_eq
  unfold State.remaining at count
  by_cases none_left : s.tokens.size ≤ s.pos
  · have empty : s.rest = [] := eq_nil_of_length_eq_zero (by omega)
    rw [decide_eq_true none_left, empty]
    rfl
  · have some_left : s.rest ≠ [] := ne_nil_of_length_pos (by omega)
    rw [decide_eq_false none_left, isEmpty_eq_false_iff.mpr some_left]

theorem peekAhead_apply (k : Nat) (s : State) : peekAhead k s = .ok s.rest[k]? s := by
  have place : ((s.pos : Int) + k).toNat = s.pos + k := by omega
  unfold peekAhead
  rw [get_apply, place, State.getElem?_rest]
  rfl

/-- The two tokens after a brace make it the beginning of a dictionary. -/
def keyAhead (next afterNext : Option Token) : Bool :=
  next.any fun t => [.string, .ident, .number].contains t.kind || afterNext.any (·.kind = .colon)

theorem opensDictionary_apply (s : State) :
    opensDictionary s = .ok (keyAhead s.rest[1]? s.rest[2]?) s := by
  have first : peekAhead 1 s = .ok s.rest[1]? s := peekAhead_apply 1 s
  have second : peekAhead 2 s = .ok s.rest[2]? s := peekAhead_apply 2 s
  unfold opensDictionary
  rw [bind_apply first]
  generalize s.rest[1]? = next
  cases next with
  | none => rfl
  | some t =>
    obtain ⟨kind, payload, line, column⟩ := t
    cases kind with
    | string | ident | number => rfl
    | _ =>
      refine (bind_apply second).trans ?_
      cases s.rest[2]? with
      | none | some u => rfl

theorem expect_found (here : s.token? = some t) (fits : t.kind = kind) :
    Parser.expect kind s = .ok (some t) (s.skip 1) := by
  unfold Parser.expect
  rw [bind_apply (peek_apply s), here]
  simp only [fits]
  rfl

theorem peek_looks (t : Token) (rest : List Token) : Looks peek (some t) (t :: rest) := by
  intro s _ left
  rw [peek_apply, State.token?_eq, left]
  rfl

theorem nextIs_looks (f : Token → Bool) (rest : List Token) :
    Looks (nextIs f) (rest.head?.any f) rest := by
  rintro s _ rfl
  exact nextIs_apply f s

theorem peekAhead_looks (n : Nat) (rest : List Token) : Looks (peekAhead n) rest[n]? rest := by
  rintro s _ rfl
  exact peekAhead_apply n s

theorem nextKind_looks (t : Token) (rest : List Token) :
    Looks nextKind t.kind (t :: rest) := by
  intro s strict left
  unfold nextKind
  rw [bind_apply (peek_looks t rest s strict left)]
  rfl

theorem checkDialect_looks (t : Token) (rest : List Token) :
    Looks (checkDialect t) () rest := by
  intro s strict _
  unfold checkDialect
  rw [get_apply]
  simp only [strict]
  rfl

theorem Reads.checked {f : Unit → Parser β} (h : Reads (f ()) ls b follow) :
    Reads (checkDialect t >>= f) ls b follow :=
  Reads.look (fun ts rest _ _ => checkDialect_looks t (ts ++ rest)) h

/-- For every token that may stand there. -/
theorem Reads.peek {f : Option Token → Parser β}
    (h : ∀ t, l.Accepts t → Reads (f (some t)) (l :: ls) b follow) :
    Reads (Parser.peek >>= f) (l :: ls) b follow := by
  intro s ts rest strict left spelled after
  obtain ⟨t, tail, rfl, accepted, _⟩ := spelled.cons_split
  rw [bind_apply (peek_looks t (tail ++ rest) s strict left)]
  exact h t accepted s (t :: tail) rest strict left spelled after

theorem advance_reads (l : Lexeme) (follow : List Token → Prop) :
    Reads advance [l] () follow := by
  intro s ts rest _ _ spelled _
  rw [spelled.length_eq]
  rfl

theorem Reads.taken {p : Parser (Option Token)} {f : Option Token → Parser β}
    (takes : ∀ s t, s.strict = false → s.token? = some t → l.Accepts t →
      p s = .ok (some t) (s.skip 1))
    (h : ∀ t, l.Accepts t → Reads (f (some t)) ls b follow) :
    Reads (p >>= f) (l :: ls) b follow := by
  intro s ts rest strict left spelled after
  obtain ⟨t, tail, rfl, accepted, spelledTail⟩ := spelled.cons_split
  have here : s.token? = some t := by
    rw [State.token?_eq, left]
    rfl
  rw [bind_apply (takes s t strict here accepted)]
  rw [h t accepted (s.skip 1) tail rest strict (by simp [left]) spelledTail after]
  simp [Nat.add_comm]

theorem Reads.expect {f : Option Token → Parser β} (fits : ∀ t, l.Accepts t → t.kind = kind)
    (h : ∀ t, l.Accepts t → Reads (f (some t)) ls b follow) :
    Reads (Parser.expect kind >>= f) (l :: ls) b follow :=
  .taken (fun _ t _ here accepted => expect_found here (fits t accepted)) h

theorem Reads.advance {f : Unit → Parser β} (h : Reads (f ()) ls b follow) :
    Reads (Parser.advance >>= f) (l :: ls) b follow :=
  (advance_reads l Anything).first h

theorem Reads.expectChecked {f : Option Token → Parser β}
    (h : ∀ t, (Lexeme.mark kind).Accepts t → Reads (f (some t)) ls b follow) :
    Reads (Parser.expectChecked kind >>= f) (.mark kind :: ls) b follow := by
  refine .taken (fun s t strict here accepted => ?_) h
  unfold Parser.expectChecked
  rw [bind_apply (peek_apply s), here]
  simp only [accepted.1, if_true]
  rw [bind_apply (checkDialect_looks t _ s strict rfl)]
  exact expect_found here accepted.1

theorem demand_reads (fits : ∀ t, l.Accepts t → t.kind = kind) :
    Reads (demand kind) [l] () Anything := by
  exact .expect fits fun t _ => Reads.pure () Anything

theorem Reads.mark {f : Unit → Parser β} (h : Reads (f ()) ls b follow) :
    Reads (demand kind >>= f) (.mark kind :: ls) b follow :=
  (demand_reads (l := .mark kind) fun _ accepted => accepted.1).first h

theorem demand_op (symbol : String) : Reads (demand .op) [.op symbol] () Anything :=
  demand_reads fun _ accepted => accepted.1

theorem expectText_reads (fits : ∀ t, l.Accepts t → t.kind = kind)
    (texts : ∀ t, l.Accepts t → t.payload = .text text) :
    Reads (expectText kind) [l] text Anything := by
  refine .expect fits fun t accepted => ?_
  simp only [Token.display, texts t accepted]
  exact .pure text Anything

theorem expectText_op (symbol : String) :
    Reads (expectText .op) [.op symbol] symbol Anything :=
  expectText_reads (fun _ accepted => accepted.1) fun _ accepted => accepted.2

theorem expectName_reads (text : String) : Reads expectName [.name text] text Anything :=
  expectText_reads (fun _ accepted => accepted.1) fun _ accepted => accepted.2

theorem Reads.name {f : String → Parser β} (h : Reads (f text) ls b follow) :
    Reads (expectName >>= f) (.name text :: ls) b follow :=
  (expectName_reads text).first h

/-! ## Glances at the next token -/

/-- The next token, if any, is not of a kind. -/
def NotNext (kind : Kind) (rest : List Token) : Prop :=
  ∀ t, rest.head? = some t → t.kind ≠ kind

theorem nextIs_false (h : ∀ t, rest.head? = some t → f t = false) :
    Looks (nextIs f) false rest := by
  cases rest with
  | nil => exact nextIs_looks f []
  | cons t rest => exact h t rfl ▸ nextIs_looks f (t :: rest)

theorem nextIs_true (fits : ∀ t, l.Accepts t → f t = true)
    (begins : Begins l rest) : Looks (nextIs f) true rest := by
  obtain ⟨t, tail, rfl, accepted⟩ := begins
  exact fits t accepted ▸ nextIs_looks f (t :: tail)

theorem nextHas_false (h : NotNext kind rest) :
    Looks (nextHas kind) false rest :=
  nextIs_false fun t next => decide_eq_false (h t next)

theorem nextHas_mark (begins : Begins (.mark kind) rest) :
    Looks (nextHas kind) true rest :=
  nextIs_true (l := .mark kind) (fun _ accepted => decide_eq_true accepted.1) begins

theorem nextKind_mark (begins : Begins (.mark kind) rest) :
    Looks nextKind kind rest := by
  obtain ⟨t, tail, rfl, accepted⟩ := begins
  exact accepted.1 ▸ nextKind_looks t tail

theorem notNext_of_begins (differs : ∀ t, l.Accepts t → t.kind ≠ kind)
    (begins : Begins l rest) : NotNext kind rest := by
  obtain ⟨t, tail, rfl, accepted⟩ := begins
  intro next head
  cases head
  exact differs t accepted

theorem notNext_mark {other : Kind} (differs : other ≠ kind)
    (begins : Begins (.mark other) rest) : NotNext kind rest :=
  notNext_of_begins (l := .mark other)
    (fun _ accepted same => differs (accepted.1.symm.trans same)) begins

/-! ## Loops -/

variable {item : β → List Lexeme} {items : List β} {again : α → Parser Bool} {body : α → Parser α}
  {P : List Token → Prop}

/-- Whatever begins with one of the items satisfies `P`. -/
def Leads (item : β → List Lexeme) (items : List β) (P : List Token → Prop) : Prop :=
  ∀ x ∈ items, ∃ l ls, item x = l :: ls ∧ ∀ rest, Begins l rest → P rest

theorem leads_all (h : ∀ rest, Begins l rest → P rest) (items : List β) :
    Leads (fun x => l :: item x) items P :=
  fun _ _ => ⟨_, _, rfl, h⟩

theorem Leads.meets (leads : Leads item items P) (ends : ∀ rest, follow rest → P rest)
    (ts rest : List Token) (spelled : Spells (items.flatMap item) ts) (after : follow rest) :
    P (ts ++ rest) := by
  cases items with
  | nil =>
    cases spelled.nil_eq
    exact ends rest after
  | cons x items =>
    obtain ⟨l, ls, written, begun⟩ := leads x (mem_cons_self ..)
    rw [flatMap_cons, written] at spelled
    exact begun _ (Spells.begins spelled rest)

theorem Leads.meetsUntil (leads : Leads item items P) (ends : ∀ rest, Begins l rest → P rest)
    (ts rest : List Token) (spelled : Spells (items.flatMap item ++ l :: ls) ts) :
    P (ts ++ rest) := by
  obtain ⟨front, back, rfl, spelledFront, spelledBack⟩ := spelled.append_split
  rw [append_assoc]
  exact leads.meets ends front (back ++ rest) spelledFront (spelledBack.begins rest)

theorem Leads.length_le (leads : Leads item items P) :
    items.length ≤ (items.flatMap item).length := by
  induction items with
  | nil => simp
  | cons x items ih =>
    obtain ⟨l, ls, written, _⟩ := leads x (mem_cons_self ..)
    have := ih fun y m => leads y (mem_cons_of_mem _ m)
    simp only [flatMap_cons, written, length_append, length_cons]
    omega

/-- A loop that takes one item in each round: `state` is the accumulator after the items that are
done. An item, or what follows the loop, may come after an item. -/
theorem Reads.repeatWhile {state : List β → α}
    (more : ∀ done, Leads item items (Looks (again (state done)) true))
    (stops : ∀ done rest, follow rest → Looks (again (state done)) false rest)
    (round : ∀ done, ∀ x ∈ items,
      Reads (body (state done)) (item x) (state (done ++ [x])) between)
    (meets : Leads item items between) (ends : ∀ rest, follow rest → between rest)
    (done : List β) (fuel : Nat) (enough : items.length < fuel) :
    Reads (Parser.repeatWhile again body fuel (state done)) (items.flatMap item)
      (state (done ++ items)) follow := by
  obtain ⟨fuel, rfl⟩ := Nat.exists_eq_succ_of_ne_zero (Nat.ne_zero_of_lt enough)
  induction items generalizing done fuel with
  | nil =>
    rw [append_nil]
    exact .lookPast (stops done) (.pure _ _)
  | cons x items ih =>
    obtain ⟨l, ls, written, looks⟩ := more done x (mem_cons_self ..)
    rw [length_cons] at enough
    obtain ⟨fuel, rfl⟩ := Nat.exists_eq_succ_of_ne_zero (n := fuel) (by omega)
    have others := ih (fun done y m => more done y (mem_cons_of_mem _ m))
      (fun done y m => round done y (mem_cons_of_mem _ m))
      (fun y m => meets y (mem_cons_of_mem _ m)) (done ++ [x]) fuel (by omega)
    rw [append_assoc] at others
    rw [flatMap_cons]
    refine .look (a := true) (fun ts rest spelled _ => ?_) ?_
    · rw [written] at spelled
      exact looks _ (Spells.begins spelled rest)
    · refine (round done x (mem_cons_self ..)).bind others ?_
      exact Leads.meets (fun y m => meets y (mem_cons_of_mem _ m)) ends

theorem Reads.loop {c : α} (state : List β → α) (first : state [] = a) (last : state items = c)
    (more : ∀ done, Leads item items (Looks (again (state done)) true))
    (stops : ∀ done rest, follow rest → Looks (again (state done)) false rest)
    (round : ∀ done, ∀ x ∈ items,
      Reads (body (state done)) (item x) (state (done ++ [x])) between)
    (meets : Leads item items between) (ends : ∀ rest, follow rest → between rest) :
    Reads (Parser.loop again body a) (items.flatMap item) c follow := by
  subst first last
  have := meets.length_le
  exact .get fun s _ room => .repeatWhile more stops round meets ends [] _ (by omega)

theorem Reads.commas {γ : Type} {tree : β → γ} {c : α} (state : List γ → α) (front : List γ)
    (first : state front = a) (last : state (front ++ items.map tree) = c)
    (more : ∀ done rest, Begins (.mark .comma) rest → Looks (again (state done)) true rest)
    (stops : ∀ done rest, follow rest → Looks (again (state done)) false rest)
    (round : ∀ done, ∀ x ∈ items,
      Reads (body (state done)) (.mark .comma :: item x) (state (done ++ [tree x])) between)
    (meets : ∀ rest, Begins (.mark .comma) rest → between rest)
    (ends : ∀ rest, follow rest → between rest) :
    Reads (Parser.loop again body a) (items.flatMap fun x => .mark .comma :: item x) c follow := by
  refine .loop (fun done => state (front ++ done.map tree)) (by simpa using first) last
    (fun _ => leads_all (more _) items) (fun _ => stops _) (fun done x member => ?_)
    (leads_all meets items) ends
  rw [map_append, ← append_assoc]
  exact round _ x member

end Parser

end Hetman
