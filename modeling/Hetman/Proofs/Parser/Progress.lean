import Hetman.Proofs.Parser.Ledger

/-!
# Parsers move forward

`ForwardFrom start k n asked least p Q`: from every state of `start` with fewer than `n` tokens
left, the parser `p` ends at the same place or further on, never behind the last token, uses up at
least `least` tokens if so many are left, and gives something that satisfies `Q`. It may stop early
for two reasons only (`Breaks`): the text is at its end where a token is needed, or a name is
missing after a word that asks for one. On the way the dialect is heeded (`Heeds`), and a ledger is
carried over if the next token has been held against the dialect `k` times.

The recursion of the parser is cut off at the number of tokens that are left. As nothing is read
again without a token being used up, the bound is never reached.
-/

namespace Hetman.Parser

variable {α β : Type} {a : α}

variable {kind : Kind} {test : Token → Bool} {u : State}

/-! ## Places -/

/-- The words after which a name has to stand. -/
def asksForName : Kind → Bool
  | .dot => true
  | .keyword k =>
    [.intType, .floatType, .textType, .boolType, .new, .super, .forLoop, .function, .constructor,
      .friend, .friendClass].contains k
  | _ => false

namespace State

variable {s : State}

/-- The place is at a token or right after the last. -/
def Inside (s : State) : Prop :=
  s.pos ≤ s.tokens.size

/-- A word that asks for a name has been read. -/
def Asked (s : State) : Prop :=
  ∃ (i : Nat) (t : Token), i < s.pos ∧ s.tokens[i]? = some t ∧ asksForName t.kind = true

theorem remaining_pos {t : Token} (here : s.token? = some t) : 0 < s.remaining := by
  have bound : s.pos < s.tokens.size := (Array.getElem?_eq_some_iff.mp here).1
  unfold remaining
  omega

theorem remaining_eq_zero (none_left : s.token? = none) : s.remaining = 0 := by
  have bound : s.tokens.size ≤ s.pos := Array.getElem?_eq_none_iff.mp none_left
  unfold remaining
  omega

theorem pos_eq_size (inside : s.Inside) (none_left : s.token? = none) : s.pos = s.tokens.size :=
  Nat.le_antisymm inside (Array.getElem?_eq_none_iff.mp none_left)

end State

/-- A state that comes after another in a reading. -/
structure Onward (s t : State) : Prop where
  tokens : t.tokens = s.tokens
  pos : s.pos ≤ t.pos
  inside : t.Inside
  heeds : Heeds s t

namespace Onward

variable {s t : State}

theorem refl (inside : s.Inside) : Onward s s :=
  ⟨rfl, Nat.le_refl _, inside, .refl s⟩

theorem trans (first : Onward s t) (second : Onward t u) : Onward s u :=
  ⟨second.tokens.trans first.tokens, Nat.le_trans first.pos second.pos, second.inside,
    first.heeds.trans second.heeds first.tokens⟩

theorem remaining_le (h : Onward s t) : t.remaining ≤ s.remaining := by
  have pos := h.pos
  unfold State.remaining
  rw [h.tokens]
  omega

theorem asked (h : Onward s t) (asked : s.Asked) : t.Asked := by
  obtain ⟨i, word, before, found, asks⟩ := asked
  have pos := h.pos
  exact ⟨i, word, by omega, by rw [h.tokens, found], asks⟩

theorem asked_of_used {word : Token} (h : Onward s t) (here : s.token? = some word)
    (used : t.remaining ≤ s.remaining - 1) (asks : asksForName word.kind = true) : t.Asked := by
  have left := State.remaining_pos here
  have inside := h.inside
  refine ⟨s.pos, word, ?_, by rw [h.tokens]; exact here, asks⟩
  unfold State.Inside at inside
  unfold State.remaining at used left
  rw [h.tokens] at used inside
  omega

end Onward

/-- Why a reading may stop before it comes to an end, and where. -/
inductive Breaks : Stop → State → Prop
  | atEnd {s : State} (none_left : s.token? = none) : Breaks (.noToken .kind) s
  /-- Something else, or nothing, stands in the place of a name; that is the last problem. -/
  | nameless {s : State} {found : Option Token} (asked : s.Asked)
      (other : ∀ t, found = some t → t.kind ≠ .ident)
      (noted : s.problems.getLast? = some (.complaint found (.expected .ident))) :
      Breaks (.noToken .value) s
  /-- A token that reads like a logical operator is none; that is the last problem. -/
  | notOperator {s : State} {t : Token} (reads : t.hasText "&&" = true ∨ t.hasText "||" = true)
      (other : t.kind ≠ .op)
      (noted : s.problems.getLast? = some (.complaint (some t) (.expected .op))) :
      Breaks (.noToken .value) s

/-- A reading went on, used up at least so many tokens, if so many were left, and gave something
that satisfies `Q`; or it stopped. -/
inductive Went (least : Nat) (k : Option Nat) (s : State) (Q : α → Prop) :
    EStateM.Result Stop State α → Prop
  | ok {a : α} {t : State} (onward : Onward s t) (used : t.remaining ≤ s.remaining - least)
      (carried : ∀ c ∈ k, Carried c s t) (gives : Q a) : Went least k s Q (.ok a t)
  | stop {stop : Stop} {t : State} (onward : Onward s t) (breaks : Breaks stop t) :
    Went least k s Q (.error stop t)

abbrev AnyResult (_ : α) : Prop := True

def At (t : Token) (s : State) : Prop :=
  s.token? = some t

def Anywhere (_ : State) : Prop := True

/-- Fewer than `n` tokens are left, after a word that asks for a name if `asked`. -/
structure Reached (n : Nat) (asked : Bool) (s : State) : Prop where
  inside : s.Inside
  few : s.remaining < n
  asks : asked = true → s.Asked

namespace Reached

variable {n : Nat} {asked : Bool} {s t : State} {word : Token}

theorem onward (h : Reached n asked s) (onward : Onward s t) : Reached n asked t := by
  have le := onward.remaining_le
  have few := h.few
  exact ⟨onward.inside, by omega, fun asks => onward.asked (h.asks asks)⟩

theorem used (h : Reached (n + 1) asked s) (here : s.token? = some word) (onward : Onward s t)
    (used : t.remaining ≤ s.remaining - 1) : Reached n asked t := by
  have left := State.remaining_pos here
  have few := h.few
  exact ⟨onward.inside, by omega, fun asks => onward.asked (h.asks asks)⟩

theorem asking (h : Reached (n + 1) asked s) (here : s.token? = some word) (onward : Onward s t)
    (used : t.remaining ≤ s.remaining - 1) (asks : asksForName word.kind = true) :
    Reached n true t :=
  ⟨onward.inside, (h.used here onward used).few, fun _ => onward.asked_of_used here used asks⟩

end Reached

/-- What a parser does from the states in `start` with fewer than `n` tokens left, after a word that
asks for a name if `asked`. -/
def ForwardFrom (start : State → Prop) (k : Option Nat) (n : Nat) (asked : Bool) (least : Nat)
    (p : Parser α) (Q : α → Prop := AnyResult) : Prop :=
  ∀ s, start s → Reached n asked s → Went least k s Q (p s)

/-- The next token has not been held against the dialect yet. -/
abbrev Forward (start : State → Prop) (n : Nat) (asked : Bool) (least : Nat) (p : Parser α)
    (Q : α → Prop := AnyResult) : Prop :=
  ForwardFrom start (some 0) n asked least p Q

/-- The next token is `t`, and it is used up. -/
abbrev ForwardAt (t : Token) (k : Option Nat) (n : Nat) (asked : Bool) (p : Parser α)
    (Q : α → Prop := AnyResult) : Prop :=
  ForwardFrom (At t) k n asked 1 p Q

/-! ## Rules -/

namespace Went

variable {i j : Nat} {k : Option Nat} {s : State} {r : EStateM.Result Stop State α}
  {P Q : α → Prop} {R : β → Prop}

theorem after {t : State} (onward : Onward s t) (used : t.remaining ≤ s.remaining - i)
    (carried : ∀ c ∈ k, Carried c s t) (went : Went j (some 0) t Q r) : Went (i + j) k s Q r := by
  cases went with
  | ok onward' used' carried' gives =>
    refine .ok (onward.trans onward') (by omega) (fun c known => ?_) gives
    exact (carried c known).trans (carried' 0 rfl)
  | stop onward' breaks => exact .stop (onward.trans onward') breaks

theorem bind {p : Parser α} {f : α → Parser β} (first : Went i k s Q (p s))
    (second : ∀ a t, Q a → Onward s t → t.remaining ≤ s.remaining - i →
      Went j (some 0) t R (f a t)) : Went (i + j) k s R ((p >>= f) s) := by
  cases result : p s with
  | ok a t =>
    rw [result] at first
    rw [bind_apply result]
    cases first with
    | ok onward used carried gives =>
      exact .after onward used carried (second a t gives onward used)
  | error stop t =>
    rw [result] at first
    simp only [Bind.bind, EStateM.bind, result]
    cases first with
    | stop onward breaks => exact .stop onward breaks

theorem imp (h : Went i k s P r) (le : j ≤ i ∨ s.remaining = 0) (weaker : ∀ a, P a → Q a) :
    Went j k s Q r := by
  cases h with
  | ok onward used carried gives =>
    exact .ok onward (by omega) carried (weaker _ gives)
  | stop onward breaks => exact .stop onward breaks

theorem mono (h : Went i k s Q r) (le : j ≤ i) : Went j k s Q r :=
  h.imp (.inl le) fun _ => id

theorem unbooked (h : Went i k s Q r) : Went i none s Q r := by
  cases h with
  | ok onward used carried gives => exact .ok onward used nofun gives
  | stop onward breaks => exact .stop onward breaks

end Went

theorem went_stay {s : State} {Q : α → Prop} (inside : s.Inside) (gives : Q a) :
    Went 0 (some 0) s Q (.ok a s) := by
  refine .ok (.refl inside) (Nat.le_refl _) (fun c known => ?_) gives
  cases known
  exact .refl s

theorem onward_of_stays {s : State} (inside : s.Inside) (tokens : u.tokens = s.tokens)
    (pos : u.pos = s.pos) (heeds : Heeds s u) : Onward s u := by
  refine ⟨tokens, Nat.le_of_eq pos.symm, ?_, heeds⟩
  unfold State.Inside
  rw [tokens, pos]
  exact inside

theorem onward_skip {s : State} {k : Nat} (inside : s.Inside) (le : k ≤ s.rest.length) :
    Onward s (s.skip k) := by
  rw [← State.remaining_eq, State.remaining] at le
  refine ⟨rfl, Nat.le_add_right _ _, ?_, .of_same rfl rfl rfl⟩
  unfold State.Inside at inside ⊢
  show s.pos + k ≤ s.tokens.size
  omega

theorem remaining_skip (s : State) (k : Nat) : (s.skip k).remaining = s.remaining - k := by
  show s.tokens.size - (s.pos + k) = s.tokens.size - s.pos - k
  omega

theorem went_taken {s : State} {t : Token} {k : Option Nat} (inside : s.Inside)
    (here : s.token? = some t) (passes : k.all (passable t.kind) = true) (a : α) :
    Went 1 k s AnyResult (.ok a (s.skip 1)) := by
  have left := State.remaining_pos here
  rw [State.remaining_eq] at left
  refine .ok (onward_skip inside (by omega)) (Nat.le_of_eq (remaining_skip s 1))
    (fun c known => ?_) trivial
  cases known
  exact .pass here passes

variable {g : Option Token → Parser α} {again : α → Parser Bool} {body : α → Parser α}

namespace ForwardFrom

variable {start : State → Prop} {t : Token} {k : Option Nat} {n m least : Nat} {asked : Bool}
variable {p : Parser α} {f : α → Parser β} {P Q : α → Prop} {R : β → Prop}

theorem pure (gives : Q a) : Forward start n asked 0 (pure a) Q :=
  fun _ _ reached => went_stay reached.inside gives

theorem anywhere (h : ForwardFrom Anywhere k n false least p Q) :
    ForwardFrom start k n asked least p Q :=
  fun s _ ⟨inside, few, _⟩ => h s trivial ⟨inside, few, nofun⟩

theorem unbooked (h : ForwardFrom start k n asked least p Q) :
    ForwardFrom start none n asked least p Q :=
  fun s begins reached => (h s begins reached).unbooked

theorem imp (h : ForwardFrom start k n asked least p P) (weaker : ∀ a, P a → Q a) :
    ForwardFrom start k n asked least p Q :=
  fun s begins reached => (h s begins reached).imp (.inl (Nat.le_refl _)) weaker

theorem mono (h : ForwardFrom start k n asked least p Q) : ForwardFrom start k n asked 0 p Q :=
  fun s begins reached => (h s begins reached).mono (Nat.zero_le _)

theorem fewer (h : ForwardFrom start k n asked least p Q) (le : m ≤ n) :
    ForwardFrom start k m asked least p Q :=
  fun s begins ⟨inside, few, asks⟩ => h s begins ⟨inside, Nat.lt_of_lt_of_le few le, asks⟩

/-- The first parser uses up what has to be used up. -/
theorem andThen (first : ForwardFrom start k n asked least p Q)
    (second : ∀ a, Q a → Forward Anywhere n asked 0 (f a) R) :
    ForwardFrom start k n asked least (p >>= f) R := by
  intro s begins reached
  refine (first s begins reached).bind (j := 0) fun a t gives onward _ => ?_
  exact second a gives t trivial (reached.onward onward)

theorem next (first : ForwardFrom start k n asked least p Q)
    (second : ∀ a, Q a → Forward Anywhere n asked 0 (f a) R) :
    ForwardFrom start k n asked 0 (p >>= f) R :=
  first.mono.andThen second

/-- The second parser uses up what has to be used up. -/
theorem before (first : ForwardFrom start k n asked 0 p Q)
    (second : ∀ a, Q a → Forward Anywhere n asked least (f a) R) :
    ForwardFrom start k n asked least (p >>= f) R := by
  intro s begins reached
  have went := (first s begins reached).bind (f := f) (j := least) fun a t gives onward _ =>
    second a gives t trivial (reached.onward onward)
  exact went.mono (by omega)

/-- After the next token is used up, fewer are left. -/
theorem first (first : ForwardAt t k (n + 1) asked p Q)
    (second : ∀ a, Q a → Forward Anywhere n asked 0 (f a) R) :
    ForwardAt t k (n + 1) asked (p >>= f) R := by
  intro s here reached
  refine (first s here reached).bind (j := 0) fun a u gives onward used => ?_
  exact second a gives u trivial (reached.used here onward used)

theorem asking (asks : asksForName t.kind = true) (first : ForwardAt t k (n + 1) asked p Q)
    (second : ∀ a, Forward Anywhere n true 0 (f a) R) :
    ForwardAt t k (n + 1) asked (p >>= f) R := by
  intro s here reached
  refine (first s here reached).bind (j := 0) fun a u _ onward used => ?_
  exact second a u trivial (reached.asking here onward used asks)

theorem look (glance : ∀ s, ∃ a, p s = .ok a s)
    (second : ∀ a, ForwardFrom start k n asked least (f a) R) :
    ForwardFrom start k n asked least (p >>= f) R := by
  intro s begins reached
  obtain ⟨a, seen⟩ := glance s
  rw [bind_apply seen]
  exact second a s begins reached

theorem ite {c : Prop} [Decidable c] {q : Parser α}
    (yes : c → ForwardFrom start k n asked least p Q)
    (no : ¬c → ForwardFrom start k n asked least q Q) :
    ForwardFrom start k n asked least (if c then p else q) Q :=
  iteInduction (motive := fun p => ForwardFrom start k n asked least p Q) yes no

/-- A glance at the next token; without one nothing can be used up. -/
theorem glance (absent : ForwardFrom (·.token? = none) k n asked 0 (g none) Q)
    (found : ∀ t, ForwardFrom (At t) k n asked least (g (some t)) Q) :
    ForwardFrom start k n asked least (Parser.peek >>= g) Q := by
  intro s _ reached
  show Went least k s Q (g s.token? s)
  cases here : s.token? with
  | none => exact (absent s here reached).imp (.inr (State.remaining_eq_zero here)) fun _ => id
  | some t => exact found t s here reached

theorem peekSome (absent : g none = throw (.noToken .kind))
    (found : ∀ t, ForwardAt t k n asked (g (some t)) Q) :
    ForwardFrom start k n asked 1 (peek >>= g) Q := by
  refine glance (fun s here reached => ?_) found
  rw [absent]
  exact .stop (.refl reached.inside) (.atEnd here)

theorem peekAt (found : ForwardAt t k n asked (g (some t)) Q) :
    ForwardAt t k n asked (Parser.peek >>= g) Q := by
  intro s here reached
  rw [bind_apply (peek_apply s), show s.token? = some t from here]
  exact found s here reached

theorem ifNext {g : Bool → Parser α} (yes : ∀ t, test t = true → ForwardAt t k n asked (g true) Q)
    (no : ForwardFrom Anywhere k n asked 0 (g false) Q) :
    ForwardFrom start k n asked 0 (nextIs test >>= g) Q := by
  intro s _ reached
  rw [bind_apply (nextIs_apply test s), ← State.token?_eq]
  cases here : s.token? with
  | none => exact no s trivial reached
  | some t =>
    rw [Option.any_some]
    cases passes : test t with
    | true => exact (yes t passes s here reached).mono (Nat.zero_le _)
    | false => exact no s trivial reached

/-- The next token is held against the dialect. -/
theorem checked {g : Unit → Parser α} (h : ForwardAt t (k.map (· + 1)) n asked (g ()) Q) :
    ForwardAt t k n asked (checkDialect t >>= g) Q := by
  intro s here reached
  obtain ⟨u, result, tokens, pos, heeds⟩ := checkDialect_stays (Array.mem_of_getElem? here)
  have onward := onward_of_stays reached.inside tokens pos heeds
  have left : u.remaining = s.remaining := by
    unfold State.remaining
    rw [tokens, pos]
  have here' : u.token? = some t := by
    unfold State.token?
    rw [tokens, pos]
    exact here
  rw [bind_apply result]
  have went := h u here' (reached.onward onward)
  generalize g () u = r at went
  cases went with
  | ok onward' used carried gives =>
    refine .ok (onward.trans onward') (by omega) (fun c known => ?_) gives
    exact .check here result (carried (c + 1) (Option.mem_map_of_mem _ known))
  | stop onward' breaks => exact .stop (onward.trans onward') breaks

theorem advance (passes : k.all (passable t.kind) = true) : ForwardAt t k n asked advance :=
  fun _ here reached => went_taken reached.inside here passes ()

/-- A token is used up and then held against the dialect; the moves can change places. -/
theorem advanceChecked {g : Unit → Parser α}
    (h : ForwardAt t k n asked (checkDialect t >>= fun _ => Parser.advance >>= g) Q) :
    ForwardAt t k n asked (Parser.advance >>= fun _ => checkDialect t >>= g) Q := by
  intro s here reached
  obtain ⟨u, looked, after⟩ := checkDialect_skip t s 1
  have went := h s here reached
  rw [bind_apply looked] at went
  rw [bind_apply (advance_apply s), bind_apply after]
  exact went

/-- What is read after a token tells how often it is held against the dialect in a clean text. -/
theorem advanceThen (asked : Bool) {before : Bool} {g : Unit → Parser α}
    (asks : asked = true → asksForName t.kind = true)
    (second : Forward Anywhere n asked 0 (g ()) Q) (most : ∀ c ∈ k, c ≤ mostChecks t.kind)
    (usual : ∀ c ∈ k, ∀ s a u, Reached n asked s → g () s = .ok a u → u.complaints = [] →
      c ∈ usualChecks t.kind (declaresField s.rest)) :
    ForwardAt t k (n + 1) before (Parser.advance >>= g) Q := by
  intro s here reached
  cases went_taken (k := none) reached.inside here rfl () with
  | ok onward used _ _ =>
    have later : Reached n asked (s.skip 1) := by
      have fewer := reached.used here onward used
      exact ⟨fewer.inside, fewer.few, fun h => onward.asked_of_used here used (asks h)⟩
    have went := second (s.skip 1) trivial later
    rw [bind_apply (advance_apply s)]
    cases result : g () (s.skip 1) with
    | ok a u =>
      rw [result] at went
      cases went with
      | ok onward' used' carried gives =>
        refine .ok (onward.trans onward') (by omega) (fun c known => ?_) gives
        exact .passThen here (most c known) (usual c known _ a u later result) (carried 0 rfl)
    | error stop u =>
      rw [result] at went
      cases went with
      | stop onward' breaks => exact .stop (onward.trans onward') breaks

end ForwardFrom

/-! ## Loops -/

/-- A condition that only looks, and holds only if the next token passes a test. -/
def Asks (test : Token → Bool) (p : Parser Bool) : Prop :=
  ∀ s, (∃ c, p s = .ok c s ∧ (c = true → ∃ t, s.token? = some t ∧ test t = true)) ∨
    (p s = .error (.noToken .kind) s ∧ s.token? = none)

theorem Asks.eq_ok {p : Parser Bool} (h : Asks test p) {s t : State} {c : Bool}
    (asked : p s = .ok c t) : t = s ∧ (c = true → ∃ u, s.token? = some u ∧ test u = true) := by
  rcases h s with ⟨c', seen, passes⟩ | ⟨stopped, _⟩
  · rw [seen] at asked
    cases asked
    exact ⟨rfl, passes⟩
  · rw [stopped] at asked
    cases asked

theorem asks_nextIs (test : Token → Bool) : Asks test (nextIs test) := by
  intro s
  refine .inl ⟨_, nextIs_apply test s, fun passes => ?_⟩
  rw [← State.token?_eq] at passes
  cases here : s.token? with
  | none =>
    rw [here] at passes
    cases passes
  | some t =>
    rw [here] at passes
    exact ⟨t, rfl, passes⟩

theorem Asks.guarded {p : Parser Bool} (h : Asks test p) (c : Bool) :
    Asks test (if c then p else pure false) := by
  cases c with
  | true => exact h
  | false => exact fun s => .inl ⟨false, rfl, nofun⟩

theorem asks_nextKind (kind : Kind) :
    Asks (fun t => t.kind = kind) (do return (← nextKind) = kind) := by
  intro s
  cases here : s.token? with
  | none =>
    refine .inr ⟨?_, rfl⟩
    simp only [nextKind, Bind.bind, EStateM.bind, peek_apply, here]
    rfl
  | some t =>
    refine .inl ⟨decide (t.kind = kind), ?_, fun same => ⟨t, rfl, same⟩⟩
    simp only [nextKind, Bind.bind, EStateM.bind, peek_apply, here]
    rfl

variable {Q : α → Prop}

/-- A loop that uses up a token in each round comes to an end: the fuel lasts. -/
theorem went_repeatWhile {n : Nat} {asked : Bool} (asks : ∀ a, Asks test (again a))
    (rounds : ∀ a t, Q a → test t = true → ForwardAt t (some 0) n asked (body a) Q) (fuel : Nat)
    (starts : Q a) (s : State) (reached : Reached n asked s)
    (enough : s.remaining < fuel) : Went 0 (some 0) s Q (repeatWhile again body fuel a s) := by
  induction fuel generalizing a s with
  | zero => omega
  | succ fuel ih =>
    unfold repeatWhile
    rcases asks a s with ⟨goesOn, seen, passes⟩ | ⟨stopped, none_left⟩
    · rw [bind_apply seen]
      cases goesOn with
      | false => exact went_stay reached.inside starts
      | true =>
        obtain ⟨t, here, passed⟩ := passes rfl
        have left := State.remaining_pos here
        have went := (rounds a t starts passed s here reached).bind
          (f := repeatWhile again body fuel) (j := 0) fun b u gives onward used =>
            ih gives u (reached.onward onward) (by omega)
        exact went.mono (Nat.zero_le _)
    · simp only [Bind.bind, EStateM.bind, stopped]
      exact .stop (.refl reached.inside) (.atEnd none_left)

theorem ForwardFrom.loop {start : State → Prop} {n : Nat} {asked : Bool}
    (asks : ∀ a, Asks test (again a))
    (rounds : ∀ a t, Q a → test t = true → ForwardAt t (some 0) n asked (body a) Q)
    (starts : Q a) : Forward start n asked 0 (loop again body a) Q := by
  intro s _ reached
  exact went_repeatWhile asks rounds _ starts s reached (Nat.lt_succ_self _)

/-- After a loop its condition does not hold. -/
theorem repeatWhile_eq_ok {fuel : Nat} {b : α} {s t : State}
    (h : repeatWhile again body fuel a s = .ok b t) : ∃ u, again b u = .ok false t := by
  induction fuel generalizing a s with
  | zero => cases h
  | succ fuel ih =>
    unfold repeatWhile at h
    cases asked : again a s with
    | error stop u =>
      simp only [Bind.bind, EStateM.bind, asked] at h
      cases h
    | ok goesOn u =>
      rw [bind_apply asked] at h
      cases goesOn with
      | false =>
        cases h
        exact ⟨s, asked⟩
      | true =>
        cases round : body a u with
        | error stop v =>
          simp only [if_true, Bind.bind, EStateM.bind, round] at h
          cases h
        | ok c v =>
          simp only [if_true] at h
          rw [bind_apply round] at h
          exact ih h

/-! ## Basic moves -/

/-- After a complaint, tokens are passed over, one at least. -/
theorem went_noted {s : State} {i : Nat} (inside : s.Inside) (token : Option Token)
    (what : Complaint) (le : i ≤ s.rest.length) (some_used : s.rest ≠ [] → 1 ≤ i) (gives : Q a) :
    Went 1 (some 0) s Q (.ok a ((s.note (.complaint token what)).skip i)) := by
  have noted : Onward s (s.note (.complaint token what)) :=
    onward_of_stays inside rfl rfl (.note s token what)
  refine .ok (noted.trans (onward_skip noted.inside le)) ?_ (fun c known => ?_) gives
  · rw [remaining_skip, show (s.note _).remaining = s.remaining from rfl, State.remaining_eq]
    cases left : s.rest with
    | nil =>
      rw [List.length_nil]
      omega
    | cons u rest =>
      have used := some_used (left ▸ List.cons_ne_nil u rest)
      omega
  · cases known
    exact .noted s token what le

theorem syncLength_pos {tokens : List Token} (some_left : tokens ≠ []) : 1 ≤ syncLength tokens := by
  cases tokens with
  | nil => exact absurd rfl some_left
  | cons u rest => exact Nat.le_add_right 1 _

theorem went_complained {s : State} (inside : s.Inside) (token : Option Token) (what : Complaint)
    (a : α) :
    Went 1 (some 0) s AnyResult
      (.ok a ((s.note (.complaint token what)).skip (syncLength s.rest))) :=
  went_noted inside token what (syncLength_le _) syncLength_pos trivial

variable {start : State → Prop} {k : Option Nat} {t : Token} {n : Nat} {asked : Bool}

theorem forward_synchronize : ForwardFrom start none n asked 1 synchronize := by
  intro s _ ⟨inside, _, _⟩
  rw [synchronize_apply]
  refine .ok (onward_skip inside (syncLength_le _)) ?_ nofun trivial
  rw [remaining_skip]
  by_cases none_left : s.rest = []
  · have left : s.remaining = 0 := by rw [State.remaining_eq, none_left]; rfl
    omega
  · have used := syncLength_pos none_left
    omega

theorem forward_complain (token : Option Token) (what : Complaint) :
    Forward start n asked 1 (complain token what) := by
  intro s _ ⟨inside, _, _⟩
  rw [complain_apply]
  exact went_complained inside token what ()

theorem forward_failNode (token : Option Token) (what : Complaint) :
    Forward start n asked 1 (failNode token what) (· = .missing) :=
  (forward_complain token what).andThen fun _ _ => .pure rfl

/-- A token of a kind may be asked for: another one there has not been held against the dialect, and
one of the kind so often as it may be. -/
structure MayAsk (start : State → Prop) (k : Option Nat) (kind : Kind) : Prop where
  known : k = none ∨ k = some 0 ∨ ∀ s, start s → ∃ t, s.token? = some t ∧ t.kind = kind
  passes : ∀ s t, start s → s.token? = some t → t.kind = kind → k.all (passable kind) = true

namespace MayAsk

theorem unbooked : MayAsk start none kind :=
  ⟨.inl rfl, fun _ _ _ _ _ => rfl⟩

theorem unchecked (passes : passable kind 0 = true) : MayAsk start (some 0) kind :=
  ⟨.inr (.inl rfl), fun _ _ _ _ _ => passes⟩

theorem of_kind (same : t.kind = kind) (passes : k.all (passable kind) = true) :
    MayAsk (At t) k kind :=
  ⟨.inr (.inr fun _ here => ⟨t, here, same⟩), fun _ _ _ _ _ => passes⟩

end MayAsk

theorem forward_expect (begins : MayAsk start k kind) :
    ForwardFrom start k n asked 1 (expect kind) := by
  intro s started ⟨inside, _, _⟩
  rcases expect_cases kind s with ⟨t, here, same, taken⟩ | ⟨other, missed⟩
  · rw [taken]
    exact went_taken inside here (by rw [same]; exact begins.passes s t started here same) (some t)
  · rw [missed]
    have went := went_complained inside s.token? (.expected kind) (none : Option Token)
    rcases begins.known with rfl | rfl | known
    · exact went.unbooked
    · exact went
    · obtain ⟨t, here, same⟩ := known s started
      exact absurd same (other t here)

theorem forward_keyword (begins : MayAsk start k kind) :
    ForwardFrom start k n asked 1 (demand kind) :=
  (forward_expect begins).andThen fun _ _ => .pure trivial

theorem forward_demand (passes : passable kind 0 = true) : Forward start n asked 1 (demand kind) :=
  forward_keyword (.unchecked passes)

theorem ForwardFrom.demand {f : Unit → Parser α} (passes : passable kind 0 = true)
    (later : Forward Anywhere n asked 0 (f ()) Q) : Forward start n asked 0 (demand kind >>= f) Q :=
  (forward_demand passes).next fun _ _ => later

theorem forward_expectChecked (passes : passable kind 1 = true) :
    Forward start n asked 1 (expectChecked kind) := by
  intro s _ reached
  unfold expectChecked
  rw [bind_apply (peek_apply s)]
  cases here : s.token? with
  | none =>
    have none_left : MayAsk (·.token? = none) (some 0) kind :=
      ⟨.inr (.inl rfl), fun _ _ none_left here => by cases none_left.symm.trans here⟩
    exact forward_expect none_left s here reached
  | some t =>
    have checks : ForwardAt t (some 0) n asked
        (if t.kind = kind then checkDialect t >>= fun _ => expect kind else expect kind) := by
      refine .ite (fun same => .checked (forward_expect (.of_kind same passes))) fun other => ?_
      refine forward_expect ⟨.inr (.inl rfl), fun u v here' found same => ?_⟩
      cases Option.some.inj (found.symm.trans here')
      exact absurd same other
    exact checks s here reached

/-- After a word that asks for a name, its absence stops the reading. -/
theorem forward_expectName : Forward start n true 1 expectName := by
  intro s _ ⟨inside, _, asks⟩
  show Went 1 _ s _ ((expect .ident >>= _) s)
  rcases expect_cases .ident s with ⟨t, here, same, taken⟩ | ⟨other, missed⟩
  · rw [bind_apply taken]
    exact went_taken inside here (by rw [same]; rfl) t.display
  · rw [bind_apply missed]
    cases went_complained inside s.token? (.expected .ident) "" with
    | ok onward _ _ _ =>
      refine .stop onward (.nameless (onward.asked (asks rfl)) other ?_)
      exact List.getLast?_concat

theorem forwardAt_name (isName : t.kind = .ident) : ForwardAt t (some 0) n asked expectName := by
  intro s here ⟨inside, _, _⟩
  show Went 1 _ s _ ((expect .ident >>= _) s)
  rw [bind_apply (expect_found here isName)]
  exact went_taken inside here (by rw [isName]; rfl) t.display

theorem forwardAt_operator (reads : t.kind = .op ∨ t.hasText "&&" = true ∨ t.hasText "||" = true) :
    ForwardAt t (some 0) n asked (expectText .op) := by
  intro s here ⟨inside, _, _⟩
  show Went 1 _ s _ ((expect .op >>= _) s)
  rcases expect_cases .op s with ⟨u, here', same, taken⟩ | ⟨other, missed⟩
  · rw [bind_apply taken]
    exact went_taken inside here' (by rw [same]; rfl) u.display
  · have differs : t.kind ≠ .op := other t here
    rw [bind_apply missed, show s.token? = some t from here]
    cases went_complained inside (some t) (.expected .op) "" with
    | ok onward _ _ _ =>
      refine .stop onward (.notOperator (reads.resolve_left differs) differs ?_)
      exact List.getLast?_concat

theorem forward_nextKind : Forward start n asked 0 nextKind := by
  intro s _ ⟨inside, _, _⟩
  unfold nextKind
  rw [bind_apply (peek_apply s)]
  cases here : s.token? with
  | none => exact .stop (.refl inside) (.atEnd here)
  | some t => exact went_stay inside trivial

theorem looks_nextIs (test : Token → Bool) (s : State) : ∃ c, nextIs test s = .ok c s :=
  ⟨_, nextIs_apply test s⟩

theorem looks_peekAhead (k : Nat) (s : State) : ∃ t, peekAhead k s = .ok t s :=
  ⟨_, peekAhead_apply k s⟩

end Hetman.Parser
