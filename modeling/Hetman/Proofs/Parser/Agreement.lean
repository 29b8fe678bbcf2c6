import Hetman.Proofs.Parser.Motion
import Hetman.Proofs.Respelling

/-!
# Two readings side by side

A pairing sets two texts against each other, token by token: a face of each token is the same on
both sides, and what it forgets is at most the spelling of keywords, the places of tokens, or
nothing. `P.Agree view p q`: the parsers `p` and `q`, started at such tokens, both stop for the same
reason, or give results that look alike in a `view`, at such tokens again, with matching complaints,
in strict mode or not. `P.AgreeFrom start view p q` says this of the states in `start`.

A pairing may ask for a `clean` reading: nothing is said of texts with complaints on the left side.

The texts may go on in different ways, with `old` and with `more`. A reading that comes to its end
before `old` begins has seen none of it. Otherwise there is no `old`, the reading may come to the
end of the text (`whole`), and `more` must begin with a token with which no expression goes on
(`Apart`). Such a reading has to be clean, and need not be compared when it stops (`exact`).
-/

namespace Hetman.Parser

open List

variable {α β γ δ : Type} {s' : State}

variable {kind : Kind} {l l' : List Token} {token' : Option Token} {test : Token → Bool}

/-! ## Pairings -/

/-- Two texts that have the same faces, and the words of trees that are identified. -/
structure Pairing where
  /-- Which beginnings of the texts are set against each other. -/
  paired : List Token → List Token → Prop
  /-- What the first text goes on with. -/
  old : List Token
  /-- What the second text goes on with. -/
  more : List Token
  /-- Whether a reading may come to the end of the first text. -/
  whole : Prop
  /-- What the two sides have in common at a token. -/
  face : Token → Token
  /-- Which types of declarations are taken for the same. -/
  hint : String → String
  /-- Which names of calls and variables are taken for the same. -/
  name : String → String
  /-- Whether only readings without complaints count. -/
  clean : Prop
  /-- Whether the readings are compared when they stop, too. -/
  exact : Prop
  length_eq : ∀ l l', paired l l' → l.length = l'.length
  uncons : ∀ t t' l l', paired (t :: l) (t' :: l') → face t = face t' ∧ paired l l'
  room : old.length ≤ more.length
  apart : whole → Apart more
  closed : exact → whole ∧ old = [] ∧ more = []
  counted : exact ∨ clean
  kind_face : ∀ t, (face t).kind = t.kind
  payload_face : ∀ t, (∀ k, t.kind ≠ .keyword k) → (face t).payload = t.payload
  hasText_face : ∀ t text, Token.keyword? text = none → (face t).hasText text = t.hasText text
  name_length : ∀ t t', face t = face t' → t.kind = .keyword .length →
    name t.display = name t'.display
  name_dotted : ∀ x y member : String, name x = name y → name s!"{x}.{member}" = name s!"{y}.{member}"
  /-- The type of a declaration: a name follows it, and in a clean text an operator does. -/
  hint_declared : ∀ t t' l l', paired (t :: l) (t' :: l') → isTypeKind t.kind = true →
    (l ++ old)[0]?.map (·.kind) = some .ident →
    (clean → (l ++ old)[1]?.map (·.kind) = some .op) → hint t.display = hint t'.display

variable {p q : Parser α} {f g : α → Parser β} {seen : Token → δ} {b : α}
  {r r' : EStateM.Result Stop State α} {again : α → Parser Bool} {body body' : α → Parser α}

namespace Pairing

variable {a : α} {stop : Stop}

theorem id_dotted (x y member : String) (same : id x = id y) :
    id s!"{x}.{member}" = id s!"{y}.{member}" :=
  congrArg (fun object : String => s!"{object}.{member}") same

/-- A text against itself, going on in two ways. -/
def following (old more : List Token) (whole : Prop) (room : old.length ≤ more.length)
    (apart : whole → Apart more) : Pairing where
  paired := Eq
  old := old
  more := more
  whole := whole
  face := id
  hint := id
  name := id
  clean := True
  exact := False
  length_eq _ _ same := congrArg List.length same
  uncons _ _ _ _ same := List.cons.inj same
  room := room
  apart := apart
  closed := False.elim
  counted := .inr trivial
  kind_face _ := rfl
  payload_face _ _ := rfl
  hasText_face _ _ _ := rfl
  name_length _ _ h _ := congrArg Token.display h
  name_dotted := id_dotted
  hint_declared _ _ _ _ same _ _ _ := congrArg Token.display (List.cons.inj same).1

theorem apart_of_nothing (_ : True) : Apart [] :=
  apart_nil

theorem room_for_nothing : ([] : List Token).length ≤ ([] : List Token).length :=
  Nat.le_refl 0

/-- A text against itself: nothing is identified. -/
def same : Pairing :=
  { following [] [] True room_for_nothing apart_of_nothing with
    clean := False
    exact := True
    closed := fun _ => ⟨trivial, rfl, rfl⟩
    counted := .inl trivial
    hint_declared := fun _ _ _ _ same _ _ _ => congrArg Token.display (List.cons.inj same).1 }

variable (P : Pairing)

/-- What the two sides have in common at a node; so for lists and problems. -/
abbrev node : Node → Node :=
  Node.respell P.hint P.name

abbrev nodes : List Node → List Node :=
  Node.respellAll P.hint P.name

abbrev nodes? : Option (List Node) → Option (List Node) :=
  Node.respellList? P.hint P.name

abbrev class_ : ClassDecl Node → ClassDecl Node :=
  Node.respellClass P.hint P.name

def problem : Problem → Problem
  | .complaint token what => .complaint (token.map P.face) what
  | .foreign violation => .foreign { violation with token := P.face violation.token }

/-- A reading may end with the first text, where the second goes on. -/
def Open : Prop :=
  P.whole ∧ P.more ≠ []

/-- The same texts for a part after which something else is needed. -/
abbrev inner : Pairing :=
  { P with
    whole := P.whole ∧ P.more = []
    apart := fun inside => P.apart inside.1
    closed := fun exact => ⟨⟨(P.closed exact).1, (P.closed exact).2.2⟩, (P.closed exact).2⟩ }

/-- The two sides stand at tokens that are set against each other. -/
def Related (s s' : State) : Prop :=
  ∃ front front', s.rest = front ++ P.old ∧ s'.rest = front' ++ P.more ∧ P.paired front front'

/-- The current tokens of the two sides. -/
structure At (t t' : Token) (s s' : State) : Prop where
  left : s.token? = some t
  right : s'.token? = some t'

/-- Both readings have gone on by as many tokens, with the same complaints. -/
structure Abreast (s s' t t' : State) : Prop where
  pos : t.pos + s'.pos = t'.pos + s.pos
  complaints : ∃ new new', t.complaints = s.complaints ++ new ∧
    t'.complaints = s'.complaints ++ new' ∧ new.map P.problem = new'.map P.problem

/-- A reading ends before `old`, or at the end of the text. -/
def Within (t : State) : Prop :=
  P.old.length < t.rest.length ∨
    P.whole ∧ P.old = [] ∧ (P.more ≠ [] → t.pos ≤ t.tokens.size)

/-- A reading counts: in a clean pairing, it has no complaints. -/
structure Counts (s t : State) : Prop where
  clean : P.clean → t.complaints = s.complaints
  within : P.Within t

/-- Both readings stop for the same reason, or give results that look alike. -/
inductive Lockstep (view : α → γ) (s s' : State) :
    EStateM.Result Stop State α → EStateM.Result Stop State α → Prop
  | ok {a b : α} {t t' : State} (same : view a = view b) (related : P.Related t t')
      (abreast : P.Abreast s s' t t') : Lockstep view s s' (.ok a t) (.ok b t')
  | error {stop : Stop} {t : State} {result : EStateM.Result Stop State α}
      (alike : P.exact → ∃ t', result = .error stop t' ∧ P.Abreast s s' t t') :
      Lockstep view s s' (.error stop t) result

/-- Two parsers read alike from the states in `start`. -/
structure AgreeFrom (start : State → State → Prop) (view : α → γ) (p q : Parser α) : Prop where
  moves : Steady p
  locks : ∀ s s', P.Related s s' → start s s' → P.Counts s (ending (p s)) →
    P.Lockstep view s s' (p s) (q s')

/-- Two parsers read alike. -/
abbrev Agree (view : α → γ) (p q : Parser α) : Prop :=
  P.AgreeFrom (fun _ _ => True) view p q

variable {P} {start : State → State → Prop} {v : α → γ} {w : β → δ}

/-! ## Tokens with the same face -/

section Faces

variable {t t' : Token}

theorem faces_some (h : P.face t = P.face t') : (some t).map P.face = (some t').map P.face :=
  congrArg some h

theorem kind_eq (h : P.face t = P.face t') : t'.kind = t.kind := by
  rw [← P.kind_face t', ← h, P.kind_face]

theorem hasText_eq (h : P.face t = P.face t') {text : String}
    (other : Token.keyword? text = none) : t'.hasText text = t.hasText text := by
  rw [← P.hasText_face t' text other, ← h, P.hasText_face t text other]

theorem payload_eq (h : P.face t = P.face t') (plain : ∀ k, t.kind ≠ .keyword k) :
    t'.payload = t.payload := by
  have plain' : ∀ k, t'.kind ≠ .keyword k := fun k => kind_eq h ▸ plain k
  rw [← P.payload_face t' plain', ← h, P.payload_face t plain]

theorem display_eq (h : P.face t = P.face t') (plain : ∀ k, t.kind ≠ .keyword k) :
    t'.display = t.display := by
  rw [Token.display, Token.display, payload_eq h plain]

theorem hasText_eq_of_kind (h : P.face t = P.face t') (plain : ∀ k, t.kind ≠ .keyword k)
    (text : String) : t'.hasText text = t.hasText text := by
  rw [Token.hasText, Token.hasText, payload_eq h plain]

theorem textAmong_eq (h : P.face t = P.face t') (plain : ∀ k, kind ≠ .keyword k)
    (texts : List String) :
    (decide (t'.kind = kind) && texts.any t'.hasText) =
      (decide (t.kind = kind) && texts.any t.hasText) := by
  rw [kind_eq h]
  by_cases same : t.kind = kind
  · have texts_eq : t'.hasText = t.hasText := funext fun text =>
      hasText_eq_of_kind h (fun k => same ▸ plain k) text
    rw [texts_eq]
  · simp only [same, decide_false, Bool.false_and]

theorem isOpAmong_eq (h : P.face t = P.face t') (ops : List String) :
    isOpAmong ops t' = isOpAmong ops t :=
  textAmong_eq h (fun _ => Kind.noConfusion) ops

theorem namesDestructor_eq (h : P.face t = P.face t') :
    namesDestructor t' = namesDestructor t :=
  textAmong_eq h (fun _ => Kind.noConfusion) destructorNames

end Faces

/-! ## Places -/

theorem paired_cases (h : P.paired l l') :
    (l = [] ∧ l' = []) ∨
      ∃ t t' r r', l = t :: r ∧ l' = t' :: r' ∧ P.face t = P.face t' ∧ P.paired r r' := by
  have same := P.length_eq l l' h
  cases l with
  | nil => exact .inl ⟨rfl, eq_nil_of_length_eq_zero same.symm⟩
  | cons t r =>
    cases l' with
    | nil => cases same
    | cons t' r' => exact .inr ⟨t, t', r, r', rfl, rfl, P.uncons t t' r r' h⟩

theorem paired_drop (h : P.paired l l') (n : Nat) : P.paired (l.drop n) (l'.drop n) := by
  induction n generalizing l l' with
  | zero => exact h
  | succ n ih =>
    rcases paired_cases h with ⟨rfl, rfl⟩ | ⟨t, t', r, r', rfl, rfl, _, later⟩
    · exact h
    · exact ih later

theorem runOf_eq (shows : ∀ t t', P.face t = P.face t' → test t' = test t) (h : P.paired l l') :
    runOf test l = runOf test l' := by
  induction l generalizing l' with
  | nil =>
    rcases paired_cases h with ⟨_, rfl⟩ | ⟨_, _, _, _, none, _⟩
    · rfl
    · cases none
  | cons t r ih =>
    rcases paired_cases h with ⟨none, _⟩ | ⟨_, t', _, r', parts, rfl, same, later⟩
    · cases none
    · obtain ⟨rfl, rfl⟩ := List.cons.inj parts
      have next := ih later
      unfold runOf at next ⊢
      rw [takeWhile_cons, takeWhile_cons, shows t t' same]
      cases test t with
      | true => exact congrArg (· + 1) next
      | false => rfl

theorem kind_at (h : P.paired l l') (i : Nat) : l'[i]?.map (·.kind) = l[i]?.map (·.kind) := by
  rw [← head?_drop, ← head?_drop]
  rcases paired_cases (paired_drop h i) with ⟨left, right⟩ | ⟨t, t', r, r', left, right, same, _⟩
  · rw [left, right]
  · rw [left, right]
    exact congrArg some (kind_eq same)

theorem Within.back {s t : State} (h : P.Within t) (moves : Moves s t) : P.Within s := by
  rcases h with before | ⟨whole, none_old, inside⟩
  · exact .inl (Nat.lt_of_lt_of_le before moves.rest.length_le)
  · refine .inr ⟨whole, none_old, fun opened => ?_⟩
    rw [← moves.tokens]
    exact Nat.le_trans moves.pos (inside opened)

/-- Both sides are at tokens with the same face, or the first is at its end. -/
theorem Related.tokens {s : State} (h : P.Related s s') (within : P.Within s) :
    (∃ t t', s.token? = some t ∧ s'.token? = some t' ∧ P.face t = P.face t' ∧
      P.Related (s.skip 1) (s'.skip 1)) ∨
    (s.rest = [] ∧ s'.rest = P.more ∧ P.whole ∧ P.old = [] ∧ P.paired [] []) := by
  obtain ⟨front, front', left, right, paired⟩ := h
  rw [State.token?_eq, State.token?_eq, left, right]
  rcases paired_cases paired with ⟨rfl, rfl⟩ | ⟨t, t', r, r', rfl, rfl, same, later⟩
  · refine .inr ?_
    rcases within with before | ⟨whole, none_old, _⟩
    · rw [left] at before
      exact absurd before (Nat.lt_irrefl _)
    · rw [none_old]
      exact ⟨rfl, rfl, whole, rfl, paired⟩
  · refine .inl ⟨t, t', rfl, rfl, same, r, r', ?_, ?_, later⟩
    · rw [State.rest_skip, left]
      rfl
    · rw [State.rest_skip, right]
      rfl

theorem Related.paired {s : State} (h : P.Related s s') (exact : P.exact) :
    P.paired s.rest s'.rest := by
  obtain ⟨front, front', left, right, paired⟩ := h
  obtain ⟨_, none_old, none_more⟩ := P.closed exact
  rw [left, right, none_old, none_more, append_nil, append_nil]
  exact paired

theorem related_of_paired {s : State} (exact : P.exact) (h : P.paired s.rest s'.rest) :
    P.Related s s' := by
  obtain ⟨_, none_old, none_more⟩ := P.closed exact
  refine ⟨s.rest, s'.rest, ?_, ?_, h⟩
  · rw [none_old, append_nil]
  · rw [none_more, append_nil]

/-- The kinds of the next tokens are the same, as far as what follows is not seen. -/
theorem Related.kind_at {s : State} (h : P.Related s s') {i : Nat}
    (near : P.exact ∨ P.old.length + i < s.rest.length) :
    s'.rest[i]?.map (·.kind) = s.rest[i]?.map (·.kind) := by
  rcases near with exact | near
  · exact Pairing.kind_at (h.paired exact) i
  · obtain ⟨front, front', left, right, paired⟩ := h
    have same := P.length_eq _ _ paired
    rw [left, length_append] at near
    rw [left, right, getElem?_append_left (by omega), getElem?_append_left (by omega)]
    exact Pairing.kind_at paired i

/-- The second side may have more levels, unless stops are compared. -/
def Levels (P : Pairing) (n m : Nat) : Prop :=
  n ≤ m ∧ (P.exact → n = m)

theorem Levels.succ {n m : Nat} (h : P.Levels n m) : P.Levels (n + 1) (m + 1) :=
  ⟨Nat.succ_le_succ h.1, fun exact => congrArg (· + 1) (h.2 exact)⟩

theorem Levels.pred {n m : Nat} (h : P.Levels (n + 1) m) : ∃ k, m = k + 1 ∧ P.Levels n k := by
  obtain ⟨le, same⟩ := h
  exact ⟨m - 1, by omega, by omega, fun exact => by have := same exact; omega⟩

theorem Related.remaining {s : State} (h : P.Related s s') :
    P.Levels s.remaining s'.remaining := by
  rw [State.remaining_eq, State.remaining_eq]
  refine ⟨?_, fun exact => P.length_eq _ _ (h.paired exact)⟩
  obtain ⟨front, front', left, right, paired⟩ := h
  have room := P.room
  have same := P.length_eq _ _ paired
  rw [left, right, length_append, length_append]
  omega

namespace Abreast

variable {s s' t t' u u' : State}

theorem refl (s s' : State) : P.Abreast s s' s s' :=
  ⟨Nat.add_comm _ _, [], [], (append_nil _).symm, (append_nil _).symm, rfl⟩

theorem trans (first : P.Abreast s s' t t') (second : P.Abreast t t' u u') :
    P.Abreast s s' u u' := by
  obtain ⟨pos, new, new', noted, noted', same⟩ := first
  obtain ⟨pos₂, new₂, new₂', noted₂, noted₂', same₂⟩ := second
  refine ⟨by omega, new ++ new₂, new' ++ new₂', ?_, ?_, ?_⟩
  · rw [noted₂, noted, append_assoc]
  · rw [noted₂', noted', append_assoc]
  · rw [map_append, map_append, same, same₂]

theorem skip (s s' : State) (n : Nat) : P.Abreast s s' (s.skip n) (s'.skip n) :=
  ⟨Nat.add_right_comm .. |>.trans (by rw [Nat.add_comm s.pos]; exact (Nat.add_right_comm ..).symm),
    [], [], (append_nil _).symm, (append_nil _).symm, rfl⟩

theorem note (s s' : State) {token : Option Token} (same : token.map P.face = token'.map P.face)
    (what : Complaint) :
    P.Abreast s s' (s.note (.complaint token what)) (s'.note (.complaint token' what)) := by
  refine ⟨Nat.add_comm _ _, _, _, s.complaints_note token what, s'.complaints_note token' what, ?_⟩
  simp only [map_cons, problem, same]

end Abreast

theorem Lockstep.after {s t t' : State} (locked : P.Lockstep v t t' r r')
    (abreast : P.Abreast s s' t t') : P.Lockstep v s s' r r' := by
  cases locked with
  | ok same related later => exact .ok same related (abreast.trans later)
  | error alike =>
    refine .error fun exact => ?_
    obtain ⟨u', result, later⟩ := alike exact
    exact ⟨u', result, abreast.trans later⟩

theorem Lockstep.bind {s : State} (locked : P.Lockstep v s s' (p s) (q s'))
    (later : ∀ a b t t', p s = .ok a t → q s' = .ok b t' → v a = v b → P.Related t t' →
      P.Lockstep w t t' (f a t) (g b t')) : P.Lockstep w s s' ((p >>= f) s) ((q >>= g) s') := by
  cases result : p s with
  | ok a t =>
    rw [bind_apply result]
    cases result' : q s' with
    | ok b t' =>
      rw [bind_apply result']
      rw [result, result'] at locked
      cases locked with
      | ok same related abreast => exact (later a b t t' result result' same related).after abreast
    | error stop t' =>
      rw [result, result'] at locked
      cases locked
  | error stop t =>
    rw [bind_of_error result]
    rw [result] at locked
    cases locked with
    | error alike =>
      refine .error fun exact => ?_
      obtain ⟨t', result', abreast⟩ := alike exact
      exact ⟨t', bind_of_error result', abreast⟩

theorem Lockstep.outer {s : State} (locked : P.inner.Lockstep v s s' r r') :
    P.Lockstep v s s' r r' := by
  cases locked with
  | ok same related abreast => exact .ok same related ⟨abreast.pos, abreast.complaints⟩
  | error alike =>
    refine .error fun exact => ?_
    obtain ⟨t', result, abreast⟩ := alike exact
    exact ⟨t', result, abreast.pos, abreast.complaints⟩

theorem Counts.first {s : State} (counts : P.Counts s (ending ((p >>= f) s))) (first : Steady p)
    (second : ∀ a, Steady (f a)) : P.Counts s (ending (p s)) := by
  have early := first s
  cases result : p s with
  | ok a t =>
    rw [bind_apply result] at counts
    rw [result] at early
    have late := second a t
    exact ⟨fun clean => (early.clean late (counts.clean clean)).1, counts.within.back late⟩
  | error stop t =>
    rw [bind_of_error result] at counts
    exact counts

theorem Counts.second {s t : State} (counts : P.Counts s (ending ((p >>= f) s))) (first : Steady p)
    (second : Steady (f a)) (result : p s = .ok a t) : P.Counts t (ending (f a t)) := by
  rw [bind_apply result] at counts
  exact ⟨fun clean => ((first.ok result).clean (second t) (counts.clean clean)).2, counts.within⟩

theorem both_or_none {o o' : Option Token} (h : o.map seen = o'.map seen) :
    (o = none ∧ o' = none) ∨ ∃ t t', o = some t ∧ o' = some t' ∧ seen t = seen t' := by
  cases o with
  | none =>
    rw [Option.map_none, eq_comm, Option.map_eq_none_iff] at h
    exact .inl ⟨rfl, h⟩
  | some t =>
    rw [Option.map_some, eq_comm, Option.map_eq_some_iff] at h
    obtain ⟨t', found', same⟩ := h
    exact .inr ⟨t, t', rfl, found', same.symm⟩

theorem nodes_snoc {nodes nodes' : List Node} {a b : Node} (same : P.nodes nodes = P.nodes nodes')
    (last : P.node a = P.node b) : P.nodes (nodes ++ [a]) = P.nodes (nodes' ++ [b]) := by
  have grown : ∀ nodes a, P.nodes (nodes ++ [a]) = P.nodes nodes ++ [P.node a] :=
    fun nodes a => Node.respellAll_append nodes [a]
  rw [grown, grown, same, last]

/-! ## Rules -/

namespace AgreeFrom

theorem pure (h : v a = v b) : P.AgreeFrom start v (pure a) (pure b) where
  moves := .pure a
  locks s s' related _ _ := .ok h related (.refl s s')

/-- A parser that stops; so does the other one, if that is compared. -/
theorem stops (h : P.exact → q = MonadExcept.throw stop) : P.AgreeFrom start v (throw stop) q where
  moves s := Moves.refl s
  locks s s' _ _ _ := .error fun exact => ⟨s', by rw [h exact]; rfl, .refl s s'⟩

theorem throw (stop : Stop) : P.AgreeFrom start v (throw stop) (throw stop) :=
  .stops fun _ => rfl

theorem weaken {states : State → State → Prop} (h : P.AgreeFrom states v p q)
    (sub : ∀ s s', start s s' → states s s') : P.AgreeFrom start v p q where
  moves := h.moves
  locks s s' related started counts := h.locks s s' related (sub s s' started) counts

theorem everywhere (h : P.Agree v p q) : P.AgreeFrom start v p q :=
  h.weaken fun _ _ _ => trivial

/-- Where stops are not compared, only readings with a result count. -/
theorem ofOk (steady : Steady p) (exactly : P.exact → P.AgreeFrom start v p q)
    (given : ¬P.exact → P.clean → ∀ s s' a t, P.Related s s' → start s s' → p s = .ok a t →
      P.Counts s t → P.Lockstep v s s' (p s) (q s')) : P.AgreeFrom start v p q where
  moves := steady
  locks s s' related started counts := by
    by_cases exact : P.exact
    · exact (exactly exact).locks s s' related started counts
    · cases result : p s with
      | error stop t => exact .error fun holds => absurd holds exact
      | ok a t =>
        rw [result] at counts
        have locked := given exact (P.counted.resolve_left exact) s s' a t related started result
          counts
        rw [result] at locked
        exact locked

/-- A parser that has to complain, and reads alike if stops are compared. -/
theorem objects (h : Objects p) (steady : Steady p) (exactly : P.exact → P.AgreeFrom start v p q) :
    P.AgreeFrom start v p q :=
  .ofOk steady exactly fun _ clean s _ a t _ _ result counts =>
    absurd (counts.clean clean) (h s a t result).2

/-- What is done next may rely on the states in which the first parser ends. -/
theorem bindFrom {next : α → State → State → Prop} (first : P.AgreeFrom start v p q)
    (reached : ∀ s s' a b t t', start s s' → p s = .ok a t → q s' = .ok b t' → next a t t')
    (second : ∀ a b, v a = v b → P.AgreeFrom (next a) w (f a) (g b)) :
    P.AgreeFrom start w (p >>= f) (q >>= g) where
  moves := first.moves.bind fun a => (second a a rfl).moves
  locks s s' related started counts := by
    have early := counts.first first.moves fun a => (second a a rfl).moves
    refine (first.locks s s' related started early).bind fun a b t t' result result' same after => ?_
    refine (second a b same).locks t t' after (reached s s' a b t t' started result result') ?_
    exact counts.second first.moves (second a a rfl).moves result

theorem bind (first : P.AgreeFrom start v p q) (second : ∀ a b, v a = v b → P.Agree w (f a) (g b)) :
    P.AgreeFrom start w (p >>= f) (q >>= g) :=
  first.bindFrom (fun _ _ _ _ _ _ _ _ _ => trivial) second

/-- After a parser that gives the same on both sides. -/
theorem andThen (first : P.AgreeFrom start id p q) (second : ∀ a, P.Agree w (f a) (g a)) :
    P.AgreeFrom start w (p >>= f) (q >>= g) := by
  refine first.bind fun a b same => ?_
  cases same
  exact second a

/-- If at the end of an open text the second parser needs something to be left, the first comes to
its end before the text does. -/
theorem bindReaching (first : P.inner.AgreeFrom start v p q)
    (second : ∀ a b, v a = v b → P.Agree w (f a) (g b))
    (needs : P.Open → ∀ s a t b u, p s = .ok a t → t.rest = [] → f a t = .ok b u →
      u.complaints ≠ t.complaints) : P.AgreeFrom start w (p >>= f) (q >>= g) where
  moves := first.moves.bind fun a => (second a a rfl).moves
  locks s s' related started counts := by
    by_cases stopped : ¬P.exact ∧ ∀ b u, (p >>= f) s ≠ .ok b u
    · cases result : (p >>= f) s with
      | ok b u => exact absurd result (stopped.2 b u)
      | error stop u => exact .error fun exact => absurd exact stopped.1
    have early := counts.first first.moves fun a => (second a a rfl).moves
    have within : P.inner.Within (ending (p s)) := by
      rcases early.within with before | ⟨whole, none_old, inside⟩
      · exact .inl before
      by_cases shut : P.more = []
      · exact .inr ⟨⟨whole, shut⟩, none_old, inside⟩
      have free : ¬P.exact := fun exact => shut (P.closed exact).2.2
      obtain ⟨b, u, result⟩ : ∃ b u, (p >>= f) s = .ok b u := by
        by_contra none
        exact stopped ⟨free, fun b u result => none ⟨b, u, result⟩⟩
      obtain ⟨a, t, read, later⟩ := bind_eq_ok result
      have clean := (counts.second first.moves (second a a rfl).moves read).clean
      rw [later] at clean
      rw [read]
      refine .inl ?_
      rw [none_old]
      refine length_pos_of_ne_nil fun none_left => ?_
      exact needs ⟨whole, shut⟩ s a t b u read none_left later (clean (P.counted.resolve_left free))
    have locked := (first.locks s s' related started ⟨early.clean, within⟩).outer
    refine locked.bind fun a b t t' result result' same after => ?_
    refine (second a b same).locks t t' after trivial ?_
    exact counts.second first.moves (second a a rfl).moves result

theorem bindNeeding (first : P.inner.AgreeFrom start v p q)
    (second : ∀ a b, v a = v b → P.Agree w (f a) (g b)) (needs : P.Open → ∀ a, Needs (f a)) :
    P.AgreeFrom start w (p >>= f) (q >>= g) :=
  first.bindReaching second fun opened _ a t b u _ => needs opened a t b u

/-- A choice by the next tokens, if the second side sees them as well. -/
theorem choose {look : Parser Bool} {ahead : State → Bool}
    (looks : ∀ s, look s = .ok (ahead s) s) {f g : Bool → Parser α}
    (h : ∀ answer, P.AgreeFrom start v (f answer) (g answer))
    (shows : ∀ s s', P.Related s s' →
      P.exact ∨ (∃ a t, f (ahead s) s = .ok a t ∧ P.Counts s t) → ahead s' = ahead s) :
    P.AgreeFrom start v (look >>= f) (look >>= g) where
  moves := by
    refine .bind (fun s => ?_) fun answer => (h answer).moves
    rw [looks]
    exact .refl s
  locks s s' related started counts := by
    rw [bind_apply (looks s)] at counts ⊢
    rw [bind_apply (looks s')]
    by_cases same : ahead s' = ahead s
    · rw [same]
      exact (h _).locks s s' related started counts
    · cases result : f (ahead s) s with
      | ok a t =>
        rw [result] at counts
        exact absurd (shows s s' related (.inr ⟨a, t, result, counts⟩)) same
      | error stop t => exact .error fun exact => absurd (shows s s' related (.inl exact)) same

/-- A parser that is given the number of tokens left. -/
theorem remaining {f g : Nat → Parser α}
    (h : ∀ {n m}, P.Levels n m → P.AgreeFrom start v (f n) (g m)) :
    P.AgreeFrom start v (do f (← get).remaining) (do g (← get).remaining) where
  moves s := (h ⟨Nat.le_refl _, fun _ => rfl⟩).moves s
  locks s s' related started counts := (h related.remaining).locks s s' related started counts

/-- A glance at the next token. Without one in an open text, something is needed. -/
theorem peek {f g : Option Token → Parser α} (absent : P.Agree v (f none) (g none))
    (needs : P.Open → Needs (f none))
    (found : ∀ t t', P.face t = P.face t' →
      P.AgreeFrom (At t t') v (f (some t)) (g (some t'))) :
    P.AgreeFrom start v (peek >>= f) (peek >>= g) := by
  have steady : Steady (Parser.peek >>= f) := by
    refine .bind (fun s => .refl s) fun next => ?_
    cases next with
    | none => exact absent.moves
    | some t => exact (found t t rfl).moves
  refine ⟨steady, fun s s' related started counts => ?_⟩
  have moved := steady s
  change P.Counts s (ending (f s.token? s)) at counts
  show P.Lockstep v s s' (f s.token? s) (g s'.token? s')
  rcases related.tokens (counts.within.back moved) with
    ⟨t, t', here, here', same, _⟩ | ⟨none_left, left, whole, -⟩
  · rw [here] at counts
    rw [here, here']
    exact (found t t' same).locks s s' related ⟨here, here'⟩ counts
  · have absent_here := (s.rest_eq_nil_iff).mp none_left
    rw [absent_here] at counts ⊢
    by_cases shut : P.more = []
    · rw [(s'.rest_eq_nil_iff).mp (left.trans shut)]
      exact absent.locks s s' related trivial counts
    · have free : ¬P.exact := fun exact => shut (P.closed exact).2.2
      cases result : f none s with
      | ok a t =>
        rw [result] at counts
        exact absurd (counts.clean (P.counted.resolve_left free))
          (needs ⟨whole, shut⟩ s a t none_left result)
      | error stop t => exact .error fun exact => absurd exact free

theorem peekSome {f g : Option Token → Parser α} (absent : f none = MonadExcept.throw stop)
    (absent' : g none = MonadExcept.throw stop)
    (found : ∀ t t', P.face t = P.face t' → P.AgreeFrom (At t t') v (f (some t)) (g (some t'))) :
    P.AgreeFrom start v (Parser.peek >>= f) (Parser.peek >>= g) := by
  refine .peek ?_ (fun _ s a t _ result => ?_) found
  · rw [absent, absent']
    exact .throw stop
  · rw [absent] at result
    cases result

theorem peekAt {t t' : Token} {f g : Option Token → Parser α} (steady : Steady (Parser.peek >>= f))
    (found : P.AgreeFrom (At t t') v (f (some t)) (g (some t'))) :
    P.AgreeFrom (At t t') v (Parser.peek >>= f) (Parser.peek >>= g) where
  moves := steady
  locks s s' related here counts := by
    change P.Counts s (ending (f s.token? s)) at counts
    show P.Lockstep v s s' (f s.token? s) (g s'.token? s')
    rw [here.left] at counts ⊢
    rw [here.right]
    exact found.locks s s' related here counts

theorem ite {c c' : Prop} [Decidable c] [Decidable c'] {p' q' : Parser α} (same : c' ↔ c)
    (yes : c → P.AgreeFrom start v p p') (no : ¬c → P.AgreeFrom start v q q') :
    P.AgreeFrom start v (if c then p else q) (if c' then p' else q') := by
  by_cases holds : c
  · rw [if_pos holds, if_pos (same.mpr holds)]
    exact yes holds
  · rw [if_neg holds, if_neg fun h => holds (same.mp h)]
    exact no holds

theorem repeatWhile (asks : ∀ a b, v a = v b → P.Agree id (again a) (again b))
    (rounds : ∀ a b, v a = v b → P.Agree v (body a) (body' b)) {n m : Nat} (levels : P.Levels n m)
    (same : v a = v b) : P.Agree v (repeatWhile again body n a) (repeatWhile again body' m b) := by
  induction n generalizing m a b with
  | zero =>
    refine stops fun exact => ?_
    rw [← levels.2 exact]
    rfl
  | succ n ih =>
    obtain ⟨k, rfl, fewer⟩ := levels.pred
    refine (asks a b same).andThen fun goesOn => ?_
    cases goesOn with
    | true => exact (rounds a b same).bind fun _ _ next => ih fewer next
    | false => exact pure same

theorem loop (asks : ∀ a b, v a = v b → P.Agree id (again a) (again b))
    (rounds : ∀ a b, v a = v b → P.Agree v (body a) (body' b)) (same : v a = v b) :
    P.Agree v (loop again body a) (loop again body' b) :=
  .remaining fun levels => repeatWhile asks rounds levels.succ same

end AgreeFrom

/-! ## Basic moves -/

/-- No token that passes the test comes after an open text. -/
def Quiet (P : Pairing) (test : Token → Bool) : Prop :=
  P.Open → Idle test P.more

theorem quiet_of_shut (shut : ¬P.Open) : P.Quiet test :=
  fun opened => absurd opened shut

theorem quiet_prolongs (goes : prolongs kind = true) : P.Quiet fun t => t.kind = kind :=
  fun opened => (P.apart opened.1).kind goes

theorem steady_nextIs (test : Token → Bool) : Steady (nextIs test) := by
  intro s
  exact .refl s

theorem agree_nextIs {p : Token → Bool} (h : ∀ t t', P.face t = P.face t' → p t' = p t)
    (quiet : P.Quiet p) : P.AgreeFrom start id (nextIs p) (nextIs p) where
  moves := steady_nextIs p
  locks s s' related _ counts := by
    rw [nextIs_apply, nextIs_apply]
    refine .ok ?_ related (.refl s s')
    rcases related.tokens counts.within with
      ⟨t, t', here, here', same, _⟩ | ⟨none_left, left, whole, -⟩
    · rw [← State.token?_eq, ← State.token?_eq, here, here']
      exact (h t t' same).symm
    · rw [none_left, left]
      cases first : P.more.head? with
      | none => rfl
      | some t =>
        have opened : P.Open := ⟨whole, fun empty => by rw [empty] at first; cases first⟩
        exact (quiet opened t first).symm

theorem agree_nextIs_kind (p : Kind → Bool) (quiet : P.Quiet fun t => p t.kind) :
    P.AgreeFrom start id (nextIs fun t => p t.kind) (nextIs fun t => p t.kind) :=
  agree_nextIs (fun _ _ same => by rw [kind_eq same]) quiet

theorem agree_nextHas (quiet : P.Quiet fun t => t.kind = kind) :
    P.AgreeFrom start id (nextHas kind) (nextHas kind) :=
  agree_nextIs_kind (fun k => decide (k = kind)) quiet

/-- A token with which expressions go on. -/
theorem agree_prolongs (goes : prolongs kind = true) :
    P.AgreeFrom start id (nextHas kind) (nextHas kind) :=
  agree_nextHas (quiet_prolongs goes)

/-- A question about the next token; something is needed if there is none. -/
theorem agree_ifNeeding {f g : Bool → Parser α}
    (h : ∀ t t', P.face t = P.face t' → test t' = test t) (needs : P.Open → Needs (f false))
    (answer : ∀ yes, P.Agree v (f yes) (g yes)) :
    P.AgreeFrom start v (nextIs test >>= f) (nextIs test >>= g) := by
  refine .bindReaching (v := id)
    (agree_nextIs h (quiet_of_shut fun opened => opened.2 opened.1.2)) ?_ ?_
  · intro a b same
    cases same
    exact answer a
  · intro opened s a t b u read none_left
    rw [nextIs_apply] at read
    cases read
    rw [none_left]
    exact needs opened s b u none_left

theorem agree_ifHas {f g : Bool → Parser α} (needs : P.Open → Needs (f false))
    (answer : ∀ yes, P.Agree v (f yes) (g yes)) :
    P.AgreeFrom start v (nextHas kind >>= f) (nextHas kind >>= g) :=
  agree_ifNeeding (fun _ _ same => by rw [kind_eq same]) needs answer

theorem agree_nextKind : P.AgreeFrom start id nextKind nextKind :=
  .peekSome rfl rfl fun _ _ same => .pure (kind_eq same).symm

theorem agree_advance : P.AgreeFrom start id advance advance where
  moves := .advance
  locks s s' related _ counts := by
    rw [advance_apply] at counts
    rw [advance_apply, advance_apply]
    refine .ok rfl ?_ (.skip s s' 1)
    rcases related.tokens (counts.within.back (.skip s 1)) with
      ⟨_, _, _, _, _, after⟩ | ⟨none_left, left, whole, none_old, paired⟩
    · exact after
    · have none_left' : (s.skip 1).rest = [] := by rw [State.rest_skip, none_left]; rfl
      have shut : P.more = [] := by
        by_contra opened
        rcases counts.within with before | ⟨_, _, inside⟩
        · rw [ending, none_left'] at before
          cases before
        · have bound : s.pos + 1 ≤ s.tokens.size := inside opened
          have count := s.remaining_eq
          rw [none_left] at count
          unfold State.remaining at count
          rw [length_nil] at count
          omega
      refine ⟨[], [], ?_, ?_, paired⟩
      · rw [none_left', none_old]
        rfl
      · rw [State.rest_skip, left, shut]
        rfl

theorem agree_report {token : Option Token} (same : token.map P.face = token'.map P.face)
    (what : Complaint) :
    P.AgreeFrom start id (report (.complaint token what)) (report (.complaint token' what)) where
  moves s := .note s token what
  locks s s' related _ _ := .ok rfl related (.note s s' same what)

theorem steady_complain (token : Option Token) (what : Complaint) :
    Steady (complain token what) := by
  intro s
  rw [complain_apply]
  exact (Moves.note s token what).trans (.skip _ _)

theorem syncLength_eq (h : P.paired l l') : syncLength l = syncLength l' := by
  rcases paired_cases h with ⟨rfl, rfl⟩ | ⟨t, t', r, r', rfl, rfl, _, later⟩
  · rfl
  · refine congrArg (1 + ·) (runOf_eq (fun t t' same => ?_) later)
    simp only [isRecoveryPoint, kind_eq same]

theorem agree_complain {token : Option Token} (same : token.map P.face = token'.map P.face)
    (what : Complaint) : P.AgreeFrom start id (complain token what) (complain token' what) := by
  refine .objects (objects_complain token what) (steady_complain token what) fun exact => ?_
  refine ⟨steady_complain token what, fun s s' related _ _ => ?_⟩
  have paired := related.paired exact
  rw [complain_apply, complain_apply, syncLength_eq paired]
  refine .ok rfl (related_of_paired exact ?_) ((Abreast.note s s' same what).trans (.skip _ _ _))
  rw [State.rest_skip, State.rest_skip]
  exact paired_drop paired _

theorem agree_failNode {token : Option Token} (same : token.map P.face = token'.map P.face)
    (what : Complaint) : P.AgreeFrom start P.node (failNode token what) (failNode token' what) :=
  (agree_complain same what).andThen fun _ => .pure rfl

/-- A taken token shows the same, if those of its kind with one face do. -/
theorem agree_expect (shows : ∀ t t', P.face t = P.face t' → t.kind = kind → seen t = seen t') :
    P.AgreeFrom start (Option.map seen) (expect kind) (expect kind) := by
  refine .peek ?_ (fun _ => ?_) fun t t' same => ?_
  · exact (agree_complain rfl _).andThen fun _ => .pure rfl
  · exact ((objects_complain _ _).bind fun _ => .pure _).needs
  · refine .ite (by rw [kind_eq same]) (fun taken => ?_) fun _ => ?_
    · exact agree_advance.andThen fun _ => .pure (congrArg some (shows t t' same taken))
    · exact (agree_complain (faces_some same) _).andThen fun _ => .pure rfl

theorem agree_demand (kind : Kind) : P.AgreeFrom start id (demand kind) (demand kind) :=
  (agree_expect fun _ _ same _ => same).bind fun _ _ _ => .pure rfl

theorem steady_demand (kind : Kind) : Steady (demand kind) :=
  (agree_demand kind : same.Agree id (demand kind) (demand kind)).moves

theorem needs_demand {f : Unit → Parser β} (steady : Steady (f ())) :
    Needs (demand kind >>= f) := by
  have taking : same.Agree (Option.map id) (expect kind) (expect kind) :=
    agree_expect fun _ _ same _ => same
  have needs : Needs (demand kind) := (needs_expect kind).bind taking.moves fun _ => .pure _
  exact needs.bind (steady_demand kind) fun _ => steady

theorem agree_expect_display (plain : ∀ k, kind ≠ .keyword k) :
    P.AgreeFrom start (Option.map Token.display) (expect kind) (expect kind) :=
  agree_expect fun _ _ same taken => (display_eq same fun k => taken ▸ plain k).symm

theorem agree_expectText (plain : ∀ k, kind ≠ .keyword k) :
    P.AgreeFrom start id (expectText kind) (expectText kind) := by
  refine (agree_expect_display plain).bind fun taken taken' same => ?_
  rcases both_or_none same with ⟨rfl, rfl⟩ | ⟨t, t', rfl, rfl, texts⟩
  · exact .throw _
  · exact .pure texts

theorem agree_expectName : P.AgreeFrom start id expectName expectName :=
  agree_expectText fun _ => Kind.noConfusion

/-! ## Dialects -/

/-- Holding a word against the dialect adds at most a violation, in strict mode only. -/
structure Observes (s t : State) : Prop where
  tokens : t.tokens = s.tokens
  pos : t.pos = s.pos
  strict : t.strict = s.strict
  problems : s.problems <+: t.problems
  complaints : t.complaints = s.complaints
  plain : s.strict = false → t = s

theorem Observes.refl (s : State) : Observes s s :=
  ⟨rfl, rfl, rfl, prefix_rfl, rfl, fun _ => rfl⟩

theorem Observes.rest {s t : State} (h : Observes s t) : t.rest = s.rest := by
  rw [State.rest, State.rest, h.tokens, h.pos]

theorem Observes.moves {s t : State} (h : Observes s t) : Moves s t where
  tokens := h.tokens
  pos := Nat.le_of_eq h.pos.symm
  strict := h.strict
  problems := h.problems
  violations plain := by rw [h.plain plain]
  dialect plain := by rw [h.plain plain]

def Watches (p : Parser Unit) : Prop :=
  ∀ s, ∃ t, p s = .ok () t ∧ Observes s t

theorem observes_foreign {s : State} (strict : s.strict = true) (violation : Violation) :
    Observes s { s with problems := s.problems ++ [.foreign violation] } where
  tokens := rfl
  pos := rfl
  strict := rfl
  problems := prefix_append _ _
  complaints := (filter_append ..).trans (append_nil _)
  plain h := by
    rw [strict] at h
    cases h

theorem watches_checkDialect (t : Token) : Watches (checkDialect t) := by
  intro s
  have unchanged : ∃ u, (pure () : Parser Unit) s = .ok () u ∧ Observes s u := ⟨s, rfl, .refl s⟩
  unfold checkDialect
  rw [get_apply]
  by_cases strict : s.strict = true
  · rw [if_pos strict]
    have noted : ∀ violation, ∃ u, report (.foreign violation) s = .ok () u ∧ Observes s u :=
      fun violation => ⟨_, rfl, observes_foreign strict violation⟩
    cases t.payload with
    | number n => exact unchanged
    | text word =>
      by_cases shared : sharedSlavic.contains word = true
      · simp only [if_pos shared]
        cases s.dialect with
        | none => exact unchanged
        | some d =>
          by_cases slavic : d.isSlavic = true
          · simpa only [if_pos slavic] using unchanged
          · simpa only [if_neg slavic] using noted _
      · simp only [if_neg shared]
        cases Dialect.ofWord? word with
        | none => exact unchanged
        | some origin =>
          cases s.dialect with
          | none =>
            refine ⟨_, rfl, rfl, rfl, rfl, prefix_rfl, rfl, fun plain => ?_⟩
            rw [strict] at plain
            cases plain
          | some d =>
            by_cases own : d = origin
            · simpa only [if_pos own] using unchanged
            · simpa only [if_neg own] using noted _
  · rw [if_neg strict]
    exact unchanged

theorem agree_watching {p q : Parser Unit} (h : Watches p) (h' : Watches q) :
    P.AgreeFrom start id p q where
  moves s := by
    obtain ⟨t, result, observed⟩ := h s
    rw [result]
    exact observed.moves
  locks s s' related _ _ := by
    obtain ⟨t, result, observed⟩ := h s
    obtain ⟨t', result', observed'⟩ := h' s'
    rw [result, result']
    refine .ok rfl ?_ ⟨?_, [], [], ?_, ?_, rfl⟩
    · unfold Related
      rw [observed.rest, observed'.rest]
      exact related
    · rw [observed.pos, observed'.pos, Nat.add_comm]
    · rw [observed.complaints, append_nil]
    · rw [observed'.complaints, append_nil]

theorem AgreeFrom.checked {t t' u u' : Token} {f g : Unit → Parser α}
    (h : P.AgreeFrom (At t t') v (f ()) (g ())) :
    P.AgreeFrom (At t t') v (checkDialect u >>= f) (checkDialect u' >>= g) := by
  have watching : P.AgreeFrom (At t t') id (checkDialect u) (checkDialect u') :=
    agree_watching (watches_checkDialect u) (watches_checkDialect u')
  have stays : ∀ {w : Token} {s a : State}, checkDialect w s = .ok () a → a.token? = s.token? := by
    intro w s a result
    obtain ⟨_, result', observed⟩ := watches_checkDialect w s
    cases result'.symm.trans result
    rw [State.token?_eq, State.token?_eq, observed.rest]
  refine watching.bindFrom (fun s s' _ _ after after' here result result' => ?_) fun _ _ _ => h
  exact ⟨(stays result).trans here.left, (stays result').trans here.right⟩

theorem agree_checkDialect (t t' : Token) :
    P.AgreeFrom start id (checkDialect t) (checkDialect t') :=
  agree_watching (watches_checkDialect t) (watches_checkDialect t')

theorem agree_expectChecked
    (shows : ∀ t t', P.face t = P.face t' → t.kind = kind → seen t = seen t') :
    P.AgreeFrom start (Option.map seen) (expectChecked kind) (expectChecked kind) := by
  refine .peek (agree_expect shows) (fun _ => needs_expect kind) fun t t' same => ?_
  refine .ite (by rw [kind_eq same]) (fun _ => ?_) fun _ => agree_expect shows
  exact (agree_checkDialect t t').andThen fun _ => agree_expect shows

end Pairing

end Hetman.Parser
