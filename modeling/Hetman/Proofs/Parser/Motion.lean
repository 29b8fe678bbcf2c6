import Hetman.Proofs.Parser.Recovery

/-!
# What a reading does to the state

Whatever a parser reads, it goes on in the same tokens and takes back no problem (`Moves`,
`Steady`). So a reading without a complaint has none in its parts. Some parsers complain in any case
(`Objects`) or at the end of the text (`Needs`), some stop there (`Hungry`), and some take so many
tokens (`Spends`).
-/

namespace Hetman.Parser

open List

variable {α β : Type} {p : Parser α} {f : α → Parser β}

variable {more : List Token}

/-! ## The state -/

/-- The problems that do not come from strict mode. -/
def State.complaints (s : State) : List Problem :=
  s.problems.filter (·.violation?.isNone)

theorem State.complaints_note (s : State) (token : Option Token) (what : Complaint) :
    (s.note (.complaint token what)).complaints = s.complaints ++ [.complaint token what] :=
  filter_append ..

theorem State.complaints_note_ne (s : State) (token : Option Token) (what : Complaint) :
    (s.note (.complaint token what)).complaints ≠ s.complaints := by
  rw [complaints_note]
  exact fun same => cons_ne_nil _ _ (append_right_eq_self.mp same)

/-- The state in which a reading ends. -/
def ending : EStateM.Result Stop State α → State
  | .ok _ s => s
  | .error _ s => s

theorem bind_eq_ok {b : β} {s u : State}
    (h : (p >>= f) s = .ok b u) : ∃ a t, p s = .ok a t ∧ f a t = .ok b u := by
  simp only [bind, EStateM.bind] at h
  cases result : p s with
  | ok a t =>
    rw [result] at h
    exact ⟨a, t, rfl, h⟩
  | error stop t =>
    rw [result] at h
    cases h

theorem bind_of_error {stop : Stop} {s t : State}
    (result : p s = .error stop t) : (p >>= f) s = .error stop t := by
  simp only [bind, EStateM.bind, result]

/-- What every parser keeps: it goes on in the tokens, and keeps the mode, the problems so far, and
without strict mode the violations and the dialect. -/
structure Moves (s t : State) : Prop where
  tokens : t.tokens = s.tokens
  pos : s.pos ≤ t.pos
  strict : t.strict = s.strict
  problems : s.problems <+: t.problems
  violations : s.strict = false → t.violations = s.violations
  dialect : s.strict = false → t.dialect = s.dialect

namespace Moves

variable {s t u : State}

theorem refl (s : State) : Moves s s :=
  ⟨rfl, Nat.le_refl _, rfl, prefix_rfl, fun _ => rfl, fun _ => rfl⟩

theorem trans (first : Moves s t) (second : Moves t u) : Moves s u where
  tokens := second.tokens.trans first.tokens
  pos := Nat.le_trans first.pos second.pos
  strict := second.strict.trans first.strict
  problems := first.problems.trans second.problems
  violations plain :=
    (second.violations (first.strict.trans plain)).trans (first.violations plain)
  dialect plain := (second.dialect (first.strict.trans plain)).trans (first.dialect plain)

theorem skip (s : State) (n : Nat) : Moves s (s.skip n) :=
  ⟨rfl, Nat.le_add_right _ _, rfl, prefix_rfl, fun _ => rfl, fun _ => rfl⟩

theorem note (s : State) (token : Option Token) (what : Complaint) :
    Moves s (s.note (.complaint token what)) where
  tokens := rfl
  pos := Nat.le_refl _
  strict := rfl
  problems := prefix_append _ _
  violations _ := filterMap_append.trans (append_nil _)
  dialect _ := rfl

theorem complaints (h : Moves s t) : s.complaints <+: t.complaints :=
  h.problems.filter _

theorem rest (h : Moves s t) : t.rest <:+ s.rest := by
  have later : t.rest = s.rest.drop (t.pos - s.pos) := by
    rw [State.rest, State.rest, h.tokens, drop_drop, Nat.add_sub_cancel' h.pos]
  rw [later]
  exact drop_suffix _ _

/-- Where a reading has nothing to complain about, no part has. -/
theorem clean (first : Moves s t) (second : Moves t u) (same : u.complaints = s.complaints) :
    t.complaints = s.complaints ∧ u.complaints = t.complaints := by
  have back : t.complaints <+: s.complaints := same ▸ second.complaints
  have early := back.eq_of_length_le first.complaints.length_le
  exact ⟨early, same.trans early.symm⟩

theorem problems_eq (h : Moves s t) (plain : s.strict = false)
    (same : t.complaints = s.complaints) : t.problems = s.problems := by
  obtain ⟨new, grown⟩ := h.problems
  have none_noted : t.violations = s.violations := h.violations plain
  unfold State.complaints at same
  unfold State.violations at none_noted
  rw [← grown, filter_append, append_right_eq_self] at same
  rw [← grown, filterMap_append, append_right_eq_self] at none_noted
  cases new with
  | nil => rw [← grown, append_nil]
  | cons problem new =>
    have complaint := filter_eq_nil_iff.mp same problem mem_cons_self
    rw [filterMap_eq_nil_iff.mp none_noted problem mem_cons_self] at complaint
    exact absurd rfl complaint

end Moves

def Steady (p : Parser α) : Prop :=
  ∀ s, Moves s (ending (p s))

namespace Steady

theorem ok {a : α} {s t : State} (h : Steady p) (result : p s = .ok a t) :
    Moves s t := by
  have moved := h s
  rw [result] at moved
  exact moved

theorem pure (a : α) : Steady (pure a) :=
  fun s => .refl s

theorem advance : Steady advance :=
  fun s => .skip s 1

theorem bind (first : Steady p) (second : ∀ a, Steady (f a)) :
    Steady (p >>= f) := by
  intro s
  have moved := first s
  simp only [Bind.bind, EStateM.bind]
  cases result : p s with
  | ok a t =>
    rw [result] at moved
    exact moved.trans (second a t)
  | error stop t =>
    rw [result] at moved
    exact moved

end Steady

/-! ## Complaints that cannot be avoided -/

/-- A parser that complains or stops. -/
def Objects (p : Parser α) : Prop :=
  ∀ s a t, p s = .ok a t → Moves s t ∧ t.complaints ≠ s.complaints

/-- At the end of the text a parser complains, or stops. -/
def Needs (p : Parser α) : Prop :=
  ∀ s a t, s.rest = [] → p s = .ok a t → t.complaints ≠ s.complaints

/-- At the end of the text a parser stops. -/
def Hungry (p : Parser α) : Prop :=
  ∀ s a t, s.rest = [] → p s ≠ .ok a t

theorem Objects.bind (h : Objects p)
    (steady : ∀ a, Steady (f a)) : Objects (p >>= f) := by
  intro s b t result
  obtain ⟨a, u, read, result⟩ := bind_eq_ok result
  obtain ⟨early, differ⟩ := h _ _ _ read
  have late := (steady a).ok result
  exact ⟨early.trans late, fun same => differ (early.clean late same).1⟩

theorem Objects.needs (h : Objects p) : Needs p :=
  fun s a t _ result => (h s a t result).2

theorem objects_report (token : Option Token) (what : Complaint) :
    Objects (report (.complaint token what)) := by
  intro s a t result
  cases result
  exact ⟨.note s token what, s.complaints_note_ne token what⟩

theorem objects_complain (token : Option Token) (what : Complaint) :
    Objects (complain token what) := by
  intro s a t result
  rw [complain_apply] at result
  cases result
  exact ⟨(Moves.note s token what).trans (.skip _ _), s.complaints_note_ne token what⟩

theorem objects_failNode (token : Option Token) (what : Complaint) :
    Objects (failNode token what) :=
  (objects_complain token what).bind fun _ => .pure _

theorem Hungry.bind (h : Hungry p) (f : α → Parser β) : Hungry (p >>= f) := by
  intro s b t none_left result
  obtain ⟨a, u, read, _⟩ := bind_eq_ok result
  exact h s a u none_left read

theorem Hungry.needs (h : Hungry p) : Needs p :=
  fun s a t none_left result => absurd result (h s a t none_left)

theorem Needs.bind (needs : Needs p) (first : Steady p)
    (second : ∀ a, Steady (f a)) : Needs (p >>= f) := by
  intro s b u none_left result same
  obtain ⟨a, t, read, result⟩ := bind_eq_ok result
  exact needs s a t none_left read ((first.ok read).clean ((second a).ok result) same).1

/-- A token is taken if it is of the kind; otherwise there is a complaint. -/
theorem expect_eq_ok {kind : Kind} {s u : State} {taken : Option Token}
    (h : expect kind s = .ok taken u) :
    (∃ t, taken = some t ∧ s.token? = some t ∧ t.kind = kind ∧ u = s.skip 1) ∨
      (taken = none ∧ Moves s u ∧ u.complaints ≠ s.complaints) := by
  rcases expect_cases kind s with ⟨t, here, fits, took⟩ | ⟨_, missed⟩
  · rw [took] at h
    cases h
    exact .inl ⟨t, rfl, here, fits, rfl⟩
  · rw [missed] at h
    cases h
    exact .inr ⟨rfl, (Moves.note s _ _).trans (.skip _ _), s.complaints_note_ne _ _⟩

theorem needs_expect (kind : Kind) : Needs (expect kind) := by
  intro s a u none_left result
  rcases expect_eq_ok result with ⟨t, _, here, _⟩ | ⟨_, _, differ⟩
  · rw [State.token?_eq, none_left] at here
    cases here
  · exact differ

/-! ## How much is taken -/

/-- Without a complaint, a parser takes so many tokens at least. -/
def Spends (n : Nat) (p : Parser α) : Prop :=
  ∀ s a t, p s = .ok a t →
    Moves s t ∧ (t.complaints = s.complaints → t.rest.length + n ≤ s.rest.length)

namespace Spends

variable {m n : Nat}

theorem ofSteady (steady : Steady p) : Spends 0 p := by
  intro s a t result
  have moves := steady.ok result
  exact ⟨moves, fun _ => moves.rest.length_le⟩

theorem bind (first : Spends m p) (second : ∀ a, Spends n (f a)) : Spends (n + m) (p >>= f) := by
  intro s b t result
  obtain ⟨a, u, read, result⟩ := bind_eq_ok result
  obtain ⟨early, taken⟩ := first s a u read
  obtain ⟨late, more⟩ := second a u b t result
  refine ⟨early.trans late, fun same => ?_⟩
  obtain ⟨sameEarly, sameLate⟩ := early.clean late same
  have := taken sameEarly
  have := more sameLate
  omega

theorem after (steady : Steady p) (second : ∀ a, Spends n (f a)) : Spends n (p >>= f) :=
  (ofSteady steady).bind second

theorem expect (kind : Kind) : Spends 1 (expect kind) := by
  intro s a t result
  rcases expect_eq_ok result with ⟨w, _, here, _, rfl⟩ | ⟨_, moves, differ⟩
  · refine ⟨.skip s 1, fun _ => ?_⟩
    rw [State.rest_skip, State.rest_eq_cons here]
    exact Nat.le_refl _
  · exact ⟨moves, fun same => absurd same differ⟩

theorem demand (kind : Kind) : Spends 1 (demand kind) :=
  (expect kind).bind fun _ => .ofSteady (.pure _)

theorem expectName : Spends 1 expectName := by
  refine .bind (n := 0) (expect .ident) fun taken => ?_
  cases taken with
  | none =>
    intro s a t result
    cases result
  | some t => exact .ofSteady (.pure _)

end Spends

/-! ## Texts that come after others -/

/-- The text does not begin with such a token. -/
def Idle (test : Token → Bool) (more : List Token) : Prop :=
  ∀ t, more.head? = some t → test t = false

/-- The kinds of tokens with which an expression goes on. -/
def prolongs : Kind → Bool
  | .op | .lparen | .lbracket | .dot | .comma => true
  | _ => false

def Apart (more : List Token) : Prop :=
  ∀ t, more.head? = some t →
    prolongs t.kind = false ∧ t.hasText "&&" = false ∧ t.hasText "||" = false

theorem apart_nil : Apart [] := by
  intro t first
  cases first

theorem Apart.kind (apart : Apart more) {kind : Kind} (goes : prolongs kind = true) :
    Idle (fun t => t.kind = kind) more := by
  intro t first
  refine decide_eq_false fun same => ?_
  have other := (apart t first).1
  rw [same, goes] at other
  cases other

theorem Apart.isOpAmong (apart : Apart more) (ops : List String) : Idle (isOpAmong ops) more := by
  intro t first
  have idle : Idle (fun t => t.kind = .op) more := apart.kind rfl
  have other : decide (t.kind = .op) = false := idle t first
  unfold Parser.isOpAmong
  rw [other]
  rfl

/-- The kinds that a statement begins with, or that stand between statements. -/
def beginsStatement : Kind → Bool
  | .ident | .semicolon | .rbrace => true
  | .keyword k =>
    [.intType, .textType, .boolType, .floatType, .ifBranch, .whileLoop, .forLoop, .function,
      .tryBlock, .throw, .exit, .importFile, .super, .this, .print, .ret, .classDef].contains k
  | _ => false

/-- No expression and no statement goes on with the text. -/
def Detached (more : List Token) : Prop :=
  ∀ t, more.head? = some t →
    beginsStatement t.kind = true ∧ t.hasText "&&" = false ∧ t.hasText "||" = false

theorem Detached.kind (detached : Detached more) {kind : Kind}
    (other : beginsStatement kind = false) : Idle (fun t => t.kind = kind) more := by
  intro t first
  refine decide_eq_false fun same => ?_
  have begins := (detached t first).1
  rw [same, other] at begins
  cases begins

theorem Detached.apart (detached : Detached more) : Apart more := by
  intro t first
  obtain ⟨begins, texts⟩ := detached t first
  refine ⟨?_, texts⟩
  cases kind : t.kind with
  | op | lparen | lbracket | dot | comma =>
    rw [kind] at begins
    cases begins
  | _ => rfl

end Hetman.Parser
