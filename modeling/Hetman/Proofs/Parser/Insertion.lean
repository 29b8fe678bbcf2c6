import Hetman.Proofs.Parser.Concatenation
import Hetman.Proofs.Parser.Literals
import Mathlib.Data.List.Infix

/-!
# Readings with a semicolon more

`Weaves back extra P Q start p q` compares the parser `p` in a text that goes on with `back` with
the parser `q` in the same text with a semicolon `extra` inserted before `back`. `P` and `Q` say
which tokens may be left in front of the place of insertion at the beginning and at the end: the
readings are at the place itself only where a statement may begin.

A semicolon in the head of a loop or in a class is not followed by a statement; that is what
`reserved` tells from the tokens before it. And a reading that finds its closing bracket at the
place is lost with the semicolon before it.
-/

namespace Hetman.Parser

open List

variable {α β : Type} {s' : State}

variable {test : Token → Bool} {line : List Token} {again : Parser Bool}

/-! ## Semicolons that end no statement -/

/-- A semicolon after these tokens ends no statement: they begin the head of a loop with a counter,
or are friends of a class, or the type and name of a field. -/
def reserves : List Token → Bool
  | [] => false
  | first :: rest =>
    match first.kind with
    | .keyword .forLoop => rest.head?.map (·.kind) = some .lparen
    | .keyword .friend | .keyword .friendClass => true
    | kind => isTypeKind kind && rest.map (·.kind) = [.ident]

/-- The tokens end with such a line. -/
def reserved (front : List Token) : Bool :=
  front.tails.any fun line => line.all (fun t => t.kind ≠ .semicolon) && reserves line

theorem reserved_of_suffix {front : List Token} (suffix : line <:+ front) (h : reserved line = true) :
    reserved front = true := by
  obtain ⟨tail, member, holds⟩ := any_eq_true.mp h
  refine any_eq_true.mpr ⟨tail, ?_, holds⟩
  exact (mem_tails _ _).mpr (((mem_tails _ _).mp member).trans suffix)

/-- A line without a semicolon, after which one is reserved. -/
def ReservedLine (used : List Token) : Prop :=
  (∀ t ∈ used, t.kind ≠ .semicolon) ∧ reserves used = true

theorem ReservedLine.reserved (h : ReservedLine line) : reserved line = true := by
  refine any_eq_true.mpr ⟨line, (mem_tails _ _).mpr suffix_rfl, ?_⟩
  rw [h.2, Bool.and_true, all_eq_true]
  exact fun t member => decide_eq_true (h.1 t member)

/-- The tokens end with a semicolon, after which a statement may begin. -/
def Ended (front : List Token) : Prop :=
  ∃ line last, front = line ++ [last] ∧ last.kind = .semicolon ∧ reserved line = false

/-- Either nothing is left, or it ends with a semicolon. -/
def Loose (front : List Token) : Prop :=
  front = [] ∨ Ended front

/-- More than the last semicolon is left. -/
def Long (front : List Token) : Prop :=
  Ended front ∧ 2 ≤ front.length

namespace Ended

variable {front used left : List Token}

theorem ne_nil (h : Ended front) : front ≠ [] := by
  obtain ⟨line, last, rfl, _⟩ := h
  exact append_ne_nil_of_right_ne_nil _ (cons_ne_nil _ _)

theorem suffix (h : Ended front) (suffix : left <:+ front) (some_left : left ≠ []) :
    Ended left := by
  obtain ⟨line, last, rfl, isLast, free⟩ := h
  obtain ⟨used, parts⟩ := suffix
  obtain ⟨init, final, rfl⟩ := (eq_nil_or_concat' left).resolve_left some_left
  rw [← append_assoc] at parts
  obtain ⟨same, rfl⟩ := append_inj' parts rfl |>.imp_right singleton_inj.mp
  refine ⟨init, final, rfl, isLast, Bool.eq_false_iff.mpr fun holds => ?_⟩
  rw [← same, reserved_of_suffix (suffix_append used init) holds] at free
  cases free

/-- Tokens without a semicolon do not reach the end. -/
theorem split (h : Ended front) {back rest : List Token}
    (unended : ∀ t ∈ used, t.kind ≠ .semicolon) (parts : front ++ back = used ++ rest) :
    ∃ left, front = used ++ left ∧ rest = left ++ back ∧ Ended left := by
  have ended := h
  obtain ⟨line, last, rfl, isLast, _⟩ := h
  rcases append_eq_append_iff.mp parts with ⟨more, rfl, _⟩ | ⟨left, whole, rfl⟩
  · exact absurd isLast (unended last (by simp))
  · refine ⟨left, whole, rfl, ended.suffix ⟨used, whole.symm⟩ ?_⟩
    rintro rfl
    refine unended last ?_ isLast
    rw [append_nil] at whole
    exact whole ▸ mem_append_right _ mem_cons_self

end Ended

/-! ## Side by side -/

/-- The text goes on with a bracket that closes something. -/
def Shut (back : List Token) : Prop :=
  ∃ t, back.head? = some t ∧ (t.kind = .rbrace ∨ t.kind = .rparen)

/-- How `q` ends where the other parser gave `a` and ended in `t`: before the place, past it, or the
first reading went past a closing bracket there. -/
inductive Follows (back : List Token) (extra : Token) (Q : List Token → Prop) (q : Parser α)
    (s' : State) (a : α) (t : State) : Prop
  | before {front : List Token} {t' : State} (result : q s' = .ok a t')
      (same : t'.complaints = s'.complaints) (beside : Beside back (extra :: back) front t t')
      (within : Q front)
  | past {t' : State} (result : q s' = .ok a t') (same : t'.complaints = s'.complaints)
      (beside : Beside [] [] t.rest t t')
  | lost (shut : Shut back) (short : t.rest.length < back.length)

/-- What `p` reads without a complaint from `start`, `q` reads with a semicolon inserted before
`back`; and from the same tokens both read the same. -/
structure Weaves (back : List Token) (extra : Token) (P Q : List Token → Prop)
    (start : State → Prop) (p q : Parser α) : Prop where
  late : Pairing.together.Agree id p q
  weaves : ∀ {front s s' a t}, Beside back (extra :: back) front s s' → P front → start s →
    p s = .ok a t → t.complaints = s.complaints → Follows back extra Q q s' a t

abbrev Threads (back : List Token) (extra : Token) (start : State → Prop) (p q : Parser α) : Prop :=
  Weaves back extra Ended Ended start p q

/-- What follows does not show, and nothing has to follow. -/
def Blind (p q : Parser α) : Prop :=
  ∀ (old more : List Token) (whole : Prop) (room : old.length ≤ more.length)
    (apart : whole → Apart more), (whole → more = []) →
    (Pairing.following old more whole room apart).Agree id p q

/-- The parser takes no semicolon. -/
def Calm (start : State → Prop) (p : Parser α) : Prop :=
  Takes start p fun used _ => ∀ t ∈ used, t.kind ≠ .semicolon

variable {q : Parser α} {g g' : Bool → Parser β} {body body' : α → Parser α}

theorem Blind.late {p : Parser α} (h : Blind p q) : Pairing.together.Agree id p q :=
  h [] [] True Pairing.room_for_nothing Pairing.apart_of_nothing fun _ => rfl

theorem Blind.inserted {p : Parser α} (h : Blind p q) (back : List Token) (extra : Token) :
    (Pairing.following back (extra :: back) False (Nat.le_succ _) False.elim).Agree id p q :=
  h back (extra :: back) False (Nat.le_succ _) False.elim False.elim

theorem read_together {p : Parser α} {s t : State} {a : α} (h : Pairing.together.Agree id p q)
    (beside : Beside [] [] s.rest s s') (result : p s = .ok a t)
    (same : t.complaints = s.complaints) :
    ∃ t', q s' = .ok a t' ∧ Beside [] [] t.rest t t' ∧ t'.complaints = s'.complaints := by
  obtain ⟨t', left, result', beside', same'⟩ := Pairing.follow h beside trivial result same
    (.inr ⟨trivial, rfl, fun more => absurd rfl more⟩)
  have all_left : t.rest = left := beside'.rest.trans (append_nil _)
  exact ⟨t', result', all_left ▸ beside', same'⟩

theorem Moves.rest_eq {s t : State} (h : Moves s t) : s.rest = s.readTo t ++ t.rest := by
  have later : t.rest = s.rest.drop (t.pos - s.pos) := by
    rw [State.rest, State.rest, h.tokens, drop_drop, Nat.add_sub_cancel' h.pos]
  rw [State.readTo, later, take_append_drop]

namespace Follows

variable {back : List Token} {extra : Token} {P Q : List Token → Prop} {p : Parser α}
  {f : α → Parser β} {s' u' t : State} {a : α} {b : β}

theorem mono (h : Follows back extra P p s' a t) (weaker : ∀ front, P front → Q front) :
    Follows back extra Q p s' a t := by
  cases h with
  | before result same beside within => exact .before result same beside (weaker _ within)
  | past result same beside => exact .past result same beside
  | lost shut short => exact .lost shut short

theorem moved (h : Follows back extra Q p u' a t) (equal : q s' = p u')
    (same : u'.complaints = s'.complaints) : Follows back extra Q q s' a t := by
  cases h with
  | before result same' beside within =>
    exact .before (equal.trans result) (same'.trans same) beside within
  | past result same' beside => exact .past (equal.trans result) (same'.trans same) beside
  | lost shut short => exact .lost shut short

theorem after (h : Follows back extra Q (f a) u' b t) (read : p s' = .ok a u')
    (same : u'.complaints = s'.complaints) : Follows back extra Q (p >>= f) s' b t :=
  h.moved (bind_apply read) same

end Follows

namespace Weaves

variable {back : List Token} {extra : Token} {P P' Q Q' R : List Token → Prop}
  {start : State → Prop} {p p' : Parser α} {f f' : α → Parser β} {w : Token}

theorem mono (h : Weaves back extra P Q start p p') (fewer : ∀ front, P' front → P front)
    (more : ∀ front, Q front → Q' front) : Weaves back extra P' Q' start p p' :=
  ⟨h.late, fun beside within starts result same =>
    (h.weaves beside (fewer _ within) starts result same).mono more⟩

theorem loosen (h : Weaves back extra P Ended start p p') :
    Weaves back extra P Loose start p p' :=
  h.mono (fun _ => id) fun _ => .inr

theorem anywhere (h : Weaves back extra P Q Anywhere p p') : Weaves back extra P Q start p p' :=
  ⟨h.late, fun beside within _ => h.weaves beside within trivial⟩

theorem pure (a : α) : Weaves back extra P P start (pure a) (pure a) where
  late := .pure rfl
  weaves := by
    intro front s s' b t beside within _ result _
    cases result
    exact .before rfl rfl beside within

theorem objects (h : Objects p) (steady : Steady p) : Weaves back extra P Q start p q where
  late := .objects h steady False.elim
  weaves _ _ _ result same := absurd same (h _ _ _ result).2

theorem complains {token : Option Token} {what : Complaint} {g : Unit → Parser α}
    (steady : ∀ a, Steady (g a)) : Weaves back extra P Q start (complain token what >>= g) q :=
  .objects ((objects_complain token what).bind steady)
    ((Pairing.steady_complain token what).bind steady)

theorem failNode (token : Option Token) (what : Complaint) {q : Parser Node} :
    Weaves back extra P Q start (failNode token what) q :=
  complains fun _ => .pure _

theorem bind (first : Weaves back extra P Q start p p')
    (second : ∀ a, Weaves back extra Q R Anywhere (f a) (f' a)) :
    Weaves back extra P R start (p >>= f) (p' >>= f') where
  late := first.late.andThen fun a => (second a).late
  weaves := by
    intro front s s' b t beside within starts result same
    obtain ⟨a, u, read, result⟩ := bind_eq_ok result
    have early := first.late.moves.ok read
    have late := (second a).late.moves.ok result
    obtain ⟨sameEarly, sameLate⟩ := early.clean late same
    cases first.weaves beside within starts read sameEarly with
    | before read' same' beside' within' =>
      exact ((second a).weaves beside' within' trivial result sameLate).after read' same'
    | past read' same' beside' =>
      obtain ⟨t', result', last, same''⟩ := read_together (second a).late beside' result sameLate
      exact .past ((bind_apply read').trans result') (same''.trans same') last
    | lost shut short => exact .lost shut (Nat.lt_of_le_of_lt late.rest.length_le short)

theorem checked {word : Token} {g g' : Unit → Parser β}
    (h : Weaves back extra P Q (At w) (g ()) (g' ())) :
    Weaves back extra P Q (At w) (checkDialect word >>= g) (checkDialect word >>= g') where
  late := (Pairing.agree_checkDialect word word).andThen fun _ => h.late
  weaves := by
    intro front s s' b t beside within here result same
    obtain ⟨u, looked, observed⟩ := Pairing.watches_checkDialect word s
    obtain ⟨u', looked', observed'⟩ := Pairing.watches_checkDialect word s'
    rw [bind_apply looked] at result
    have beside' : Beside back (extra :: back) front u u' :=
      ⟨observed.rest.trans beside.rest, observed'.rest.trans beside.rest'⟩
    have here' : At w u := by
      rw [At, State.token?_eq, observed.rest, ← State.token?_eq]
      exact here
    exact (h.weaves beside' within here' result (same.trans observed.complaints.symm)).after looked'
      observed'.complaints

theorem ite {c : Prop} [Decidable c] {q' : Parser α} (yes : c → Weaves back extra P Q start p p')
    (no : ¬c → Weaves back extra P Q start q q') :
    Weaves back extra P Q start (if c then p else q) (if c then p' else q') := by
  by_cases holds : c
  · simp only [if_pos holds]
    exact yes holds
  · simp only [if_neg holds]
    exact no holds

theorem calm (blind : Blind p p') (calm : Calm start p) :
    Threads back extra start p p' where
  late := blind.late
  weaves := by
    intro front s s' a t beside ended starts result same
    obtain ⟨moved, taken⟩ := calm s a t starts result
    have unended := taken same
    have parts := moved.rest_eq
    rw [beside.rest] at parts
    obtain ⟨left, _, rest, ended'⟩ := ended.split unended parts
    have within : back.length < t.rest.length := by
      have some_left := length_pos_of_ne_nil ended'.ne_nil
      rw [rest, length_append]
      omega
    obtain ⟨t', left', result', beside', same'⟩ :=
      Pairing.follow (blind.inserted back extra) beside trivial result same (.inl within)
    exact .before result' same' beside' (beside'.left_eq rest ▸ ended')

theorem reserving (h : Threads back extra start p p')
    (line : Takes start p fun used _ => ReservedLine used) :
    Weaves back extra Ended Long start p p' where
  late := h.late
  weaves := by
    intro front s s' a t beside ended starts result same
    obtain ⟨moved, taken⟩ := line s a t starts result
    have reservedLine := taken same
    have parts := moved.rest_eq
    rw [beside.rest] at parts
    obtain ⟨left, whole, rest, ended'⟩ := ended.split reservedLine.1 parts
    -- If only the last semicolon were left, what was taken would be the line before it.
    have long : 2 ≤ left.length := by
      obtain ⟨init, last, rfl, isLast, free⟩ := ended
      obtain ⟨init', last', rfl, _⟩ := ended'
      rcases init' with _ | ⟨first, init'⟩
      · obtain ⟨rfl, _⟩ := append_inj' whole rfl
        rw [reservedLine.reserved] at free
        cases free
      · simp
    cases h.weaves beside ended starts result same with
    | before result' same' beside' within =>
      rw [beside'.left_eq rest] at long
      exact .before result' same' beside' ⟨within, long⟩
    | past result' same' beside' => exact .past result' same' beside'
    | lost shut short =>
      rw [rest, length_append] at short
      omega

/-! ### Single tokens -/

theorem token_eq {front : List Token} {s : State} (ended : Ended front)
    (beside : Beside back (extra :: back) front s s') :
    ∃ t, s.token? = some t ∧ s'.token? = some t := by
  obtain ⟨t, rest, rfl⟩ := exists_cons_of_ne_nil ended.ne_nil
  have here : s.token? = some t := by rw [State.token?_eq, beside.rest]; rfl
  exact ⟨t, here, (beside.head? ended.ne_nil).trans here⟩

theorem peek {g g' : Option Token → Parser β}
    (absent : Pairing.together.Agree id (g none) (g' none))
    (found : ∀ t, Weaves back extra Ended Q (At t) (g (some t)) (g' (some t))) :
    Weaves back extra Ended Q start (peek >>= g) (Parser.peek >>= g') where
  late := by
    refine .peek absent (fun opened => absurd opened Pairing.together_shut) fun t t' same => ?_
    cases same
    exact (found t).late.everywhere
  weaves := by
    intro front s s' b t beside ended _ result same
    obtain ⟨first, here, here'⟩ := token_eq ended beside
    rw [bind_apply (peek_apply s), here] at result
    have looked : Parser.peek s' = .ok (some first) s' := by rw [peek_apply, here']
    exact ((found first).weaves beside ended here result same).after looked rfl

theorem peekSome {g g' : Option Token → Parser β} {stop : Stop} (absent : g none = throw stop)
    (found : ∀ t, Weaves back extra Ended Q (At t) (g (some t)) (g' (some t))) :
    Weaves back extra Ended Q start (Parser.peek >>= g) (Parser.peek >>= g') := by
  refine .peek ?_ found
  rw [absent]
  exact .stops False.elim

theorem late_asked (asks : Asks test again) (blind : Blind again again)
    (answers : ∀ s c, again s = .ok c s → Pairing.together.Agree id (g c) (g' c)) :
    Pairing.together.Agree id (again >>= g) (again >>= g') := by
  have steady : Steady (again >>= g) := by
    intro s
    rcases asks s with ⟨c, answer, _⟩ | ⟨stopped, _⟩
    · rw [bind_apply answer]
      exact (answers s c answer).moves s
    · rw [bind_of_error stopped]
      exact .refl s
  refine ⟨steady, fun s s' related _ counts => ?_⟩
  have stays : ending (again s) = s := by
    rcases asks s with ⟨c, answer, _⟩ | ⟨stopped, _⟩
    · rw [answer]
      rfl
    · rw [stopped]
      rfl
  have asked := blind.late.locks s s' related trivial
    (by rw [stays]; exact ⟨fun _ => rfl, counts.within.back (steady s)⟩)
  refine asked.bind fun c c' t t' answer _ same after => ?_
  cases same
  obtain ⟨rfl, _⟩ := asks.eq_ok answer
  rw [bind_apply answer] at counts
  exact (answers t c answer).locks t t' after trivial counts

theorem asked (asks : Asks test again) (blind : Blind again again)
    (yes : ∀ t, test t = true → Weaves back extra Ended Q (At t) (g true) (g' true))
    (no : Weaves back extra Ended Q Anywhere (g false) (g' false)) :
    Weaves back extra Ended Q start (again >>= g) (again >>= g') where
  late := by
    refine late_asked asks blind fun s c answer => ?_
    cases c with
    | false => exact no.late
    | true =>
      obtain ⟨t, _, passed⟩ := (asks.eq_ok answer).2 rfl
      exact (yes t passed).late
  weaves := by
    intro front s s' b u beside ended _ result same
    obtain ⟨c, v, answer, result⟩ := bind_eq_ok result
    obtain ⟨rfl, passes⟩ := asks.eq_ok answer
    have within : back.length < v.rest.length := by
      have some_left := length_pos_of_ne_nil ended.ne_nil
      rw [beside.rest, length_append]
      omega
    obtain ⟨s'', left, answer', beside', same'⟩ :=
      Pairing.follow (blind.inserted back extra) beside trivial answer rfl (.inl within)
    rw [← beside'.left_eq beside.rest] at beside'
    cases c with
    | false => exact (no.weaves beside' ended trivial result same).after answer' same'
    | true =>
      obtain ⟨t, here, passed⟩ := passes rfl
      exact ((yes t passed).weaves beside' ended here result same).after answer' same'

end Weaves

theorem blind_nextIs (test : Token → Bool) : Blind (nextIs test) (nextIs test) := by
  intro old more whole room apart closed
  refine Pairing.agree_nextIs (fun t t' same => congrArg test (Eq.symm same)) fun opened => ?_
  exact absurd (closed opened.1) opened.2

namespace Weaves

variable {back : List Token} {extra : Token} {Q : List Token → Prop}
  {start : State → Prop} {w : Token}

variable {kind : Kind} {s t : State} {a : Unit} {again : α → Parser Bool}

theorem ifNext (yes : ∀ t, test t = true → Weaves back extra Ended Q (At t) (g true) (g' true))
    (no : Weaves back extra Ended Q Anywhere (g false) (g' false)) :
    Weaves back extra Ended Q start (nextIs test >>= g) (nextIs test >>= g') :=
  .asked (asks_nextIs test) (blind_nextIs test) yes no

theorem nextKind : Threads back extra start nextKind nextKind :=
  .peekSome rfl fun _ => .pure _

theorem advance (other : w.kind ≠ .semicolon) :
    Threads back extra (At w) advance advance := by
  refine .calm (fun _ _ _ _ _ _ => Pairing.agree_advance) (Takes.advance.mono ?_)
  rintro _ _ rfl
  exact forall_mem_singleton.mpr other

theorem advanceKind (is : decide (w.kind = kind) = true) (other : kind ≠ .semicolon) :
    Threads back extra (At w) Parser.advance Parser.advance :=
  .advance (of_decide_eq_true is ▸ other)

/-! ### Asking for tokens -/

theorem unended_of_kind (other : kind ≠ .semicolon) {used : List Token}
    (one : ∃ t, t.kind = kind ∧ used = [t]) : ∀ t ∈ used, t.kind ≠ .semicolon := by
  obtain ⟨t, is, rfl⟩ := one
  exact forall_mem_singleton.mpr (is ▸ other)

theorem expect (kind : Kind) (other : kind ≠ .semicolon) :
    Threads back extra start (expect kind) (expect kind) := by
  have blind : Blind (Parser.expect kind) (Parser.expect kind) := by
    intro old more whole room apart _
    have shows : (Pairing.following old more whole room apart).Agree (Option.map id)
        (Parser.expect kind) (Parser.expect kind) := Pairing.agree_expect fun _ _ same _ => same
    exact shows.view fun a b same => by rwa [Option.map_id] at same
  refine .calm blind ((Takes.expect kind).mono ?_)
  rintro used _ ⟨t, is, taken, _⟩
  exact unended_of_kind other ⟨t, is, taken⟩

theorem demand (kind : Kind) (other : kind ≠ .semicolon) :
    Threads back extra start (demand kind) (demand kind) :=
  .calm (fun _ _ _ _ _ _ => Pairing.agree_demand kind)
    ((Takes.demand kind).mono fun _ _ => unended_of_kind other)

theorem mark {g g' : Unit → Parser β} (other : kind ≠ .semicolon)
    (next : Weaves back extra Ended Q Anywhere (g ()) (g' ())) :
    Weaves back extra Ended Q start (Parser.demand kind >>= g) (Parser.demand kind >>= g') :=
  (demand kind other).bind fun _ => next

theorem word {k : Keyword} {g g' : Unit → Parser β}
    (next : Weaves back extra Ended Q Anywhere (g ()) (g' ())) :
    Weaves back extra Ended Q start (Parser.demand (.keyword k) >>= g)
      (Parser.demand (.keyword k) >>= g') :=
  mark nofun next

theorem expectName : Threads back extra start expectName expectName := by
  refine .calm (fun _ _ _ _ _ _ => Pairing.agree_expectName)
    ((Takes.expectText .ident).mono fun used _ => ?_)
  exact unended_of_kind fun same => Kind.noConfusion same

theorem demand_found (result : Parser.demand kind s = .ok a t) (same : t.complaints = s.complaints) :
    ∃ first, s.token? = some first ∧ first.kind = kind ∧ t = s.skip 1 := by
  obtain ⟨taken, u, took, stay⟩ := bind_eq_ok result
  cases stay
  rcases expect_eq_ok took with ⟨first, _, here, is, rfl⟩ | ⟨_, _, differ⟩
  · exact ⟨first, here, is, rfl⟩
  · exact absurd same differ

/-- After a semicolon a statement may begin, also at the place of insertion. -/
theorem semicolon :
    Weaves back extra Ended Loose start (Parser.demand .semicolon) (Parser.demand .semicolon) where
  late := Pairing.agree_demand .semicolon
  weaves := by
    intro front s s' a t beside ended _ result same
    obtain ⟨first, here, is, rfl⟩ := demand_found result same
    have positive := length_pos_of_ne_nil ended.ne_nil
    have here' := (beside.head? ended.ne_nil).trans here
    have took : Parser.demand .semicolon s' = .ok () (s'.skip 1) :=
      bind_apply (expect_found here' is)
    refine .before took rfl (beside.skip positive) ?_
    by_cases none_left : front.drop 1 = []
    · exact .inl none_left
    · exact .inr (ended.suffix (drop_suffix 1 front) none_left)

/-- A semicolon that is not the last one. -/
theorem reservedSemicolon :
    Weaves back extra Long Ended start (Parser.demand .semicolon) (Parser.demand .semicolon) where
  late := Pairing.agree_demand .semicolon
  weaves := by
    intro front s s' a t beside within starts result same
    obtain ⟨ended, long⟩ := within
    obtain ⟨first, _, _, rfl⟩ := demand_found result same
    have rest := (beside.skip (Nat.le_of_succ_le long)).rest
    have some_left : front.drop 1 ≠ [] := by
      intro none_left
      have short := congrArg List.length none_left
      rw [length_drop, length_nil] at short
      omega
    cases semicolon.weaves beside ended starts result same with
    | before result' same' beside' within =>
      rw [← beside'.left_eq rest] at within beside'
      exact .before result' same' beside' (within.resolve_left some_left)
    | past result' same' beside' => exact .past result' same' beside'
    | lost shut short =>
      rw [rest, length_append] at short
      omega

/-- A bracket that is found at the place of insertion. -/
theorem shut_of_close (closes : kind = .rbrace ∨ kind = .rparen)
    (beside : Beside back (extra :: back) [] s s') (result : Parser.demand kind s = .ok a t)
    (same : t.complaints = s.complaints) : Shut back ∧ t.rest.length < back.length := by
  obtain ⟨first, here, is, rfl⟩ := demand_found result same
  rw [State.token?_eq, beside.rest, nil_append] at here
  refine ⟨⟨first, here, is ▸ closes⟩, ?_⟩
  have positive := length_pos_of_mem (mem_of_mem_head? here)
  rw [State.rest_skip, beside.rest, nil_append, length_drop]
  omega

theorem close (closes : kind = .rbrace ∨ kind = .rparen) :
    Weaves back extra Loose Ended start (Parser.demand kind) (Parser.demand kind) where
  late := Pairing.agree_demand kind
  weaves := by
    intro front s s' a t beside loose starts result same
    rcases loose with rfl | ended
    · obtain ⟨shut, short⟩ := shut_of_close closes beside result same
      exact .lost shut short
    · have other : kind ≠ .semicolon := by rcases closes with rfl | rfl <;> exact nofun
      exact (demand kind other).weaves beside ended starts result same

/-! ### Loops -/

/-- A parser that is given the number of tokens left. -/
theorem given {g g' : Nat → Parser α} {P : List Token → Prop}
    (h : ∀ {n m}, n ≤ m → Weaves back extra P Q start (g n) (g' m)) :
    Weaves back extra P Q start (do g (← get).remaining) (do g' (← get).remaining) where
  late := .remaining fun levels => (h levels.1).late
  weaves := by
    intro front s s' a t beside within starts result same
    have given : (get : Parser State) s' = .ok s' s' := rfl
    exact ((h (beside.remaining_le (Nat.le_succ _))).weaves beside within starts result same).after
      (f := fun now : State => g' now.remaining) given rfl

theorem repeatWhile (asks : ∀ a, Asks test (again a)) (blind : ∀ a, Blind (again a) (again a))
    (rounds : ∀ a t, test t = true → Threads back extra (At t) (body a) (body' a))
    {n m : Nat} (le : n ≤ m) (a : α) :
    Threads back extra start (repeatWhile again body n a)
      (repeatWhile again body' m a) := by
  induction n generalizing m a start with
  | zero => exact ⟨.stops False.elim, fun _ _ _ result => nomatch result⟩
  | succ n ih =>
    cases m with
    | zero => omega
    | succ m =>
      refine .asked (asks a) (blind a) (fun t passes => ?_) (.pure a)
      exact (rounds a t passes).bind fun b => ih (by omega) b

theorem loop (asks : ∀ a, Asks test (again a)) (blind : ∀ a, Blind (again a) (again a))
    (rounds : ∀ a t, test t = true → Threads back extra (At t) (body a) (body' a))
    (a : α) : Threads back extra start (loop again body a) (loop again body' a) :=
  .given fun le => .repeatWhile asks blind rounds (Nat.succ_le_succ le) a

theorem loopNext
    (rounds : ∀ a t, test t = true → Threads back extra (At t) (body a) (body' a))
    (a : α) :
    Threads back extra start (Parser.loop (fun _ => nextIs test) body a)
      (Parser.loop (fun _ => nextIs test) body' a) :=
  .loop (fun _ => asks_nextIs test) (fun _ => blind_nextIs test) rounds a

end Weaves

end Hetman.Parser
