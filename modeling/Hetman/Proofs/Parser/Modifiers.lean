import Hetman.Proofs.Parser.Literals
import Hetman.Proofs.Parser.Outcomes

/-!
# Modifiers in front of methods

A method is defined in a text if its tokens stand there, and its access is what the token in front
of them says: the access of a modifier, or else public (`Defined`). In a text without complaints
every method of every class is (`told_of_parse`). For a member ends with a brace or a semicolon, so
that no modifier is left over for the next one (`takes_memberRound`).
-/

namespace Hetman.Parser

open List Node

variable {α β : Type} {start : State → Prop} {test : Token → Bool} {t : Token} {n : Nat}

/-! ## Definitions in a text -/

/-- The access that the token in front of a definition gives to it. -/
def accessAfter (before : Token) : Access :=
  (accessOf? before.kind).getD .publicAccess

/-- These tokens are read as a function. -/
def Definition (tokens : List Token) (routine : Routine Node) : Prop :=
  ∃ (fuel : Nat) (s t : State), s.readTo t = tokens ∧ t.complaints = s.complaints ∧
    routineOver (statementAt fuel true) routine.access s = .ok routine t

/-- A function is defined in a text, with the access that is written in front of the definition. -/
def Defined (text : List Token) (routine : Routine Node) : Prop :=
  ∃ before definition, before :: definition <:+: text ∧ Definition definition routine ∧
    routine.access = accessAfter before

/-- The methods of a class are defined in a text. The constructor has a word of its own. -/
def DefinedIn (text : List Token) (decl : ClassDecl Node) : Prop :=
  ∀ name routine, Bindings.get? decl.methods name = some routine → name ≠ "Tvir" →
    routine.name = name ∧ Defined text routine

/-- So are those of all classes in a node. -/
abbrev Told (text : List Token) (node : Node) : Prop :=
  node.EveryClass (DefinedIn text)

abbrev ToldAll (text : List Token) (nodes : List Node) : Prop :=
  ∀ node ∈ nodes, Told text node

/-- The tokens do not end with a modifier. -/
def Closes (used : List Token) : Prop :=
  ∃ front last, used = front ++ [last] ∧ accessOf? last.kind = none

theorem Closes.append {used : List Token} (h : Closes used) (front : List Token) :
    Closes (front ++ used) := by
  obtain ⟨inner, last, rfl, plain⟩ := h
  exact ⟨front ++ inner, last, (append_assoc ..).symm, plain⟩

/-! ## What is read from a text -/

/-- Whatever text the tokens of a reading without complaints stand in, the result fits it. -/
abbrev Tells (start : State → Prop) (p : Parser α) (Q : List Token → α → Prop) : Prop :=
  Takes start p fun used a => ∀ text, used <:+: text → Q text a

theorem Takes.of_steady {p : Parser α} {Q : List Token → α → Prop} (steady : Steady p)
    (gives : ∀ s a t, start s → p s = .ok a t → t.complaints = s.complaints → Q (s.readTo t) a) :
    Takes start p Q :=
  fun s a t starts read => ⟨steady.ok read, gives s a t starts read⟩

/-- Nothing is said of what is taken. -/
theorem Takes.steady {p : Parser α} (h : Steady p) : Takes start p fun _ _ => True :=
  .of_steady h fun _ _ _ _ _ _ => trivial

theorem Takes.watching {p : Parser Unit} (h : Pairing.Watches p) :
    Takes start p fun _ _ => True := by
  intro s a t _ read
  obtain ⟨u, watched, observed⟩ := h s
  cases watched.symm.trans read
  exact ⟨observed.moves, fun _ => trivial⟩

theorem Takes.objects {p : Parser α} {Q : List Token → α → Prop} (h : Objects p) :
    Takes start p Q :=
  fun s a t _ read => ⟨(h s a t read).1, fun clean => absurd clean (h s a t read).2⟩

theorem Takes.self {p : Parser α} {P : List Token → α → Prop} (h : Takes start p P) :
    Takes start p fun used a => P used a ∧
      ∃ s t, s.readTo t = used ∧ t.complaints = s.complaints ∧ p s = .ok a t := by
  intro s a t starts read
  obtain ⟨moves, taken⟩ := h s a t starts read
  exact ⟨moves, fun clean => ⟨taken clean, s, t, rfl, clean, read⟩⟩

namespace Tells

variable {p : Parser α} {f : α → Parser β} {P : List Token → α → Prop} {R : List Token → β → Prop}
  {again : α → Parser Bool} {body : α → Parser α} {a : α}

theorem pure (h : ∀ text, P text a) : Tells start (pure a) P :=
  Takes.pure fun text _ => h text

theorem bind (first : Tells start p P)
    (second : ∀ a, Tells Anywhere (f a) fun text b => P text a → R text b) :
    Tells start (p >>= f) R := by
  refine Takes.bind first fun a => (second a).mono ?_
  intro later b told used known text inside
  exact told text ((suffix_append used later).isInfix.trans inside)
    (known text ((prefix_append used later).isInfix.trans inside))

/-- The first parser gives nothing to be told of. -/
theorem after {S : List Token → α → Prop} (first : Takes start p S)
    (second : ∀ a, Tells Anywhere (f a) R) : Tells start (p >>= f) R := by
  refine bind (P := fun _ _ => True) (first.mono fun _ _ _ _ _ => trivial) fun a => ?_
  exact (second a).mono fun _ _ told text inside _ => told text inside

theorem ite {c : Prop} [Decidable c] {q : Parser α} (yes : c → Tells start p P)
    (no : ¬c → Tells start q P) : Tells start (if c then p else q) P :=
  Takes.ite yes no

theorem asked {again : Parser Bool} {g : Bool → Parser β} (asks : Asks test again)
    (yes : ∀ w, Tells (At w) (g true) R) (no : Tells Anywhere (g false) R) :
    Tells start (again >>= g) R :=
  Takes.asked asks (fun w _ => yes w) no

theorem loop (asks : ∀ a, Asks test (again a))
    (rounds : ∀ a w, test w = true → Tells (At w) (body a) fun text b => P text a → P text b)
    (a : α) : Tells start (loop again body a) fun text b => P text a → P text b := by
  refine (Takes.loop (P := fun front b => ∀ text, front <:+: text → P text a → P text b) asks
    (fun b w passes => (rounds b w passes).mono ?_) a).mono ?_
  · intro used c told front known text inside first
    exact told text ((suffix_append front used).isInfix.trans inside)
      (known text ((prefix_append front used).isInfix.trans inside) first)
  · exact fun used b kept => kept [] fun _ _ => id

end Tells

/-- As well, the tokens do not end with a modifier. -/
abbrev Shuts (start : State → Prop) (p : Parser α) (Q : List Token → α → Prop) : Prop :=
  Takes start p fun used a => Closes used ∧ ∀ text, used <:+: text → Q text a

namespace Shuts

variable {p : Parser α} {f : α → Parser β} {P : List Token → α → Prop} {R : List Token → β → Prop}

theorem tells (h : Shuts start p P) : Tells start p P :=
  h.mono fun _ _ both => both.2

theorem demand {kind : Kind} {a : α} (plain : accessOf? kind = none) (h : ∀ text, P text a) :
    Shuts start (do
      demand kind
      return a) P := by
  refine (Takes.demand kind).bind fun _ => .pure ?_
  rintro used ⟨w, rfl, rfl⟩
  exact ⟨⟨[], w, rfl, plain⟩, fun text _ => h text⟩

/-- What is taken last decides how the tokens end. -/
theorem bind (first : Tells start p P)
    (second : ∀ a, Shuts Anywhere (f a) fun text b => P text a → R text b) :
    Shuts start (p >>= f) R := by
  refine Takes.bind first fun a => (second a).mono ?_
  rintro later b ⟨closes, told⟩ used known
  refine ⟨closes.append used, fun text inside => ?_⟩
  exact told text ((suffix_append used later).isInfix.trans inside)
    (known text ((prefix_append used later).isInfix.trans inside))

theorem after {S : List Token → α → Prop} (first : Takes start p S)
    (second : ∀ a, Shuts Anywhere (f a) R) : Shuts start (p >>= f) R := by
  refine bind (P := fun _ _ => True) (first.mono fun _ _ _ _ _ => trivial) fun a => ?_
  exact (second a).mono fun _ _ both => ⟨both.1, fun text inside _ => both.2 text inside⟩

theorem map (first : Shuts start p P) {g : α → β} (h : ∀ text a, P text a → R text (g a)) :
    Shuts start (do return g (← p)) R := by
  refine Takes.bind first fun a => .pure fun used both => ?_
  rw [append_nil]
  exact ⟨both.1, fun text inside => h text a (both.2 text inside)⟩

end Shuts

theorem tells_orExpression : Tells start orExpression fun text node => Told text node :=
  fun s a t starts read => ⟨(takes_orExpression s a t starts read).1,
    fun _ _ _ => (onlyExpressions_of_read read).everyClass⟩

theorem toldAll_present {text : List Token} {nodes : List Node} {node : Node}
    (h : ToldAll text nodes) (last : Told text node) :
    ToldAll text (if isPresent node then nodes ++ [node] else nodes) := by
  split
  · exact forall_mem_append.2 ⟨h, forall_mem_singleton.2 last⟩
  · exact h

/-! ## Statements with others in them -/

section Statements

variable {statement : Parser Node} (h : ∀ {start}, Tells start statement Told)

include h

theorem shuts_bracedOver : Shuts start (bracedOver statement) ToldAll := by
  refine .after (.demand _) fun _ => .bind (Tells.loop (P := ToldAll) (fun _ => asks_nextIs _)
    (fun body w _ => ?_) []) fun body => .demand rfl fun _ kept => kept nofun
  exact h.bind fun node => .pure fun _ told kept => toldAll_present kept told

theorem tells_bracedOver : Tells start (bracedOver statement) ToldAll :=
  (shuts_bracedOver h).tells

theorem tells_branchOver :
    Tells start (branchOver statement) fun text branch => ToldAll text (branch.1 :: branch.2) := by
  refine .after (.demand _) fun _ => tells_orExpression.bind fun condition =>
    .after (.demand _) fun _ => (tells_bracedOver h).bind fun body => .pure ?_
  exact fun _ toldBody toldCondition => forall_mem_cons.2 ⟨toldCondition, toldBody⟩

theorem tells_lastBlock {kind : Kind} {f : Option (List Node) → Parser Node}
    {R : List Token → Node → Prop} (then_ : ∀ final,
      Tells Anywhere (f final) fun text node => ToldAll text (final.getD []) → R text node) :
    Tells start (do
      let final ← if ← nextHas kind then do
          advance
          pure (some (← bracedOver statement))
        else pure none
      f final) R := by
  refine .asked (asks_nextIs _) (fun w => ?_) ((then_ none).mono ?_)
  · exact .after .advance fun _ => (tells_bracedOver h).bind fun body => then_ (some body)
  · exact fun _ _ told text inside => told text inside nofun

theorem tells_ifOver : Tells start (ifOver statement) Told := by
  refine .after (.demand _) fun _ => (tells_branchOver h).bind fun branch =>
    (Tells.loop (P := fun text branches => ∀ branch ∈ branches, ToldAll text (branch.1 :: branch.2))
      (fun _ => asks_nextIs _) (fun branches w _ => ?_) []).bind fun elseIfs =>
        tells_lastBlock h fun otherwise => .pure ?_
  · refine .after .advance fun _ => (tells_branchOver h).bind fun branch => .pure ?_
    exact fun _ told kept => forall_mem_append.2 ⟨kept, forall_mem_singleton.2 told⟩
  · intro text last others whole
    refine everyClass_of_parts rfl (forall_mem_append.2 ⟨forall_mem_flatMap.2 ?_, last⟩)
    exact forall_mem_cons.2 ⟨whole, others nofun⟩

theorem tells_whileOver : Tells start (whileOver statement) Told :=
  .after (.demand _) fun _ => (tells_branchOver h).bind fun _ =>
    .pure fun _ whole => everyClass_of_parts rfl whole

theorem tells_forOver {step : Parser Node} (hstep : ∀ {start}, Tells start step Told) :
    Tells start (forOver statement step) Told := by
  refine .after (.demand _) fun _ => .after (.demand _) fun _ => .after (.expectText _) fun name =>
    .ite (fun _ => .pure fun _ => everyClass_of_parts rfl nofun) fun _ =>
      .after (.expect _) fun op => .ite (fun _ => ?_) fun _ => .failNode _ _
  refine tells_orExpression.bind fun init => .after (.demand _) fun _ =>
    tells_orExpression.bind fun condition => .after (.demand _) fun _ => hstep.bind fun change =>
      .after (.demand _) fun _ => (tells_bracedOver h).bind fun body => .pure ?_
  intro text toldBody toldChange toldCondition toldInit
  have starts : Told text (.assign name init none) :=
    everyClass_of_parts rfl (forall_mem_singleton.2 toldInit)
  refine everyClass_of_parts rfl ?_
  simp only [Node.parts, forall_mem_cons]
  exact ⟨starts, toldCondition, toldChange, toldBody⟩

theorem tells_forEachOver : Tells start (forEachOver statement) Told := by
  refine .after (.demand _) fun _ => .after (.expectText _) fun name => .after (.demand _) fun _ =>
    tells_orExpression.bind fun array => (tells_bracedOver h).bind fun body => .pure ?_
  exact fun _ toldBody toldArray => everyClass_of_parts rfl (forall_mem_cons.2 ⟨toldArray, toldBody⟩)

omit h in
theorem takes_parameters : Takes start parameters fun _ _ => True :=
  .steady (Pairing.agree_parameters (P := .same)).moves

theorem tells_catchRest {catches : List (Option String × List Node)} (name : Option String) :
    Tells start (catchRest statement catches name) fun text all =>
      (∀ handler ∈ catches, ToldAll text handler.2) → ∀ handler ∈ all, ToldAll text handler.2 :=
  .after (.demand _) fun _ => (tells_bracedOver h).bind fun _ => .pure fun _ told kept =>
    forall_mem_append.2 ⟨kept, forall_mem_singleton.2 told⟩

theorem tells_tryOver : Tells start (tryOver statement) Told := by
  refine .after (.demand _) fun _ => (tells_bracedOver h).bind fun body =>
    (Tells.loop (P := fun text catches => ∀ handler ∈ catches, ToldAll text handler.2)
      (fun _ => asks_nextIs _) (fun catches w _ => ?_) []).bind fun catches =>
        tells_lastBlock h fun final => .pure ?_
  · refine .after .advance fun _ => .after (.demand _) fun _ =>
      .asked (asks_nextIs _) (fun u => ?_) (tells_catchRest h none)
    exact .after (.expectText _) fun name => tells_catchRest h (some name)
  · intro text last caught told
    exact everyClass_of_parts rfl (forall_mem_append.2
      ⟨forall_mem_append.2 ⟨told, forall_mem_flatMap.2 (caught nofun)⟩, last⟩)

end Statements

/-! ## Classes -/

section Classes

/-- What the tokens of a member add to a class fits every text in which they stand after a token that
gives this access. -/
structure Adds (access : Access) (decl : ClassDecl Node) (used : List Token) (next : ClassDecl Node) :
    Prop where
  closes : Closes used
  fits : ∀ text before, before :: used <:+: text → accessAfter before = access →
    decl.Within (DefinedIn text) → next.Within (DefinedIn text)

theorem takes_adds {p : Parser (ClassDecl Node)} {decl : ClassDecl Node} {access : Access}
    (shuts : Shuts start p fun text next =>
      decl.Within (DefinedIn text) → next.Within (DefinedIn text)) :
    Takes start p (Adds access decl) := by
  refine shuts.mono fun used next both => ⟨both.1, fun text before inside _ => ?_⟩
  exact both.2 text ((suffix_cons before used).isInfix.trans inside)

theorem shuts_friendNames : Shuts (At t) (friendNames t) fun _ _ => True :=
  .checked (Shuts.after .advance fun _ => .after (.demand _) fun _ =>
    .after (.steady (Pairing.agree_nameList (P := .same)).moves) fun _ => .demand rfl fun _ => trivial)

variable (h : ∀ {start}, Tells start (statementAt n true) Told) (access : Access)
  (decl : ClassDecl Node)

include h

theorem takes_otherMember (t : Token) (kind : Kind) :
    Takes (At t) (otherMember (statementAt n true) access decl t kind) (Adds access decl) := by
  refine .ite (fun _ => takes_adds (.checked ?_)) fun _ => .ite (fun _ => takes_adds ?_) fun _ => ?_
  · refine Shuts.after .advance fun _ => .after (.demand _) fun _ => .after (.demand _) fun _ =>
      (shuts_bracedOver h).map ?_
    exact fun _ _ told within => ⟨within.own, within.methods, within.constructor, told⟩
  · refine .after .advance fun _ => .after (.expectText _) fun name => .demand rfl ?_
    exact fun _ within => ⟨within.own, within.methods, within.constructor, within.destructor⟩
  · exact .objects ((objects_report _ _).bind fun _ => Steady.advance.bind fun _ => .pure _)

theorem takes_routineOver :
    Takes start (routineOver (statementAt n true) access) fun used routine =>
      Closes used ∧ routine.access = access ∧ Definition used routine ∧
        ∀ text, used <:+: text → ToldAll text routine.body := by
  have body : Shuts start (routineOver (statementAt n true) access) fun text routine =>
      routine.access = access ∧ ToldAll text routine.body :=
    .after (.demand _) fun _ => .after (.expectText _) fun name => .after takes_parameters fun names =>
      (shuts_bracedOver h).map fun _ _ told => ⟨rfl, told⟩
  refine body.self.mono ?_
  rintro used routine ⟨⟨closed, told⟩, s, t, taken, clean, read⟩
  have access : routine.access = access := (told used infix_rfl).1
  refine ⟨closed, access, ⟨n, s, t, taken, clean, access ▸ read⟩, fun text inside => ?_⟩
  exact (told text inside).2

theorem takes_memberOver :
    Takes start (memberOver (statementAt n true) access decl) (Adds access decl) := by
  refine .peek (.throw _) fun t => ?_
  have others := takes_otherMember h access decl t t.kind
  obtain ⟨kind, payload, line, column⟩ := t
  cases kind with
  | keyword word =>
    cases word with
    | friend | friendClass =>
      refine takes_adds (shuts_friendNames.map ?_)
      exact fun _ _ _ within => ⟨within.own, within.methods, within.constructor, within.destructor⟩
    | constructor =>
      refine takes_adds (.checked (Shuts.after .advance fun _ => .after takes_parameters fun names =>
        (shuts_bracedOver h).map ?_))
      intro text body told within
      refine ⟨fun name routine found other => ?_, Bindings.forall_insert
        (P := (ToldAll text <| Routine.body ·)) within.methods _ told, told, within.destructor⟩
      rw [Bindings.get?_insert, if_neg other.symm] at found
      exact within.own name routine found other
    | function =>
      refine (takes_routineOver h access).bind fun routine => .pure ?_
      rintro used ⟨closed, given, definition, told⟩
      rw [append_nil]
      refine ⟨closed, fun text before inside gives within => ?_⟩
      have bodies := told text ((suffix_cons before used).isInfix.trans inside)
      refine ⟨fun name other found unlike => ?_, Bindings.forall_insert
        (P := (ToldAll text <| Routine.body ·)) within.methods _ bodies, within.constructor,
        within.destructor⟩
      rw [Bindings.get?_insert] at found
      split at found
      next same =>
        cases found
        exact ⟨same, before, used, inside, definition, given.trans gives.symm⟩
      · exact within.own name other found unlike
    | _ => exact others
  | _ => exact others

/-- The access is the one written in front of the member, if the token before that is no modifier. -/
theorem takes_memberRound (t : Token) :
    Takes (At t) (memberRound (statementAt n true) decl) fun used next => Closes used ∧
      ∀ text before, before :: used <:+: text → accessOf? before.kind = none →
        decl.Within (DefinedIn text) → next.Within (DefinedIn text) := by
  refine .peekAt ?_
  cases found : accessOf? t.kind with
  | none =>
    simp only [found]
    refine (takes_memberOver h .publicAccess decl).mono fun used next adds => ⟨adds.closes, ?_⟩
    intro text before inside plain
    exact adds.fits text before inside (by rw [accessAfter, plain]; rfl)
  | some access =>
    simp only [found]
    refine .checked (Takes.advance.bind fun _ => (takes_memberOver h access decl).mono ?_)
    rintro used next adds front rfl
    refine ⟨adds.closes.append [t], fun text before inside _ => adds.fits text t ?_ ?_⟩
    · exact (suffix_cons before _).isInfix.trans inside
    · rw [accessAfter, found]
      rfl

theorem takes_membersOver :
    Takes start (membersOver (statementAt n true) decl) fun used next =>
      ∀ before text, accessOf? before.kind = none → before :: used <:+: text →
        decl.Within (DefinedIn text) → next.Within (DefinedIn text) := by
  -- The tokens so far, with the one before them, never end with a modifier.
  refine (Takes.loop (P := fun front next => ∀ before, accessOf? before.kind = none →
      Closes (before :: front) ∧ ∀ text, before :: front <:+: text →
        decl.Within (DefinedIn text) → next.Within (DefinedIn text))
    (fun _ => asks_nextIs fun t => t.kind ≠ .rbrace)
    (fun next w _ => (takes_memberRound h next w).mono ?_) decl).bind fun next =>
      (Takes.demand _).bind fun _ => .pure ?_
  · rintro used later ⟨closes, adds⟩ front known before plain
    obtain ⟨⟨inner, last, split, plain⟩, known⟩ := known before plain
    refine ⟨closes.append (before :: front), fun text inside within => ?_⟩
    rw [← cons_append, split] at inside
    refine adds text last ?_ plain (known text ?_ within)
    · rw [append_assoc] at inside
      exact (suffix_append inner _).isInfix.trans inside
    · rw [split]
      exact (prefix_append _ _).isInfix.trans inside
  · intro closing _ used kept before text plain inside
    refine (kept [] (fun before plain => ⟨⟨[], before, rfl, plain⟩, fun _ _ => id⟩) before plain).2
      text ?_
    exact (prefix_append (before :: used) _).isInfix.trans inside

theorem tells_classBody (empty : decl.methods = []) (plain : decl.constructor = none)
    (kept : decl.destructor = none) : Tells start (classBody (statementAt n true) decl) Told := by
  refine (Takes.demand _).bind fun _ => (takes_membersOver h decl).bind fun next => .pure ?_
  rintro used told _ ⟨w, isBrace, rfl⟩ text inside
  rw [append_nil] at inside
  refine everyClass_classDecl (told w text (by rw [isBrace]; rfl) inside ⟨?_, ?_, ?_, ?_⟩)
  · intro name routine found
    rw [empty] at found
    cases found
  · rw [empty]
    exact nofun
  · rw [plain]
    exact nofun
  · rw [kept]
    exact nofun

omit decl in
theorem tells_classOver : Tells start (classOver (statementAt n true)) Told := by
  have absent : Tells Anywhere (pure Node.missing) Told :=
    .pure fun _ => everyClass_of_parts rfl nofun
  refine .after (.demand _) fun _ => .after (.expect _) fun name => ?_
  cases name with
  | none => exact absent
  | some name =>
    refine .asked (asks_nextIs _) (fun w => ?_) (tells_classBody h _ rfl rfl rfl)
    refine .after .advance fun _ => .after (.expect _) fun parent => ?_
    cases parent with
    | none => exact absent
    | some parent => exact tells_classBody h _ rfl rfl rfl

end Classes

/-! ## All statements -/

theorem steady_statementFrom (closed : Bool) (t : Token) :
    Steady (statementFrom (statementAt n) closed t) := by
  have shut {Q : Prop} (opened : Pairing.same.Open) : Q := absurd opened Pairing.same_shut
  have parts := Pairing.parts_statementAt (P := .same) (n := n) shut ⟨Nat.le_refl _, fun _ => rfl⟩
  exact (Pairing.agree_statementFrom parts shut rfl).moves

/-- A statement without others in it has no class in it. -/
theorem tells_simpleStatement (simple : isCompound t.kind = false) (closed : Bool) :
    Tells (At t) (statementFrom (statementAt n) closed t) Told := by
  refine .of_steady (steady_statementFrom closed t) fun s node u here read _ text _ => ?_
  have inside : s.Inside := Nat.le_of_lt (Array.getElem?_eq_some_iff.mp here).1
  have reading : ForwardAt t _ (s.remaining + 1) false
      (statementFrom (statementAt n) closed t) (EveryClass (DefinedIn text)) :=
    forward_simpleStatement simple closed
  have went := reading s here ⟨inside, Nat.lt_succ_self _, nofun⟩
  rw [read] at went
  cases went with
  | ok _ _ _ gives => exact gives

theorem tells_statementFrom (h : ∀ {start} b, Tells start (statementAt n b) Told) (closed : Bool) :
    Tells (At t) (statementFrom (statementAt n) closed t) Told := by
  cases simple : isCompound t.kind with
  | false => exact tells_simpleStatement simple closed
  | true =>
    unfold statementFrom
    cases kind : t.kind with
    | keyword word =>
      rw [kind] at simple
      cases word with
      | ifBranch => exact .checked (tells_ifOver (h true))
      | whileLoop => exact .checked (tells_whileOver (h true))
      | forLoop =>
        have ahead (k : Nat) : Takes Anywhere (peekAhead k) fun used _ => used = [] := by
          refine .looking fun s a u read => ?_
          obtain ⟨b, seen⟩ := looks_peekAhead k s
          cases read.symm.trans seen
          rfl
        refine .checked (Tells.after (ahead 1).anywhere fun name => .after (ahead 2) fun each =>
          .after (.checkDialect _) fun _ => .ite (fun _ => tells_forEachOver (h true)) fun _ => ?_)
        exact tells_forOver (h true) (h false)
      | function =>
        refine .checked (Takes.bind (takes_routineOver (h true) _) fun routine => .pure ?_)
        rintro used ⟨-, -, -, told⟩ text inside
        rw [append_nil] at inside
        exact everyClass_function (told text inside)
      | tryBlock => exact .checked (tells_tryOver (h true))
      | classDef => exact .checked (tells_classOver (h true))
      | _ => cases simple
    | _ =>
      rw [kind] at simple
      cases simple

theorem tells_statementAt (n : Nat) (closed : Bool) : Tells start (statementAt n closed) Told := by
  induction n generalizing start closed with
  | zero => exact .throw _
  | succ n ih =>
    refine .after (Takes.loop (P := fun _ _ => True) (fun _ => asks_nextIs _)
      (fun _ _ _ => Takes.advance.mono fun _ _ _ _ _ => trivial) ()) fun _ => ?_
    refine .peek (.pure fun _ _ => everyClass_of_parts rfl nofun) fun t => ?_
    exact .ite (fun _ => .checked (tells_statementFrom (fun b => ih b) closed)) fun _ =>
      tells_statementFrom (fun b => ih b) closed

theorem tells_program : Tells start program Told := by
  have statements {start : State → Prop} : Tells start statement Told :=
    fun s a t starts read => tells_statementAt _ true s a t starts read
  refine .peek (.throw _) fun t => .ite (fun _ => ?_) fun _ => .throw _
  refine Tells.after (.watching (Pairing.watches_starter t.display)) fun _ =>
    .after (.steady .advance) fun _ =>
      (Tells.loop (P := ToldAll) (fun _ => asks_nextIs _) (fun _ w _ => ?_) []).bind fun _ =>
        .pure fun _ kept => everyClass_of_parts rfl (kept nofun)
  exact statements.bind fun node => .pure fun _ told kept => toldAll_present kept told

/-- In a program without complaints all methods are defined in its text. -/
theorem told_of_parse {tokens : List Token} {strict : Bool} {node : Node}
    (read : (parse tokens strict).node = .ok node)
    (clean : (parse tokens strict).state.complaints = []) : Told tokens node := by
  have whole : Tells Anywhere program Told := tells_program
  have taken := (whole _ _ _ trivial (parse_ok read)).2 clean
  exact taken tokens ( List.take_prefix _ _).isInfix

end Hetman.Parser
