/-
  Descent.Proofs.WriteOnce

  A cell is defined once and for all.  Every change to a session adds cells at most and writes none
  that has a definition, so along any steps definitions stay what they are.  Whatever is answered as
  misused has changed nothing, and a run changes neither names nor cells.

  What a cell is run as depends on the cells that its definition leads to, and on whether somebody
  listens.  So a name for a cell runs the same at any two moments at which all these are alive and
  defined, whatever was bound, dropped, defined or run in between.  Only where a scope has been left
  open meanwhile by a run that was given up, a mark may be heard that was not heard before; and then
  it gives the run up if it cannot count the bytes of what it marks.
-/
import Descent.Proofs.Heard
import Descent.Proofs.OpenScopes
import Descent.Proofs.Owners
import Descent.Proofs.Tied

namespace Descent

-- ============================================================================
-- Stores over time
-- ============================================================================

namespace Store

variable {store mid store' : Store}

/-- The second store has the cells of the first one, with the definitions that they had there. -/
structure Before (store store' : Store) : Prop where
  next : store.next ≤ store'.next
  definition : ∀ c b, store.definition? c = some b → store'.definition? c = some b

theorem Keeps.definition?_eq (h : store.Keeps store') {c : CellId} (hc : c < store.next) :
    store'.definition? c = store.definition? c := by
  rw [definition?, definition?, h.cell?_eq hc]

theorem Keeps.reaches_eq (h : store.Keeps store') {r : Reference} (hr : r.cell < store.next) :
    store'.reaches r = store.reaches r := by
  cases r with
  | owner c => rfl
  | handle c => exact congrArg (Option.any Cell.alive) (h.cell?_eq hr)

namespace Before

theorem refl (store : Store) : store.Before store := ⟨Nat.le_refl _, fun _ _ h => h⟩

theorem trans (h : store.Before mid) (h' : mid.Before store') : store.Before store' :=
  ⟨Nat.le_trans h.next h'.next, fun c b hc => h'.definition c b (h.definition c b hc)⟩

theorem declare (store : Store) : store.Before store.declare :=
  ⟨Nat.le_succ _, fun c b hc => by rw [definition?_declare, hc]⟩

theorem release (store : Store) (roots : List CellId) : store.Before (store.release roots) :=
  ⟨Nat.le_of_eq (next_sweeps _ _ _).symm, fun c b hc => by rw [definition?_release, hc]⟩

/-- Only a cell without definition may be written. -/
theorem write {c : CellId} (h : store.definition? c = none) (b : Built) :
    store.Before (store.write c b) := by
  refine ⟨Nat.le_of_eq (next_write _ _ _).symm, fun d b' hd => ?_⟩
  have hne : c ≠ d := by
    rintro rfl
    exact nomatch h.symm.trans hd
  rw [definition?_write_of_ne hne, hd]

theorem of_keeps (h : store.Keeps store') : store.Before store' := by
  refine ⟨Nat.le_of_not_lt fun hlt => ?_, fun c b hc => ?_⟩
  · -- The cell behind the last one of the second store would be in the first one.
    have hsome := cell?_isSome_iff.2 hlt
    rw [← h.cell?_eq hlt, cell?_isSome_iff] at hsome
    exact Nat.lt_irrefl _ hsome
  · obtain ⟨cell, hcell, hdefinition⟩ := Option.bind_eq_some_iff.1 hc
    rw [definition?, h c cell hcell, Option.bind_some, hdefinition]

end Before

end Store

-- ============================================================================
-- Sessions over time
-- ============================================================================

namespace Session

variable {s s' mid : Session}

/-- No change takes or replaces a definition. -/
theorem Changes.before {step : Step} (h : s.Changes step mid) : s.store.Before mid.store := by
  cases h with
  | declare x => exact .declare s.store
  | @define x recipe b store r hbuild hx hreaches hundefined =>
    exact (Store.Before.of_keeps (recipe.build_grown hbuild).keeps).trans (.write hundefined b)
  | @bind x recipe b store hbuild => exact .of_keeps (recipe.build_grown hbuild).keeps
  | @recursive x handle recipe b store hbuild =>
    -- Nothing that the recipe builds writes the cell that is declared for it.
    have hkeeps : s.store.declare.Keeps store := (recipe.build_grown hbuild).keeps
    have hundefined : store.definition? s.store.next = none := by
      rw [Store.definition?, hkeeps _ _ (Store.cell?_declare_self s.store)]
      rfl
    exact (Store.Before.declare s.store).trans ((Store.Before.of_keeps hkeeps).trans
      (.write hundefined b))
  | copy hx => exact .refl s.store
  | drop hx => exact .refl s.store

/-- Along the steps of a session no definition is taken or replaced. -/
theorem Becomes.before (h : s.Becomes s') : s.store.Before s'.store :=
  h.invariant (I := fun last => s.store.Before last.store) (.refl s.store)
    (fun hlast hchange => hlast.trans (hchange.before.trans (.release _ _))) fun _ hlast => hlast

/-! ## Names for cells -/

/-- Every name for a cell is that of a declared one. -/
def Bounded (s : Session) : Prop :=
  ∀ entry ∈ s.names, ∀ r, entry.2 = .cell r → r.cell < s.store.next

theorem bounded_empty : Session.empty.Bounded := List.forall_mem_nil _

theorem Bounded.mono (h : s.Bounded) {store : Store} (hstore : s.store.next ≤ store.next) :
    Session.Bounded { s with store := store } :=
  fun entry hentry r hr => Nat.lt_of_lt_of_le (h entry hentry r hr) hstore

theorem Bounded.unbind (h : s.Bounded) (x : String) : (s.unbind x).Bounded :=
  fun entry hentry => h entry (List.mem_filter.1 hentry).1

theorem Bounded.bind (h : s.Bounded) (x : String) {b : Binding}
    (hb : ∀ r, b = .cell r → r.cell < s.store.next) : (Session.bind x b s).Bounded :=
  List.forall_mem_cons.2 ⟨hb, h.unbind x⟩

theorem Bounded.lookup (h : s.Bounded) {x : String} {r : Reference}
    (hx : s.lookup x = .ok (.cell r)) : r.cell < s.store.next :=
  h _ (mem_names_of_lookup hx) r rfl

theorem Changes.bounded {step : Step} (hs : s.Bounded) (h : s.Changes step mid) : mid.Bounded := by
  have hnext := h.before.next
  cases h with
  | declare x =>
    refine (hs.mono hnext).bind x fun r hr => ?_
    cases hr
    exact Nat.lt_succ_self _
  | define => exact hs.mono hnext
  | bind => exact (hs.mono hnext).bind _ fun r hr => nomatch hr
  | @recursive x handle recipe b store hbuild =>
    have hkeeps : s.store.declare.Keeps store := (recipe.build_grown hbuild).keeps
    have hcell : s.store.next < (store.write s.store.next b).next := by
      rw [Store.next_write]
      exact (Store.Before.of_keeps hkeeps).next
    have hopened : (s.opened handle).Bounded := by
      refine (hs.mono (Nat.le_succ _)).bind handle fun r hr => ?_
      cases hr
      exact Nat.lt_succ_self _
    refine (hopened.mono hcell).bind x fun r hr => ?_
    cases hr
    exact hcell
  | copy hx =>
    refine hs.bind _ fun r hr => ?_
    subst hr
    exact hs.lookup hx
  | drop hx => exact hs.unbind _

theorem Becomes.bounded (h : Session.empty.Becomes s) : s.Bounded :=
  h.invariant bounded_empty
    (fun hs hchange => (hchange.bounded hs).mono (Store.Before.release _ _).next) fun _ hs => hs

-- ============================================================================
-- Misuse
-- ============================================================================

/-- A step that is a misuse, and a run whatever its answer is, leave names and cells as they are. -/
theorem step_keeps {limits : Limits} {step : Step} {answer : Answer}
    (h : s.step limits step = some (answer, s'))
    (hstep : (∃ m, answer = .misused m) ∨ ∃ mode recipe inp, step = .run mode recipe inp) :
    s'.names = s.names ∧ s'.store = s.store := by
  rcases step_cases h with
    ⟨rfl, mid, hchange, -⟩ | ⟨m, -, rfl⟩ | ⟨-, -, -, -, -, -, -, -, -, -, -, rfl⟩
  · rcases hstep with ⟨m, hm⟩ | ⟨mode, recipe, inp, rfl⟩
    · exact nomatch hm
    · exact nomatch hchange
  · exact ⟨rfl, rfl⟩
  · exact ⟨rfl, rfl⟩

/-- Defining a cell that is defined already, or that its owners have left, is a misuse that leaves
    the session as it is. -/
theorem define_misused (hs : s.Bounded) {x : String} {r : Reference}
    (hx : s.lookup x = .ok (.cell r))
    (hr : (s.store.definition? r.cell).isSome = true ∨ s.store.reaches r = false)
    (limits : Limits) (recipe : Recipe) :
    ∃ m, s.step limits (.define x recipe) = some (.misused m, s) ∧
      ∀ b store, s.build recipe = .ok (b, store) →
        m = if s.store.reaches r then .redefined else .orphaned := by
  cases hbuild : s.build recipe with
  | error m =>
    refine ⟨m, ?_, fun b store h => nomatch h⟩
    rw [step, define, hbuild, settle]
  | ok built =>
    obtain ⟨b, store⟩ := built
    -- Building has touched neither the life of the cell nor its definition.
    have hkeeps := (recipe.build_grown hbuild).keeps
    have hreaches := hkeeps.reaches_eq (hs.lookup hx)
    have hdefinition := hkeeps.definition?_eq (hs.lookup hx)
    have hcell : s.lookupCell x = .ok r := by rw [lookupCell, hx]
    refine ⟨if s.store.reaches r then .redefined else .orphaned, ?_, fun _ _ _ => rfl⟩
    rw [step, define, hbuild]
    simp only [hcell, Store.define, hreaches, hdefinition]
    cases hlive : s.store.reaches r with
    | false => rfl
    | true =>
      obtain ⟨b', hb'⟩ := Option.isSome_iff_exists.1 (hr.resolve_right (by rw [hlive]; decide))
      rw [hb']
      rfl

end Session

-- ============================================================================
-- What a cell is run as
-- ============================================================================

/-- No reference, or one to a cell of the set. -/
def Symbol.Into (P : CellId → Prop) {α : Type} : Symbol α → Prop
  | .element => True
  | .rule _ => True
  | .cell r => P r.cell

namespace Store

variable {store store' : Store} {c : CellId}

/-- The second cell is the first one, or a definition that the first one leads to refers to it. -/
inductive Leads (store : Store) (c : CellId) : CellId → Prop
  | self : Leads store c c
  | next {d : CellId} {b : Built} {r : Reference} (hd : Leads store c d)
      (hdefinition : store.definition? d = some b) (hr : b.grammar.Has (.cell r : Symbol Value)) :
      Leads store c r.cell

/-- The cell and all cells that it leads to are alive and defined. -/
def Whole (store : Store) (c : CellId) : Prop := ∀ d, store.Leads c d → ∃ b, store.Defined d b

theorem Leads.mono {d : CellId} (hbefore : store.Before store') (h : store.Leads c d) :
    store'.Leads c d := by
  induction h with
  | self => exact .self
  | next _ hdefinition hr ih => exact .next ih (hbefore.definition _ _ hdefinition) hr

/-- A cell is whole if it is in a set of living cells whose definitions refer to no others. -/
theorem Whole.of_closed {P : CellId → Prop} (hc : P c)
    (h : ∀ d, P d → ∃ b, store.Defined d b ∧ b.grammar.Over (fun _ => True) (Symbol.Into P)) :
    store.Whole c := by
  have hleads {d : CellId} (hd : store.Leads c d) : P d := by
    induction hd with
    | self => exact hc
    | next _ hdefinition hr ih =>
      obtain ⟨b, hb, hover⟩ := h _ ih
      obtain rfl := Option.some.inj (hb.definition?.symm.trans hdefinition)
      exact hover.of_has hr
  intro d hd
  obtain ⟨b, hb, -⟩ := h d (hleads hd)
  exact ⟨b, hb⟩

/-- The same symbol, or two references to the same cell, which `c` leads to. -/
inductive Shares (store : Store) (c : CellId) : Correspondence Symbol Symbol
  | element : Shares store c _ .element .element
  | rule (name : String) : Shares store c _ (.rule name) (.rule name)
  | cell {r r' : Reference} (hcell : r.cell = r'.cell) (hr : store.Leads c r.cell) :
      Shares store c _ (.cell r) (.cell r')

/-- Where a cell is whole early and late, its references are run the same. -/
theorem Whole.agrees (hbefore : store.Before store') (h : store.Whole c) (h' : store'.Whole c) :
    (Rules.rulebook []).Agrees (Rules.rulebook []) fun early late α n m =>
      early = store ∧ late = store' ∧ store.Shares c α n m := by
  intro α early late n m hnm
  obtain ⟨rfl, rfl, hshares⟩ := hnm
  cases hshares with
  | element =>
    have hself : (Markup.element Symbol.element).Over Honest Symbol.IsElement :=
      Markup.element_over trivial
    refine .inr ⟨_, _, _, _, rfl, rfl, hself.alike fun n hn => ⟨rfl, rfl, ?_⟩⟩
    cases n with
    | element => exact .element
    | rule | cell => exact hn.elim
  | rule name => exact .inl ⟨_, rfl, rfl⟩
  | @cell r r' hcell hr =>
    obtain ⟨b, hb⟩ := h _ hr
    obtain ⟨b', hb'⟩ := h' _ (hr.mono hbefore)
    -- Both are alive, and the definition has stayed what it was.
    obtain rfl : b' = b := Option.some.inj
      (hb'.definition?.symm.trans (hbefore.definition _ _ hb.definition?))
    have hinside : b'.grammar.Over (fun _ => True) fun {α} n => early.Shares c α n n :=
      Grammar.over_of_has fun n hn => by
        cases n with
        | element => exact .element
        | rule name => exact .rule name
        | cell r => exact .cell rfl (.next hr hb.definition? hn)
    refine .inr ⟨b'.grammar, early, b'.grammar, late, ?_, ?_,
      hinside.alike fun _ hn => ⟨rfl, rfl, hn⟩⟩
    · simp only [Rules.rulebook, hb.resolve]
    · rw [hcell] at hb'
      simp only [Rules.rulebook, hb'.resolve]

theorem Whole.parser_eq (hbefore : store.Before store') (h : store.Whole c) (h' : store'.Whole c)
    {r r' : Reference} (hr : r.cell = c) (hr' : r'.cell = c) (limits : Limits) :
    r.built.parser [] limits store = r'.built.parser [] limits store' := by
  subst hr
  exact (h.agrees hbefore h').parser_eq limits (.symbol ⟨rfl, rfl, .cell hr'.symm .self⟩)

end Store

-- ============================================================================
-- Later runs
-- ============================================================================

namespace Session

variable {s s' : Session} {mode : Mode}

/-- A later run of something can be disturbed: it collects no trace, nobody listened to the earlier
    one, a scope has been left open since, and not all cells are defined by honest steps. -/
structure Disturbed (s s' : Session) (mode : Mode) : Prop where
  untraced : ¬ mode.Opens
  closed : s.scopes = []
  leftOpen : s'.scopes ≠ []
  dishonest : ¬ s'.store.All Kind.honest

/-- No scope is closed again, so a later run is heard where an earlier one was. -/
theorem Becomes.listens_eq_or (h : s.Becomes s') (mode : Mode) :
    mode.listens s.scopes = mode.listens s'.scopes ∨
      ¬ mode.Opens ∧ s.scopes = [] ∧ s'.scopes ≠ [] := by
  by_cases hmode : mode.Opens
  · rw [Mode.listens_of_opens hmode, Mode.listens_of_opens hmode]
    exact .inl rfl
  · rw [Mode.listens_of_not_opens hmode, Mode.listens_of_not_opens hmode]
    have hheight := h.length_scopes_le
    cases hs : s.scopes with
    | nil =>
      cases hs' : s'.scopes with
      | nil => exact .inl rfl
      | cons frame outer => exact .inr ⟨hmode, rfl, List.cons_ne_nil _ _⟩
    | cons frame outer =>
      obtain ⟨frame', outer', hs'⟩ : ∃ frame' outer', s'.scopes = frame' :: outer' :=
        List.exists_cons_of_length_pos (by rw [hs, List.length_cons] at hheight; omega)
      rw [hs']
      exact .inl rfl

/-- A reference is answered as it is recorded by runs that are heard as the early one is, and by
    those that are heard as the late one is, unless this one is disturbed and gives up for a count
    of bytes. -/
theorem Becomes.answer_eq_or (h : s.Becomes s') (r : Reference) (limits : Limits) (mode : Mode)
    (inp : Input) :
    (r.built.recorder [] limits s'.store (mode.listens s.scopes) inp).map mode.answer =
        (r.built.recorder [] limits s'.store (mode.listens s'.scopes) inp).map mode.answer ∨
      s.Disturbed s' mode ∧
        (r.built.recorder [] limits s'.store (mode.listens s'.scopes) inp).map mode.answer =
          some (.misused .overrun) := by
  rcases h.listens_eq_or mode with heq | ⟨hmode, hs, hs'⟩
  · rw [heq]
    exact .inl rfl
  have hearly : mode.listens s.scopes = false := by
    rw [Mode.listens_of_not_opens hmode, hs]
    rfl
  have hlate : mode.listens s'.scopes = true := by
    rw [Mode.listens_of_not_opens hmode, Scopes.listens_of_ne_nil hs']
  rw [hearly, hlate]
  by_cases hhonest : s'.store.All Kind.honest
  · exact .inl (Mode.answer_eq_of_reply hmode (Built.recorder_reply_eq (Kind.honest_cell r)
      Rules.honest_nil limits hhonest false true inp))
  · rcases ((Rules.rulebook []).recorder_agrees_unheard limits s'.store r.built.grammar
      inp).reply_eq_or with hreply | ⟨-, w, hoverrun⟩
    · exact .inl (Mode.answer_eq_of_reply hmode hreply.symm)
    · refine .inr ⟨⟨hmode, hs, hs', hhonest⟩, ?_⟩
      rw [Built.recorder, hoverrun]
      exact congrArg some (Mode.answer_eq_misused_iff.2 rfl)

end Session

/-- Cells are written once.  Whatever a session becomes, no definition is taken or replaced.  To
    define a cell that is defined, or through a handle that nothing owns any more, is a misuse; a
    misuse leaves the names and cells of a session as they are, and so does every run.  So at any
    two moments at which names stand for the same cell, and it and all cells that it leads to are
    alive and defined, they run the same: within equal limits both come to an end or neither does,
    and whatever the limits are, no two runs that come to an end are answered differently.  The one
    exception is a later run that is disturbed, and it is given up for a count of bytes. -/
theorem cells_written_once (s s' : Session) (hs : s.Becomes s') :
    (∀ (c : CellId) (b : Built), s.store.definition? c = some b →
      s'.store.definition? c = some b) ∧
    (∀ (x : String) (r : Reference) (limits : Limits) (recipe : Recipe),
      Session.empty.Becomes s → s.lookup x = .ok (.cell r) →
      (s.store.definition? r.cell).isSome = true ∨ s.store.reaches r = false →
      ∃ m, s.step limits (.define x recipe) = some (.misused m, s) ∧
        ∀ b store, s.build recipe = .ok (b, store) →
          m = if s.store.reaches r then .redefined else .orphaned) ∧
    (∀ (limits : Limits) (step : Step) (answer : Answer) (after : Session),
      s.step limits step = some (answer, after) →
      (∃ m, answer = .misused m) ∨ (∃ mode recipe inp, step = .run mode recipe inp) →
      after.names = s.names ∧ after.store = s.store) ∧
    ∀ (x y : String) (r r' : Reference) (mode : Mode) (inp : Input), r.cell = r'.cell →
      s.builtNames.lookup x = some r.built → s'.builtNames.lookup y = some r'.built →
      s.store.Whole r.cell → s'.store.Whole r.cell →
      (∀ limits, (s.step limits (.run mode (.named x) inp)).map Prod.fst =
          (s'.step limits (.run mode (.named y) inp)).map Prod.fst ∨
        s.Disturbed s' mode ∧
          (s'.step limits (.run mode (.named y) inp)).map Prod.fst = some (.misused .overrun)) ∧
      ∀ limits limits' answer answer' after after',
        s.step limits (.run mode (.named x) inp) = some (answer, after) →
        s'.step limits' (.run mode (.named y) inp) = some (answer', after') →
        answer = answer' ∨ s.Disturbed s' mode ∧ answer' = .misused .overrun := by
  refine ⟨?_, ?_, ?_, ?_⟩
  · exact fun c b hc => hs.before.definition c b hc
  · exact fun x r limits recipe hempty hx hr =>
      Session.define_misused hempty.bounded hx hr limits recipe
  · exact fun limits step answer after h hstep => Session.step_keeps h hstep
  · intro x y r r' mode inp hcell hx hy hwhole hwhole'
    let recorded limits heard := (r'.built.recorder [] limits s'.store heard inp).map mode.answer
    have hrecords (limits : Limits) := r'.built.parser_records [] limits s'.store
    have hrun (limits : Limits) : (s.step limits (.run mode (.named x) inp)).map Prod.fst =
        recorded limits (mode.listens s.scopes) := by
      refine Session.run_answer (Session.build_named hx) ?_
      rw [hwhole.parser_eq hs.before hwhole' rfl hcell.symm limits]
      exact hrecords limits
    have hrun' (limits : Limits) : (s'.step limits (.run mode (.named y) inp)).map Prod.fst =
        recorded limits (mode.listens s'.scopes) :=
      Session.run_answer (Session.build_named hy) (hrecords limits)
    refine ⟨fun limits => ?_, ?_⟩
    · rw [hrun, hrun']
      exact hs.answer_eq_or r' limits mode inp
    · intro limits limits' answer answer' after after' h h'
      have hanswer := hrun limits
      have hanswer' := hrun' limits'
      rw [h, Option.map_some] at hanswer
      rw [h', Option.map_some] at hanswer'
      -- Both runs are answered as they would be within limits that are large enough for both.
      let both : Limits :=
        ⟨max limits.attempts limits'.attempts, max limits.nesting limits'.nesting⟩
      have hboth : recorded both (mode.listens s.scopes) = some answer :=
        Built.recorder_answer_mono (Nat.le_max_left _ _) (Nat.le_max_left _ _) hanswer.symm
      have hboth' : recorded both (mode.listens s'.scopes) = some answer' :=
        Built.recorder_answer_mono (Nat.le_max_right _ _) (Nat.le_max_right _ _) hanswer'.symm
      rcases hs.answer_eq_or r' both mode inp with heq | ⟨hdisturbed, hoverrun⟩
      · exact .inl (Option.some.inj (hboth.symm.trans (heq.trans hboth')))
      · exact .inr ⟨hdisturbed, Option.some.inj (hboth'.symm.trans hoverrun)⟩

/-- Even and odd numbers of letters, each defined by the other. -/
def evenAndOdd : List Step :=
  [.declare "even", .declare "odd",
    .define "even" (.joined .or (.joined .skipThen (.piece (.char 'a')) (.named "odd"))
      (.piece .empty)),
    .define "odd" (.joined .skipThen (.piece (.char 'a')) (.named "even"))]

/-- The first name is moved, both are lost, and a traced run of an undefined cell is given up. -/
def renamedEven : List Step :=
  [.copy "e" "even", .recursive "even" "h" (.piece .any), .drop "odd", .declare "open",
    .run .traced (.modified (.marked "m") (.named "open")) (.ofString "a")]

/-- Whatever happens to the names, the two cells stay what they were, and run as before. -/
theorem evens_written_once :
    ∃ s s', Session.empty.after ⟨9, 9⟩ evenAndOdd = some s ∧ s.after ⟨9, 9⟩ renamedEven = some s' ∧
      s'.store.definition? 0 = s.store.definition? 0 ∧
      s'.step ⟨9, 9⟩ (.define "e" (.piece .any)) = some (.misused .redefined, s') ∧
      (∀ answer after, s'.step ⟨9, 9⟩ (.run .parse (.named "open") (.ofString "a")) =
        some (answer, after) → after.store = s'.store) ∧
      (s.step ⟨9, 9⟩ (.run .complete (.named "even") (.ofString "aaaa"))).map Prod.fst =
        (s'.step ⟨9, 9⟩ (.run .complete (.named "e") (.ofString "aaaa"))).map Prod.fst := by
  -- Both cells are alive at both moments, and refer to nothing but each other.
  obtain ⟨s, s', hs, hs', hx, hy, hy', hrun, hwhole, hwhole'⟩ :
      ∃ s s', Session.empty.after ⟨9, 9⟩ evenAndOdd = some s ∧
        s.after ⟨9, 9⟩ renamedEven = some s' ∧
        s.builtNames.lookup "even" = some (Reference.owner 0).built ∧
        s'.lookup "e" = .ok (.cell (.owner 0)) ∧
        s'.builtNames.lookup "e" = some (Reference.owner 0).built ∧
        (s'.step ⟨9, 9⟩ (.run .complete (.named "e") (.ofString "aaaa"))).map Prod.fst =
          some (.ran ⟨.matched (.ofString "") .unit, none, ""⟩) ∧
        s.store.Whole 0 ∧ s'.store.Whole 0 := by
    refine ⟨_, _, rfl, rfl, rfl, rfl, rfl, rfl, .of_closed (P := (· < 2)) (by decide) ?_,
      .of_closed (P := (· < 2)) (by decide) ?_⟩
    all_goals
      intro c hc
      match c, hc with
      | 0, _ => exact ⟨_, rfl, ⟨trivial, fun _ => Nat.one_lt_two⟩, trivial⟩
      | 1, _ => exact ⟨_, rfl, trivial, fun _ => Nat.zero_lt_two⟩
  have hbecomes : s.Becomes s' := .of_after hs'
  obtain ⟨hdefinition, -, -, hsame⟩ := cells_written_once s s' hbecomes
  obtain ⟨-, hdefine, hkeeps, -⟩ := cells_written_once s' s' .refl
  obtain ⟨b, hb⟩ := hwhole 0 .self
  obtain ⟨b', hb'⟩ := hwhole' 0 .self
  refine ⟨s, s', hs, hs', ?_, ?_, ?_, ?_⟩
  · rw [hb.definition?, hdefinition 0 b hb.definition?]
  · obtain ⟨m, hm, hmisuse⟩ := hdefine "e" (.owner 0) ⟨9, 9⟩ (.piece .any)
      ((Session.Becomes.of_after hs).trans hbecomes) hy
      (.inl (Option.isSome_iff_exists.2 ⟨b', hb'.definition?⟩))
    obtain rfl := hmisuse _ _ rfl
    exact hm
  · exact fun answer after h => (hkeeps _ _ answer after h (.inr ⟨_, _, _, rfl⟩)).2
  · have hlate : (s'.step ⟨9, 9⟩ (.run .complete (.named "e") (.ofString "aaaa"))).map Prod.fst ≠
        some (.misused .overrun) := by
      rw [hrun]
      exact nofun
    obtain ⟨hequal, -⟩ := hsame "even" "e" (.owner 0) (.owner 0) .complete (.ofString "aaaa") rfl
      hx hy' hwhole hwhole'
    exact (hequal ⟨9, 9⟩).resolve_right fun h => hlate h.2

/-- A mark around a step that leaves more than it is given. -/
def markedJump : Recipe := .modified (.marked "j") (.piece (.leaving (.ofString "abc")))

/-- Of one cell and one input: the run that came out before a traced run was given up is given up
    itself behind it, although the cell is whole and nothing has been bound or defined anew. -/
theorem jump_disturbed :
    ∃ s s', Session.empty.after ⟨9, 9⟩ [.recursive "y" "h" markedJump] = some s ∧
      s.after ⟨9, 9⟩ [.declare "x",
        .run .traced (.modified (.marked "m") (.named "x")) (.ofString "a")] = some s' ∧
      s.builtNames.lookup "y" = some (Reference.owner 0).built ∧
      s'.builtNames.lookup "y" = some (Reference.owner 0).built ∧
      s.store.Whole 0 ∧ s'.store.Whole 0 ∧
      (s.step ⟨9, 9⟩ (.run .parse (.named "y") (.ofString ""))).map Prod.fst =
        some (.ran ⟨.matched (.ofString "abc") .unit, none, ""⟩) ∧
      (s'.step ⟨9, 9⟩ (.run .parse (.named "y") (.ofString ""))).map Prod.fst =
        some (.misused .overrun) := by
  refine ⟨_, _, rfl, rfl, rfl, rfl, .of_closed (P := (· = 0)) rfl ?_,
    .of_closed (P := (· = 0)) rfl ?_, rfl, rfl⟩
  all_goals
    rintro c rfl
    exact ⟨_, rfl, trivial⟩

end Descent
