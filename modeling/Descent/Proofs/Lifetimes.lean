/-
  Descent.Proofs.Lifetimes

  How long handles can be used.  A cell can be reached if an owner of it stands under a name, in a
  parser that is being run, or in the definition of a cell that can be reached.  At every moment of
  a session, and of each run in it, what can be reached is alive, so no handle to it is orphaned.

  The converse fails where a cell is defined by something that owns it.  That takes a declaration:
  in a session without, all cells are those of recursive parsers, a definition owns none but cells
  that were defined before, and so a handle is orphaned exactly if its cell cannot be reached.
-/
import Descent.Proofs.Answers
import Descent.Proofs.Calls
import Descent.Proofs.Covered
import Descent.Proofs.Held
import Descent.Proofs.Written

namespace Descent

-- ============================================================================
-- References
-- ============================================================================

namespace Store

variable {store : Store} {roots : List CellId} {r : Reference} {b : Built}

theorem resolve_eq_orphaned_iff :
    store.resolve r = .error .orphaned ↔ store.reaches r = false := by
  rw [Store.resolve]
  cases store.reaches r with
  | false => simp
  | true =>
    rw [if_pos rfl]
    cases store.definition? r.cell <;> simp

theorem resolve_inv (h : store.resolve r = .ok b) :
    store.reaches r = true ∧ store.definition? r.cell = some b := by
  rw [Store.resolve] at h
  split at h
  · next hreaches =>
    split at h
    · next hdefinition =>
      cases h
      exact ⟨hreaches, hdefinition⟩
    · exact nomatch h
  · exact nomatch h

/-- A reference to a living cell can be used. -/
theorem Alive.reaches (h : store.Alive r.cell) : store.reaches r = true := by
  cases r with
  | owner c => rfl
  | handle c => exact reaches_handle_iff.2 h

/-- A reference that can be used is one to a living cell, if it is no owner of a cell that nobody
    keeps. -/
theorem Sound.alive_of_reaches (h : store.Sound roots) (hr : r.owned ⊆ roots)
    (hreaches : store.reaches r = true) : store.Alive r.cell := by
  cases r with
  | owner c => exact h.roots c (hr List.mem_cons_self)
  | handle c => exact reaches_handle_iff.1 hreaches

end Store

-- ============================================================================
-- Sessions
-- ============================================================================

namespace Session

variable {s s' mid : Session} {x y : String} {b : Binding}

/-- What names stand for owns none but the roots. -/
theorem builtNames_ownedIn (s : Session) : s.builtNames.OwnedIn s.roots := by
  intro entry hentry c hc
  obtain ⟨e, he, rfl⟩ := List.mem_map.1 hentry
  exact List.mem_flatMap.2 ⟨e, he, hc⟩

theorem roots_unbind_subset (s : Session) (x : String) : (s.unbind x).roots ⊆ s.roots := by
  intro c hc
  obtain ⟨e, he, hc⟩ := List.mem_flatMap.1 hc
  exact List.mem_flatMap.2 ⟨e, (List.mem_filter.1 he).1, hc⟩

theorem roots_bind_subset (s : Session) (x : String) (b : Binding) :
    (Session.bind x b s).roots ⊆ b.built.owned ++ s.roots :=
  List.append_subset.2 ⟨List.subset_append_left _ _,
    List.subset_append_of_subset_right _ (s.roots_unbind_subset x)⟩

/-- Binding what another name stands for adds no roots. -/
theorem roots_copy_subset (hx : s.lookup x = .ok b) (y : String) :
    (Session.bind y b s).roots ⊆ s.roots := by
  have howned : b.built.owned ⊆ s.roots := fun c hc =>
    List.mem_flatMap.2 ⟨_, mem_names_of_lookup hx, hc⟩
  exact List.Subset.trans (s.roots_bind_subset y b)
    (List.append_subset.2 ⟨howned, List.Subset.refl _⟩)

/-- Whatever a step changes, what names own is alive, and so is what living cells own. -/
theorem Changes.sound {step : Step} (h : s.Changes step mid) (hs : s.store.Sound s.roots) :
    mid.store.Sound mid.roots := by
  have hdeclared : s.store.declare.Sound s.roots := hs.declare
  cases h with
  | declare x =>
    have hnew : ∀ c ∈ [s.store.next], s.store.declare.Alive c :=
      List.forall_mem_singleton.2 (Store.alive_declare s.store)
    exact (hdeclared.append hnew).anti (roots_bind_subset _ _ _)
  | @define x recipe b store r hbuild hx hreaches hundefined =>
    have hbuilt := recipe.build_sound s.builtNames_ownedIn hs hbuild
    have howned : ∀ c ∈ b.owned, store.Alive c := fun c hc =>
      hbuilt.roots c (List.mem_append_left _ hc)
    exact (hbuilt.write howned r.cell).anti (List.subset_append_right _ _)
  | @bind x recipe b store hbuild =>
    have hbuilt := recipe.build_sound s.builtNames_ownedIn hs hbuild
    exact hbuilt.anti (roots_bind_subset { s with store := store } x (.grammar b))
  | @recursive x handle recipe b store hbuild =>
    have hopened : (s.opened handle).store.Sound (s.opened handle).roots :=
      hdeclared.anti (roots_bind_subset _ handle _)
    have hbuilt := recipe.build_sound (s.opened handle).builtNames_ownedIn hopened hbuild
    have howned : ∀ c ∈ b.owned, store.Alive c := fun c hc =>
      hbuilt.roots c (List.mem_append_left _ hc)
    have hkeeps : s.store.declare.Keeps store := (recipe.build_grown hbuild).keeps
    have hself : ∀ c ∈ [s.store.next], (store.write s.store.next b).Alive c :=
      List.forall_mem_singleton.2
        (Store.alive_write_iff.2 (hkeeps.alive (Store.alive_declare s.store)))
    have hwritten := (hbuilt.write howned s.store.next).anti (List.subset_append_right _ _)
    exact (hwritten.append hself).anti
      (roots_bind_subset { s.opened handle with store := store.write s.store.next b } x _)
  | copy hx => exact hs.anti (roots_copy_subset hx _)
  | drop hx => exact hs.anti (s.roots_unbind_subset _)

theorem Becomes.sound (h : Session.empty.Becomes s) : s.store.Sound s.roots :=
  h.invariant (I := fun s => s.store.Sound s.roots) .empty
    (fun hs hchange => (hchange.sound hs).release) fun _ hs => hs

/-- Once cells have been let go of, all that live have an owner. -/
theorem Becomes.accounted (h : Session.empty.Becomes s) : s.store.Accounted s.roots :=
  h.invariant (I := fun s => s.store.Accounted s.roots) .empty
    (fun _ _ => Store.accounted_release _ _) fun _ hs => hs

/-- A change that declares and defines no cells puts those that it makes in front. -/
theorem Changes.ordered {step : Step} (h : s.Changes step mid) (hdeclare : ∀ x, step ≠ .declare x)
    (hdefine : ∀ x recipe, step ≠ .define x recipe) {cs : List CellId}
    (hs : s.store.Ordered s.roots cs) : ∃ new, mid.store.Ordered mid.roots (new ++ cs) := by
  cases h with
  | declare x => exact absurd rfl (hdeclare x)
  | define => exact absurd rfl (hdefine _ _)
  | @bind x recipe b store hbuild =>
    obtain ⟨new, hbuilt⟩ := recipe.build_ordered s.builtNames_ownedIn hs hbuild
    exact ⟨new, hbuilt.anti (roots_bind_subset { s with store := store } x (.grammar b))⟩
  | @recursive x handle recipe b store hbuild =>
    have hopened : (s.opened handle).store.Ordered (s.opened handle).roots cs :=
      hs.declare.anti (roots_bind_subset _ handle _)
    obtain ⟨new, hbuilt⟩ := recipe.build_ordered (s.opened handle).builtNames_ownedIn hopened hbuild
    -- The recipe leaves the cell that was declared for it as it is.
    have hkeeps : s.store.declare.Keeps store := (recipe.build_grown hbuild).keeps
    have hself : store.cell? s.store.next = some ⟨none, true⟩ :=
      hkeeps _ _ (Store.cell?_declare_self s.store)
    have hundefined : store.definition? s.store.next = none := by
      rw [Store.definition?, hself]
      rfl
    have hwritten := hbuilt.write (Store.lt_next_of_cell? hself) hundefined
      (List.subset_append_left b.owned _)
    refine ⟨s.store.next :: new, hwritten.anti ?_⟩
    have hroots := roots_bind_subset
      { s.opened handle with store := store.write s.store.next b } x (.cell (.owner s.store.next))
    exact List.Subset.trans hroots
      (List.cons_subset_cons _ (List.subset_append_right b.owned _))
  | copy hx => exact ⟨[], hs.anti (roots_copy_subset hx _)⟩
  | drop hx => exact ⟨[], hs.anti (s.roots_unbind_subset _)⟩

theorem step_ordered {limits : Limits} {step : Step} {answer : Answer}
    (h : s.step limits step = some (answer, s')) (hdeclare : ∀ x, step ≠ .declare x)
    (hdefine : ∀ x recipe, step ≠ .define x recipe) {cs : List CellId}
    (hs : s.store.Ordered s.roots cs) : ∃ new, s'.store.Ordered s'.roots (new ++ cs) := by
  refine step_invariant (I := fun s => ∃ new, s.store.Ordered s.roots (new ++ cs)) h ⟨[], hs⟩
    (fun hchange => ?_) fun _ => ⟨[], hs⟩
  obtain ⟨new, hmid⟩ := hchange.ordered hdeclare hdefine hs
  exact ⟨new, hmid.release⟩

/-- Where all cells are those of recursive parsers, they stand in a line. -/
theorem Knotted.ordered (h : s.Knotted) : ∃ cs, s.store.Ordered s.roots cs := by
  induction h with
  | empty => exact ⟨[], .empty, List.nil_subset _⟩
  | step _ hdeclare hdefine hstep ih =>
    obtain ⟨cs, hs⟩ := ih
    obtain ⟨new, hs'⟩ := step_ordered hstep hdeclare hdefine hs
    exact ⟨new ++ cs, hs'⟩

/-- A handle whose cell can be reached is not orphaned when a definition is given through it. -/
theorem Becomes.define_ne_orphaned (h : Session.empty.Becomes s) {r : Reference}
    (hx : s.lookup x = .ok (.cell r)) (hr : s.store.Reachable s.roots r.cell) (recipe : Recipe) :
    s.define x recipe ≠ .error .orphaned := by
  intro hdefine
  have hcell : s.lookupCell x = .ok r := by rw [lookupCell, hx]
  rw [define] at hdefine
  split at hdefine
  · next m hbuild =>
    cases hdefine
    obtain ⟨y, hy⟩ := recipe.build_onlyUnbound s.builtNames s.store .orphaned hbuild
    cases hy
  · next b store hbuild =>
    have hkeeps := (recipe.build_grown hbuild).keeps
    have hreaches : store.reaches r = true := (hkeeps.alive (h.sound.alive hr)).reaches
    simp only [hcell, Store.define, hreaches, if_true] at hdefine
    split at hdefine
    · next m hm =>
      cases hdefine
      split at hm <;> cases hm
    · cases hdefine

end Session

-- ============================================================================
-- Runs
-- ============================================================================

/-- What symbols stand for, with the cells that the parsers being run own.  Those of the definition
    of a cell are added while it is run, and so are those of the parser made for a rule. -/
def Rules.tracked (rules : Rules) : Rulebook Symbol Holding where
  resolve := fun
    | s, .element => .ok (Markup.element .element, s)
    | ⟨store, held⟩, .rule name =>
      match rules.make name store with
      | .error m => .error m
      | .ok (b, store) => .ok (b.grammar, ⟨store, b.owned ++ held⟩)
    | ⟨store, held⟩, .cell r =>
      match store.resolve r with
      | .error m => .error m
      | .ok b => .ok (b.grammar, ⟨store, b.owned ++ held⟩)

/-- While what was built is run on the input, heard or not, the reference is used there: in a store,
    and while the parsers that are being run own some cells. -/
def Built.Uses (b : Built) (rules : Rules) (limits : Limits) (store : Store) (heard : Bool)
    (inp : Input) (r : Reference) (there : Holding) : Prop :=
  ∃ left loud place traces,
    rules.tracked.Meets limits.attempts (.symbol (.cell r : Symbol Value)) (left + 1) there loud
      place traces limits.nesting heard ⟨store, b.owned⟩ b.grammar inp

/-- How a symbol is found while owners are tracked. -/
inductive Rules.Found (rules : Rules) (s : Holding) :
    {α : Type} → Symbol α → Grammar Symbol α → Holding → Prop
  | element : Found rules s .element (Markup.element .element) s
  | rule {name : String} {recipe : Recipe} {b : Built} {store : Store}
      (hbuild : recipe.build [] s.store = .ok (b, store)) :
      Found rules s (.rule name) b.grammar ⟨store, b.owned ++ s.held⟩
  | cell {r : Reference} {b : Built} (hr : s.store.resolve r = .ok b) :
      Found rules s (.cell r) b.grammar ⟨s.store, b.owned ++ s.held⟩

variable {rules : Rules} {s s' : Holding} {roots : List CellId} {α : Type} {n : Symbol α}
  {g : Grammar Symbol α}

theorem Rules.found (h : rules.tracked.resolve s n = .ok (g, s')) : rules.Found s n g s' := by
  cases n with
  | element =>
    cases h
    exact .element
  | rule name =>
    simp only [tracked] at h
    split at h
    · cases h
    · next b store hmake =>
      cases h
      rw [make] at hmake
      split at hmake
      · cases hmake
      · exact .rule hmake
  | cell r =>
    simp only [tracked] at h
    split at h
    · cases h
    · next b hr =>
      cases h
      exact .cell hr

/-- Making a rule is no use of a cell. -/
theorem Rules.make_onlyUnbound (rules : Rules) (name : String) :
    (rules.make name).OnlyUnbound := by
  intro store m h
  rw [make] at h
  split at h
  · cases h
    exact ⟨name, rfl⟩
  · next recipe hlookup => exact recipe.build_onlyUnbound [] store m h

/-- Tracking owners changes nothing about a run. -/
theorem Rules.tracked_parser (rules : Rules) (limits : Limits) (s : Holding)
    (g : Grammar Symbol α) :
    rules.tracked.parser limits s g = rules.rulebook.parser limits s.store g := by
  have hself {α : Type} (s : Holding) (g : Grammar Symbol α) : Grammar.Alike
      (fun α (n m : Symbol α) => s.store = s.store ∧ n = m) g g :=
    Grammar.Over.alike (fun _ _ => ⟨rfl, rfl⟩)
      (Grammar.over_of_has (S := fun _ => True) fun _ _ => trivial)
  have hagrees : rules.tracked.Agrees rules.rulebook
      fun s store _ n m => s.store = store ∧ n = m := by
    rintro α s store n m ⟨rfl, rfl⟩
    rw [rules.rulebook_eq]
    cases n with
    | element => exact .inr ⟨_, s, _, s.store, rfl, rfl, hself s _⟩
    | rule name =>
      cases hmake : rules.make name s.store with
      | error m =>
        refine .inl ⟨m, ?_, ?_⟩
        · simp only [tracked, hmake]
        · simp only [Rulebook.making, hmake]
      | ok built =>
        refine .inr ⟨built.1.grammar, ⟨built.2, built.1.owned ++ s.held⟩, built.1.grammar, built.2,
          ?_, ?_, hself ⟨built.2, built.1.owned ++ s.held⟩ _⟩
        · simp only [tracked, hmake]
        · simp only [Rulebook.making, hmake]
    | cell r =>
      cases hr : s.store.resolve r with
      | error m =>
        refine .inl ⟨m, ?_, ?_⟩
        · simp only [tracked, hr]
        · simp only [Rulebook.making, hr]
      | ok b =>
        refine .inr ⟨b.grammar, ⟨s.store, b.owned ++ s.held⟩, b.grammar, s.store, ?_, ?_,
          hself ⟨s.store, b.owned ++ s.held⟩ _⟩
        · simp only [tracked, hr]
        · simp only [Rulebook.making, hr]
  exact hagrees.parser_eq limits (hself s g)

namespace Holding

/-- While a run goes on: what the names of the session and the parsers being run own is alive, so is
    what living cells own, and owners stand nowhere but where their cells are owned. -/
structure Sound (s : Holding) (roots : List CellId) : Prop where
  store : s.store.Sound (s.held ++ roots)
  definitions : s.store.All Kind.covered

/-- Beside that, all living cells have an owner, and the cells stand in a line. -/
structure Ordered (s : Holding) (roots : List CellId) : Prop extends s.Sound roots where
  accounted : s.store.Accounted (s.held ++ roots)
  ordered : ∃ cs, s.store.Ordered (s.held ++ roots) cs

theorem Sound.alive (h : s.Sound roots) {r : Reference} (hr : r.owned ⊆ s.held)
    (hreaches : s.store.reaches r = true) : s.store.Alive r.cell :=
  h.store.alive_of_reaches (List.subset_append_of_subset_left _ hr) hreaches

/-- Whatever is found, the run stays sound. -/
theorem Sound.found (h : s.Sound roots) (hn : n.CoveredBy s.held) (hfound : rules.Found s n g s') :
    s'.Sound roots ∧ g.CoveredBy s'.held := by
  cases hfound with
  | element => exact ⟨h, Piece.element.grammar_coveredBy⟩
  | @rule name recipe b store hbuild =>
    have hstore := recipe.build_sound (List.forall_mem_nil _) h.store hbuild
    obtain ⟨hb, hdefinitions⟩ := recipe.build_covered [] Names.all_nil _ _ _ h.definitions hbuild
    rw [← List.append_assoc] at hstore
    exact ⟨⟨hstore, hdefinitions⟩, Grammar.CoveredBy.mono hb (List.subset_append_left _ _)⟩
  | @cell r b hr =>
    obtain ⟨hreaches, hdefinition⟩ := Store.resolve_inv hr
    have hdefined : s.store.Defined r.cell b := (h.alive hn hreaches).defined hdefinition
    have howned : ∀ c ∈ b.owned, s.store.Alive c := h.store.owned _ _ hdefined
    have hstore := h.store.append howned
    rw [← List.append_assoc] at hstore
    exact ⟨⟨hstore, h.definitions⟩,
      Grammar.CoveredBy.mono (h.definitions _ _ hdefinition) (List.subset_append_left _ _)⟩

/-- Whatever is found, the cells stay in order. -/
theorem Ordered.found (h : s.Ordered roots) (hn : n.CoveredBy s.held)
    (hfound : rules.Found s n g s') : s'.Ordered roots := by
  have hsound := (h.toSound.found hn hfound).1
  obtain ⟨cs, hcs⟩ := h.ordered
  cases hfound with
  | element => exact h
  | @rule name recipe b store hbuild =>
    have haccounted := h.accounted.grown (recipe.build_grown hbuild)
    obtain ⟨new, hnew⟩ := recipe.build_ordered (List.forall_mem_nil _) hcs hbuild
    rw [← List.append_assoc] at haccounted hnew
    exact ⟨hsound, haccounted, new ++ cs, hnew⟩
  | @cell r b hr =>
    have haccounted := h.accounted.mono (List.subset_append_right b.owned _)
    have howned := hcs.owned (Store.resolve_inv hr).2
    rw [← List.append_assoc] at haccounted howned
    exact ⟨hsound, haccounted, cs, howned⟩

/-- What can be reached is not orphaned. -/
theorem Sound.resolve_ne_orphaned (h : s.Sound roots) {r : Reference}
    (hr : s.store.Reachable (s.held ++ roots) r.cell) : s.store.resolve r ≠ .error .orphaned := by
  intro horphaned
  have hreaches := (h.store.alive hr).reaches
  rw [Store.resolve_eq_orphaned_iff, hreaches] at horphaned
  exact nomatch horphaned

/-- Where the cells stand in order, nothing else is not. -/
theorem Ordered.resolve_eq_orphaned_iff (h : s.Ordered roots) {r : Reference}
    (hr : r.owned ⊆ s.held) :
    s.store.resolve r = .error .orphaned ↔ ¬ s.store.Reachable (s.held ++ roots) r.cell := by
  refine ⟨fun horphaned hreachable => h.resolve_ne_orphaned hreachable horphaned, fun hr' => ?_⟩
  rw [Store.resolve_eq_orphaned_iff]
  refine Bool.eq_false_iff.2 fun hreaches => hr' ?_
  obtain ⟨cs, hcs⟩ := h.ordered
  exact hcs.written.reachable h.accounted (h.alive hr hreaches)

end Holding

namespace Built.Uses

variable {b : Built} {limits : Limits} {store : Store} {heard : Bool} {inp : Input}
  {r : Reference} {there : Holding}

theorem sound (h : b.Uses rules limits store heard inp r there) (hb : Kind.covered b)
    (hs : Holding.Sound ⟨store, b.owned⟩ roots) : there.Sound roots ∧ r.owned ⊆ there.held := by
  obtain ⟨left, loud, place, traces, hmeets⟩ := h
  refine hmeets.holds (S := fun s _ n => s.Sound roots ∧ n.CoveredBy s.held) ?_
    (Grammar.Over.mono (fun _ _ => trivial) (fun _ hn => ⟨hs, hn⟩) hb)
  rintro α s s' n g ⟨hs, hn⟩ hresolve
  obtain ⟨hs', hg⟩ := hs.found hn (rules.found hresolve)
  exact Grammar.Over.mono (fun _ _ => trivial) (fun _ hn => ⟨hs', hn⟩) hg

theorem ordered (h : b.Uses rules limits store heard inp r there) (hb : Kind.covered b)
    (hs : Holding.Ordered ⟨store, b.owned⟩ roots) : there.Ordered roots := by
  obtain ⟨left, loud, place, traces, hmeets⟩ := h
  refine (hmeets.holds (S := fun s _ n => s.Ordered roots ∧ n.CoveredBy s.held) ?_
    (Grammar.Over.mono (fun _ _ => trivial) (fun _ hn => ⟨hs, hn⟩) hb)).1
  rintro α s s' n g ⟨hs, hn⟩ hresolve
  have hfound := rules.found hresolve
  obtain ⟨-, hg⟩ := hs.toSound.found hn hfound
  exact Grammar.Over.mono (fun _ _ => trivial) (fun _ hn' => ⟨hs.found hn hfound, hn'⟩) hg

end Built.Uses

/-- A run is given up for an orphaned cell exactly if it uses a reference to one. -/
theorem Built.aborts_orphaned_iff {b : Built} {limits : Limits} {store : Store} {heard : Bool}
    {inp : Input} :
    (rules.tracked.recorder limits ⟨store, b.owned⟩ b.grammar heard).Aborts .orphaned inp ↔
      ∃ r there, b.Uses rules limits store heard inp r there ∧
        there.store.resolve r = .error .orphaned := by
  refine Rulebook.aborts_iff_givesUp.trans ⟨?_, ?_⟩
  · rintro ⟨traces, β, part, left, there, loud, place, hmeets, hrefuses⟩
    cases hrefuses with
    | @symbol _ left _ _ _ n _ hmisuse =>
      cases n with
      | element => exact nomatch hmisuse
      | rule name =>
        simp only [Rules.tracked] at hmisuse
        split at hmisuse
        · next m hmake =>
          cases hmisuse
          obtain ⟨x, hx⟩ := rules.make_onlyUnbound name there.store .orphaned hmake
          exact nomatch hx
        · exact nomatch hmisuse
      | cell r =>
        refine ⟨r, there, ⟨left, loud, place, traces, hmeets⟩, ?_⟩
        simp only [Rules.tracked] at hmisuse
        split at hmisuse
        · next m hm =>
          cases hmisuse
          exact hm
        · exact nomatch hmisuse
  · rintro ⟨r, there, ⟨left, loud, place, traces, hmeets⟩, horphaned⟩
    refine ⟨traces, Value, _, left + 1, there, loud, place, hmeets, .symbol ?_⟩
    simp only [Rules.tracked, horphaned]

namespace Session

variable {s : Session} {recipe : Recipe} {b : Built} {store : Store}

theorem Becomes.covered (h : Session.empty.Becomes s) : s.All Kind.covered :=
  h.all Kind.covered_cell Step.builds_covered all_empty

/-- A run starts from a sound store, and holds what its parser owns. -/
theorem Becomes.built (h : Session.empty.Becomes s) (hbuild : s.build recipe = .ok (b, store)) :
    Kind.covered b ∧ Holding.Sound ⟨store, b.owned⟩ s.roots := by
  obtain ⟨hb, hdefinitions⟩ := h.covered.build recipe.build_covered hbuild
  exact ⟨hb, recipe.build_sound s.builtNames_ownedIn h.sound hbuild, hdefinitions⟩

theorem Knotted.built (h : s.Knotted) (hbuild : s.build recipe = .ok (b, store)) :
    Holding.Ordered ⟨store, b.owned⟩ s.roots := by
  obtain ⟨cs, hcs⟩ := h.ordered
  obtain ⟨new, hnew⟩ := recipe.build_ordered s.builtNames_ownedIn hcs hbuild
  exact ⟨(h.becomes.built hbuild).2, h.becomes.accounted.grown (recipe.build_grown hbuild),
    new ++ cs, hnew⟩

/-- A run is answered as orphaned exactly if it uses a reference to an orphaned cell. -/
theorem run_orphaned_iff {limits : Limits} {mode : Mode} {inp : Input} :
    (s.run limits mode recipe inp).map Prod.fst = some (.misused .orphaned) ↔
      ∃ b store r there, s.build recipe = .ok (b, store) ∧
        b.Uses [] limits store (mode.listens s.scopes) inp r there ∧
        there.store.resolve r = .error .orphaned := by
  cases hbuild : s.build recipe with
  | error m =>
    -- What cannot be built is not run.
    obtain ⟨x, rfl⟩ := recipe.build_onlyUnbound s.builtNames s.store m hbuild
    rw [run, hbuild]
    refine iff_of_false (fun h => by cases h) ?_
    rintro ⟨b, store, r, there, h, -⟩
    cases h
  | ok built =>
    obtain ⟨b, store⟩ := built
    let recorder := (Rules.tracked []).recorder limits ⟨store, b.owned⟩ b.grammar
    have hrecords : (b.parser [] limits store).Records recorder := by
      rw [Built.parser, ← Rules.tracked_parser [] limits ⟨store, b.owned⟩ b.grammar]
      exact Rulebook.parser_records _ _ _ _
    rw [run_answer hbuild hrecords, Recorder.answer_eq_misused_iff, Built.aborts_orphaned_iff]
    constructor
    · rintro ⟨r, there, huses, horphaned⟩
      exact ⟨b, store, r, there, rfl, huses, horphaned⟩
    · rintro ⟨b', store', r, there, hsame, huses, horphaned⟩
      cases hsame
      exact ⟨r, there, huses, horphaned⟩

end Session

-- ============================================================================
-- Handles
-- ============================================================================

/-- Handles can be used exactly as long as an owner can be reached.  In every session, wherever a
    run uses a reference whose cell can be reached from the names and from the parsers that are
    being run at that moment, the reference is not orphaned; so a run that is answered as orphaned
    has used one whose cell cannot be reached.  Nor is a definition orphaned that is given through a
    name for a cell that can be reached.

    Where all cells are those of recursive parsers, the defined ones stand in a line, newest first,
    in which each owns none but cells behind it; every step puts the cells it defines in front, and
    no cell owns itself by however many steps.  There a reference is orphaned exactly if its cell
    cannot be reached, and a run is answered as orphaned exactly if it uses such a reference. -/
theorem handles_live_while_owned :
    (∀ (rules : Rules) (limits : Limits) (store : Store) (b : Built),
      rules.tracked.parser limits ⟨store, b.owned⟩ b.grammar = b.parser rules limits store) ∧
    (∀ s : Session, Session.empty.Becomes s →
      (∀ (recipe : Recipe) (b : Built) (store : Store) (rules : Rules) (limits : Limits)
        (heard : Bool) (inp : Input) (r : Reference) (there : Holding),
        s.build recipe = .ok (b, store) → b.Uses rules limits store heard inp r there →
        there.store.Reachable (there.held ++ s.roots) r.cell →
        there.store.resolve r ≠ .error .orphaned) ∧
      (∀ (limits : Limits) (mode : Mode) (recipe : Recipe) (inp : Input),
        (s.run limits mode recipe inp).map Prod.fst = some (.misused .orphaned) →
        ∃ b store r there, s.build recipe = .ok (b, store) ∧
          b.Uses [] limits store (mode.listens s.scopes) inp r there ∧
          ¬ there.store.Reachable (there.held ++ s.roots) r.cell) ∧
      ∀ (x : String) (r : Reference) (recipe : Recipe), s.lookup x = .ok (.cell r) →
        s.store.Reachable s.roots r.cell → s.define x recipe ≠ .error .orphaned) ∧
    (∀ s : Session, s.Knotted →
      (∃ cs, s.store.Line cs ∧ (∀ c, ¬ Relation.TransGen s.store.Owns c c) ∧
        ∀ (limits : Limits) (step : Step) (answer : Answer) (s' : Session),
          (∀ x, step ≠ .declare x) → (∀ x recipe, step ≠ .define x recipe) →
          s.step limits step = some (answer, s') → ∃ new, s'.store.Line (new ++ cs)) ∧
      (∀ (recipe : Recipe) (b : Built) (store : Store) (rules : Rules) (limits : Limits)
        (heard : Bool) (inp : Input) (r : Reference) (there : Holding),
        s.build recipe = .ok (b, store) → b.Uses rules limits store heard inp r there →
        (∃ cs, there.store.Line cs) ∧
        (there.store.resolve r = .error .orphaned ↔
          ¬ there.store.Reachable (there.held ++ s.roots) r.cell)) ∧
      ∀ (limits : Limits) (mode : Mode) (recipe : Recipe) (inp : Input),
        (s.run limits mode recipe inp).map Prod.fst = some (.misused .orphaned) ↔
        ∃ b store r there, s.build recipe = .ok (b, store) ∧
          b.Uses [] limits store (mode.listens s.scopes) inp r there ∧
          ¬ there.store.Reachable (there.held ++ s.roots) r.cell) := by
  refine ⟨?_, ?_, ?_⟩
  · exact fun rules limits store b => rules.tracked_parser limits ⟨store, b.owned⟩ b.grammar
  · intro s hs
    have husable {recipe : Recipe} {b : Built} {store : Store} {rules : Rules} {limits : Limits}
        {heard : Bool} {inp : Input} {r : Reference} {there : Holding}
        (hbuild : s.build recipe = .ok (b, store))
        (huses : b.Uses rules limits store heard inp r there)
        (hr : there.store.Reachable (there.held ++ s.roots) r.cell) :
        there.store.resolve r ≠ .error .orphaned := by
      obtain ⟨hb, hstart⟩ := hs.built hbuild
      exact (huses.sound hb hstart).1.resolve_ne_orphaned hr
    refine ⟨?_, ?_, ?_⟩
    · exact fun recipe b store rules limits heard inp r there hbuild huses hr =>
        husable hbuild huses hr
    · intro limits mode recipe inp hrun
      obtain ⟨b, store, r, there, hbuild, huses, horphaned⟩ := Session.run_orphaned_iff.1 hrun
      exact ⟨b, store, r, there, hbuild, huses, fun hr => husable hbuild huses hr horphaned⟩
    · exact fun x r recipe hx hr => hs.define_ne_orphaned hx hr recipe
  · intro s hs
    have horphaned {recipe : Recipe} {b : Built} {store : Store} {rules : Rules} {limits : Limits}
        {heard : Bool} {inp : Input} {r : Reference} {there : Holding}
        (hbuild : s.build recipe = .ok (b, store))
        (huses : b.Uses rules limits store heard inp r there) :
        there.Ordered s.roots ∧ (there.store.resolve r = .error .orphaned ↔
          ¬ there.store.Reachable (there.held ++ s.roots) r.cell) := by
      obtain ⟨hb, hstart⟩ := hs.becomes.built hbuild
      have hthere := huses.ordered hb (hs.built hbuild)
      exact ⟨hthere, hthere.resolve_eq_orphaned_iff (huses.sound hb hstart).2⟩
    refine ⟨?_, ?_, ?_⟩
    · obtain ⟨cs, hcs⟩ := hs.ordered
      refine ⟨cs, hcs.written.line, fun c => hcs.written.not_owns_self, ?_⟩
      intro limits step answer s' hdeclare hdefine hstep
      obtain ⟨new, hnew⟩ := Session.step_ordered hstep hdeclare hdefine hcs
      exact ⟨new, hnew.written.line⟩
    · intro recipe b store rules limits heard inp r there hbuild huses
      obtain ⟨hthere, hiff⟩ := horphaned hbuild huses
      obtain ⟨cs, hcs⟩ := hthere.ordered
      exact ⟨⟨cs, hcs.written.line⟩, hiff⟩
    · intro limits mode recipe inp
      rw [Session.run_orphaned_iff]
      constructor
      · rintro ⟨b, store, r, there, hbuild, huses, hmisuse⟩
        exact ⟨b, store, r, there, hbuild, huses, (horphaned hbuild huses).2.1 hmisuse⟩
      · rintro ⟨b, store, r, there, hbuild, huses, hr⟩
        exact ⟨b, store, r, there, hbuild, huses, (horphaned hbuild huses).2.2 hr⟩

/-- Nested brackets, of which a handle has been kept and a copy is left. -/
def copiedBrackets : List Step :=
  [.recursive "x" "h" (.joined .or (.between (.named "h") (.piece (.char '(')) (.piece (.char ')')))
      (.piece .empty)),
    .copy "y" "x", .drop "x"]

/-- The copy keeps the brackets alive, inside which the handle is used; once it is lost too, the
    handle is orphaned. -/
theorem brackets_live_while_owned :
    ∃ s s', Session.empty.after ⟨9, 9⟩ copiedBrackets = some s ∧
      s.step ⟨9, 9⟩ (.drop "y") = some (.done, s') ∧
      (Rules.tracked []).parser ⟨9, 9⟩ ⟨s.store, [0]⟩ (Reference.owner 0).built.grammar =
        (Reference.owner 0).built.parser [] ⟨9, 9⟩ s.store ∧
      s.store.resolve (.handle 0) ≠ .error .orphaned ∧
      s.define "h" (.piece .any) ≠ .error .orphaned ∧
      (∃ cs new, s.store.Line cs ∧ s'.store.Line (new ++ cs)) ∧
      s'.store.resolve (.handle 0) = .error .orphaned ∧
      (s'.run ⟨9, 9⟩ .parse (.named "h") (.ofString "()")).map Prod.fst =
        some (.misused .orphaned) ∧
      ∃ b store r there, s'.build (.named "h") = .ok (b, store) ∧
        b.Uses [] ⟨9, 9⟩ store (Mode.parse.listens s'.scopes) (.ofString "()") r there ∧
        ¬ there.store.Reachable (there.held ++ s'.roots) r.cell := by
  obtain ⟨htracked, hsessions, hknots⟩ := handles_live_while_owned
  obtain ⟨s, s', hs, hs', hdrop, hroots, hroots', hx, hbuild, hbuild', hinside⟩ : ∃ s s',
      Session.empty.after ⟨9, 9⟩ copiedBrackets = some s ∧
      s.after ⟨9, 9⟩ [.drop "y"] = some s' ∧ s.step ⟨9, 9⟩ (.drop "y") = some (.done, s') ∧
      s.roots = [0] ∧ s'.roots = [] ∧ s.lookup "h" = .ok (.cell (.handle 0)) ∧
      s.build (.named "y") = .ok ((Reference.owner 0).built, s.store) ∧
      s'.build (.named "h") = .ok ((Reference.handle 0).built, s'.store) ∧
      (Reference.owner 0).built.Uses [] ⟨9, 9⟩ s.store false (.ofString "()") (.handle 0)
        ⟨s.store, [0]⟩ := by
    refine ⟨_, _, rfl, rfl, rfl, rfl, rfl, rfl, rfl, rfl, 7, false, .ofString ")", 0,
      .inside .here rfl (.here ?_)⟩
    -- Behind the opening bracket.
    exact .orLeft (.next rfl (.first .here))
  have hknotted : s.Knotted := Session.Knotted.empty.after (by simp [copiedBrackets]) hs
  have hknotted' : s'.Knotted := hknotted.after (by simp) hs'
  obtain ⟨husable, -, hdefine⟩ := hsessions s hknotted.becomes
  obtain ⟨-, horphaned, hrun⟩ := hknots s' hknotted'
  -- The handle is used at once, where nothing can be reached any more.
  have hstart : (Reference.handle 0).built.Uses [] ⟨9, 9⟩ s'.store (Mode.parse.listens s'.scopes)
      (.ofString "()") (.handle 0) ⟨s'.store, []⟩ := ⟨8, _, .ofString "()", 0, .here .here⟩
  have hlost : ¬ s'.store.Reachable ([] ++ s'.roots) 0 := by
    rw [hroots']
    exact Store.not_reachable_nil
  have hgivenUp : (s'.run ⟨9, 9⟩ .parse (.named "h") (.ofString "()")).map Prod.fst =
      some (.misused .orphaned) :=
    (hrun _ _ _ _).2 ⟨_, _, _, _, hbuild', hstart, hlost⟩
  refine ⟨s, s', hs, hdrop, htracked [] ⟨9, 9⟩ s.store (Reference.owner 0).built, ?_, ?_, ?_, ?_,
    hgivenUp, ?_⟩
  · exact husable _ _ _ _ _ _ _ _ _ hbuild hinside (.root List.mem_cons_self)
  · refine hdefine "h" (.handle 0) _ hx (.root ?_)
    rw [hroots]
    exact List.mem_singleton_self 0
  · obtain ⟨⟨cs, hcs, -, hnext⟩, -⟩ := hknots s hknotted
    obtain ⟨new, hnew⟩ := hnext ⟨9, 9⟩ (.drop "y") .done s' nofun nofun hdrop
    exact ⟨cs, new, hcs, hnew⟩
  · exact (horphaned _ _ _ _ _ _ _ _ _ hbuild' hstart).2.2 hlost
  · exact (hsessions s' hknotted'.becomes).2.1 _ _ _ _ hgivenUp

-- Declared cells may own each other: these two stay alive when no name owns anything any more, and
-- the handle can still be used.
example : ∃ s, Session.empty.after ⟨9, 9⟩ [.declare "d", .recursive "x" "h" (.named "d"),
      .define "d" (.named "x"), .drop "x", .drop "d"] = some s ∧
    s.roots = [] ∧ s.store.reaches (.handle 1) = true :=
  ⟨_, rfl, rfl, rfl⟩

end Descent
