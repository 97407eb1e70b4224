/-
  Descent.Proofs.Kinds

  Kinds of grammars.  Building, binding and defining hand on what was built before, so if references
  to cells are of a kind, and each description is built into something of that kind wherever
  everything around is, then whatever the names of a session stand for and whatever its cells are
  defined as is of the kind.  What a session or a list of inputs is answered with then comes of
  starting something of that kind.

  There is one lemma for each way of changing a store, for each step of building, for looking up a
  symbol and for what a step of a session changes.  Which descriptions are built into which kind is
  settled where the kind is defined.
-/
import Descent.Proofs.Building
import Descent.Proofs.Steps

namespace Descent

/-- A kind of what can be built. -/
abbrev Kind := Built → Prop

/-- All names stand for something of the kind. -/
def Names.All (K : Kind) (names : Names) : Prop := ∀ entry ∈ names, K entry.2

/-- All definitions of cells are of the kind. -/
def Store.All (K : Kind) (store : Store) : Prop := ∀ c b, store.definition? c = some b → K b

variable {K : Kind}

theorem Names.all_nil : Names.All K [] := List.forall_mem_nil _

theorem Names.All.lookup {names : Names} (h : names.All K) {x : String} {b : Built}
    (hx : List.lookup x names = some b) : K b :=
  h (x, b) (mem_of_lookup_eq_some hx)

-- ============================================================================
-- Stores
-- ============================================================================

namespace Store

variable {store : Store}

theorem all_empty : Store.empty.All K := by
  intro c b h
  simp [definition?, cell?, Store.empty] at h

namespace All

theorem declare (h : store.All K) : store.declare.All K := by
  intro c b hc
  rw [definition?_declare] at hc
  exact h c b hc

theorem write (h : store.All K) {b : Built} (hb : K b) (c : CellId) : (store.write c b).All K := by
  intro d b' hd
  by_cases hcd : c = d
  · subst hcd
    by_cases hc : c < store.next
    · rw [definition?_write_self hc] at hd
      cases hd
      exact hb
    · rw [Store.write, if_neg hc] at hd
      exact h c b' hd
  · rw [definition?_write_of_ne hcd] at hd
    exact h d b' hd

theorem release (h : store.All K) (roots : List CellId) : (store.release roots).All K := by
  intro c b hc
  rw [definition?_release] at hc
  exact h c b hc

/-- What a reference stands for is the definition of its cell. -/
theorem resolve (h : store.All K) {r : Reference} {b : Built} (hr : store.resolve r = .ok b) :
    K b := by
  rw [Store.resolve] at hr
  split at hr
  · split at hr
    · next hdefinition =>
      cases hr
      exact h _ _ hdefinition
    · cases hr
  · cases hr

end All

end Store

-- ============================================================================
-- Building
-- ============================================================================

/-- Where all definitions are of the kind, what is built satisfies `Q`, and all definitions are of
    the kind again. -/
def Build.Gives {β : Type 1} (K : Kind) (Q : β → Prop) (build : Build β) : Prop :=
  ∀ store b store', store.All K → build store = .ok (b, store') → Q b ∧ store'.All K

/-- Where all names stand for something of the kind, the description is built into something of the
    kind. -/
def Recipe.Builds (K : Kind) (recipe : Recipe) : Prop :=
  ∀ names : Names, names.All K → Build.Gives K K (recipe.build names)

namespace Build.Gives

variable {β γ : Type 1} {Q : β → Prop} {T : γ → Prop}

theorem done {b : β} (h : Q b) : Build.Gives K Q (.done b) := by
  intro store b' store' hstore hdone
  obtain ⟨rfl, rfl⟩ := Build.done_inv hdone
  exact ⟨h, hstore⟩

theorem next {build : Build β} {f : β → Build γ} (h : Build.Gives K Q build)
    (hf : ∀ b, Q b → Build.Gives K T (f b)) : Build.Gives K T (build.next f) := by
  intro store c store' hstore hnext
  obtain ⟨b, mid, hbuild, hf'⟩ := Build.next_inv hnext
  obtain ⟨hb, hmid⟩ := h store b mid hstore hbuild
  exact hf b hb mid c store' hmid hf'

/-- A name gives what it stands for. -/
theorem named {names : Names} (hnames : names.All K) (x : String) :
    Build.Gives K K ((Recipe.named x).build names) := by
  intro store b store' hstore h
  rw [Recipe.build] at h
  split at h
  · next hlookup =>
    obtain ⟨rfl, rfl⟩ := Prod.mk.inj (Except.ok.inj h)
    exact ⟨hnames.lookup hlookup, hstore⟩
  · cases h

/-- A recursive parser is a reference, and so is the handle that its body sees. -/
theorem recursive (hcell : ∀ r : Reference, K r.built) {names : Names} (hnames : names.All K)
    {x : String} {body : Recipe} (hbody : body.Builds K) :
    Build.Gives K K ((Recipe.recursive x body).build names) := by
  intro store b store' hstore h
  obtain ⟨a, mid, hbuild, hwrite⟩ := Build.next_inv h
  obtain ⟨rfl, rfl⟩ := Prod.mk.inj (Except.ok.inj hwrite)
  have hinside : Names.All K ((x, (Reference.handle store.next).built) :: names) :=
    List.forall_mem_cons.2 ⟨hcell _, hnames⟩
  obtain ⟨ha, hmid⟩ := hbody _ hinside store.declare a mid hstore.declare hbuild
  exact ⟨hcell _, hmid.write ha _⟩

end Build.Gives

-- ============================================================================
-- Symbols
-- ============================================================================

/-- The symbol stands for the element of the markup language, or for something of the kind over
    cells of the kind. -/
inductive Symbol.Finds (K : Kind) (store : Store) :
    {α : Type} → Symbol α → Grammar Symbol α → Store → Prop
  | element : Finds K store .element (Markup.element .element) store
  | value {n : Symbol Value} {b : Built} {store' : Store} (hb : K b) (hstore : store'.All K) :
      Finds K store n b.grammar store'

/-- Whatever is looked up, a rule or a cell, is of the kind, if the recipes of rules are built into
    something of the kind. -/
theorem Rules.finds {rules : Rules} (hrules : ∀ rule ∈ rules, rule.2.Builds K)
    {store store' : Store} (hstore : store.All K) {α : Type} {n : Symbol α} {g : Grammar Symbol α}
    (hresolve : rules.rulebook.resolve store n = .ok (g, store')) : n.Finds K store g store' := by
  cases n with
  | element =>
    cases hresolve
    exact .element
  | rule name =>
    simp only [Rules.rulebook] at hresolve
    split at hresolve
    · exact nomatch hresolve
    · next recipe hlookup =>
      split at hresolve
      · exact nomatch hresolve
      · next hbuild =>
        cases hresolve
        have hrecipe : recipe.Builds K := hrules (name, recipe) (mem_of_lookup_eq_some hlookup)
        obtain ⟨hb, hstore'⟩ := hrecipe [] Names.all_nil _ _ _ hstore hbuild
        exact .value hb hstore'
  | cell r =>
    simp only [Rules.rulebook] at hresolve
    split at hresolve
    · exact nomatch hresolve
    · next hcell =>
      cases hresolve
      exact .value (hstore.resolve hcell) hstore

-- ============================================================================
-- Many inputs
-- ============================================================================

/-- A report among the answers to inputs is that of a start on the input. -/
theorem Recipe.runAll_go_start {mode : Mode} {p : Parser Value} {inputs : List Input}
    {scopes : Scopes} {answers : List Answer}
    (h : Recipe.runAll.go mode p inputs scopes = some answers) {i : Nat} {inp : Input}
    {report : Report Value} (hinp : inputs[i]? = some inp)
    (hreport : answers[i]? = some (.ran report)) :
    ∃ before after, p.start mode inp before = some (report, after) := by
  -- Along the inputs; the first answer is that to the first input.
  induction inputs generalizing scopes answers i with
  | nil => exact nomatch hinp
  | cons inp' inputs ih =>
    rw [Recipe.runAll.go] at h
    split at h
    · exact nomatch h
    · obtain ⟨answers, htail, rfl⟩ := Option.map_eq_some_iff.1 h
      cases i with
      | zero => exact nomatch hreport
      | succ i => exact ih htail hinp hreport
    · next report' scopes' _ hrun =>
      obtain ⟨answers, htail, rfl⟩ := Option.map_eq_some_iff.1 h
      cases i with
      | zero =>
        obtain rfl : inp' = inp := Option.some.inj hinp
        obtain rfl : report' = report := Answer.ran.inj (Option.some.inj hreport)
        exact ⟨scopes, scopes', hrun⟩
      | succ i => exact ih htail hinp hreport

/-- A report on one of many inputs comes of starting something of the kind over cells of the
    kind. -/
theorem Recipe.Builds.runAll {recipe : Recipe} (h : recipe.Builds K) {limits : Limits}
    {rules : Rules} {mode : Mode} {inputs : List Input} {answers : List Answer}
    (hrun : recipe.runAll limits rules mode inputs = some answers) {i : Nat} {inp : Input}
    {report : Report Value} (hinp : inputs[i]? = some inp)
    (hreport : answers[i]? = some (.ran report)) :
    ∃ b store before after, K b ∧ store.All K ∧
      (b.parser rules limits store).start mode inp before = some (report, after) := by
  rw [Recipe.runAll] at hrun
  split at hrun
  · -- A recipe that cannot be built is not run at all.
    obtain rfl := Option.some.inj hrun
    rw [List.getElem?_map, hinp] at hreport
    exact nomatch hreport
  · next b store hbuild =>
    obtain ⟨hb, hstore⟩ := h [] Names.all_nil _ _ _ Store.all_empty hbuild
    obtain ⟨before, after, hstart⟩ := Recipe.runAll_go_start hrun hinp hreport
    exact ⟨b, store, before, after, hb, hstore, hstart⟩

-- ============================================================================
-- Sessions
-- ============================================================================

/-- The recipe of a step is built into something of the kind. -/
def Step.Builds (K : Kind) : Step → Prop
  | .declare _ => True
  | .define _ recipe => recipe.Builds K
  | .bind _ recipe => recipe.Builds K
  | .recursive _ _ recipe => recipe.Builds K
  | .copy _ _ => True
  | .drop _ => True
  | .run _ recipe _ => recipe.Builds K

namespace Session

variable {s s' mid : Session}

/-- Names stand for something of the kind, and so are the definitions of cells. -/
structure All (K : Kind) (s : Session) : Prop where
  names : s.builtNames.All K
  store : s.store.All K

theorem all_empty : Session.empty.All K := ⟨Names.all_nil, Store.all_empty⟩

namespace All

theorem release (h : s.All K) : s.release.All K := ⟨h.names, h.store.release s.roots⟩

theorem withStore (h : s.All K) {store : Store} (hstore : store.All K) :
    Session.All K { s with store := store } := ⟨h.names, hstore⟩

theorem unbind (h : s.All K) (x : String) : (s.unbind x).All K := by
  refine ⟨fun entry hentry => ?_, h.store⟩
  obtain ⟨e, he, rfl⟩ := List.mem_map.1 hentry
  exact h.names _ (List.mem_map_of_mem (List.mem_filter.1 he |>.1))

theorem bind (h : s.All K) (x : String) {b : Binding} (hb : K b.built) :
    (Session.bind x b s).All K :=
  ⟨List.forall_mem_cons.2 ⟨hb, (h.unbind x).names⟩, h.store⟩

theorem lookup (h : s.All K) {x : String} {b : Binding} (hx : s.lookup x = .ok b) : K b.built :=
  h.names (x, b.built)
    (List.mem_map_of_mem (f := fun entry => (entry.1, entry.2.built)) (mem_names_of_lookup hx))

theorem build (h : s.All K) {recipe : Recipe} (hr : recipe.Builds K) {b : Built} {store : Store}
    (hbuild : s.build recipe = .ok (b, store)) : K b ∧ store.All K :=
  hr s.builtNames h.names s.store b store h.store hbuild

/-! ## Steps -/

/-- Whatever a step changes, names and definitions are of the kind again. -/
theorem changes (h : s.All K) (hcell : ∀ r : Reference, K r.built) {step : Step}
    (hstep : step.Builds K) (hchange : s.Changes step mid) : mid.All K := by
  have hdeclared : Session.All K { s with store := s.store.declare } := h.withStore h.store.declare
  cases hchange with
  | declare x => exact hdeclared.bind x (hcell _)
  | define hbuild hx hreaches hundefined =>
    obtain ⟨hb, hstore⟩ := h.build hstep hbuild
    exact h.withStore (hstore.write hb _)
  | bind hbuild =>
    obtain ⟨hb, hstore⟩ := h.build hstep hbuild
    exact (h.withStore hstore).bind _ hb
  | @recursive x handle recipe b store hbuild =>
    have hopened : (s.opened handle).All K := hdeclared.bind handle (hcell _)
    obtain ⟨hb, hstore⟩ := hopened.build hstep hbuild
    exact (hopened.withStore (hstore.write hb _)).bind x (hcell _)
  | copy hx => exact h.bind _ (h.lookup hx)
  | drop hx => exact h.unbind _

theorem step (h : s.All K) (hcell : ∀ r : Reference, K r.built) {limits : Limits} {step : Step}
    (hstep : step.Builds K) {answer : Answer} (hs : s.step limits step = some (answer, s')) :
    s'.All K :=
  step_invariant hs h (fun hchange => (h.changes hcell hstep hchange).release) fun _ =>
    ⟨h.names, h.store⟩

/-- The report of a run comes of starting something of the kind. -/
theorem report (h : s.All K) {limits : Limits} {mode : Mode} {recipe : Recipe}
    (hr : recipe.Builds K) {inp : Input} {report : Report Value}
    (hs : s.step limits (.run mode recipe inp) = some (.ran report, s')) :
    ∃ b store before after, K b ∧ store.All K ∧
      (b.parser [] limits store).start mode inp before = some (report, after) := by
  rcases run_cases hs with
    ⟨m, -, hanswer, -⟩ | ⟨b, store, report', scopes, hbuild, hstart, hanswer, -⟩
  · exact nomatch hanswer
  · obtain ⟨hb, hstore⟩ := h.build hr hbuild
    obtain rfl : report = report' := Answer.eq_of_ran hanswer
    exact ⟨b, store, _, _, hb, hstore, hstart⟩

/-- Along the steps of a session every report comes of starting something of the kind. -/
theorem answers (h : s.All K) (hcell : ∀ r : Reference, K r.built) {limits : Limits}
    {steps : List Step} (hsteps : ∀ step ∈ steps, step.Builds K) {answers : List Answer}
    (hs : s.answers limits steps = some answers) {i : Nat} {mode : Mode} {recipe : Recipe}
    {inp : Input} {report : Report Value} (hstep : steps[i]? = some (.run mode recipe inp))
    (hreport : answers[i]? = some (.ran report)) :
    ∃ b store before after, K b ∧ store.All K ∧
      (b.parser [] limits store).start mode inp before = some (report, after) := by
  induction steps generalizing s answers i with
  | nil => exact nomatch hstep
  | cons step steps ih =>
    rw [Session.answers] at hs
    split at hs
    · exact nomatch hs
    · next answer s' hfirst =>
      obtain ⟨answers, htail, rfl⟩ := Option.map_eq_some_iff.1 hs
      cases i with
      | zero =>
        obtain rfl := Option.some.inj hstep
        obtain rfl := Option.some.inj hreport
        exact h.report (hsteps _ List.mem_cons_self) hfirst
      | succ i =>
        have hs' := h.step hcell (hsteps step List.mem_cons_self) hfirst
        exact ih hs' (fun step hmem => hsteps step (List.mem_cons_of_mem _ hmem)) htail hstep
          hreport

end All

/-- Where every description is built into something of the kind, so is whatever a session holds. -/
theorem Becomes.all (h : s.Becomes s') (hcell : ∀ r : Reference, K r.built)
    (hbuilds : ∀ step : Step, step.Builds K) (hs : s.All K) : s'.All K :=
  h.invariant hs (fun hs hchange => (hs.changes hcell (hbuilds _) hchange).release) fun _ hs =>
    ⟨hs.names, hs.store⟩

end Session

end Descent
