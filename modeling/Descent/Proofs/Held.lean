/-
  Descent.Proofs.Held

  Well-scoped recursion is never given up.  A handle does not keep its cell alive, so whether it can
  be used is a matter of what else does.  That is stated for a run in which nothing else is alive:
  at each lookup all cells die but those that are kept by what the run holds on to, which is the
  parser it was started with, the cells whose definitions are being run, and the parsers that rules
  were built into for the moment.

  While a cell is run, it and the cells around it are held.  A handle in its definition is one of
  these, and a cell that the definition owns is kept by the cell itself.  What is built for a rule
  stands where the rule is used, so it may use the handles of the cells around as well.  Hence every
  symbol is found, no cell is misused, and the run is the one in which no cell dies.  It may be
  given up for a count of bytes all the same, though not over pieces that leave ends of their input.
-/
import Descent.Proofs.Kept
import Descent.Proofs.Places
import Descent.Proofs.Scoped
import Descent.Proofs.Steady
import Descent.Proofs.Steps
import Descent.Proofs.Tied

namespace Descent

-- ============================================================================
-- What is kept alive
-- ============================================================================

namespace Store

variable {store store' : Store} {rules : List CellId → String → Prop}
  {scope held held' : List CellId}

/-- The cell is held, or owned by the definition of a cell that is kept. -/
inductive Anchored (store : Store) (held : List CellId) : CellId → Prop
  | held {c : CellId} (hc : c ∈ held) : Anchored store held c
  | owned {c d : CellId} {b : Built} (hd : Anchored store held d) (hdefined : store.Defined d b)
      (hc : c ∈ b.owned) : Anchored store held c

/-- A cell that is kept has an owner, as long as the kept cells are what they were. -/
theorem Anchored.hasOwner {c : CellId} (h : store.Anchored held c)
    (hkept : ∀ d b, store.Anchored held d → store.Defined d b → store'.Defined d b) :
    store'.hasOwner held c = true := by
  refine hasOwner_iff.2 ?_
  cases h with
  | held hc => exact .inl hc
  | owned hd hdefined hc => exact .inr ⟨_, _, hkept _ _ hd hdefined, hc⟩

/-- Letting go of cells takes none that is kept. -/
theorem Anchored.release {c : CellId} {b : Built} (h : store.Anchored held c)
    (hc : store.Defined c b) : (store.release held).Defined c b := by
  -- However often it is swept, all kept cells stay what they were in the beginning.
  have key : ∀ n swept, (∀ d b, store.Anchored held d → store.Defined d b → Defined swept d b) →
      ∀ d b, store.Anchored held d → store.Defined d b → (sweeps held n swept).Defined d b := by
    intro n
    induction n with
    | zero => exact fun swept hswept => hswept
    | succ n ih =>
      intro swept hswept
      rw [sweeps]
      split
      · exact hswept
      · refine ih _ fun d b hd hdefined => ?_
        rw [Defined, cell?_sweep, hswept d b hd hdefined, Option.map_some, hd.hasOwner hswept]
        rfl
  exact key store.next store (fun _ _ _ hd => hd) c b h hc

/-- What is nested and kept is nested still when cells have been let go of. -/
theorem Nested.release {c : CellId} (h : store.Nested rules scope c)
    (hc : store.Anchored held c) : (store.release held).Nested rules scope c := by
  induction h with
  | mk hdefined hgrammar _ ih =>
    exact .mk (hc.release hdefined) hgrammar fun d hd => ih d hd (.owned hc hdefined hd)

/-- The cells of a scope, innermost first: each is held, and nested in the ones behind it. -/
def Opened (store : Store) (rules : List CellId → String → Prop) (held : List CellId) :
    List CellId → Prop
  | [] => True
  | c :: scope => c ∈ held ∧ store.Nested rules scope c ∧ store.Opened rules held scope

theorem Opened.mono (h : store.Opened rules held scope) (hheld : held ⊆ held')
    (hdefined : ∀ d b, store.Defined d b → store'.Defined d b) :
    store'.Opened rules held' scope := by
  induction scope with
  | nil => trivial
  | cons c scope ih => exact ⟨hheld h.1, h.2.1.mono hdefined, ih h.2.2⟩

/-- The scope of a cell in it is what is behind the cell. -/
theorem Opened.at {c : CellId} (h : store.Opened rules held scope) (hc : c ∈ scope) :
    ∃ outer, store.Opened rules held (c :: outer) := by
  induction scope with
  | nil => exact absurd hc List.not_mem_nil
  | cons d scope ih =>
    rcases List.mem_cons.1 hc with rfl | hc
    · exact ⟨scope, h⟩
    · exact ih h.2.2 hc

end Store

-- ============================================================================
-- Runs in which nothing else is alive
-- ============================================================================

/-- What symbols stand for where a rule is a build that is done anew whenever the rule is run. -/
def Rulebook.making (make : String → Build Built) : Rulebook Symbol Store where
  resolve := fun
    | store, .element => .ok (Markup.element .element, store)
    | store, .rule name =>
      match make name store with
      | .error m => .error m
      | .ok (b, store) => .ok (b.grammar, store)
    | store, .cell r =>
      match store.resolve r with
      | .error m => .error m
      | .ok b => .ok (b.grammar, store)

/-- Build the recipe of a rule, which sees no names but other rules. -/
def Rules.make (rules : Rules) (name : String) : Build Built := fun store =>
  match rules.lookup name with
  | none => .error (.unbound name)
  | some recipe => recipe.build [] store

theorem Rules.rulebook_eq (rules : Rules) : rules.rulebook = Rulebook.making rules.make := by
  rw [rulebook, Rulebook.making]
  congr 1
  funext α store n
  cases n with
  | element | cell r => rfl
  | rule name =>
    simp only [make]
    cases rules.lookup name <;> rfl

/-- The cells declared so far, and those that a run holds on to. -/
structure Holding : Type 1 where
  store : Store
  held : List CellId

/-- What symbols stand for while nothing is alive but what the run holds on to keeps.  A cell is
    held while its definition is run, and the parser made for a rule while it is run. -/
def Rulebook.holding (make : String → Build Built) : Rulebook Symbol Holding where
  resolve := fun
    | s, .element => .ok (Markup.element .element, s)
    | ⟨store, held⟩, .rule name =>
      match make name store with
      | .error m => .error m
      | .ok (b, store) => .ok (b.grammar, ⟨store, b.owned ++ held⟩)
    | ⟨store, held⟩, .cell r =>
      match (store.release held).resolve r with
      | .error m => .error m
      | .ok b => .ok (b.grammar, ⟨store, r.cell :: held⟩)

-- A cell that is defined by its own handle is kept by nothing else, and here nobody holds it.
example : (Rulebook.holding (Rules.make [])).resolve
    ⟨Store.empty.declare.write 0 (Reference.handle 0).built, []⟩ (.cell (.handle 0)) =
      .error .orphaned := rfl

/-- Inside the cells `scope`, with the cells `owned`: the former are being run, and the latter are
    kept by them and nested in them. -/
structure Holding.Inside (s : Holding) (rules : List CellId → String → Prop)
    (scope owned : List CellId) : Prop where
  opened : s.store.Opened rules s.held scope
  nested : ∀ c ∈ owned, s.store.Nested rules scope c
  anchored : ∀ c ∈ owned, s.store.Anchored s.held c

/-- The symbol may be used by a run that is inside some cells. -/
def Symbol.Ready (rules : List CellId → String → Prop) (s : Holding) {α : Type} (n : Symbol α) :
    Prop :=
  ∃ scope owned, s.Inside rules scope owned ∧ n.Within rules scope owned

variable {rules : List CellId → String → Prop} {scope owned held : List CellId} {store : Store}

/-- A kept cell is found, and its definition is run inside it. -/
theorem Holding.Inside.enter {r : Reference} (hopened : store.Opened rules held scope)
    (hnested : store.Nested rules scope r.cell) (hanchored : store.Anchored held r.cell) :
    ∃ b, store.resolve r = .ok b ∧ (store.release held).resolve r = .ok b ∧
      b.grammar.Within rules (r.cell :: scope) b.owned ∧
      Holding.Inside ⟨store, r.cell :: held⟩ rules (r.cell :: scope) b.owned := by
  cases hnested with
  | @mk _ _ b hdefined hgrammar howned =>
    have hself : store.Anchored (r.cell :: held) r.cell := .held List.mem_cons_self
    refine ⟨b, hdefined.resolve, (hanchored.release hdefined).resolve, hgrammar, ?_, howned, ?_⟩
    · exact ⟨List.mem_cons_self, .mk hdefined hgrammar howned,
        hopened.mono (List.subset_cons_self _ _) fun _ _ hd => hd⟩
    · exact fun c hc => .owned hself hdefined hc

/-- The same symbol on both sides, which may be used. -/
def Alongside (rules : List CellId → String → Prop) (s : Holding) (store : Store) :
    Correspondence Symbol Symbol := fun _ n m =>
  s.store = store ∧ n = m ∧ n.Ready rules s

theorem Grammar.Within.alongside {s : Holding} (hs : s.Inside rules scope owned) {α : Type}
    {g : Grammar Symbol α} (hg : g.Within rules scope owned) :
    Grammar.Alike (Alongside rules s s.store) g g :=
  Grammar.Over.alike (fun _ hn => ⟨rfl, rfl, scope, owned, hs, hn⟩) hg

/-- Wherever one of the rules for some cells is made, it comes out, and what is made may be used
    inside these cells. -/
def Makes (make : String → Build Built) (rules : List CellId → String → Prop) : Prop :=
  ∀ scope name, rules scope name → ∀ store,
    Build.Yields (fun after b => b.Nested after rules scope) (make name) store

variable {make : String → Build Built}

/-- Whatever else is let die, all symbols are found, and stand for what they stand for when nothing
    is. -/
theorem Makes.inStep (h : Makes make rules) :
    (Rulebook.holding make).InStep (Rulebook.making make) (Alongside rules) := by
  intro α s store n m halong
  obtain ⟨rfl, rfl, scope, owned, hs, hn⟩ := halong
  obtain ⟨store, held⟩ := s
  cases n with
  | element =>
    have helement : (Markup.element Symbol.element).Within rules scope owned :=
      Piece.element.grammar_within
    exact ⟨_, _, _, _, rfl, rfl, helement.alongside hs⟩
  | rule name =>
    -- What is made is run inside the cells in which the rule is used.
    obtain ⟨b, after, hb, hkeeps, hnested⟩ := h scope name hn store
    have hinside : Holding.Inside ⟨after, b.owned ++ held⟩ rules scope b.owned :=
      ⟨hs.opened.mono (List.subset_append_right _ _) fun _ _ => hkeeps.defined, hnested.owned,
        fun c hc => .held (List.mem_append_left held hc)⟩
    refine ⟨b.grammar, ⟨after, b.owned ++ held⟩, b.grammar, after, ?_, ?_,
      hnested.grammar.alongside hinside⟩
    · simp only [Rulebook.holding, hb]
    · simp only [Rulebook.making, hb]
  | cell r =>
    -- A handle is that of a cell around, where what is around that one is its scope.
    have hcell : ∃ outer, store.Opened rules held outer ∧
        store.Nested rules outer r.cell ∧ store.Anchored held r.cell := by
      cases r with
      | owner c => exact ⟨scope, hs.opened, hs.nested c hn, hs.anchored c hn⟩
      | handle c =>
        obtain ⟨outer, hheld, hnested, houter⟩ := hs.opened.at hn
        exact ⟨outer, houter, hnested, .held hheld⟩
    obtain ⟨outer, hopened, hnested, hanchored⟩ := hcell
    obtain ⟨b, hb, hb', hgrammar, hinside⟩ := Holding.Inside.enter hopened hnested hanchored
    refine ⟨b.grammar, ⟨store, r.cell :: held⟩, b.grammar, store, ?_, ?_,
      hgrammar.alongside hinside⟩
    · simp only [Rulebook.holding, hb']
    · simp only [Rulebook.making, hb]

/-- A run inside some cells misuses none, and it is the same whether other cells die or not. -/
theorem Makes.parser_eq (h : Makes make rules) (limits : Limits) {s : Holding}
    (hs : s.Inside rules scope owned) {α : Type} {g : Grammar Symbol α}
    (hg : g.Within rules scope owned) :
    (Rulebook.holding make).parser limits s g = (Rulebook.making make).parser limits s.store g ∧
      ((Rulebook.making make).parser limits s.store g).Steady := by
  have heq := h.inStep.parser_eq limits (hg.alongside hs)
  have hsteady := h.inStep.parser_steady limits (hg.alongside hs)
  exact ⟨heq, heq ▸ hsteady⟩

/-- Well-scoped rules can be made anywhere. -/
theorem Rules.Scoped.makes {rules : Rules} (h : rules.Scoped) :
    Makes rules.make fun _ => rules.Has := by
  intro scope name hname store
  obtain ⟨recipe, hlookup⟩ := exists_lookup_of_mem hname
  have hrecipe : recipe.Scoped rules.Has [] := h _ (mem_of_lookup_eq_some hlookup)
  have hmake : rules.make name = recipe.build [] := by
    funext store
    simp only [make, hlookup]
  rw [hmake]
  exact hrecipe.build scope [] store

/-- Where a run starts it is inside no cell and holds the cells that its parser owns. -/
theorem Holding.Inside.start (h : ∀ c ∈ owned, store.Nested rules [] c) :
    Holding.Inside ⟨store, owned⟩ rules [] owned :=
  ⟨trivial, h, fun _ hc => .held hc⟩

theorem Rules.scoped_nil : Rules.Scoped [] := List.forall_mem_nil _

/-- What a well-scoped description was built into runs without misusing a cell, whether other cells
    die or not. -/
theorem Built.Nested.parser_eq {rules : Rules} (hrules : rules.Scoped) {b : Built}
    (hb : b.Nested store (fun _ => rules.Has) []) (limits : Limits) :
    (Rulebook.holding rules.make).parser limits ⟨store, b.owned⟩ b.grammar =
        b.parser rules limits store ∧ (b.parser rules limits store).Steady := by
  rw [Built.parser, rules.rulebook_eq]
  exact hrules.makes.parser_eq limits (.start hb.owned) hb.grammar

-- ============================================================================
-- Descriptions and sessions
-- ============================================================================

/-- A misuse among the answers is that of one of the starts. -/
theorem Recipe.runAll_go_misused {mode : Mode} {p : Parser Value} {inputs : List Input}
    {scopes : Scopes} {answers : List Answer}
    (h : Recipe.runAll.go mode p inputs scopes = some answers) {m : Misuse}
    (hm : Answer.misused m ∈ answers) :
    ∃ inp before report after, p.start mode inp before = some (report, after) ∧
      report.reply = .aborted m := by
  induction inputs generalizing scopes answers with
  | nil =>
    obtain rfl := Option.some.inj h
    exact absurd hm List.not_mem_nil
  | cons inp inputs ih =>
    rw [Recipe.runAll.go] at h
    split at h
    · cases h
    · next m' trace printed scopes' hrun =>
      obtain ⟨answers, htail, rfl⟩ := Option.map_eq_some_iff.1 h
      rcases List.mem_cons.1 hm with heq | hm
      · obtain rfl := Answer.misused.inj heq
        exact ⟨inp, scopes, _, scopes', hrun, rfl⟩
      · exact ih htail hm
    · obtain ⟨answers, htail, rfl⟩ := Option.map_eq_some_iff.1 h
      rcases List.mem_cons.1 hm with heq | hm
      · cases heq
      · exact ih htail hm

namespace Session

variable {s s' : Session} {x : String} {recipe : Recipe}

/-- A recursive parser that stands by itself can be bound, and is nested after all cells have died
    that no name keeps. -/
theorem bindRecipe_nested (h : recipe.Scoped (Rules.Has []) []) (x : String) (s : Session) :
    ∃ s' b, s.bindRecipe x recipe = .ok s' ∧ s'.builtNames.lookup x = some b ∧
      b.Nested s'.store (fun _ => Rules.Has []) [] := by
  obtain ⟨b, after, hb, -, hnested⟩ := h.build [] s.builtNames s.store
  let bound := Session.bind x (.grammar b) { s with store := after }
  have hroots : b.owned ⊆ bound.roots := fun c hc =>
    List.mem_flatMap.2 ⟨(x, .grammar b), List.mem_cons_self, hc⟩
  refine ⟨bound.release, b, ?_, List.lookup_cons_self, hnested.grammar, fun c hc => ?_⟩
  · rw [bindRecipe, Session.build, hb]
  · exact (hnested.owned c hc).release (.held (hroots hc))

/-- A name for something nested can be run. -/
theorem run_named {b : Built} (hx : s.builtNames.lookup x = some b)
    (hb : b.Nested s.store (fun _ => Rules.Has []) []) {limits : Limits} {mode : Mode} {inp : Input}
    {m : Misuse} (hrun : s.run limits mode (.named x) inp = some (.misused m, s')) :
    m = .overrun := by
  have hbuild := build_named hx
  have hsteady := (hb.parser_eq Rules.scoped_nil limits).2
  rcases run_cases hrun with
    ⟨m', hfailed, -⟩ | ⟨b', store, report, scopes, hbuilt, hstart, hanswer, -⟩
  · exact nomatch hbuild.symm.trans hfailed
  · obtain ⟨rfl, rfl⟩ := Prod.mk.inj (Except.ok.inj (hbuild.symm.trans hbuilt))
    exact hsteady.start hstart (Answer.ofReport_eq_misused_iff.1 hanswer.symm)

end Session

/-- When a recursive parser is defined, its cell has no definition yet. -/
theorem Recipe.define_eq {names : Names} {x : String} {body : Recipe} {store after : Store}
    {b : Built} (h : body.build ((x, (Reference.handle store.next).built) :: names) store.declare =
      .ok (b, after)) :
    after.define (.owner store.next) b = .ok (after.write store.next b) := by
  have hcell : after.cell? store.next = some ⟨none, true⟩ :=
    (body.build_grown h).keeps _ _ (Store.cell?_declare_self store)
  have hdefinition : after.definition? (Reference.owner store.next).cell = none := by
    rw [Store.definition?, show (Reference.owner store.next).cell = store.next from rfl, hcell]
    rfl
  rw [Store.define, hdefinition]
  rfl

/-- Well-scoped recursion is never given up: neither undefined nor orphaned cells are met, and no
    cell is defined twice.  A well-scoped description with well-scoped rules can be built; what it
    describes runs in the same way when every cell dies at once that the run does not keep.  If one
    of its runs is given up then for a count of bytes, which is no matter of recursion, and not all
    pieces leave ends of their input.  The same holds of grammars with any functions and
    continuations over nested cells, and over rules that are made by any builds of nested cells,
    which may use the handles of the cells in which the rule is used.  In a session a well-scoped
    description can be bound, whatever was there before, and run under its name once the cells have
    died that no name keeps.  And when a recursive parser gets its definition, it has none. -/
theorem scoped_recursion_never_given_up :
    (∀ (rules : Rules) (recipe : Recipe) (limits : Limits), rules.Scoped →
      recipe.Scoped rules.Has [] →
      ∃ b store, recipe.build [] .empty = .ok (b, store) ∧
        (Rulebook.holding rules.make).parser limits ⟨store, b.owned⟩ b.grammar =
          b.parser rules limits store ∧
        ∀ mode inputs answers m, recipe.runAll limits rules mode inputs = some answers →
          Answer.misused m ∈ answers → m = .overrun ∧ ¬ (rules.Honest ∧ recipe.Honest)) ∧
    (∀ (make : String → Build Built) (rules : List CellId → String → Prop) (store : Store)
      (owned : List CellId) {α : Type} (g : Grammar Symbol α) (limits : Limits),
      Makes make rules → g.Within rules [] owned → (∀ c ∈ owned, store.Nested rules [] c) →
      (Rulebook.holding make).parser limits ⟨store, owned⟩ g =
        (Rulebook.making make).parser limits store g ∧
      ∀ mode inp scopes report scopes' m,
        ((Rulebook.holding make).parser limits ⟨store, owned⟩ g).start mode inp scopes =
          some (report, scopes') → report.reply = .aborted m → m = .overrun) ∧
    (∀ (s : Session) (x : String) (recipe : Recipe), recipe.Scoped (Rules.Has []) [] →
      ∃ s', s.bindRecipe x recipe = .ok s' ∧
        ∀ limits mode inp m s'', s'.run limits mode (.named x) inp = some (.misused m, s'') →
          m = .overrun) ∧
    (∀ (names : Names) (x : String) (body : Recipe) (store after : Store) (b : Built),
      body.build ((x, (Reference.handle store.next).built) :: names) store.declare =
        .ok (b, after) →
      after.define (.owner store.next) b = .ok (after.write store.next b)) := by
  refine ⟨?_, ?_, ?_, ?_⟩
  · intro rules recipe limits hrules hrecipe
    obtain ⟨b, store, hb, -, hnested⟩ := hrecipe.build [] [] .empty
    obtain ⟨heq, hsteady⟩ := hnested.parser_eq hrules limits
    refine ⟨b, store, hb, heq, fun mode inputs answers m hrun hm => ?_⟩
    rw [Recipe.runAll, hb] at hrun
    obtain ⟨inp, before, report, after, hstart, hreply⟩ := Recipe.runAll_go_misused hrun hm
    obtain rfl : m = .overrun := hsteady.start hstart hreply
    refine ⟨rfl, ?_⟩
    rintro ⟨hhonest, hpieces⟩
    obtain ⟨hbuilt, hcells⟩ :=
      recipe.build_honest hpieces [] Names.all_nil _ _ _ Store.all_empty hb
    have haborts := ((b.parser_records rules limits store).start_aborts_iff hstart).1 hreply
    exact Built.not_overrun hbuilt hhonest limits hcells _ inp haborts
  · intro make rules store owned α g limits hmake hg howned
    obtain ⟨heq, hsteady⟩ := hmake.parser_eq limits (.start howned) hg
    refine ⟨heq, fun mode inp scopes report scopes' m hstart hm => ?_⟩
    rw [heq] at hstart
    exact hsteady.start hstart hm
  · intro s x recipe hrecipe
    obtain ⟨s', b, hs', hx, hnested⟩ := Session.bindRecipe_nested hrecipe x s
    exact ⟨s', hs', fun limits mode inp m s'' hrun => Session.run_named hx hnested hrun⟩
  · intro names x body store after b hbuild
    exact Recipe.define_eq hbuild

/-- Round brackets in round brackets. -/
def rounds : Rules :=
  [("round", .recursive "b" (.between (.modified .zeroOrMore (.named "b")) (.piece (.char '('))
    (.piece (.char ')'))))]

/-- Square brackets, with round ones in front of those inside. -/
def squares : Recipe :=
  .recursive "b" (.between (.andThen (.modified .zeroOrMore (.rule "round"))
    (.always (.modified .optional (.named "b")))) (.piece (.char '[')) (.piece (.char ']')))

/-- The given text any number of times, each with a bracket behind all that follow; inside it is
    what the name stands for. -/
def echoes (inside text : String) : Recipe :=
  .recursive "b" (.joined .or (.between (.named inside) (.piece (.literal text))
    (.piece (.char ')'))) (.piece .empty))

/-- For any text a recursive parser is built around the handle of the cell 0. -/
def aroundCell : String → Build Built := fun text =>
  (echoes "h" text).build [("h", (Reference.handle 0).built)]

/-- The cell 0, whose definition reads a character and goes on with the rule of this name. -/
def readsRule : Store :=
  Store.empty.declare.write 0 ⟨.andThen .any fun c => .symbol (.rule (String.singleton c)), []⟩

/-- A handle in a continuation, under rules that build a recursive parser of the same name whenever
    they are run; a recursive parser made for the character that was read, around the handle of the
    one that has read it; and one that is bound in a session. -/
theorem scoped_recursion_in_brackets :
    (∃ b store, squares.build [] .empty = .ok (b, store) ∧
      (Rulebook.holding rounds.make).parser ⟨9, 9⟩ ⟨store, b.owned⟩ b.grammar =
        b.parser rounds ⟨9, 9⟩ store) ∧
    (Rulebook.holding aroundCell).parser ⟨9, 9⟩ ⟨readsRule, [0]⟩
        (.symbol (.cell (.owner 0)) : Grammar Symbol Value) =
      (Rulebook.making aroundCell).parser ⟨9, 9⟩ readsRule (.symbol (.cell (.owner 0))) ∧
    (∃ s', Session.empty.bindRecipe "x" (echoes "b" "(") = .ok s' ∧
      s'.run ⟨9, 9⟩ .parse (.named "x") (.ofString "(()") ≠ some (.misused .orphaned, s')) ∧
    Store.empty.declare.define (.owner 0) (Reference.handle 0).built =
      .ok (Store.empty.declare.write 0 (Reference.handle 0).built) := by
  obtain ⟨hrecipe, hgrammar, hsession, hdefine⟩ := scoped_recursion_never_given_up
  have hrules : rounds.Scoped :=
    List.forall_mem_singleton.2 ⟨List.mem_cons_self, trivial, trivial⟩
  have hsquares : squares.Scoped rounds.Has [] :=
    ⟨⟨List.mem_cons_self, List.mem_cons_self⟩, trivial, trivial⟩
  refine ⟨?_, ?_, ?_, ?_⟩
  · obtain ⟨b, store, hb, heq, -⟩ := hrecipe rounds squares ⟨9, 9⟩ hrules hsquares
    exact ⟨b, store, hb, heq⟩
  · -- The rules may be used inside the cell, where its handle is known.
    have hmake : Makes aroundCell fun scope _ => 0 ∈ scope := by
      intro scope text hscope store
      have hechoes : (echoes "h" text).Scoped (fun _ => False) ["h"] :=
        ⟨⟨List.mem_cons_of_mem "b" List.mem_cons_self, trivial, trivial⟩, trivial⟩
      refine (echoes "h" text).build_nested (fun _ _ h => h.elim) hechoes fun x hx => ?_
      obtain rfl := List.mem_singleton.1 hx
      exact ⟨0, hscope, rfl⟩
    have hcell : readsRule.Nested (fun scope _ => 0 ∈ scope) [] 0 :=
      .mk (Store.defined_write_self rfl _) ⟨trivial, fun _ => List.mem_cons_self⟩
        (List.forall_mem_nil _)
    exact (hgrammar _ _ readsRule [0] _ ⟨9, 9⟩ hmake List.mem_cons_self
      (List.forall_mem_singleton.2 hcell)).1
  · have hechoes : (echoes "b" "(").Scoped (Rules.Has []) [] :=
      ⟨⟨List.mem_cons_self, trivial, trivial⟩, trivial⟩
    obtain ⟨s', hs', hrun⟩ := hsession .empty "x" (echoes "b" "(") hechoes
    exact ⟨s', hs', fun h => nomatch hrun _ _ _ _ _ h⟩
  · exact hdefine [] "h" (.named "h") .empty _ _ rfl

end Descent
