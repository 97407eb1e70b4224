/-
  Descent.Proofs.Tied

  Running rules and running the cells defined for them.  A rule is tied to a cell if the definition
  of the cell is alike to what building the rule gives, in whatever store the rule is built: the
  store of the one side grows with every rule that is run, the store of the other stays as it is.
  When all rules are tied, the two rulebooks are in step, and everything that was built alike runs
  the same.
-/
import Descent.Proofs.Knot

namespace Descent

variable {knots : Knots} {pairs : Pairs} {rules : Rules} {store store' : Store}

/-- A cell that is alive and defined is found through any reference to it. -/
theorem Store.Defined.resolve {r : Reference} {b : Built} (h : store.Defined r.cell b) :
    store.resolve r = .ok b := by
  have hreaches : store.reaches r = true := by
    cases r with
    | owner c => rfl
    | handle c =>
      have hc : store.cell? c = some ⟨some b, true⟩ := h
      rw [Store.reaches, hc]
      rfl
  have hdefinition : store.definition? r.cell = some b := by
    rw [Store.definition?, h]
    rfl
  rw [Store.resolve, if_pos hreaches, hdefinition]

/-- The cell is defined alike to whatever the rule gives when it is built. -/
def TiedAt (knots : Knots) (rules : Rules) (store' : Store) (name : String) (r : Reference) :
    Prop :=
  ∃ body b', rules.lookup name = some body ∧ store'.Defined r.cell b' ∧ ∀ store,
    ∃ more b after, body.build [] store = .ok (b, after) ∧ BuiltAlike knots more b b' ∧
      ∀ p ∈ more, DefinedAlike knots more after store' p

/-- All rules are tied to their cells. -/
def Tied (knots : Knots) (rules : Rules) (store' : Store) : Prop :=
  ∀ knot ∈ knots, TiedAt knots rules store' knot.1 knot.2

theorem TiedAt.mono {name : String} {r : Reference} {after : Store}
    (h : TiedAt knots rules store' name r)
    (hafter : ∀ c b, store'.Defined c b → after.Defined c b) :
    TiedAt knots rules after name r := by
  obtain ⟨body, b', hbody, hdefined, hbuild⟩ := h
  refine ⟨body, b', hbody, hafter _ _ hdefined, fun store => ?_⟩
  obtain ⟨more, b, built, hb, halike, hpairs⟩ := hbuild store
  refine ⟨more, b, built, hb, halike, fun p hp => ?_⟩
  exact (hpairs p hp).mono (fun _ hp => hp) (fun _ _ hd => hd) hafter

theorem Tied.mono {after : Store} (h : Tied knots rules store')
    (hafter : ∀ c b, store'.Defined c b → after.Defined c b) : Tied knots rules after :=
  fun knot hknot => (h knot hknot).mono hafter

/-- A cell that was defined by the closed description of a rule is tied to the rule. -/
theorem tiedAt_of_build {ref : String → String} {names' : Names} {name : String}
    {r : Reference} {body : Recipe} (hbody : rules.lookup name = some body)
    (hclosed : body.Closed (rules.map Prod.fst) ref [])
    (hnames : NamesAlike knots [] (rules.map Prod.fst) ref [] [] names') {b' : Built}
    {after' : Store} (hbuild : (body.throughNames ref).build names' store' = .ok (b', after'))
    (hcell : after'.cell? r.cell = some ⟨none, true⟩) :
    TiedAt knots rules (after'.write r.cell b') name r := by
  refine ⟨body, b', hbody, Store.defined_write_self hcell b', fun store => ?_⟩
  have hboth : BuildsAlike knots (BuiltAlike knots) [] (body.build [])
      ((body.throughNames ref).build names') := body.build_alike hclosed hnames
  obtain ⟨more, b, after, b'', after'', -, hb, hb'', halike, -, -, hpairs⟩ := hboth store store'
  obtain ⟨rfl, rfl⟩ := Prod.mk.inj (Except.ok.inj (hb''.symm.trans hbuild))
  refine ⟨more, b, after, hb, halike, fun p hp => ?_⟩
  have hdefined : DefinedAlike knots more after after'' p :=
    (hpairs p hp).resolve_left (List.not_mem_nil)
  exact hdefined.mono (fun _ hp => hp) (fun _ _ hd => hd) fun _ _ hd => hd.write hcell

-- ============================================================================
-- Running
-- ============================================================================

/-- Rules are tied, and the symbols correspond under pairs of cells that are defined alike. -/
def Corresponds (knots : Knots) (rules : Rules) (store store' : Store) :
    Correspondence Symbol Symbol := fun α n m =>
  Tied knots rules store' ∧ ∃ pairs, (∀ p ∈ pairs, DefinedAlike knots pairs store store' p) ∧
    Symbol.Stands knots pairs α n m

/-- The grammar of elements has no other symbol than that of the markup language. -/
theorem element_alike : Grammar.Alike (Symbol.Stands knots pairs)
    (Markup.element Symbol.element) (Markup.element Symbol.element) := by
  have hself : (Markup.element Symbol.element).Over Honest Symbol.IsElement :=
    Markup.element_over trivial
  exact hself.alike fun n hn => hn.stands

/-- A rule is built anew where its cell is looked up, and a cell is looked up where the other cell
    of its pair is. -/
theorem rulebook_inStep (knots : Knots) (rules : Rules) :
    rules.rulebook.InStep (Rules.rulebook []) (Corresponds knots rules) := by
  intro α store store' n m h
  obtain ⟨htied, pairs, hpairs, hstands⟩ := h
  have hcorresponds {pairs : Pairs} {store : Store} {β : Type} {g h : Grammar Symbol β}
      (hpairs : ∀ p ∈ pairs, DefinedAlike knots pairs store store' p)
      (hgh : Grammar.Alike (Symbol.Stands knots pairs) g h) :
      Grammar.Alike (Corresponds knots rules store store') g h :=
    hgh.mono fun _ _ _ hnm => ⟨htied, pairs, hpairs, hnm⟩
  cases hstands with
  | element => exact ⟨_, store, _, store', rfl, rfl, hcorresponds hpairs element_alike⟩
  | @rule name r hknot =>
    obtain ⟨body, b', hbody, hdefined, hbuild⟩ := htied (name, r) hknot
    obtain ⟨more, b, after, hb, halike, hmore⟩ := hbuild store
    refine ⟨b.grammar, after, b'.grammar, store', ?_, ?_, hcorresponds hmore halike⟩
    · simp only [Rules.rulebook, hbody, hb]
    · simp only [Rules.rulebook, hdefined.resolve]
  | @cell r r' hpair =>
    obtain ⟨b, b', hb, hb', htwin⟩ := hpairs _ hpair
    refine ⟨b.grammar, store, b'.grammar, store', ?_, ?_, hcorresponds hpairs htwin⟩
    · simp only [Rules.rulebook, hb.resolve]
    · simp only [Rules.rulebook, hb'.resolve]

/-- What was built alike runs the same within any limits, once all rules are tied. -/
theorem Tied.parser_eq (h : Tied knots rules store')
    (hpairs : ∀ p ∈ pairs, DefinedAlike knots pairs store store' p) {b b' : Built}
    (hb : BuiltAlike knots pairs b b') (limits : Limits) :
    b.parser rules limits store = b'.parser [] limits store' := by
  have halike : Grammar.Alike (Corresponds knots rules store store') b.grammar b'.grammar :=
    Grammar.Alike.mono (fun _ _ _ hnm => ⟨h, pairs, hpairs, hnm⟩) hb
  exact (rulebook_inStep knots rules).parser_eq limits halike

-- ============================================================================
-- Grammars for rules
-- ============================================================================

/-- A rulebook that has a grammar for each rule and gives it anew whenever the rule is run. -/
def Rulebook.lazily (body : String → Grammar Symbol Value) : Rulebook Symbol Store where
  resolve := fun
    | store, .element => .ok (Markup.element .element, store)
    | store, .rule name => .ok (body name, store)
    | store, .cell r =>
      match store.resolve r with
      | .error m => .error m
      | .ok b => .ok (b.grammar, store)

/-- The cell in the place of a rule. -/
def Symbol.tied (ref : String → Reference) {α : Type} : Symbol α → Symbol α
  | .element => .element
  | .rule name => .cell (ref name)
  | .cell r => .cell r

/-- One of the given rules, or the element of the markup language. -/
def Symbol.Among (names : List String) {α : Type} : Symbol α → Prop
  | .element => True
  | .rule name => name ∈ names
  | .cell _ => False

/-- A grammar that refers to no rules but the given ones; its steps, functions and continuations may
    be any. -/
abbrev Grammar.Among (names : List String) {α : Type} (g : Grammar Symbol α) : Prop :=
  g.Over (fun _ => True) (Symbol.Among names)

variable {names : List String} {ref : String → Reference} {body : String → Grammar Symbol Value}

theorem Symbol.Among.stands {α : Type} {n : Symbol α} (h : n.Among names) :
    Symbol.Stands (names.map fun name => (name, ref name)) pairs α n (n.tied ref) := by
  cases n with
  | element => exact .element
  | rule name => exact .rule (List.mem_map_of_mem (f := fun name => (name, ref name)) h)
  | cell r => exact h.elim

/-- Each cell is defined by the grammar of its rule, with cells in the place of rules. -/
def Symbol.Ties (names : List String) (ref : String → Reference)
    (body : String → Grammar Symbol Value) (store : Store) : Prop :=
  ∀ name ∈ names, ∃ owned,
    store.resolve (ref name) = .ok ⟨(body name).rename (Symbol.tied ref), owned⟩

/-- Rules that are grammars with whatever functions and continuations run as their cells do. -/
theorem lazily_parser_eq
    (hbody : ∀ name ∈ names, (body name).Among names)
    (hties : Symbol.Ties names ref body store') (limits : Limits) (store : Store) {α : Type}
    {g : Grammar Symbol α} (hg : g.Among names) :
    (Rulebook.lazily body).parser limits store g =
      (Rules.rulebook []).parser limits store' (g.rename (Symbol.tied ref)) := by
  let R : Store → Store → Correspondence Symbol Symbol := fun _ after α n m =>
    after = store' ∧ Symbol.Stands (names.map fun name => (name, ref name)) [] α n m
  have halike (store : Store) {β : Type} {g : Grammar Symbol β} (hg : g.Among names) :
      Grammar.Alike (R store store') g (g.rename (Symbol.tied ref)) :=
    hg.alike_rename fun n hn => ⟨rfl, hn.stands⟩
  have hstep : (Rulebook.lazily body).InStep (Rules.rulebook []) R := by
    intro β store after n m h
    obtain ⟨rfl, hstands⟩ := h
    cases hstands with
    | element =>
      exact ⟨_, store, _, after, rfl, rfl, element_alike.mono fun _ _ _ hnm => ⟨rfl, hnm⟩⟩
    | rule hknot =>
      obtain ⟨name, hname, heq⟩ := List.mem_map.1 hknot
      obtain ⟨rfl, rfl⟩ := Prod.mk.inj heq
      obtain ⟨owned, hcell⟩ := hties name hname
      refine ⟨body name, store, (body name).rename (Symbol.tied ref), after, rfl, ?_,
        halike store (hbody name hname)⟩
      simp only [Rules.rulebook, hcell]
    | cell hpair => exact absurd hpair List.not_mem_nil
  exact hstep.parser_eq limits (halike store hg)

end Descent
