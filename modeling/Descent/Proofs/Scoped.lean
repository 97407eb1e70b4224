/-
  Descent.Proofs.Scoped

  Well-scoped recursion.  A description is well-scoped if each name in it is that of a recursive
  parser around it.  What is built from one is nested: each cell is owned where its recursive parser
  stands, and its definition uses no handles but its own and those of the recursive parsers around.
  Building never meets an unknown name, and nothing that was built before is changed by what is
  built later, so the parts of a description can be done one after the other.
-/
import Descent.Proofs.Knot

namespace Descent

-- ============================================================================
-- Descriptions
-- ============================================================================

-- A description is well-scoped if it uses no rules but the given ones and no names but those of the
-- recursive parsers around.

mutual

def Recipe.Scoped (rules : String → Prop) : Recipe → List String → Prop
  | .piece _, _ => True
  | .modified _ body, bound => body.Scoped rules bound
  | .joined _ first second, bound => first.Scoped rules bound ∧ second.Scoped rules bound
  | .between body start finish, bound =>
    body.Scoped rules bound ∧ start.Scoped rules bound ∧ finish.Scoped rules bound
  | .andThen body next, bound => body.Scoped rules bound ∧ next.Scoped rules bound
  | .chained body next, bound => body.Scoped rules bound ∧ next.Scoped rules bound
  | .rule name, _ => rules name
  | .recursive name body, bound => body.Scoped rules (name :: bound)
  | .named name, bound => name ∈ bound

def Continuation.Scoped (rules : String → Prop) : Continuation → List String → Prop
  | .same, _ => True
  | .close, _ => True
  | .keep, _ => True
  | .count body, bound => body.Scoped rules bound
  | .always body, bound => body.Scoped rules bound
  | .cases table otherwise, bound =>
    Recipe.ScopedTable rules table bound ∧ otherwise.Scoped rules bound

def Recipe.ScopedTable (rules : String → Prop) : List (String × Recipe) → List String → Prop
  | [], _ => True
  | (_, body) :: table, bound => body.Scoped rules bound ∧ Recipe.ScopedTable rules table bound

end

/-- The name is that of one of the rules. -/
def Rules.Has (rules : Rules) (name : String) : Prop := name ∈ rules.map Prod.fst

/-- The bodies of all rules are well-scoped and use no names from outside. -/
def Rules.Scoped (rules : Rules) : Prop := ∀ rule ∈ rules, rule.2.Scoped rules.Has []

-- ============================================================================
-- Nesting
-- ============================================================================

/-- A symbol that may be used inside the cells `scope`, where `owned` are the cells that are owned:
    one of the rules for these, a handle to a cell around, or a cell that is owned. -/
def Symbol.Within (rules : List CellId → String → Prop) (scope owned : List CellId) {α : Type} :
    Symbol α → Prop
  | .element => True
  | .rule name => rules scope name
  | .cell (.handle c) => c ∈ scope
  | .cell (.owner c) => c ∈ owned

/-- All symbols of a grammar may be used there; steps, functions and continuations may be any. -/
abbrev Grammar.Within (rules : List CellId → String → Prop) (scope owned : List CellId) {α : Type}
    (g : Grammar Symbol α) : Prop :=
  g.Over (fun _ => True) (Symbol.Within rules scope owned)

/-- The cell is alive, and defined by a grammar that may stand inside it and the cells around it.
    So are the cells that its definition owns. -/
inductive Store.Nested (store : Store) (rules : List CellId → String → Prop) :
    List CellId → CellId → Prop
  | mk {scope : List CellId} {c : CellId} {b : Built} (hdefined : store.Defined c b)
      (hgrammar : b.grammar.Within rules (c :: scope) b.owned)
      (howned : ∀ d ∈ b.owned, Nested store rules (c :: scope) d) : Nested store rules scope c

/-- What was built may be used inside the cells `scope`, and so may the definitions of the cells
    that it owns. -/
structure Built.Nested (store : Store) (rules : List CellId → String → Prop) (scope : List CellId)
    (b : Built) : Prop where
  grammar : b.grammar.Within rules scope b.owned
  owned : ∀ c ∈ b.owned, store.Nested rules scope c

variable {rules : List CellId → String → Prop} {scope owned owned' : List CellId}
  {store store' : Store} {b : Built}

theorem Grammar.Within.mono {α : Type} {g : Grammar Symbol α}
    (h : g.Within rules scope owned) (howned : owned ⊆ owned') : g.Within rules scope owned' := by
  refine Grammar.Over.mono (fun _ _ => trivial) (fun n hn => ?_) h
  cases n with
  | element => trivial
  | rule name => exact hn
  | cell r =>
    cases r with
    | owner c => exact howned hn
    | handle c => exact hn

theorem Symbol.IsElement.within {α : Type} {n : Symbol α} (h : n.IsElement) :
    n.Within rules scope owned := by
  cases n with
  | element => trivial
  | rule name => exact h.elim
  | cell r => exact h.elim

/-- Cells that stay defined stay nested. -/
theorem Store.Nested.mono {c : CellId} (h : store.Nested rules scope c)
    (hdefined : ∀ d b, store.Defined d b → store'.Defined d b) : store'.Nested rules scope c := by
  induction h with
  | mk hc hgrammar _ ih => exact .mk (hdefined _ _ hc) hgrammar ih

theorem Built.Nested.mono (h : b.Nested store rules scope)
    (hdefined : ∀ d b, store.Defined d b → store'.Defined d b) : b.Nested store' rules scope :=
  ⟨h.grammar, fun c hc => (h.owned c hc).mono hdefined⟩

theorem Piece.grammar_within (p : Piece) : p.grammar.Within rules scope owned :=
  p.grammar_over.mono (fun _ _ => trivial) fun _ hn => hn.within

-- ============================================================================
-- Building
-- ============================================================================

/-- The build comes out and keeps all cells, and its result satisfies `Q` in the store behind. -/
def Build.Yields {β : Type 1} (Q : Store → β → Prop) (build : Build β) (store : Store) : Prop :=
  ∃ b after, build store = .ok (b, after) ∧ store.Keeps after ∧ Q after b

/-- The bound names stand for handles to cells around. -/
def Names.Handles (bound : List String) (scope : List CellId) (names : Names) : Prop :=
  ∀ x ∈ bound, ∃ c ∈ scope, names.lookup x = some (Reference.handle c).built

/-- Inside a recursive parser its name stands for a handle to it, whatever it stood for outside. -/
theorem Names.Handles.push {bound : List String} {names : Names} (h : names.Handles bound scope)
    (x : String) (c : CellId) :
    Names.Handles (x :: bound) (c :: scope) ((x, (Reference.handle c).built) :: names) := by
  intro y hy
  by_cases hyx : y = x
  · subst hyx
    exact ⟨c, List.mem_cons_self, List.lookup_cons_self⟩
  · obtain ⟨d, hd, hlookup⟩ := h y ((List.mem_cons.1 hy).resolve_left hyx)
    exact ⟨d, List.mem_cons_of_mem c hd, by rw [lookup_cons_of_ne hyx, hlookup]⟩

/-- What follows a value may be used inside the cells `scope`, whatever the value is. -/
structure BuiltContinuation.Nested (store : Store) (rules : List CellId → String → Prop)
    (scope : List CellId) (k : BuiltContinuation) : Prop where
  next : ∀ v, (k.next v).Within rules scope k.owned
  owned : ∀ c ∈ k.owned, store.Nested rules scope c

namespace Build.Yields

variable {β γ : Type 1} {Q : Store → β → Prop} {T : Store → γ → Prop} {build : Build β}

theorem done {b : β} (h : Q store b) : Build.Yields Q (.done b) store :=
  ⟨b, store, rfl, .refl store, h⟩

theorem next {f : β → Build γ} (h : Build.Yields Q build store)
    (hf : ∀ b mid, store.Keeps mid → Q mid b → Build.Yields T (f b) mid) :
    Build.Yields T (build.next f) store := by
  obtain ⟨b, mid, hb, hkeeps, hQ⟩ := h
  obtain ⟨a, after, ha, hkeeps', hT⟩ := hf b mid hkeeps hQ
  refine ⟨a, after, ?_, hkeeps.trans hkeeps', hT⟩
  rw [Build.next, hb]
  exact ha

/-- The cell of a recursive parser is nested where the recursive parser stands, and owned there. -/
theorem recursive {names : Names} {x : String} {body : Recipe}
    (h : Build.Yields (fun after b => b.Nested after rules (store.next :: scope))
      (body.build ((x, (Reference.handle store.next).built) :: names)) store.declare) :
    Build.Yields (fun after b => b.Nested after rules scope)
      ((Recipe.recursive x body).build names) store := by
  obtain ⟨b, mid, hb, hkeeps, hnested⟩ := h
  have hcell : mid.cell? store.next = some ⟨none, true⟩ :=
    hkeeps _ _ (Store.cell?_declare_self store)
  have hinside : b.Nested (mid.write store.next b) rules (store.next :: scope) :=
    hnested.mono fun _ _ hd => hd.write hcell
  refine ⟨(Reference.owner store.next).built, mid.write store.next b, ?_, hkeeps.write b,
    List.mem_cons_self, List.forall_mem_singleton.2 ?_⟩
  · simp only [Recipe.build, Build.next, hb]
  · exact .mk (Store.defined_write_self hcell b) hinside.grammar hinside.owned

/-- A name that is bound stands for a handle, which owns nothing. -/
theorem named {bound : List String} {names : Names} (hnames : names.Handles bound scope)
    {x : String} (hx : x ∈ bound) :
    Build.Yields (fun after b => b.Nested after rules scope) ((Recipe.named x).build names)
      store := by
  obtain ⟨c, hc, hlookup⟩ := hnames x hx
  refine ⟨(Reference.handle c).built, store, ?_, .refl store, hc, List.forall_mem_nil _⟩
  simp only [Recipe.build, hlookup]

end Build.Yields

/-- Whichever case is chosen, it may be used. -/
theorem chooseCase_within {cases : List (String × Built)}
    (hcases : ∀ entry ∈ cases, entry.2.Nested store rules scope)
    (hb : b.Nested store rules scope) (v : Value) :
    (chooseCase cases b v).Within rules scope
      (cases.foldr (fun entry owned => joinCells entry.2.owned owned) b.owned) := by
  rw [chooseCase]
  cases hlookup : cases.lookup (String.ofList v.chars) with
  | none => exact hb.grammar.mono fun c hc => mem_foldr_joinCells.2 (.inr hc)
  | some a =>
    have hentry := mem_of_lookup_eq_some hlookup
    refine (hcases _ hentry).grammar.mono fun c hc => mem_foldr_joinCells.2 (.inl ?_)
    exact List.mem_flatMap.2 ⟨_, hentry, hc⟩

-- Along the description; what the earlier parts have given stays nested while the later ones are
-- built.

variable {known : String → Prop}

mutual

/-- What is built from a well-scoped description is nested, wherever names from outside stand for
    handles to cells around. -/
theorem Recipe.build_nested (hrules : ∀ scope name, known name → rules scope name) :
    (recipe : Recipe) → ∀ {bound scope names store},
    recipe.Scoped known bound → Names.Handles bound scope names →
    Build.Yields (fun after b => b.Nested after rules scope) (recipe.build names) store
  | .piece p, _, _, _, _, _, _ => .done ⟨p.grammar_within, List.forall_mem_nil _⟩
  | .modified m body, _, _, _, _, hr, hnames => by
    refine .next (body.build_nested hrules hr hnames) fun b mid _ hb => ?_
    exact .done ⟨m.apply_over trivial hb.grammar, hb.owned⟩
  | .joined j first second, _, _, _, _, hr, hnames => by
    refine .next (first.build_nested hrules hr.1 hnames) fun a mid _ ha => ?_
    refine .next (second.build_nested hrules hr.2 hnames) fun b mid' hkeeps hb => ?_
    have ha' := ha.mono fun _ _ => hkeeps.defined
    refine .done ⟨?_, forall_mem_joinCells.2 ⟨ha'.owned, hb.owned⟩⟩
    exact j.apply_over (ha.grammar.mono (joinCells_left _ _))
      (hb.grammar.mono (joinCells_right _ _))
  | .between body start finish, _, _, _, _, hr, hnames => by
    refine .next (body.build_nested hrules hr.1 hnames) fun b mid _ hb => ?_
    refine .next (start.build_nested hrules hr.2.1 hnames) fun s mid' hkeeps hs => ?_
    refine .next (finish.build_nested hrules hr.2.2 hnames) fun f mid'' hkeeps' hf => ?_
    have hb' := hb.mono fun _ _ hd => hkeeps'.defined (hkeeps.defined hd)
    have hs' := hs.mono fun _ _ => hkeeps'.defined
    have hboth := forall_mem_joinCells.2 ⟨hb'.owned, hs'.owned⟩
    refine .done ⟨?_, forall_mem_joinCells.2 ⟨hboth, hf.owned⟩⟩
    have hleft := joinCells_left (joinCells b.owned s.owned) f.owned
    refine ⟨hs.grammar.mono fun c hc => hleft (joinCells_right _ _ hc), fun _ => ?_⟩
    refine ⟨hb.grammar.mono fun c hc => hleft (joinCells_left _ _ hc), fun _ => ?_⟩
    exact hf.grammar.mono (joinCells_right _ _)
  | .andThen body next, _, _, _, _, hr, hnames | .chained body next, _, _, _, _, hr, hnames => by
    refine .next (body.build_nested hrules hr.1 hnames) fun b mid _ hb => ?_
    refine .next (next.build_nested hrules hr.2 hnames) fun k mid' hkeeps hk => ?_
    have hb' := hb.mono fun _ _ => hkeeps.defined
    refine .done ⟨?_, forall_mem_joinCells.2 ⟨hb'.owned, hk.owned⟩⟩
    exact ⟨hb.grammar.mono (joinCells_left _ _), fun v => (hk.next v).mono (joinCells_right _ _)⟩
  | .rule name, _, _, _, _, hr, _ => .done ⟨hrules _ name hr, List.forall_mem_nil _⟩
  | .recursive x body, _, _, _, store, hr, hnames =>
    .recursive (body.build_nested hrules hr (hnames.push x store.next))
  | .named x, _, _, _, _, hr, hnames => .named hnames hr

theorem Continuation.build_nested (hrules : ∀ scope name, known name → rules scope name) :
    (next : Continuation) → ∀ {bound scope names store},
    next.Scoped known bound → Names.Handles bound scope names →
    Build.Yields (fun after k => k.Nested after rules scope) (next.build names) store
  | .same, _, _, _, _, _, _ => .done ⟨fun _ => trivial, List.forall_mem_nil _⟩
  | .close, _, _, _, _, _, _ => .done ⟨fun v =>
    (Piece.closeElement (String.ofList v.chars)).grammar_within, List.forall_mem_nil _⟩
  | .keep, _, _, _, _, _, _ => .done ⟨fun _ => trivial, List.forall_mem_nil _⟩
  | .count body, _, _, _, _, hr, hnames | .always body, _, _, _, _, hr, hnames => by
    refine .next (body.build_nested hrules hr hnames) fun b mid _ hb => ?_
    exact .done ⟨fun _ => hb.grammar, hb.owned⟩
  | .cases table otherwise, _, _, _, _, hr, hnames => by
    refine .next (Recipe.buildTable_nested hrules table hr.1 hnames) fun cases mid _ hcases => ?_
    refine .next (otherwise.build_nested hrules hr.2 hnames) fun b mid' hkeeps hb => ?_
    have hcases' : ∀ entry ∈ cases, entry.2.Nested mid' rules _ := fun entry hentry =>
      (hcases entry hentry).mono fun _ _ => hkeeps.defined
    refine .done ⟨chooseCase_within hcases' hb, fun c hc => ?_⟩
    rcases mem_foldr_joinCells.1 hc with hc | hc
    · obtain ⟨entry, hentry, hc⟩ := List.mem_flatMap.1 hc
      exact (hcases' entry hentry).owned c hc
    · exact hb.owned c hc

theorem Recipe.buildTable_nested (hrules : ∀ scope name, known name → rules scope name) :
    (table : List (String × Recipe)) →
    ∀ {bound scope names store}, Recipe.ScopedTable known table bound →
    Names.Handles bound scope names →
    Build.Yields (fun after cases => ∀ entry ∈ cases, entry.2.Nested after rules scope)
      (Recipe.buildTable names table) store
  | [], _, _, _, _, _, _ => .done (List.forall_mem_nil _)
  | (_, body) :: table, _, _, _, _, hr, hnames => by
    refine .next (body.build_nested hrules hr.1 hnames) fun b mid _ hb => ?_
    refine .next (Recipe.buildTable_nested hrules table hr.2 hnames)
      fun cases mid' hkeeps hcases => ?_
    exact .done (List.forall_mem_cons.2 ⟨hb.mono fun _ _ => hkeeps.defined, hcases⟩)

end

/-- A well-scoped description that uses no name from outside can be built anywhere. -/
theorem Recipe.Scoped.build {recipe : Recipe} (h : recipe.Scoped known []) (scope : List CellId)
    (names : Names) (store : Store) :
    Build.Yields (fun after b => b.Nested after (fun _ => known) scope) (recipe.build names)
      store :=
  recipe.build_nested (fun _ _ h => h) h fun _ hx => absurd hx List.not_mem_nil

end Descent
