/-
  Descent.Proofs.Knot

  Two ways to let rules refer to each other.  One description names rules, which are built anew
  whenever they are run; the other has names of cells in their place, each of which is defined once.
  Built side by side, the two give grammars that are alike: a rule corresponds to its cell, and the
  cells of recursive parsers inside correspond pair by pair, in the order in which they are
  declared.

  The pairs are what grows along a build.  What was built alike stays alike when pairs are added, so
  the parts of a description can be done one after the other, and each cell of a pair that was added
  is defined in the end, alike to the other one.
-/
import Descent.Proofs.Alike
import Descent.Proofs.Building

namespace Descent

-- ============================================================================
-- Descriptions
-- ============================================================================

-- The description with a name in the place of each rule.

mutual

def Recipe.throughNames (ref : String → String) : Recipe → Recipe
  | .piece p => .piece p
  | .modified m body => .modified m (body.throughNames ref)
  | .joined j first second => .joined j (first.throughNames ref) (second.throughNames ref)
  | .between body start finish =>
    .between (body.throughNames ref) (start.throughNames ref) (finish.throughNames ref)
  | .andThen body next => .andThen (body.throughNames ref) (next.throughNames ref)
  | .chained body next => .chained (body.throughNames ref) (next.throughNames ref)
  | .rule name => .named (ref name)
  | .recursive name body => .recursive name (body.throughNames ref)
  | .named name => .named name

def Continuation.throughNames (ref : String → String) : Continuation → Continuation
  | .same => .same
  | .close => .close
  | .keep => .keep
  | .count body => .count (body.throughNames ref)
  | .always body => .always (body.throughNames ref)
  | .cases table otherwise =>
    .cases (Recipe.tableThroughNames ref table) (otherwise.throughNames ref)

def Recipe.tableThroughNames (ref : String → String) :
    List (String × Recipe) → List (String × Recipe)
  | [] => []
  | (key, body) :: table => (key, body.throughNames ref) :: Recipe.tableThroughNames ref table

end

-- A description is closed if it uses no rules but the given ones and no names but those of the
-- recursive parsers around, and if no recursive parser takes the name of a cell for a rule.

mutual

def Recipe.Closed (rules : List String) (ref : String → String) : Recipe → List String → Prop
  | .piece _, _ => True
  | .modified _ body, bound => body.Closed rules ref bound
  | .joined _ first second, bound => first.Closed rules ref bound ∧ second.Closed rules ref bound
  | .between body start finish, bound =>
    body.Closed rules ref bound ∧ start.Closed rules ref bound ∧ finish.Closed rules ref bound
  | .andThen body next, bound => body.Closed rules ref bound ∧ next.Closed rules ref bound
  | .chained body next, bound => body.Closed rules ref bound ∧ next.Closed rules ref bound
  | .rule name, _ => name ∈ rules
  | .recursive name body, bound => name ∉ rules.map ref ∧ body.Closed rules ref (name :: bound)
  | .named name, bound => name ∈ bound

def Continuation.Closed (rules : List String) (ref : String → String) :
    Continuation → List String → Prop
  | .same, _ => True
  | .close, _ => True
  | .keep, _ => True
  | .count body, bound => body.Closed rules ref bound
  | .always body, bound => body.Closed rules ref bound
  | .cases table otherwise, bound =>
    Recipe.ClosedTable rules ref table bound ∧ otherwise.Closed rules ref bound

def Recipe.ClosedTable (rules : List String) (ref : String → String) :
    List (String × Recipe) → List String → Prop
  | [], _ => True
  | (_, body) :: table, bound =>
    body.Closed rules ref bound ∧ Recipe.ClosedTable rules ref table bound

end

-- ============================================================================
-- What corresponds to what
-- ============================================================================

/-- Which cell stands for which rule. -/
abbrev Knots := List (String × Reference)

/-- Which cells have been declared side by side. -/
abbrev Pairs := List (CellId × CellId)

/-- A rule corresponds to its cell, and other cells to those declared beside them. -/
inductive Symbol.Stands (knots : Knots) (pairs : Pairs) : (α : Type) → Symbol α → Symbol α → Prop
  | element : Stands knots pairs _ .element .element
  | rule {name : String} {r : Reference} (h : (name, r) ∈ knots) :
      Stands knots pairs _ (.rule name) (.cell r)
  | cell {r r' : Reference} (h : (r.cell, r'.cell) ∈ pairs) :
      Stands knots pairs _ (.cell r) (.cell r')

/-- Two grammars are the same up to symbols that correspond. -/
abbrev Twin (knots : Knots) (pairs : Pairs) (g h : Grammar Symbol Value) : Prop :=
  Grammar.Alike (Symbol.Stands knots pairs) g h

/-- The cells of a pair are alive and defined alike. -/
def DefinedAlike (knots : Knots) (pairs : Pairs) (store store' : Store) (p : CellId × CellId) :
    Prop :=
  ∃ b b', store.Defined p.1 b ∧ store'.Defined p.2 b' ∧ Twin knots pairs b.grammar b'.grammar

variable {knots : Knots} {pairs pairs' : Pairs}

theorem Twin.mono {g h : Grammar Symbol Value} (hgh : Twin knots pairs g h)
    (hsub : pairs ⊆ pairs') : Twin knots pairs' g h := by
  refine Grammar.Alike.mono (fun α n m hnm => ?_) hgh
  cases hnm with
  | element => exact .element
  | rule hmem => exact .rule hmem
  | cell hmem => exact .cell (hsub hmem)

theorem DefinedAlike.mono {store store' after after' : Store} {p : CellId × CellId}
    (h : DefinedAlike knots pairs store store' p) (hsub : pairs ⊆ pairs')
    (hafter : ∀ c b, store.Defined c b → after.Defined c b)
    (hafter' : ∀ c b, store'.Defined c b → after'.Defined c b) :
    DefinedAlike knots pairs' after after' p := by
  obtain ⟨b, b', hb, hb', htwin⟩ := h
  exact ⟨b, b', hafter _ _ hb, hafter' _ _ hb', htwin.mono hsub⟩

theorem Modifier.apply_twin (m : Modifier) {g h : Grammar Symbol Value}
    (hgh : Twin knots pairs g h) : Twin knots pairs (m.apply g) (m.apply h) := by
  cases m with
  | map f | mapped f => exact .map _ hgh
  | constant v => exact .map _ hgh
  | ignored => exact .map _ (.map _ hgh)
  | collect c => exact .map _ hgh
  | filter c | accepted c => exact .filter _ hgh
  | optional => exact .map _ (.or (.map _ hgh) (.leaf _))
  | repeated b => exact .map _ (.repeated _ hgh)
  | wrapped w => exact .wrapped _ hgh
  | marked label => exact .marked _ hgh
  | traced => exact .map _ (.traced hgh)
  | zeroOrMore | oneOrMore => exact .map _ (.repeated _ hgh)

theorem Joint.apply_twin (j : Joint) {g g' h h' : Grammar Symbol Value}
    (hgh : Twin knots pairs g h) (hgh' : Twin knots pairs g' h') :
    Twin knots pairs (j.apply g g') (j.apply h h') := by
  cases j with
  | both | pair => exact .map _ (.andThen hgh fun _ => .map _ hgh')
  | skipThen | right => exact .andThen hgh fun _ => hgh'
  | thenSkip | left => exact .andThen hgh fun _ => .map _ hgh'
  | or | either => exact .or hgh hgh'

/-- The element of the markup language stands for itself. -/
theorem Symbol.IsElement.stands {α : Type} {n : Symbol α} (h : n.IsElement) :
    Symbol.Stands knots pairs α n n := by
  cases n with
  | element => exact .element
  | rule name => exact h.elim
  | cell r => exact h.elim

/-- The only symbol of a piece is that of the markup language. -/
theorem Piece.grammar_twin (p : Piece) : Twin knots pairs p.grammar p.grammar :=
  p.grammar_over.alike fun _ hn => hn.stands

-- ============================================================================
-- Building side by side
-- ============================================================================

/-- In whatever stores, both builds come out, with results related by `Q` under some more pairs, and
    the cells of these pairs are defined alike. -/
def BuildsAlike {β : Type 1} (knots : Knots) (Q : Pairs → β → β → Prop) (pairs : Pairs)
    (build build' : Build β) : Prop :=
  ∀ store store', ∃ more b after b' after', pairs ⊆ more ∧ build store = .ok (b, after) ∧
    build' store' = .ok (b', after') ∧ Q more b b' ∧ store.Keeps after ∧ store'.Keeps after' ∧
    ∀ p ∈ more, p ∈ pairs ∨ DefinedAlike knots more after after' p

/-- Results of building descriptions are alike if their grammars are. -/
abbrev BuiltAlike (knots : Knots) (pairs : Pairs) (b b' : Built) : Prop :=
  Twin knots pairs b.grammar b'.grammar

namespace BuildsAlike

variable {β γ : Type 1} {Q : Pairs → β → β → Prop} {T : Pairs → γ → γ → Prop}
  {build build' : Build β}

theorem done {b b' : β} (h : Q pairs b b') :
    BuildsAlike knots Q pairs (.done b) (.done b') := by
  intro store store'
  exact ⟨pairs, b, store, b', store', fun _ hp => hp, rfl, rfl, h, .refl store, .refl store',
    fun _ hp => .inl hp⟩

/-- One after the other.  The second builds start with the pairs of the first ones. -/
theorem next {f f' : β → Build γ} (h : BuildsAlike knots Q pairs build build')
    (hnext : ∀ more b b', pairs ⊆ more → Q more b b' → BuildsAlike knots T more (f b) (f' b')) :
    BuildsAlike knots T pairs (build.next f) (build'.next f') := by
  intro store store'
  obtain ⟨more, b, mid, b', mid', hsub, hb, hb', hQ, hkeeps, hkeeps', hpairs⟩ := h store store'
  obtain ⟨most, a, after, a', after', hsub', ha, ha', hT, hkeeps₂, hkeeps₂', hpairs'⟩ :=
    hnext more b b' hsub hQ mid mid'
  refine ⟨most, a, after, a', after', fun p hp => hsub' (hsub hp), ?_, ?_, hT,
    hkeeps.trans hkeeps₂, hkeeps'.trans hkeeps₂', fun p hp => ?_⟩
  · rw [Build.next, hb]
    exact ha
  · rw [Build.next, hb']
    exact ha'
  · rcases hpairs' p hp with hmore | hdefined
    · -- What the first builds have defined stays defined.
      refine (hpairs p hmore).imp_right fun h => ?_
      exact h.mono hsub' (fun _ _ => hkeeps₂.defined) fun _ _ => hkeeps₂'.defined
    · exact .inr hdefined

/-- A recursive parser on both sides: the two cells are a pair already while their definitions are
    built. -/
theorem recursive {names names' : Names} {x : String} {body body' : Recipe}
    (h : ∀ c c', BuildsAlike knots (BuiltAlike knots) ((c, c') :: pairs)
      (body.build ((x, (Reference.handle c).built) :: names))
      (body'.build ((x, (Reference.handle c').built) :: names'))) :
    BuildsAlike knots (BuiltAlike knots) pairs ((Recipe.recursive x body).build names)
      ((Recipe.recursive x body').build names') := by
  intro store store'
  obtain ⟨more, b, mid, b', mid', hsub, hb, hb', htwin, hkeeps, hkeeps', hpairs⟩ :=
    h store.next store'.next store.declare store'.declare
  have hcell : mid.cell? store.next = some ⟨none, true⟩ :=
    hkeeps _ _ (Store.cell?_declare_self store)
  have hcell' : mid'.cell? store'.next = some ⟨none, true⟩ :=
    hkeeps' _ _ (Store.cell?_declare_self store')
  have hpair : (store.next, store'.next) ∈ more := hsub List.mem_cons_self
  have hself : DefinedAlike knots more (mid.write store.next b) (mid'.write store'.next b')
      (store.next, store'.next) :=
    ⟨b, b', Store.defined_write_self hcell b, Store.defined_write_self hcell' b', htwin⟩
  refine ⟨more, (Reference.owner store.next).built, mid.write store.next b,
    (Reference.owner store'.next).built, mid'.write store'.next b',
    fun p hp => hsub (List.mem_cons_of_mem _ hp), ?_, ?_, .symbol (.cell hpair), hkeeps.write b,
    hkeeps'.write b', fun p hp => ?_⟩
  · simp only [Recipe.build, Build.next, hb]
  · simp only [Recipe.build, Build.next, hb']
  · rcases hpairs p hp with hmem | hdefined
    · rcases List.mem_cons.1 hmem with rfl | hmem
      · exact .inr hself
      · exact .inl hmem
    · exact .inr (hdefined.mono (fun _ hp => hp) (fun _ _ hd => hd.write hcell)
        fun _ _ hd => hd.write hcell')

end BuildsAlike

/-! ## Descriptions built side by side -/

/-- What the names on both sides stand for: alike where they are bound by recursive parsers around,
    and on the second side the cells for the rules. -/
structure NamesAlike (knots : Knots) (pairs : Pairs) (rules : List String) (ref : String → String)
    (bound : List String) (names names' : Names) : Prop where
  bound : ∀ x ∈ bound, ∃ b b', names.lookup x = some b ∧ names'.lookup x = some b' ∧
    Twin knots pairs b.grammar b'.grammar
  rules : ∀ name ∈ rules, ∃ r owned, (name, r) ∈ knots ∧
    names'.lookup (ref name) = some ⟨.symbol (.cell r), owned⟩

variable {rules : List String} {ref : String → String} {bound : List String} {names names' : Names}

theorem NamesAlike.mono (h : NamesAlike knots pairs rules ref bound names names')
    (hsub : pairs ⊆ pairs') : NamesAlike knots pairs' rules ref bound names names' := by
  refine ⟨fun x hx => ?_, h.rules⟩
  obtain ⟨b, b', hb, hb', htwin⟩ := h.bound x hx
  exact ⟨b, b', hb, hb', htwin.mono hsub⟩

/-- Inside a recursive parser its name stands for the pair of cells. -/
theorem NamesAlike.push (h : NamesAlike knots pairs rules ref bound names names') {x : String}
    (hx : x ∉ rules.map ref) (c c' : CellId) :
    NamesAlike knots ((c, c') :: pairs) rules ref (x :: bound)
      ((x, (Reference.handle c).built) :: names) ((x, (Reference.handle c').built) :: names') := by
  refine ⟨fun y hy => ?_, fun name hname => ?_⟩
  · by_cases hyx : y = x
    · subst hyx
      exact ⟨_, _, List.lookup_cons_self, List.lookup_cons_self, .symbol (.cell List.mem_cons_self)⟩
    · obtain ⟨b, b', hb, hb', htwin⟩ := h.bound y ((List.mem_cons.1 hy).resolve_left hyx)
      exact ⟨b, b', by rw [lookup_cons_of_ne hyx, hb], by rw [lookup_cons_of_ne hyx, hb'],
        htwin.mono (List.subset_cons_self _ _)⟩
  · obtain ⟨r, owned, hknot, hlookup⟩ := h.rules name hname
    have hne : ref name ≠ x := by
      intro hrx
      exact hx (hrx ▸ List.mem_map_of_mem hname)
    exact ⟨r, owned, hknot, by rw [lookup_cons_of_ne hne, hlookup]⟩

/-- Continuations are alike if they give alike grammars for every value. -/
abbrev ContinuationAlike (knots : Knots) (pairs : Pairs) (k k' : BuiltContinuation) : Prop :=
  ∀ v, Twin knots pairs (k.next v) (k'.next v)

/-- Tables are alike if they have alike grammars under the same keys. -/
abbrev CasesAlike (knots : Knots) (pairs : Pairs) (cases cases' : List (String × Built)) : Prop :=
  ∀ key, (cases.lookup key = none ∧ cases'.lookup key = none) ∨
    ∃ b b', cases.lookup key = some b ∧ cases'.lookup key = some b' ∧ BuiltAlike knots pairs b b'

theorem CasesAlike.mono {cases cases' : List (String × Built)}
    (h : CasesAlike knots pairs cases cases') (hsub : pairs ⊆ pairs') :
    CasesAlike knots pairs' cases cases' := by
  intro key
  refine (h key).imp_right fun hkey => ?_
  obtain ⟨b, b', hb, hb', htwin⟩ := hkey
  exact ⟨b, b', hb, hb', htwin.mono hsub⟩

theorem CasesAlike.cons {cases cases' : List (String × Built)} {key : String} {b b' : Built}
    (hb : BuiltAlike knots pairs b b') (h : CasesAlike knots pairs cases cases') :
    CasesAlike knots pairs ((key, b) :: cases) ((key, b') :: cases') := by
  intro k
  by_cases hk : k = key
  · subst hk
    exact .inr ⟨b, b', List.lookup_cons_self, List.lookup_cons_self, hb⟩
  · rw [lookup_cons_of_ne hk, lookup_cons_of_ne hk]
    exact h k

theorem CasesAlike.choose {cases cases' : List (String × Built)} {b b' : Built}
    (h : CasesAlike knots pairs cases cases') (hb : BuiltAlike knots pairs b b') (v : Value) :
    Twin knots pairs (chooseCase cases b v) (chooseCase cases' b' v) := by
  rw [chooseCase, chooseCase]
  rcases h (String.ofList v.chars) with ⟨hnone, hnone'⟩ | ⟨a, a', ha, ha', htwin⟩
  · rw [hnone, hnone']
    exact hb
  · rw [ha, ha']
    exact htwin

/-- A rule on one side, and on the other the name of its cell. -/
theorem NamesAlike.rule (h : NamesAlike knots pairs rules ref bound names names') {name : String}
    (hname : name ∈ rules) : BuildsAlike knots (BuiltAlike knots) pairs
      ((Recipe.rule name).build names) ((Recipe.named (ref name)).build names') := by
  intro store store'
  obtain ⟨r, owned, hknot, hlookup⟩ := h.rules name hname
  refine ⟨pairs, ⟨.symbol (.rule name), []⟩, store, ⟨.symbol (.cell r), owned⟩, store',
    fun _ hp => hp, rfl, ?_, .symbol (.rule hknot), .refl store, .refl store', fun _ hp => .inl hp⟩
  simp only [Recipe.build, hlookup]

/-- The name of a recursive parser around on both sides. -/
theorem NamesAlike.named (h : NamesAlike knots pairs rules ref bound names names') {x : String}
    (hx : x ∈ bound) : BuildsAlike knots (BuiltAlike knots) pairs
      ((Recipe.named x).build names) ((Recipe.named x).build names') := by
  intro store store'
  obtain ⟨b, b', hb, hb', htwin⟩ := h.bound x hx
  refine ⟨pairs, b, store, b', store', fun _ hp => hp, ?_, ?_, htwin, .refl store, .refl store',
    fun _ hp => .inl hp⟩
  · simp only [Recipe.build, hb]
  · simp only [Recipe.build, hb']

-- Along the description, with the pairs of each part handed on to the next one.

mutual

/-- A closed description comes out alike with rules and with cells for them. -/
theorem Recipe.build_alike : (recipe : Recipe) → ∀ {bound pairs names names'},
    recipe.Closed rules ref bound → NamesAlike knots pairs rules ref bound names names' →
    BuildsAlike knots (BuiltAlike knots) pairs (recipe.build names)
      ((recipe.throughNames ref).build names')
  | .piece p => fun _ _ => .done p.grammar_twin
  | .modified m body => by
    intro hclosed hnames
    refine .next (body.build_alike hclosed hnames) fun more b b' _ hb => ?_
    exact .done (m.apply_twin hb)
  | .joined j first second => by
    intro hclosed hnames
    refine .next (first.build_alike hclosed.1 hnames) fun more a a' hsub ha => ?_
    refine .next (second.build_alike hclosed.2 (hnames.mono hsub)) fun most b b' hsub' hb => ?_
    exact .done (j.apply_twin (ha.mono hsub') hb)
  | .between body start finish => by
    intro hclosed hnames
    refine .next (body.build_alike hclosed.1 hnames) fun more b b' hsub hb => ?_
    have hnames' := hnames.mono hsub
    refine .next (start.build_alike hclosed.2.1 hnames') fun most s s' hsub' hs => ?_
    refine .next (finish.build_alike hclosed.2.2 (hnames'.mono hsub')) fun all f f' hsub'' hf => ?_
    have hb' := (Twin.mono hb hsub').mono hsub''
    exact .done (.andThen (hs.mono hsub'') fun _ => .andThen hb' fun _ => .map _ hf)
  | .andThen body next | .chained body next => by
    intro hclosed hnames
    refine .next (body.build_alike hclosed.1 hnames) fun more b b' hsub hb => ?_
    refine .next (next.build_alike hclosed.2 (hnames.mono hsub)) fun most k k' hsub' hk => ?_
    exact .done (.andThen (hb.mono hsub') hk)
  | .rule name => fun hclosed hnames => hnames.rule hclosed
  | .recursive x body => by
    intro hclosed hnames
    exact .recursive fun c c' => body.build_alike hclosed.2 (hnames.push hclosed.1 c c')
  | .named x => fun hclosed hnames => hnames.named hclosed

theorem Continuation.build_alike : (next : Continuation) → ∀ {bound pairs names names'},
    next.Closed rules ref bound → NamesAlike knots pairs rules ref bound names names' →
    BuildsAlike knots (ContinuationAlike knots) pairs (next.build names)
      ((next.throughNames ref).build names')
  | .same | .keep => fun _ _ => .done fun _ => .map _ (.leaf _)
  | .close => fun _ _ => .done fun _ => (Piece.closeElement _).grammar_twin
  | .count body => by
    intro hclosed hnames
    refine .next (body.build_alike hclosed hnames) fun more b b' _ hb => ?_
    exact .done fun _ => .map _ (.repeated _ hb)
  | .always body => by
    intro hclosed hnames
    refine .next (body.build_alike hclosed hnames) fun more b b' _ hb => ?_
    exact .done fun _ => hb
  | .cases table otherwise => by
    intro hclosed hnames
    refine .next (Recipe.buildTable_alike table hclosed.1 hnames) fun more cs cs' hsub hcases => ?_
    refine .next (otherwise.build_alike hclosed.2 (hnames.mono hsub)) fun most b b' hsub' hb => ?_
    exact .done ((hcases.mono hsub').choose hb)

theorem Recipe.buildTable_alike : (table : List (String × Recipe)) → ∀ {bound pairs names names'},
    Recipe.ClosedTable rules ref table bound →
    NamesAlike knots pairs rules ref bound names names' →
    BuildsAlike knots (CasesAlike knots) pairs (Recipe.buildTable names table)
      (Recipe.buildTable names' (Recipe.tableThroughNames ref table))
  | [] => fun _ _ => .done fun _ => .inl ⟨rfl, rfl⟩
  | (_, body) :: table => by
    intro hclosed hnames
    refine .next (body.build_alike hclosed.1 hnames) fun more b b' hsub hb => ?_
    have hnames' := hnames.mono hsub
    refine .next (Recipe.buildTable_alike table hclosed.2 hnames')
      fun most cs cs' hsub' hcases => ?_
    exact .done (.cons (Twin.mono hb hsub') hcases)

end

end Descent
