/-
  Descent.Proofs.Pairs

  Two builds side by side.  A relation between what is built on the two sides is carried from the
  names in scope to what comes out: the same names stand for related grammars, and cells that are
  numbered and live alike are defined by related ones.  Builds run one after the other, so two runs
  that stay in step at every part stay in step as a whole.  Under rules that are built in step each
  symbol stands for related grammars.
-/
import Descent.Proofs.Building

namespace Descent

-- ============================================================================
-- Names
-- ============================================================================

/-- What the tables have under a key on both sides: nothing, or related grammars. -/
def Names.Paired (P : Built → Built → Prop) (names names' : Names) : Prop :=
  ∀ x, (names.lookup x = none ∧ names'.lookup x = none) ∨
    ∃ b b', names.lookup x = some b ∧ names'.lookup x = some b' ∧ P b b'

namespace Names

variable {P : Built → Built → Prop} {names names' : Names}

theorem paired_nil : Names.Paired P [] [] := fun _ => .inl ⟨rfl, rfl⟩

theorem Paired.cons (h : names.Paired P names') (x : String) {b b' : Built} (hb : P b b') :
    Names.Paired P ((x, b) :: names) ((x, b') :: names') := by
  intro y
  rw [List.lookup_cons, List.lookup_cons]
  cases y == x with
  | true => exact .inr ⟨b, b', rfl, rfl, hb⟩
  | false => exact h y

/-- The case for a text is related on both sides, and so is the one for all other texts. -/
theorem Paired.getD (h : names.Paired P names') {b b' : Built} (hb : P b b') (x : String) :
    P ((names.lookup x).getD b) ((names'.lookup x).getD b') := by
  rcases h x with ⟨hnone, hnone'⟩ | ⟨a, a', ha, ha', haa'⟩
  · rw [hnone, hnone']
    exact hb
  · rw [ha, ha']
    exact haa'

end Names

-- ============================================================================
-- Stores
-- ============================================================================

/-- Cells are numbered alike, live alike, and are defined by related grammars. -/
structure Store.Paired (P : Built → Built → Prop) (store store' : Store) : Prop where
  next : store.next = store'.next
  reaches : ∀ r, store.reaches r = store'.reaches r
  definition : ∀ c, (store.definition? c = none ∧ store'.definition? c = none) ∨
    ∃ b b', store.definition? c = some b ∧ store'.definition? c = some b' ∧ P b b'

namespace Store.Paired

variable {P : Built → Built → Prop} {store store' : Store}

theorem empty : Store.Paired P .empty .empty :=
  ⟨rfl, fun _ => rfl, fun _ => .inl ⟨rfl, rfl⟩⟩

theorem declare (h : store.Paired P store') : store.declare.Paired P store'.declare := by
  refine ⟨congrArg (· + 1) h.next, fun r => ?_, fun c => ?_⟩
  · rw [reaches_declare, reaches_declare, h.reaches, h.next]
  · rw [definition?_declare, definition?_declare]
    exact h.definition c

theorem write (h : store.Paired P store') (c : CellId) {b b' : Built} (hb : P b b') :
    (store.write c b).Paired P (store'.write c b') := by
  refine ⟨by rw [next_write, next_write, h.next], fun r => ?_, fun d => ?_⟩
  · rw [reaches_write, reaches_write, h.reaches]
  · by_cases hcd : c = d
    · subst hcd
      by_cases hc : c < store.next
      · rw [definition?_write_self hc, definition?_write_self (h.next ▸ hc)]
        exact .inr ⟨b, b', rfl, rfl, hb⟩
      · have hc' : ¬ c < store'.next := h.next ▸ hc
        rw [Store.write, if_neg hc, Store.write, if_neg hc']
        exact h.definition c
    · rw [definition?_write_of_ne hcd, definition?_write_of_ne hcd]
      exact h.definition d

/-- A reference is the same misuse on both sides or stands for related grammars. -/
theorem resolve (h : store.Paired P store') (r : Reference) :
    (∃ m, store.resolve r = .error m ∧ store'.resolve r = .error m) ∨
      ∃ b b', store.resolve r = .ok b ∧ store'.resolve r = .ok b' ∧ P b b' := by
  rw [Store.resolve, Store.resolve, ← h.reaches r]
  cases store.reaches r with
  | false => exact .inl ⟨.orphaned, rfl, rfl⟩
  | true =>
    rcases h.definition r.cell with ⟨hnone, hnone'⟩ | ⟨b, b', hb, hb', hP⟩
    · exact .inl ⟨.undefined, by rw [hnone]; rfl, by rw [hnone']; rfl⟩
    · exact .inr ⟨b, b', by rw [hb]; rfl, by rw [hb']; rfl, hP⟩

end Store.Paired

-- ============================================================================
-- Builds
-- ============================================================================

/-- From related stores both builds are the same misuse, or they come out with related results and
    with related stores. -/
def Build.Paired {β : Type 1} (S : Store → Store → Prop) (Q : β → β → Prop)
    (build build' : Build β) : Prop :=
  ∀ store store', S store store' →
    (∃ m, build store = .error m ∧ build' store' = .error m) ∨
      ∃ b after b' after', build store = .ok (b, after) ∧ build' store' = .ok (b', after') ∧
        Q b b' ∧ S after after'

namespace Build.Paired

variable {β γ : Type 1} {S : Store → Store → Prop} {Q : β → β → Prop} {T : γ → γ → Prop}
  {build build' : Build β}

theorem done {b b' : β} (h : Q b b') : Build.Paired S Q (.done b) (.done b') := by
  intro store store' hstore
  exact .inr ⟨b, store, b', store', rfl, rfl, h, hstore⟩

theorem next {f f' : β → Build γ} (h : Build.Paired S Q build build')
    (hf : ∀ b b', Q b b' → Build.Paired S T (f b) (f' b')) :
    Build.Paired S T (build.next f) (build'.next f') := by
  intro store store' hstore
  rw [Build.next, Build.next]
  rcases h store store' hstore with ⟨m, hm, hm'⟩ | ⟨b, mid, b', mid', hb, hb', hQ, hmid⟩
  · rw [hm, hm']
    exact .inl ⟨m, rfl, rfl⟩
  · rw [hb, hb']
    exact hf b b' hQ mid mid' hmid

/-- Something more is done with the result on the first side alone. -/
theorem more {Q' : β → β → Prop} {f : β → β} (h : Build.Paired S Q build build')
    (hf : ∀ b b', Q b b' → Q' (f b) b') :
    Build.Paired S Q' (build.next fun b => .done (f b)) build' := by
  intro store store' hstore
  rw [Build.next]
  rcases h store store' hstore with ⟨m, hm, hm'⟩ | ⟨b, mid, b', mid', hb, hb', hQ, hmid⟩
  · rw [hm]
    exact .inl ⟨m, rfl, hm'⟩
  · rw [hb]
    exact .inr ⟨f b, mid, b', mid', rfl, hb', hf b b' hQ, hmid⟩

section Recipes

variable {P : Built → Built → Prop} {names names' : Names} {body body' : Recipe}

/-- The cells of a recursive parser have the same number on both sides, and the definition is
    written to related stores. -/
theorem recursive {x : String} (hrefs : ∀ r : Reference, P r.built r.built)
    (h : ∀ c, Build.Paired (Store.Paired P) P
      (body.build ((x, (Reference.handle c).built) :: names))
      (body'.build ((x, (Reference.handle c).built) :: names'))) :
    Build.Paired (Store.Paired P) P ((Recipe.recursive x body).build names)
      ((Recipe.recursive x body').build names') := by
  intro store store' hstore
  rcases h store.next store.declare store'.declare hstore.declare with
    ⟨m, hm, hm'⟩ | ⟨b, mid, b', mid', hb, hb', hP, hmid⟩
  · refine .inl ⟨m, ?_, ?_⟩
    · simp only [Recipe.build, Build.next, hm]
    · simp only [Recipe.build, Build.next, ← hstore.next, hm']
  · refine .inr ⟨(Reference.owner store.next).built, mid.write store.next b,
      (Reference.owner store.next).built, mid'.write store.next b', ?_, ?_, hrefs _,
      hmid.write store.next hP⟩
    · simp only [Recipe.build, Build.next, hb]
    · simp only [Recipe.build, Build.next, ← hstore.next, hb']

/-- A name is unbound on both sides or stands for related grammars. -/
theorem named (hnames : names.Paired P names') (x : String) :
    Build.Paired S P ((Recipe.named x).build names) ((Recipe.named x).build names') := by
  intro store store' hstore
  rw [Recipe.build, Recipe.build]
  rcases hnames x with ⟨hnone, hnone'⟩ | ⟨b, b', hb, hb', hP⟩
  · rw [hnone, hnone']
    exact .inl ⟨.unbound x, rfl, rfl⟩
  · rw [hb, hb']
    exact .inr ⟨b, store, b', store', rfl, rfl, hP, hstore⟩

end Recipes

end Build.Paired

-- ============================================================================
-- Rules
-- ============================================================================

/-- Changing the rules themselves does not change which rule is found. -/
theorem Rules.lookup_map (f : Recipe → Recipe) (rules : Rules) (x : String) :
    (rules.map fun rule => (rule.1, f rule.2)).lookup x = (rules.lookup x).map f := by
  induction rules with
  | nil => rfl
  | cons rule rules ih =>
    rw [List.map_cons, List.lookup_cons, List.lookup_cons]
    cases x == rule.1 with
    | true => rfl
    | false => exact ih

/-- Under a name there is no rule on both sides, or there are rules that are built in step. -/
def Rules.Paired (P : Built → Built → Prop) (rules rules' : Rules) : Prop :=
  ∀ x, (rules.lookup x = none ∧ rules'.lookup x = none) ∨
    ∃ recipe recipe', rules.lookup x = some recipe ∧ rules'.lookup x = some recipe' ∧
      Build.Paired (Store.Paired P) P (recipe.build []) (recipe'.build [])

/-- What a symbol stands for on both sides: the elements of the markup language, or grammars that
    were built and are related. -/
inductive Symbol.Paired (P : Built → Built → Prop) :
    {α : Type} → Symbol α → Grammar Symbol α → Grammar Symbol α → Prop
  | element : Paired P .element (Markup.element .element) (Markup.element .element)
  | rule (x : String) {b b' : Built} (hb : P b b') : Paired P (.rule x) b.grammar b'.grammar
  | cell (r : Reference) {b b' : Built} (hb : P b b') : Paired P (.cell r) b.grammar b'.grammar

namespace Rules

variable {P : Built → Built → Prop} {rules rules' : Rules}

/-- It is enough that each rule is built in step with what it is changed into. -/
theorem paired_map {f : Recipe → Recipe} (h : ∀ rule ∈ rules,
      Build.Paired (Store.Paired P) P (rule.2.build []) ((f rule.2).build [])) :
    Rules.Paired P rules (rules.map fun rule => (rule.1, f rule.2)) := by
  intro x
  rw [lookup_map]
  cases hlookup : rules.lookup x with
  | none => exact .inl ⟨rfl, rfl⟩
  | some recipe => exact .inr ⟨recipe, f recipe, rfl, rfl, h _ (mem_of_lookup_eq_some hlookup)⟩

/-- From related stores a symbol is the same misuse on both sides, or stands for related grammars
    and leaves related stores. -/
theorem Paired.resolve (h : rules.Paired P rules') {store store' : Store}
    (hstore : store.Paired P store') {α : Type} (n : Symbol α) :
    (∃ m, rules.rulebook.resolve store n = .error m ∧
      rules'.rulebook.resolve store' n = .error m) ∨
    ∃ g after g' after', rules.rulebook.resolve store n = .ok (g, after) ∧
      rules'.rulebook.resolve store' n = .ok (g', after') ∧ n.Paired P g g' ∧
      after.Paired P after' := by
  cases n with
  | element => exact .inr ⟨_, store, _, store', rfl, rfl, .element, hstore⟩
  | rule x =>
    rcases h x with ⟨hnone, hnone'⟩ | ⟨recipe, recipe', hrecipe, hrecipe', hbuild⟩
    · refine .inl ⟨.unbound x, ?_, ?_⟩
      · simp only [rulebook, hnone]
      · simp only [rulebook, hnone']
    · rcases hbuild store store' hstore with
        ⟨m, hm, hm'⟩ | ⟨b, after, b', after', hb, hb', hP, hafter⟩
      · refine .inl ⟨m, ?_, ?_⟩
        · simp only [rulebook, hrecipe, hm]
        · simp only [rulebook, hrecipe', hm']
      · refine .inr ⟨b.grammar, after, b'.grammar, after', ?_, ?_, .rule x hP, hafter⟩
        · simp only [rulebook, hrecipe, hb]
        · simp only [rulebook, hrecipe', hb']
  | cell r =>
    rcases hstore.resolve r with ⟨m, hm, hm'⟩ | ⟨b, b', hb, hb', hP⟩
    · refine .inl ⟨m, ?_, ?_⟩
      · simp only [rulebook, hm]
      · simp only [rulebook, hm']
    · refine .inr ⟨b.grammar, store, b'.grammar, store', ?_, ?_, .cell r hP, hstore⟩
      · simp only [rulebook, hb]
      · simp only [rulebook, hb']

end Rules

end Descent
