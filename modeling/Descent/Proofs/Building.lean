/-
  Descent.Proofs.Building

  What building a description does to the cells.  Building only adds: the cells that were there stay
  as they are, and each new one is alive, has got its definition, and is owned by what was built or
  by the definition of another cell.  Builds run one after the other, so the relation between the
  store before and the one after composes.
-/
import Descent.Recipe.Build
import Descent.Proofs.Lookup

namespace Descent

namespace Build

variable {α β : Type 1}

/-- A build that came out is made of one that came out and one from what it built. -/
theorem next_inv {build : Build α} {f : α → Build β} {store store' : Store} {b : β}
    (h : build.next f store = .ok (b, store')) :
    ∃ a mid, build store = .ok (a, mid) ∧ f a mid = .ok (b, store') := by
  rw [next] at h
  cases hbuild : build store with
  | error m =>
    rw [hbuild] at h
    exact nomatch h
  | ok r =>
    rw [hbuild] at h
    exact ⟨r.1, r.2, rfl, h⟩

theorem done_inv {a b : α} {store store' : Store} (h : done a store = .ok (b, store')) :
    a = b ∧ store = store' :=
  Prod.mk.inj (Except.ok.inj h)

end Build

namespace Store

/-- The cell is alive and has the given definition. -/
def Defined (store : Store) (c : CellId) (b : Built) : Prop := store.cell? c = some ⟨some b, true⟩

/-- All cells of the first store are as they were in the second one. -/
def Keeps (store store' : Store) : Prop :=
  ∀ c cell, store.cell? c = some cell → store'.cell? c = some cell

/-- The second store keeps the cells of the first one.  The other cells there are alive and defined,
    and each is among the given ones or owned by the definition of a cell. -/
structure Grown (store store' : Store) (owned : List CellId) : Prop where
  keeps : store.Keeps store'
  new : ∀ c, store.next ≤ c → c < store'.next →
    (∃ b, store'.Defined c b) ∧ (c ∈ owned ∨ ∃ d b, store'.Defined d b ∧ c ∈ b.owned)

variable {store mid store' : Store}

/-! ## Single cells -/

theorem lt_next_of_cell? {c : CellId} {cell : Cell} (h : store.cell? c = some cell) :
    c < store.next :=
  cell?_isSome_iff.1 (Option.isSome_iff_exists.2 ⟨cell, h⟩)

theorem cell?_declare_of_lt {c : CellId} (h : c < store.next) :
    store.declare.cell? c = store.cell? c := by
  rw [cell?_declare, if_neg (Nat.ne_of_lt h)]

theorem cell?_declare_self (store : Store) :
    store.declare.cell? store.next = some ⟨none, true⟩ := by
  rw [cell?_declare, if_pos rfl]

theorem cell?_write_of_ne {c d : CellId} (h : d ≠ c) (b : Built) :
    (store.write c b).cell? d = store.cell? d := by
  rw [cell?_write, if_neg h]

theorem defined_write_self {c : CellId} {definition : Option Built}
    (h : store.cell? c = some ⟨definition, true⟩) (b : Built) : (store.write c b).Defined c b := by
  rw [Defined, cell?_write, if_pos rfl, h]
  rfl

/-- Writing a cell without definition leaves the cells with one as they are. -/
theorem Defined.write {c d : CellId} {b b' : Built} (h : store.Defined d b')
    (hc : store.cell? c = some ⟨none, true⟩) : (store.write c b).Defined d b' := by
  have hne : d ≠ c := by
    intro hdc
    rw [Defined, hdc, hc] at h
    exact nomatch h
  rw [Defined, cell?_write_of_ne hne]
  exact h

theorem reaches_declare (store : Store) (r : Reference) :
    store.declare.reaches r = (store.reaches r || r.cell == store.next) := by
  cases r with
  | owner c => rfl
  | handle c =>
    rw [reaches, reaches, cell?_declare]
    by_cases hc : c = store.next
    · rw [if_pos hc, show ((Reference.handle c).cell == store.next) = true from beq_iff_eq.2 hc]
      rw [Bool.or_true]
      rfl
    · rw [if_neg hc, show ((Reference.handle c).cell == store.next) = false from
        beq_eq_false_iff_ne.2 hc, Bool.or_false]

/-- Writing a definition lets no cell live or die. -/
theorem reaches_write (store : Store) (c : CellId) (b : Built) (r : Reference) :
    (store.write c b).reaches r = store.reaches r := by
  cases r with
  | owner d => rfl
  | handle d =>
    rw [reaches, reaches, cell?_write]
    split
    · cases store.cell? d <;> rfl
    · rfl

/-! ## Keeping -/

namespace Keeps

theorem refl (store : Store) : store.Keeps store := fun _ _ h => h

theorem trans (h₁ : store.Keeps mid) (h₂ : mid.Keeps store') : store.Keeps store' :=
  fun c cell h => h₂ c cell (h₁ c cell h)

/-- The cells that were there are no others. -/
theorem cell?_eq (h : store.Keeps store') {c : CellId} (hc : c < store.next) :
    store'.cell? c = store.cell? c := by
  obtain ⟨cell, hcell⟩ := Option.isSome_iff_exists.1 (cell?_isSome_iff.2 hc)
  rw [hcell, h c cell hcell]

theorem defined (h : store.Keeps store') {c : CellId} {b : Built} (hc : store.Defined c b) :
    store'.Defined c b :=
  h c _ hc

theorem declare (store : Store) : store.Keeps store.declare := by
  intro c cell h
  rw [cell?_declare_of_lt (lt_next_of_cell? h)]
  exact h

/-- Writing a cell keeps those that were there before it was declared. -/
theorem write (h : store.declare.Keeps store') (b : Built) :
    store.Keeps (store'.write store.next b) := by
  intro c cell hc
  have hlt := lt_next_of_cell? hc
  rw [cell?_write_of_ne (Nat.ne_of_lt hlt)]
  exact h c cell (by rw [cell?_declare_of_lt hlt, hc])

end Keeps

/-! ## Growing -/

namespace Grown

theorem refl (store : Store) (owned : List CellId) : store.Grown store owned := by
  refine ⟨.refl store, fun c hle hlt => ?_⟩
  omega

theorem mono {owned more : List CellId} (h : store.Grown store' owned)
    (hsub : ∀ c ∈ owned, c ∈ more) : store.Grown store' more := by
  refine ⟨h.keeps, fun c hle hlt => ?_⟩
  obtain ⟨hdefined, howned⟩ := h.new c hle hlt
  exact ⟨hdefined, howned.imp_left (hsub c)⟩

theorem trans {first second owned : List CellId} (h₁ : store.Grown mid first)
    (h₂ : mid.Grown store' second) (hfirst : ∀ c ∈ first, c ∈ owned)
    (hsecond : ∀ c ∈ second, c ∈ owned) : store.Grown store' owned := by
  refine ⟨h₁.keeps.trans h₂.keeps, fun c hle hlt => ?_⟩
  rcases Nat.lt_or_ge c mid.next with hmid | hmid
  · obtain ⟨⟨b, hb⟩, howned⟩ := h₁.new c hle hmid
    refine ⟨⟨b, h₂.keeps.defined hb⟩, howned.imp (hfirst c) fun h => ?_⟩
    obtain ⟨d, b', hd, hc⟩ := h
    exact ⟨d, b', h₂.keeps.defined hd, hc⟩
  · exact (h₂.mono hsecond).new c hmid hlt

/-- Declare a cell, build with it, and define it with what was built.  The new cell is all that is
    owned in the end, since it owns what was built. -/
theorem knot {b : Built} (h : store.declare.Grown store' b.owned) :
    store.Grown (store'.write store.next b) [store.next] := by
  have hself : store'.cell? store.next = some ⟨none, true⟩ :=
    h.keeps _ _ (cell?_declare_self store)
  have hdefined : (store'.write store.next b).Defined store.next b := defined_write_self hself b
  refine ⟨h.keeps.write b, fun c hle hlt => ?_⟩
  rcases Nat.eq_or_lt_of_le hle with rfl | hgt
  · exact ⟨⟨b, hdefined⟩, .inl List.mem_cons_self⟩
  · rw [next_write] at hlt
    obtain ⟨⟨b', hb'⟩, howned⟩ := h.new c hgt hlt
    refine ⟨⟨b', hb'.write hself⟩, .inr ?_⟩
    rcases howned with hc | ⟨d, b'', hd, hc⟩
    · exact ⟨store.next, b, hdefined, hc⟩
    · exact ⟨d, b'', hd.write hself, hc⟩

end Grown

end Store

/-! ## Builds -/

theorem forall_mem_joinCells {P : CellId → Prop} {cs ds : List CellId} :
    (∀ c ∈ joinCells cs ds, P c) ↔ (∀ c ∈ cs, P c) ∧ ∀ d ∈ ds, P d := by
  simp only [mem_joinCells, or_imp, forall_and]

theorem joinCells_left (cs ds : List CellId) : cs ⊆ joinCells cs ds :=
  fun _ hc => mem_joinCells.2 (.inl hc)

theorem joinCells_right (cs ds : List CellId) : ds ⊆ joinCells cs ds :=
  fun _ hd => mem_joinCells.2 (.inr hd)

theorem mem_foldr_joinCells {c : CellId} {cases : List (String × Built)} {owned : List CellId} :
    c ∈ cases.foldr (fun entry owned => joinCells entry.2.owned owned) owned ↔
      c ∈ cases.flatMap (fun entry => entry.2.owned) ∨ c ∈ owned := by
  induction cases with
  | nil => simp
  | cons entry cases ih =>
    rw [List.foldr_cons, mem_joinCells, ih, List.flatMap_cons, List.mem_append, or_assoc]

-- Along the description, each part of which is built where the last one left off.

mutual

/-- Building a described grammar adds cells that are defined and owned. -/
theorem Recipe.build_grown : (recipe : Recipe) → {names : Names} → {store store' : Store} →
    {b : Built} → recipe.build names store = .ok (b, store') → store.Grown store' b.owned
  | .piece p, _, _, _, _, h => by
    obtain ⟨rfl, rfl⟩ := Build.done_inv h
    exact .refl _ _
  | .modified m body, _, _, _, _, h => by
    obtain ⟨a, mid, hbody, hdone⟩ := Build.next_inv h
    obtain ⟨rfl, rfl⟩ := Build.done_inv hdone
    have hgrown := body.build_grown hbody
    exact hgrown
  | .joined j first second, _, _, _, _, h => by
    obtain ⟨a, mid, hfirst, hnext⟩ := Build.next_inv h
    obtain ⟨b, mid', hsecond, hdone⟩ := Build.next_inv hnext
    obtain ⟨rfl, rfl⟩ := Build.done_inv hdone
    exact (first.build_grown hfirst).trans (second.build_grown hsecond)
      (fun c hc => mem_joinCells.2 (.inl hc)) fun c hc => mem_joinCells.2 (.inr hc)
  | .between body start finish, _, _, _, _, h => by
    obtain ⟨a, mid, hbody, hnext⟩ := Build.next_inv h
    obtain ⟨b, mid', hstart, hnext'⟩ := Build.next_inv hnext
    obtain ⟨d, mid'', hfinish, hdone⟩ := Build.next_inv hnext'
    obtain ⟨rfl, rfl⟩ := Build.done_inv hdone
    have hboth := (body.build_grown hbody).trans (start.build_grown hstart)
      (fun c hc => mem_joinCells.2 (.inl hc)) fun c hc => mem_joinCells.2 (.inr hc)
    exact hboth.trans (finish.build_grown hfinish)
      (fun c hc => mem_joinCells.2 (.inl hc)) fun c hc => mem_joinCells.2 (.inr hc)
  | .andThen body next, _, _, _, _, h | .chained body next, _, _, _, _, h => by
    obtain ⟨a, mid, hbody, hnext⟩ := Build.next_inv h
    obtain ⟨k, mid', hk, hdone⟩ := Build.next_inv hnext
    obtain ⟨rfl, rfl⟩ := Build.done_inv hdone
    exact (body.build_grown hbody).trans (next.build_grown hk)
      (fun c hc => mem_joinCells.2 (.inl hc)) fun c hc => mem_joinCells.2 (.inr hc)
  | .rule name, _, _, _, _, h => by
    obtain ⟨rfl, rfl⟩ := Build.done_inv h
    exact .refl _ _
  | .recursive name body, _, _, _, _, h => by
    obtain ⟨a, mid, hbody, hwrite⟩ := Build.next_inv h
    obtain ⟨rfl, rfl⟩ := Prod.mk.inj (Except.ok.inj hwrite)
    exact .knot (body.build_grown hbody)
  | .named name, names, _, _, _, h => by
    rw [Recipe.build] at h
    split at h
    · obtain ⟨rfl, rfl⟩ := Prod.mk.inj (Except.ok.inj h)
      exact .refl _ _
    · exact nomatch h

theorem Continuation.build_grown : (next : Continuation) → {names : Names} →
    {store store' : Store} → {k : BuiltContinuation} →
    next.build names store = .ok (k, store') → store.Grown store' k.owned
  | .same, _, _, _, _, h | .close, _, _, _, _, h | .keep, _, _, _, _, h => by
    obtain ⟨rfl, rfl⟩ := Build.done_inv h
    exact .refl _ _
  | .count body, _, _, _, _, h | .always body, _, _, _, _, h => by
    obtain ⟨a, mid, hbody, hdone⟩ := Build.next_inv h
    obtain ⟨rfl, rfl⟩ := Build.done_inv hdone
    have hgrown := body.build_grown hbody
    exact hgrown
  | .cases table otherwise, _, _, _, _, h => by
    obtain ⟨cases, mid, htable, hnext⟩ := Build.next_inv h
    obtain ⟨b, mid', hotherwise, hdone⟩ := Build.next_inv hnext
    obtain ⟨rfl, rfl⟩ := Build.done_inv hdone
    exact (Recipe.buildTable_grown table htable).trans (otherwise.build_grown hotherwise)
      (fun c hc => mem_foldr_joinCells.2 (.inl hc)) fun c hc => mem_foldr_joinCells.2 (.inr hc)

theorem Recipe.buildTable_grown : (table : List (String × Recipe)) → {names : Names} →
    {store store' : Store} → {cases : List (String × Built)} →
    Recipe.buildTable names table store = .ok (cases, store') →
    store.Grown store' (cases.flatMap fun entry => entry.2.owned)
  | [], _, _, _, _, h => by
    obtain ⟨rfl, rfl⟩ := Build.done_inv h
    exact .refl _ _
  | (key, body) :: table, _, _, _, _, h => by
    obtain ⟨b, mid, hbody, hnext⟩ := Build.next_inv h
    obtain ⟨cases, mid', htable, hdone⟩ := Build.next_inv hnext
    obtain ⟨rfl, rfl⟩ := Build.done_inv hdone
    rw [List.flatMap_cons]
    exact (body.build_grown hbody).trans (Recipe.buildTable_grown table htable)
      (fun c hc => List.mem_append_left _ hc) fun c hc => List.mem_append_right _ hc

end

/-! ## Builds that do not come out -/

/-- The build meets no misuse but a name that stands for nothing. -/
def Build.OnlyUnbound {β : Type 1} (build : Build β) : Prop :=
  ∀ store m, build store = .error m → ∃ x, m = .unbound x

namespace Build.OnlyUnbound

variable {β γ : Type 1}

theorem done {b : β} : Build.OnlyUnbound (.done b) := fun _ _ h => nomatch h

theorem next {build : Build β} {f : β → Build γ} (h : build.OnlyUnbound)
    (hf : ∀ b, (f b).OnlyUnbound) : (build.next f).OnlyUnbound := by
  intro store m hm
  rw [Build.next] at hm
  split at hm
  · next m' hbuild =>
    cases hm
    exact h store m hbuild
  · next b mid hbuild => exact hf b mid m hm

theorem recursive {names : Names} {x : String} {body : Recipe}
    (hbody : ∀ c, (body.build ((x, (Reference.handle c).built) :: names)).OnlyUnbound) :
    ((Recipe.recursive x body).build names).OnlyUnbound := by
  intro store
  refine (hbody store.next).next (fun b mid m h => ?_) store.declare
  exact nomatch h

theorem named {names : Names} {x : String} : ((Recipe.named x).build names).OnlyUnbound := by
  intro store m h
  rw [Recipe.build] at h
  split at h
  · exact nomatch h
  · cases h
    exact ⟨x, rfl⟩

end Build.OnlyUnbound

-- Along the description; all misuse is that of a name in it.

mutual

theorem Recipe.build_onlyUnbound : (recipe : Recipe) → (names : Names) →
    (recipe.build names).OnlyUnbound
  | .piece _, _ | .rule _, _ => .done
  | .modified _ body, names => .next (body.build_onlyUnbound names) fun _ => .done
  | .joined _ first second, names =>
    .next (first.build_onlyUnbound names) fun _ =>
      .next (second.build_onlyUnbound names) fun _ => .done
  | .between body start finish, names =>
    .next (body.build_onlyUnbound names) fun _ =>
      .next (start.build_onlyUnbound names) fun _ =>
        .next (finish.build_onlyUnbound names) fun _ => .done
  | .andThen body next, names | .chained body next, names =>
    .next (body.build_onlyUnbound names) fun _ =>
      .next (next.build_onlyUnbound names) fun _ => .done
  | .recursive _ body, _ => .recursive fun _ => body.build_onlyUnbound _
  | .named _, _ => .named

theorem Continuation.build_onlyUnbound : (next : Continuation) → (names : Names) →
    (next.build names).OnlyUnbound
  | .same, _ | .close, _ | .keep, _ => .done
  | .count body, names | .always body, names =>
    .next (body.build_onlyUnbound names) fun _ => .done
  | .cases table otherwise, names =>
    .next (Recipe.buildTable_onlyUnbound table names) fun _ =>
      .next (otherwise.build_onlyUnbound names) fun _ => .done

theorem Recipe.buildTable_onlyUnbound : (table : List (String × Recipe)) → (names : Names) →
    (Recipe.buildTable names table).OnlyUnbound
  | [], _ => .done
  | (_, body) :: table, names =>
    .next (body.build_onlyUnbound names) fun _ =>
      .next (Recipe.buildTable_onlyUnbound table names) fun _ => .done

end

end Descent
