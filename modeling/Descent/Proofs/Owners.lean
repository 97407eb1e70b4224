/-
  Descent.Proofs.Owners

  Who keeps a cell alive.  A cell can be reached if it is among the roots or is owned by the
  definition of a cell that can be reached.  In a sound store the roots are alive, and so is
  whatever a living cell owns; so a cell that can be reached is alive.  Letting go of cells keeps a
  store sound, and goes on until every living cell has got an owner.

  That a living cell can be reached does not follow: cells that own each other keep each other
  alive.
-/
import Descent.Proofs.Kept

namespace Descent

namespace Store

variable {store mid store' : Store} {roots : List CellId} {c d : CellId} {b : Built}

/-- The cell is alive. -/
def Alive (store : Store) (c : CellId) : Prop :=
  ∃ definition, store.cell? c = some ⟨definition, true⟩

/-- The cell is among the roots, or owned by the definition of one that can be reached. -/
inductive Reachable (store : Store) (roots : List CellId) : CellId → Prop
  | root {c : CellId} (hc : c ∈ roots) : Reachable store roots c
  | owned {c d : CellId} {b : Built} (hd : Reachable store roots d)
      (hdefinition : store.definition? d = some b) (hc : c ∈ b.owned) : Reachable store roots c

/-- The roots are alive, and a living cell owns none but living cells. -/
structure Sound (store : Store) (roots : List CellId) : Prop where
  roots : ∀ c ∈ roots, store.Alive c
  owned : ∀ c b, store.Defined c b → ∀ d ∈ b.owned, store.Alive d

/-- Every living cell is among the roots or owned by a living cell. -/
def Accounted (store : Store) (roots : List CellId) : Prop :=
  ∀ c, store.Alive c → c ∈ roots ∨ ∃ d b, store.Defined d b ∧ c ∈ b.owned

/-- Where there are no roots, nothing can be reached. -/
theorem not_reachable_nil : ¬ store.Reachable [] c := by
  intro h
  induction h with
  | root hc => exact absurd hc List.not_mem_nil
  | owned _ _ _ ih => exact ih

-- ============================================================================
-- Living cells
-- ============================================================================

theorem Defined.alive (h : store.Defined c b) : store.Alive c := ⟨some b, h⟩

theorem Defined.definition? (h : store.Defined c b) : store.definition? c = some b := by
  rw [Store.definition?, h]
  rfl

theorem Alive.defined (h : store.Alive c) (hb : store.definition? c = some b) :
    store.Defined c b := by
  obtain ⟨definition, hc⟩ := h
  rw [Store.definition?, hc] at hb
  rw [Defined, hc]
  exact congrArg (fun definition => some (Cell.mk definition true)) hb

theorem reaches_handle_iff : store.reaches (.handle c) = true ↔ store.Alive c := by
  rw [reaches, Alive]
  cases store.cell? c with
  | none => simp
  | some cell =>
    obtain ⟨definition, alive⟩ := cell
    simp [Option.any]

theorem Keeps.alive (h : store.Keeps store') (hc : store.Alive c) : store'.Alive c := by
  obtain ⟨definition, hcell⟩ := hc
  exact ⟨definition, h c _ hcell⟩

theorem alive_declare (store : Store) : store.declare.Alive store.next :=
  ⟨none, cell?_declare_self store⟩

theorem alive_write_iff : (store.write c b).Alive d ↔ store.Alive d := by
  rw [Alive, Alive, cell?_write]
  split
  · cases store.cell? d with
    | none => simp
    | some cell =>
      obtain ⟨definition, alive⟩ := cell
      simp
  · exact Iff.rfl

theorem defined_of_declare (h : store.declare.Defined c b) : store.Defined c b := by
  rw [Defined, cell?_declare] at h
  split at h
  · cases h
  · exact h

theorem defined_of_write {b' : Built} (h : (store.write c b).Defined d b') :
    b' = b ∨ store.Defined d b' := by
  rw [Defined, cell?_write] at h
  split at h
  · obtain ⟨cell, -, hcell⟩ := Option.map_eq_some_iff.1 h
    exact .inl (Option.some.inj (Cell.mk.inj hcell).1).symm
  · exact .inr h

/-! ## Sweeping -/

theorem alive_sweep_iff :
    (sweep roots store).Alive c ↔ store.Alive c ∧ store.hasOwner roots c = true := by
  rw [Alive, cell?_sweep, Alive]
  cases store.cell? c with
  | none => simp
  | some cell =>
    obtain ⟨definition, alive⟩ := cell
    simp

theorem defined_of_sweep (h : (sweep roots store).Defined c b) : store.Defined c b := by
  have hdefinition := h.definition?
  rw [definition?_sweep] at hdefinition
  exact (alive_sweep_iff.1 h.alive).1.defined hdefinition

-- ============================================================================
-- Sound stores
-- ============================================================================

/-- What can be reached is alive. -/
theorem Sound.alive (h : store.Sound roots) (hc : store.Reachable roots c) : store.Alive c := by
  induction hc with
  | root hc => exact h.roots _ hc
  | owned _ hdefinition hc ih => exact h.owned _ _ (ih.defined hdefinition) _ hc

namespace Sound

variable {more : List CellId}

theorem empty : Sound .empty [] :=
  ⟨List.forall_mem_nil _, fun _ _ h => absurd (lt_next_of_cell? h) (Nat.not_lt_zero _)⟩

theorem anti (h : store.Sound roots) (hsub : more ⊆ roots) : store.Sound more :=
  ⟨fun c hc => h.roots c (hsub hc), h.owned⟩

theorem append (h : store.Sound roots) (hmore : ∀ c ∈ more, store.Alive c) :
    store.Sound (more ++ roots) :=
  ⟨List.forall_mem_append.2 ⟨hmore, h.roots⟩, h.owned⟩

theorem declare (h : store.Sound roots) : store.declare.Sound roots :=
  ⟨fun c hc => (Keeps.declare store).alive (h.roots c hc), fun c b hb d hd =>
    (Keeps.declare store).alive (h.owned c b (defined_of_declare hb) d hd)⟩

/-- A definition that owns none but living cells may be written. -/
theorem write (h : store.Sound roots) (hb : ∀ d ∈ b.owned, store.Alive d) (c : CellId) :
    (store.write c b).Sound roots := by
  refine ⟨fun c hc => alive_write_iff.2 (h.roots c hc), fun e b' he d hd => alive_write_iff.2 ?_⟩
  rcases defined_of_write he with rfl | he
  · exact hb d hd
  · exact h.owned e b' he d hd

/-- What a cell owns has an owner as long as the cell lives, so it goes no earlier than the cell. -/
theorem sweep (h : store.Sound roots) : (sweep roots store).Sound roots := by
  refine ⟨fun c hc => ?_, fun c b hb d hd => ?_⟩
  · exact alive_sweep_iff.2 ⟨h.roots c hc, hasOwner_iff.2 (.inl hc)⟩
  · have hb' := defined_of_sweep hb
    exact alive_sweep_iff.2 ⟨h.owned c b hb' d hd, hasOwner_iff.2 (.inr ⟨c, b, hb', hd⟩)⟩

theorem sweeps (h : store.Sound roots) (n : Nat) : (sweeps roots n store).Sound roots := by
  induction n generalizing store with
  | zero => exact h
  | succ n ih =>
    rw [Store.sweeps]
    split
    · exact h
    · exact ih h.sweep

theorem release (h : store.Sound roots) : (store.release roots).Sound roots := h.sweeps store.next

end Sound

-- ============================================================================
-- Letting go of everything that has no owner
-- ============================================================================

/-- As many sweeps as cells are alive are enough: another one finds nothing to take. -/
theorem sweep_sweeps {n : Nat} (h : store.living ≤ n) :
    sweep roots (sweeps roots n store) = sweeps roots n store := by
  induction n generalizing store with
  | zero =>
    have hle := living_sweep_le roots store
    have hnone : (sweep roots store).living = store.living := by omega
    exact sweep_eq_self hnone
  | succ n ih =>
    rw [sweeps]
    split
    · next hliving => exact sweep_eq_self hliving
    · next hliving =>
      have hle := living_sweep_le roots store
      exact ih (by omega)

theorem sweep_release (roots : List CellId) (store : Store) :
    sweep roots (store.release roots) = store.release roots := by
  refine sweep_sweeps ?_
  rw [living, store.next_eq]
  exact List.countP_le_length

/-- Once cells have been let go of, every living cell has an owner. -/
theorem accounted_release (roots : List CellId) (store : Store) :
    (store.release roots).Accounted roots := by
  intro c hc
  rw [← sweep_release] at hc
  exact hasOwner_iff.1 (alive_sweep_iff.1 hc).2

namespace Accounted

theorem empty : Accounted .empty [] := by
  rintro c ⟨definition, hc⟩
  exact absurd (lt_next_of_cell? hc) (Nat.not_lt_zero c)

theorem mono {more : List CellId} (h : store.Accounted roots) (hsub : roots ⊆ more) :
    store.Accounted more :=
  fun c hc => (h c hc).imp_left fun hroot => hsub hroot

/-- Building adds none but cells that have an owner. -/
theorem grown {owned : List CellId} (h : store.Accounted roots)
    (hgrown : store.Grown store' owned) : store'.Accounted (owned ++ roots) := by
  intro c hc
  rcases Nat.lt_or_ge c store.next with hlt | hge
  · obtain ⟨definition, hcell⟩ := hc
    rw [hgrown.keeps.cell?_eq hlt] at hcell
    refine (h c ⟨definition, hcell⟩).imp (List.mem_append_right owned) fun howner => ?_
    obtain ⟨d, b, hd, hb⟩ := howner
    exact ⟨d, b, hgrown.keeps.defined hd, hb⟩
  · obtain ⟨definition, hcell⟩ := hc
    exact (hgrown.new c hge (lt_next_of_cell? hcell)).2.imp_left (List.mem_append_left roots)

end Accounted

end Store

end Descent
