/-
  Descent.Proofs.Kept

  When letting go of cells lets go of none.  If every cell is alive and has an owner, among the
  roots or in the definition of some cell, then a sweep finds nothing to take and the store stays as
  it is.  Declaring a cell under a root, and defining a cell that had no definition by what was just
  built, keep it that way.
-/
import Descent.Proofs.Building

namespace Descent.Store

variable {store store' : Store} {roots : List CellId}

/-- Every cell is alive and has an owner. -/
structure Kept (store : Store) (roots : List CellId) : Prop where
  alive : ∀ c < store.next, ∃ definition, store.cell? c = some ⟨definition, true⟩
  owned : ∀ c < store.next, c ∈ roots ∨ ∃ d b, store.Defined d b ∧ c ∈ b.owned

/-! ## Sweeping -/

theorem mem_cells_of_cell? {c : CellId} {cell : Cell} (h : store.cell? c = some cell) :
    cell ∈ store.cells := by
  rw [cell?] at h
  split at h
  · exact List.mem_of_getElem? h
  · exact absurd h (by simp)

theorem exists_cell?_of_mem {cell : Cell} (h : cell ∈ store.cells) :
    ∃ c, store.cell? c = some cell := by
  obtain ⟨i, hi, hcell⟩ := List.mem_iff_getElem.1 h
  -- The newest cell stands first.
  have hi' : i < store.next := by rw [store.next_eq]; exact hi
  have hlt : store.next - 1 - i < store.next := by omega
  have hindex : store.next - 1 - (store.next - 1 - i) = i := by omega
  refine ⟨store.next - 1 - i, ?_⟩
  rw [cell?, if_pos hlt, hindex, List.getElem?_eq_getElem hi, hcell]

theorem mem_owned_iff {cell : Cell} {c : CellId} :
    c ∈ cell.owned ↔ ∃ b, cell = ⟨some b, true⟩ ∧ c ∈ b.owned := by
  obtain ⟨definition, alive⟩ := cell
  cases alive <;> cases definition <;> simp [Cell.owned]

/-- A cell has an owner if it is among the roots or owned by a living cell. -/
theorem hasOwner_iff {c : CellId} :
    store.hasOwner roots c = true ↔ c ∈ roots ∨ ∃ d b, store.Defined d b ∧ c ∈ b.owned := by
  rw [Store.hasOwner, Bool.or_eq_true, List.contains_iff_mem, List.any_eq_true]
  refine or_congr_right ⟨?_, ?_⟩
  · rintro ⟨cell, hcell, hc⟩
    obtain ⟨b, rfl, hb⟩ := mem_owned_iff.1 (List.contains_iff_mem.1 hc)
    obtain ⟨d, hd⟩ := exists_cell?_of_mem hcell
    exact ⟨d, b, hd, hb⟩
  · rintro ⟨d, b, hd, hb⟩
    exact ⟨⟨some b, true⟩, mem_cells_of_cell? hd,
      List.contains_iff_mem.2 (mem_owned_iff.2 ⟨b, rfl, hb⟩)⟩

theorem Kept.hasOwner (h : store.Kept roots) {c : CellId} (hc : c < store.next) :
    store.hasOwner roots c = true :=
  hasOwner_iff.2 (h.owned c hc)

/-- A store is its cells. -/
theorem eq_of_cell? (hnext : store.next = store'.next)
    (hcell : ∀ c, store.cell? c = store'.cell? c) : store = store' := by
  obtain ⟨cells, next, hlength⟩ := store
  obtain ⟨cells', next', hlength'⟩ := store'
  obtain rfl : next = next' := hnext
  have hcells : cells = cells' := by
    refine List.ext_getElem (by omega) fun i hi hi' => ?_
    -- The newest cell stands first.
    have hc := hcell (next - 1 - i)
    have hlt : next - 1 - i < next := by omega
    have hindex : next - 1 - (next - 1 - i) = i := by omega
    rw [cell?, cell?, if_pos hlt, if_pos hlt, hindex] at hc
    rw [List.getElem?_eq_getElem hi, List.getElem?_eq_getElem hi'] at hc
    exact Option.some.inj hc
  subst hcells
  rfl

theorem Kept.sweep_eq (h : store.Kept roots) : sweep roots store = store := by
  refine eq_of_cell? rfl fun c => ?_
  rw [cell?_sweep]
  cases hcell : store.cell? c with
  | none => rfl
  | some cell =>
    rw [Option.map_some, h.hasOwner (lt_next_of_cell? hcell), Bool.and_true]

/-- Nothing is let go of where everything is owned. -/
theorem Kept.release_eq (h : store.Kept roots) : store.release roots = store := by
  rw [release]
  cases store.next with
  | zero => rfl
  | succ n => rw [sweeps, h.sweep_eq, if_pos rfl]

/-! ## Declaring and defining -/

theorem kept_empty : Kept empty [] := by
  refine ⟨fun c hc => ?_, fun c hc => ?_⟩
  · exact absurd hc (Nat.not_lt_zero c)
  · exact absurd hc (Nat.not_lt_zero c)

/-- A cell is declared under a root. -/
theorem Kept.declare (h : store.Kept roots) : store.declare.Kept (store.next :: roots) := by
  refine ⟨fun c hc => ?_, fun c hc => ?_⟩
  · rcases Nat.eq_or_lt_of_le (Nat.le_of_lt_succ hc) with rfl | hlt
    · exact ⟨none, cell?_declare_self store⟩
    · rw [cell?_declare_of_lt hlt]
      exact h.alive c hlt
  · rcases Nat.eq_or_lt_of_le (Nat.le_of_lt_succ hc) with rfl | hlt
    · exact .inl List.mem_cons_self
    · refine (h.owned c hlt).imp (List.mem_cons_of_mem _) fun howned => ?_
      obtain ⟨d, b, hd, hc⟩ := howned
      exact ⟨d, b, (Keeps.declare store).defined hd, hc⟩

/-- What was built defines a cell that was there without a definition, so the cell owns whatever
    the build has added. -/
theorem Kept.define (h : store.Kept roots) {b : Built} (hgrown : store.Grown store' b.owned)
    {c : CellId} (hc : store.cell? c = some ⟨none, true⟩) : (store'.write c b).Kept roots := by
  have hc' : store'.cell? c = some ⟨none, true⟩ := hgrown.keeps c _ hc
  have hdefined : (store'.write c b).Defined c b := defined_write_self hc' b
  refine ⟨fun d hd => ?_, fun d hd => ?_⟩
  · rw [next_write] at hd
    by_cases hdc : d = c
    · exact ⟨some b, hdc ▸ hdefined⟩
    · rw [cell?_write_of_ne hdc]
      rcases Nat.lt_or_ge d store.next with hlt | hge
      · obtain ⟨definition, hdefinition⟩ := h.alive d hlt
        exact ⟨definition, hgrown.keeps d _ hdefinition⟩
      · obtain ⟨⟨b', hb'⟩, -⟩ := hgrown.new d hge hd
        exact ⟨some b', hb'⟩
  · rw [next_write] at hd
    rcases Nat.lt_or_ge d store.next with hlt | hge
    · refine (h.owned d hlt).imp_right fun howned => ?_
      obtain ⟨e, b', he, hd'⟩ := howned
      exact ⟨e, b', (hgrown.keeps.defined he).write hc', hd'⟩
    · obtain ⟨-, howned⟩ := hgrown.new d hge hd
      rcases howned with hb | ⟨e, b', he, hd'⟩
      · exact .inr ⟨c, b, hdefined, hb⟩
      · exact .inr ⟨e, b', he.write hc', hd'⟩

end Descent.Store
