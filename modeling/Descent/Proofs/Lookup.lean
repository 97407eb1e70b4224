/-
  Descent.Proofs.Lookup

  Lists of values by name.  Looking a name up finds the first value of that name, and where no name
  occurs twice it finds the one that is there, wherever it stands.
-/

namespace Descent

variable {β : Type _} {l : List (String × β)} {x : String} {b : β}

theorem lookup_cons_of_ne {y : String} (h : y ≠ x) : ((x, b) :: l).lookup y = l.lookup y := by
  rw [List.lookup_cons, beq_false_of_ne h]

theorem mem_of_lookup_eq_some (h : l.lookup x = some b) : (x, b) ∈ l := by
  obtain ⟨before, after, rfl, -⟩ := List.lookup_eq_some_iff.1 h
  exact List.mem_append_right before List.mem_cons_self

/-- A key of a list is found in it. -/
theorem exists_lookup_of_mem (h : x ∈ l.map Prod.fst) : ∃ b, l.lookup x = some b := by
  obtain ⟨entry, hentry, hkey⟩ := List.mem_map.1 h
  refine Option.ne_none_iff_exists'.1 fun hnone => ?_
  have hne := List.lookup_eq_none_iff.1 hnone entry hentry
  rw [hkey, bne_self_eq_false] at hne
  exact Bool.false_ne_true hne

theorem lookup_eq_some_of_mem (hdistinct : (l.map Prod.fst).Nodup) (h : (x, b) ∈ l) :
    l.lookup x = some b := by
  induction l with
  | nil => exact absurd h List.not_mem_nil
  | cons entry l ih =>
    obtain ⟨y, b'⟩ := entry
    rw [List.map_cons, List.nodup_cons] at hdistinct
    rcases List.mem_cons.1 h with heq | hmem
    · obtain ⟨rfl, rfl⟩ := Prod.mk.inj heq
      exact List.lookup_cons_self
    · have hne : x ≠ y := by
        intro hxy
        have hy : x ∈ l.map Prod.fst := List.mem_map_of_mem (f := Prod.fst) hmem
        exact hdistinct.1 (hxy ▸ hy)
      rw [lookup_cons_of_ne hne]
      exact ih hdistinct.2 hmem

theorem lookup_eq_some_iff_mem (hdistinct : (l.map Prod.fst).Nodup) :
    l.lookup x = some b ↔ (x, b) ∈ l :=
  ⟨mem_of_lookup_eq_some, lookup_eq_some_of_mem hdistinct⟩

end Descent
