/-
  Descent.Proofs.Texts

  Texts one behind the other.  Where the repeated parser reads the texts of a relation `D`, without
  a look at what follows them, a repetition gathers a concatenation of such texts, no more than its
  bounds allow, and if they allow more no other one begins behind it.
-/
import Descent.Proofs.Gathered

namespace Descent

variable {α : Type} {D : List Char → α → Prop}

/-- A sequence of texts, each for its value, and their concatenation. -/
inductive Texts (D : List Char → α → Prop) : List Char → List α → Prop
  | nil : Texts D [] []
  | cons {w ws : List Char} {v : α} {vs : List α} (hv : D w v) (hvs : Texts D ws vs) :
      Texts D (w ++ ws) (v :: vs)

/-- The characters begin with a text for the value, and the rest follows it. -/
def Begins (D : List Char → α → Prop) (cs : List Char) (v : α) (rest : List Char) : Prop :=
  ∃ w, D w v ∧ cs = w ++ rest

theorem Begins.suffix {D : List Char → α → Prop} {cs rest : List Char} {v : α}
    (h : Begins D cs v rest) : rest <:+ cs := by
  obtain ⟨w, -, hcs⟩ := h
  exact ⟨w, hcs.symm⟩

theorem consuming_begins (hD : ∀ w v, D w v → w ≠ []) : Consuming (Begins D) := by
  rintro cs v rest ⟨w, hw, hcs⟩
  exact ⟨w, hD w v hw, hcs⟩

/-- A repetition gathers texts for as long as its bounds allow one more and one begins. -/
theorem gathered_texts_iff {b : Bounds} {n : Nat} {cs rest : List Char} {vs : List α} :
    Gathered (Begins D) b n cs vs rest ↔ Begins (Texts D) cs vs rest ∧
      (∀ m < vs.length, b.isFull (n + m) = false) ∧
      (b.isFull (n + vs.length) = true ∨ ∀ v ds, ¬ Begins D rest v ds) := by
  have hcount (n : Nat) (v : α) (vs : List α) : n + 1 + vs.length = n + (v :: vs).length := by
    rw [List.length_cons]
    omega
  refine ⟨fun h => ?_, fun h => ?_⟩
  · induction h with
    | done hstop => exact ⟨⟨[], .nil, rfl⟩, fun m hm => absurd hm (Nat.not_lt_zero m), hstop⟩
    | @more n _ _ _ v vs hn hv _ ih =>
      obtain ⟨w, hw, rfl⟩ := hv
      obtain ⟨⟨ws, hws, rfl⟩, hopen, hstop⟩ := ih
      rw [hcount n v vs] at hstop
      refine ⟨⟨w ++ ws, .cons hw hws, by rw [List.append_assoc]⟩, fun m hm => ?_, hstop⟩
      cases m with
      | zero => exact hn
      | succ m =>
        have hlt : m < vs.length := Nat.lt_of_succ_lt_succ hm
        rw [← Nat.succ_add_eq_add_succ]
        exact hopen m hlt
  · obtain ⟨⟨ws, hws, rfl⟩, hopen, hstop⟩ := h
    induction hws generalizing n with
    | nil => exact .done hstop
    | @cons _ _ v vs hv _ ih =>
      have hn : b.isFull n = false := hopen 0 (Nat.succ_pos _)
      rw [← hcount n v vs] at hstop
      refine .more hn ⟨_, hv, by rw [List.append_assoc]⟩ (ih (fun m hm => ?_) hstop)
      rw [Nat.succ_add_eq_add_succ]
      exact hopen (m + 1) (Nat.succ_lt_succ hm)

/-- Without an upper bound a repetition gathers texts for as long as one begins. -/
theorem gathered_begins_iff {b : Bounds} (hb : b.most = none) {n : Nat} {cs rest : List Char}
    {vs : List α} :
    Gathered (Begins D) b n cs vs rest ↔
      Begins (Texts D) cs vs rest ∧ ∀ v ds, ¬ Begins D rest v ds := by
  have hopen : ∀ k, b.isFull k = false := fun k => by rw [Bounds.isFull, hb]
  rw [gathered_texts_iff]
  simp [hopen]

/-- Texts of one character each are the characters themselves. -/
theorem texts_char_iff {keep : Char → Bool} {w vs : List Char} :
    Texts (fun w c => w = [c] ∧ keep c = true) w vs ↔ w = vs ∧ ∀ c ∈ vs, keep c = true := by
  refine ⟨fun h => ?_, fun h => ?_⟩
  · induction h with
    | nil => exact ⟨rfl, by simp⟩
    | cons hv _ ih =>
      obtain ⟨rfl, hk⟩ := hv
      obtain ⟨rfl, hall⟩ := ih
      exact ⟨rfl, by simpa [hk] using hall⟩
  · obtain ⟨rfl, hall⟩ := h
    induction w with
    | nil => exact .nil
    | cons c cs ih =>
      have hc : keep c = true := hall c (by simp)
      exact .cons (w := [c]) ⟨rfl, hc⟩ (ih fun d hd => hall d (List.mem_cons_of_mem c hd))

end Descent
