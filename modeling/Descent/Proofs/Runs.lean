/-
  Descent.Proofs.Runs

  Where the pieces of a text end.  Characters of one kind end where one of another kind follows,
  the spaces in front of a line end at its first other character, a line ends at its line break,
  and the digits of a number say which number it is.  So a text that is put together from such
  pieces gives them back.
-/
import Descent.Text.Lines

namespace Descent

/-! ## Characters of one kind -/

/-- The characters do not begin with one of the kind. -/
def StopsAt (keep : Char → Bool) (cs : List Char) : Prop := ∀ c ∈ cs.head?, keep c = false

@[simp] theorem stopsAt_nil (keep : Char → Bool) : StopsAt keep [] := by simp [StopsAt]

@[simp] theorem stopsAt_cons {keep : Char → Bool} {c : Char} {cs : List Char} :
    StopsAt keep (c :: cs) ↔ keep c = false := by simp [StopsAt]

/-- Characters of the kind, with something behind them that does not begin with one, are told from
    what is behind them. -/
theorem run_append_inj {keep : Char → Bool} {run run' cs cs' : List Char}
    (hrun : ∀ c ∈ run, keep c = true) (hrun' : ∀ c ∈ run', keep c = true)
    (hstop : StopsAt keep cs) (hstop' : StopsAt keep cs') (h : run ++ cs = run' ++ cs') :
    run = run' ∧ cs = cs' := by
  induction run generalizing run' with
  | nil =>
    cases run' with
    | nil => exact ⟨rfl, h⟩
    | cons c run' =>
      have hc : keep c = true := (List.forall_mem_cons.1 hrun').1
      rw [List.nil_append] at h
      rw [h, List.cons_append, stopsAt_cons, hc] at hstop
      exact Bool.noConfusion hstop
  | cons c run ih =>
    obtain ⟨hc, hrun⟩ := List.forall_mem_cons.1 hrun
    cases run' with
    | nil =>
      rw [List.nil_append] at h
      rw [← h, List.cons_append, stopsAt_cons, hc] at hstop'
      exact Bool.noConfusion hstop'
    | cons d run' =>
      obtain ⟨rfl, hbehind⟩ := List.cons.inj h
      obtain ⟨rfl, rfl⟩ := ih hrun (List.forall_mem_cons.1 hrun').2 hbehind
      exact ⟨rfl, rfl⟩

theorem stopsAt_dropWhile (keep : Char → Bool) (cs : List Char) :
    StopsAt keep (cs.dropWhile keep) := by
  intro c hc
  have hhead := List.head?_dropWhile_not keep cs
  rw [Option.mem_def.1 hc] at hhead
  simpa using hhead

/-- The characters of the kind in front, up to the first of another kind, are the longest beginning
    of characters of the kind. -/
theorem run_iff_takeWhile {keep : Char → Bool} {cs run rest : List Char} :
    (cs = run ++ rest ∧ (∀ c ∈ run, keep c = true) ∧ StopsAt keep rest) ↔
      run = cs.takeWhile keep ∧ rest = cs.dropWhile keep := by
  have hall : ∀ c ∈ cs.takeWhile keep, keep c = true := List.all_eq_true.1 List.all_takeWhile
  refine ⟨fun h => ?_, fun h => ?_⟩
  · obtain ⟨hcs, hrun, hstop⟩ := h
    have hsame : run ++ rest = cs.takeWhile keep ++ cs.dropWhile keep := by
      rw [List.takeWhile_append_dropWhile, hcs]
    exact run_append_inj hrun hall hstop (stopsAt_dropWhile keep cs) hsame
  · obtain ⟨rfl, rfl⟩ := h
    exact ⟨List.takeWhile_append_dropWhile.symm, hall, stopsAt_dropWhile keep cs⟩

/-! ## Spaces in front of a line -/

/-- How many spaces a line begins with. -/
def indentation (line : List Char) : Nat := (line.takeWhile (· = ' ')).length

theorem indentation_replicate_append (n : Nat) {c : Char} (hc : c ≠ ' ') (cs : List Char) :
    indentation (List.replicate n ' ' ++ c :: cs) = n := by
  have hspaces : ∀ d ∈ List.replicate n ' ', decide (d = ' ') = true := by
    simp [List.mem_replicate]
  rw [indentation, List.takeWhile_append_of_pos hspaces, List.takeWhile_cons_of_neg (by simpa),
    List.append_nil, List.length_replicate]

/-! ## Lines -/

/-- Text made of lines is split into these lines, and nothing stands behind the last line break. -/
theorem Text.splitOn_endLines {lines : List (List Char)} (h : ∀ line ∈ lines, '\n' ∉ line) :
    (endLines lines).splitOn '\n' = lines ++ [[]] := by
  induction lines with
  | nil => rfl
  | cons line lines ih =>
    obtain ⟨hline, hlines⟩ := List.forall_mem_cons.1 h
    rw [endLines_cons, List.splitOn_append_cons_self_of_not_mem hline, ih hlines, List.cons_append]

/-- Text made of lines has a line break for each of them. -/
theorem Text.count_endLines {lines : List (List Char)} (h : ∀ line ∈ lines, '\n' ∉ line) :
    (endLines lines).count '\n' = lines.length := by
  induction lines with
  | nil => rfl
  | cons line lines ih =>
    obtain ⟨hline, hlines⟩ := List.forall_mem_cons.1 h
    rw [endLines_cons, List.count_append, List.count_eq_zero_of_not_mem hline, List.count_cons_self,
      ih hlines, List.length_cons, Nat.zero_add]

/-! ## Digits -/

theorem digitChar_inj {m n : Nat} (hm : m < 16) (hn : n < 16)
    (h : Nat.digitChar m = Nat.digitChar n) : m = n := by
  have hall : ∀ m : Fin 16, ∀ n : Fin 16, Nat.digitChar m = Nat.digitChar n → m = n := by decide
  exact congrArg Fin.val (hall ⟨m, hm⟩ ⟨n, hn⟩ h)

/-- A number with more than one digit does not have the digits of one with a single digit. -/
theorem digit_ne_toDigits_append (b n : Nat) (c d : Char) : [c] ≠ Nat.toDigits b n ++ [d] := by
  intro h
  have hlength := congrArg List.length h
  have hpos : 0 < (Nat.toDigits b n).length := Nat.length_toDigits_pos
  rw [List.length_append, List.length_singleton, List.length_singleton] at hlength
  omega

/-- In a base that has a digit for every remainder, no two numbers have the same digits. -/
theorem toDigits_inj {b : Nat} (hb : 1 < b) (hb' : b ≤ 16) {m n : Nat}
    (h : Nat.toDigits b m = Nat.toDigits b n) : m = n := by
  -- The last digit is that of the remainder, and those in front are the digits of the quotient.
  induction m using Nat.strongRecOn generalizing n with
  | ind m ih =>
    by_cases hm : m < b
    · rw [Nat.toDigits_of_lt_base hm] at h
      by_cases hn : n < b
      · rw [Nat.toDigits_of_lt_base hn] at h
        exact digitChar_inj (by omega) (by omega) (List.singleton_inj.1 h)
      · rw [Nat.toDigits_of_base_le hb (Nat.le_of_not_lt hn)] at h
        exact absurd h (digit_ne_toDigits_append b (n / b) _ _)
    · rw [Nat.toDigits_of_base_le hb (Nat.le_of_not_lt hm)] at h
      by_cases hn : n < b
      · rw [Nat.toDigits_of_lt_base hn] at h
        exact absurd h.symm (digit_ne_toDigits_append b (m / b) _ _)
      · rw [Nat.toDigits_of_base_le hb (Nat.le_of_not_lt hn)] at h
        obtain ⟨hfront, hlast⟩ := List.append_singleton_inj.1 h
        have hquotient : m / b = n / b := ih (m / b) (Nat.div_lt_self (by omega) hb) hfront
        have hm' : m % b < b := Nat.mod_lt m (by omega)
        have hn' : n % b < b := Nat.mod_lt n (by omega)
        have hremainder : m % b = n % b := digitChar_inj (by omega) (by omega) hlast
        rw [← Nat.div_add_mod m b, hquotient, hremainder, Nat.div_add_mod]

theorem not_mem_toDigits {b : Nat} (hb : 1 < b) {c : Char} (hc : ∀ d, Nat.digitChar d ≠ c)
    (n : Nat) : c ∉ Nat.toDigits b n := by
  induction n using Nat.strongRecOn with
  | ind n ih =>
    intro hmem
    rw [Nat.toDigits_eq_if hb] at hmem
    split at hmem
    · exact hc n (List.mem_singleton.1 hmem).symm
    · next hn =>
      rcases List.mem_append.1 hmem with hfront | hlast
      · exact ih (n / b) (Nat.div_lt_self (by omega) hb) hfront
      · exact hc (n % b) (List.mem_singleton.1 hlast).symm

end Descent
