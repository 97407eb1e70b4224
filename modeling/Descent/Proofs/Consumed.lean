/-
  Descent.Proofs.Consumed

  Two inputs, one of which is how the other ends: the characters in front of it are what was
  consumed, and their bytes are what the lengths and the offsets of the two inputs differ by.  A cut
  loses nothing.
-/
import Descent.Failure

namespace Descent

/-- Characters take a byte each or more. -/
theorem length_le_utf8Length (w : List Char) : w.length ≤ utf8Length w := by
  induction w with
  | nil => exact Nat.le_refl 0
  | cons c cs ih =>
    have := c.utf8Size_pos
    rw [List.length_cons, utf8Length_cons]
    omega

namespace Input

theorem size_eq_add {inp rest : Input} {w : List Char} (h : inp.chars = w ++ rest.chars) :
    inp.size = utf8Length w + rest.size := by
  rw [inp.size_eq, rest.size_eq, h, utf8Length_append]

theorem size_le_of_append {inp rest : Input} {w : List Char} (h : inp.chars = w ++ rest.chars) :
    rest.size ≤ inp.size := by
  have := size_eq_add h
  omega

theorem size_le_of_suffix {inp rest : Input} (h : rest.chars <:+ inp.chars) :
    rest.size ≤ inp.size := by
  obtain ⟨w, hw⟩ := h
  exact size_le_of_append hw.symm

theorem size_lt_of_consumed {inp rest : Input} {w : List Char} (hw : w ≠ [])
    (h : inp.chars = w ++ rest.chars) : rest.size < inp.size := by
  have := utf8Length_pos hw
  have := size_eq_add h
  omega

/-- The offset of a rest is the number of bytes in front of it. -/
theorem offsetIn_of_append {inp rest : Input} {w : List Char} (h : inp.chars = w ++ rest.chars) :
    rest.offsetIn inp = some (utf8Length w) := by
  have hsuffix : rest.chars.isSuffixOf inp.chars = true := by
    rw [List.isSuffixOf_iff_suffix, h]
    exact List.suffix_append w rest.chars
  have hsize := size_eq_add h
  rw [offsetIn, if_pos hsuffix, hsize, Nat.add_sub_cancel_right]

/-- What is in front of a cut and what is behind it are the input. -/
theorem split_go_append {cs front taken : List Char} {size due : Nat} {h : size = utf8Length cs}
    {rest : Input} (hsplit : split?.go cs size h due front = some (taken, rest)) :
    taken ++ rest.chars = front.reverse ++ cs := by
  induction cs generalizing size due front with
  | nil =>
    cases due with
    | zero =>
      cases hsplit
      rfl
    | succ due => cases hsplit
  | cons c cs ih =>
    cases due with
    | zero =>
      cases hsplit
      rfl
    | succ due =>
      simp only [split?.go] at hsplit
      split at hsplit
      · rw [ih hsplit, List.reverse_cons, List.append_assoc, List.singleton_append]
      · cases hsplit

end Input

end Descent
