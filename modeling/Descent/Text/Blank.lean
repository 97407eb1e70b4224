/-
  Descent.Text.Blank

  Blank characters: those with the property White_Space of the character database.  Zero-width
  characters (U+200B, U+FEFF) and the Mongolian vowel separator (U+180E) do not have it.
-/
import Descent.Text.Ranges

namespace Descent.Text

/-- The characters with the property White_Space. -/
def blankRanges : Ranges :=
  [(0x9, 0xd), (0x20, 0x20), (0x85, 0x85), (0xa0, 0xa0), (0x1680, 0x1680), (0x2000, 0x200a),
   (0x2028, 0x2029), (0x202f, 0x202f), (0x205f, 0x205f), (0x3000, 0x3000)]

/-- Whether a character is blank. -/
def isBlank (c : Char) : Bool := blankRanges.covers c.toNat

/-- No ASCII letter or digit is blank. -/
theorem isBlank_eq_false_of_isAlphanum {c : Char} (h : c.isAlphanum = true) :
    isBlank c = false := by
  have hc : (decide ('A'.val ≤ c.val ∧ c.val ≤ 'Z'.val) ||
      (decide ('a'.val ≤ c.val) && decide (c.val ≤ 'z'.val)) ||
      (decide ('0'.val ≤ c.val) && decide (c.val ≤ '9'.val))) = true := h
  simp only [Bool.or_eq_true, Bool.and_eq_true, decide_eq_true_eq, UInt32.le_iff_toNat_le] at hc
  have hn : c.toNat = c.val.toNat := rfl
  -- A letter or digit lies between the ASCII blanks and the first blank behind ASCII.
  have between : 33 ≤ c.toNat ∧ c.toNat < 0x85 := by
    simp at hc
    omega
  simp [isBlank, blankRanges, Ranges.covers]
  omega

end Descent.Text
