/-
  Descent.Proofs.Messages

  What the message of a failure tells.  It tells the end of the input from every other place, and of
  another place it tells the next 24 characters and whether there are more: the text between the
  quotes is told from the dots behind it, whatever quotes, backslashes, dots or escapes the text
  itself holds.  The cut is made at an offset in bytes, where a character begins.
-/
import Descent.Failure
import Descent.Proofs.Quoted

namespace Descent.Failure

/-! ## What a message is made of -/

/-- What stands behind the closing quote. -/
def dots (e : Failure) : List Char := if shownLength < e.rest.chars.length then "...".toList else []

/-- What a message says of the rest behind its first words. -/
def told (e : Failure) : List Char :=
  if e.rest.chars = [] then "end of input".toList
  else Text.quote (e.rest.chars.take shownLength) ++ e.dots

theorem messageChars_eq (e : Failure) : e.messageChars = "parse failed at ".toList ++ e.told := by
  rw [messageChars, isAtEnd, Input.isEmpty]
  by_cases hnil : e.rest.chars = []
  · rw [told, if_pos hnil, hnil]
    rfl
  · have hmore : ¬ e.rest.chars.isEmpty = true := by
      rw [List.isEmpty_iff]
      exact hnil
    rw [told, dots, if_neg hnil, if_neg hmore]
    by_cases hlong : shownLength < e.rest.chars.length
    · rw [if_pos hlong, Input.splitBefore?_of_lt hlong]
      exact List.append_assoc _ _ _
    · have hshort : e.rest.chars.length ≤ shownLength := Nat.le_of_not_lt hlong
      rw [if_neg hlong, Input.splitBefore?_of_le hshort, List.take_of_length_le hshort,
        List.append_nil]

/-- The message of a failure takes no more than its line. -/
theorem message_unbroken (e : Failure) : '\n' ∉ e.message.toList := by
  have htold : '\n' ∉ e.told := by
    rw [told]
    split
    · decide
    · rw [dots]
      split
      · simp [Text.quote_unbroken]
      · simp [Text.quote_unbroken]
  rw [message, String.toList_ofList, messageChars_eq, List.mem_append, not_or]
  exact ⟨by decide, htold⟩

/-! ## What it tells -/

theorem dots_eq_iff (e e' : Failure) :
    e.dots = e'.dots ↔
      (shownLength < e.rest.chars.length ↔ shownLength < e'.rest.chars.length) := by
  rw [dots, dots]
  by_cases he : shownLength < e.rest.chars.length
  · by_cases he' : shownLength < e'.rest.chars.length
    · simp [he, he']
    · simp [he, he']
  · by_cases he' : shownLength < e'.rest.chars.length
    · simp [he, he']
    · simp [he, he']

/-- The end of the input is told from every place in front of it: what is told there begins with a
    quote. -/
theorem told_ne_of_end {e e' : Failure} (he : e.rest.chars = []) (he' : e'.rest.chars ≠ []) :
    e.told ≠ e'.told := by
  rw [told, told, if_pos he, if_neg he', Text.quote]
  exact fun h => absurd (List.cons.inj h).1 (by decide)

theorem take_ne_of_end {e e' : Failure} (he : e.rest.chars = []) (he' : e'.rest.chars ≠ []) :
    e.rest.chars.take shownLength ≠ e'.rest.chars.take shownLength := by
  intro h
  rw [he, List.take_nil, eq_comm, List.take_eq_nil_iff] at h
  exact h.elim (by decide) he'

/-- Of the rest the characters that are shown are told, and whether there are others. -/
theorem told_eq_iff (e e' : Failure) :
    e.told = e'.told ↔ e.rest.chars.take shownLength = e'.rest.chars.take shownLength ∧
      (shownLength < e.rest.chars.length ↔ shownLength < e'.rest.chars.length) := by
  by_cases he : e.rest.chars = []
  · by_cases he' : e'.rest.chars = []
    · simp [told, he, he']
    · exact iff_of_false (told_ne_of_end he he') fun h => take_ne_of_end he he' h.1
  · by_cases he' : e'.rest.chars = []
    · exact iff_of_false (told_ne_of_end he' he).symm fun h => take_ne_of_end he' he h.1.symm
    · rw [← dots_eq_iff, told, told, if_neg he, if_neg he']
      refine ⟨Text.quote_append_inj, fun h => ?_⟩
      obtain ⟨hshown, hdots⟩ := h
      rw [hshown, hdots]

theorem message_eq_iff_told (e e' : Failure) : e.message = e'.message ↔ e.told = e'.told := by
  rw [message, message, messageChars_eq, messageChars_eq, String.ofList_inj,
    List.append_cancel_left_eq]

/-- A rest that is cut is quoted up to the cut. -/
theorem told_of_long {e : Failure} (h : shownLength < e.rest.chars.length) :
    e.told = Text.quote (e.rest.chars.take shownLength) ++ "...".toList := by
  have hne : e.rest.chars ≠ [] := List.ne_nil_of_length_pos (Nat.zero_lt_of_lt h)
  rw [told, if_neg hne, dots, if_pos h]

/-- Two failures have the same message exactly if the first 24 characters of their rests are the
    same and both or neither of the rests have more.  A rest has more exactly if there is an offset
    in bytes at which its twenty-fifth character begins; the rest can be cut at this offset, and
    the message quotes the part in front of the cut. -/
theorem message_eq_iff_shown (e e' : Failure) :
    (e.message = e'.message ↔ e.rest.chars.take 24 = e'.rest.chars.take 24 ∧
      (24 < e.rest.chars.length ↔ 24 < e'.rest.chars.length)) ∧
    (24 < e.rest.chars.length ↔ ∃ bytes shown behind, e.rest.charOffset? 24 = some bytes ∧
      e.rest.split? bytes = some (shown, behind) ∧ shown = e.rest.chars.take 24 ∧
      e.message.toList = "parse failed at ".toList ++ Text.quote shown ++ "...".toList) := by
  refine ⟨(message_eq_iff_told e e').trans (told_eq_iff e e'), fun hlong => ?_, fun hcut => ?_⟩
  · have hoffset : e.rest.charOffset? 24 = some (utf8Length (e.rest.chars.take 24)) :=
      Input.charOffset?_eq_some_iff.2 ⟨hlong, rfl⟩
    have hmessage : e.message.toList =
        "parse failed at ".toList ++ Text.quote (e.rest.chars.take 24) ++ "...".toList := by
      rw [message, String.toList_ofList, messageChars_eq, told_of_long hlong, List.append_assoc]
      rfl
    exact ⟨_, _, _, hoffset, Input.split?_of_charOffset? hoffset, rfl, hmessage⟩
  · obtain ⟨bytes, -, -, hoffset, -⟩ := hcut
    exact (Input.charOffset?_eq_some_iff.1 hoffset).1

end Descent.Failure
