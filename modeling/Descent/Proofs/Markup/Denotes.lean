/-
  Descent.Proofs.Markup.Denotes

  Which texts denote which elements, said without a parser.  A text denotes an element if it is a
  tag that closes itself, or an opening tag, the texts of the children one behind the other and a
  closing tag of the same name.  Blanks and attribute values are free within their kinds, so an
  element has many texts; a text has one element at most, which the parser tells.
-/
import Descent.Markup.Element
import Descent.Proofs.Lexical

namespace Descent.Markup

open Lexical (IsName)

/-- Blanks, a key, and between double quotes a value that has none of them inside. -/
inductive AttributeText : List Char → String × String → Prop
  | mk {blanks : List Char} {key value : String} (hne : blanks ≠ [])
      (hblanks : ∀ c ∈ blanks, Text.isBlank c = true) (hkey : IsName key)
      (hvalue : '"' ∉ value.toList) :
      AttributeText (blanks ++ key.toList ++ ['=', '"'] ++ value.toList ++ ['"']) (key, value)

/-- What the tags of an element begin with: its name and its attributes. -/
inductive TagText : List Char → String × List (String × String) → Prop
  | mk {name : String} {w : List Char} {attributes : List (String × String)} (hname : IsName name)
      (hattributes : Texts AttributeText w attributes) :
      TagText (['<'] ++ name.toList ++ w) (name, attributes)

/-- The text is one of those that denote the element. -/
inductive Denotes : List Char → Element → Prop
  | single {t : List Char} {name : String} {attributes : List (String × String)}
      (ht : TagText t (name, attributes)) : Denotes (t ++ ['/', '>']) ⟨name, attributes, []⟩
  | parent {t w : List Char} {name : String} {attributes : List (String × String)}
      {children : List Element} (ht : TagText t (name, attributes))
      (hw : Texts Denotes w children) :
      Denotes (t ++ ['>'] ++ w ++ ['<', '/'] ++ name.toList ++ ['>']) ⟨name, attributes, children⟩

/-! ## How texts begin -/

theorem AttributeText.head {w : List Char} {a : String × String} (h : AttributeText w a) :
    ∃ c cs, w = c :: cs ∧ Text.isBlank c = true := by
  cases h with
  | @mk blanks key value hne hblanks =>
    cases blanks with
    | nil => exact absurd rfl hne
    | cons c cs => exact ⟨c, _, by simp only [List.cons_append]; rfl, hblanks c (by simp)⟩

/-- No attribute begins where there is no blank. -/
theorem not_begins_attribute {c : Char} (hc : Text.isBlank c = false) {cs : List Char}
    (a : String × String) (ds : List Char) : ¬ Begins AttributeText (c :: cs) a ds := by
  intro h
  obtain ⟨w, hw, hcs⟩ := h
  obtain ⟨d, ds', rfl, hd⟩ := hw.head
  obtain rfl : c = d := (List.cons.inj hcs).1
  rw [hc] at hd
  exact Bool.noConfusion hd

/-- A name does not go on in the attributes behind it. -/
theorem attributes_stopsAt {w : List Char} {as : List (String × String)}
    (h : Texts AttributeText w as) {c : Char} (hc : c.isAlphanum = false) (cs : List Char) :
    StopsAt Char.isAlphanum (w ++ c :: cs) := by
  cases h with
  | nil => exact stopsAt_cons.2 hc
  | cons hv hvs =>
    obtain ⟨d, ds, rfl, hd⟩ := hv.head
    have hne : d.isAlphanum ≠ true := by
      intro halnum
      rw [Text.isBlank_eq_false_of_isAlphanum halnum] at hd
      exact Bool.noConfusion hd
    exact stopsAt_cons.2 (Bool.eq_false_iff.2 hne)

theorem TagText.head {t : List Char} {tag : String × List (String × String)} (h : TagText t tag) :
    ∃ c cs, t = '<' :: c :: cs ∧ c.isAlphanum = true := by
  cases h with
  | @mk name w attributes hname =>
    obtain ⟨hne, hall⟩ := hname
    cases hn : name.toList with
    | nil => exact absurd hn hne
    | cons c cs =>
      rw [hn] at hall
      exact ⟨c, cs ++ w, rfl, hall c (by simp)⟩

/-- A text that denotes an element begins with a name in its tag. -/
theorem Denotes.head {w : List Char} {e : Element} (h : Denotes w e) :
    ∃ c cs, w = '<' :: c :: cs ∧ c.isAlphanum = true := by
  cases h with
  | single ht =>
    obtain ⟨c, cs, rfl, hc⟩ := ht.head
    exact ⟨c, _, rfl, hc⟩
  | parent ht _ =>
    obtain ⟨c, cs, rfl, hc⟩ := ht.head
    exact ⟨c, _, rfl, hc⟩

theorem Denotes.ne_nil {w : List Char} {e : Element} (h : Denotes w e) : w ≠ [] := by
  obtain ⟨c, cs, rfl, -⟩ := h.head
  exact List.cons_ne_nil '<' _

/-- No element begins with a closing tag. -/
theorem not_begins_close {cs : List Char} (e : Element) (ds : List Char) :
    ¬ Begins Denotes ('<' :: '/' :: cs) e ds := by
  intro h
  obtain ⟨w, hw, hcs⟩ := h
  obtain ⟨c, cs', rfl, hc⟩ := hw.head
  obtain rfl : '/' = c := (List.cons.inj (List.cons.inj hcs).2).1
  exact absurd hc (by decide)

end Descent.Markup
