/-
  Descent.Input

  The text that is still to be read.  A parser reads from the left, so what it leaves is an input
  again: a suffix of the one it was given.  Every length in this library is a number of UTF-8
  bytes.  An input carries its own length, so comparing how much two inputs have left does not
  walk their text, and the field `size_eq` keeps that length right.
-/

namespace Descent

/-- The number of bytes that a sequence of characters takes in UTF-8. -/
def utf8Length (cs : List Char) : Nat :=
  cs.foldr (fun c n => c.utf8Size + n) 0

@[simp] theorem utf8Length_nil : utf8Length [] = 0 := rfl

@[simp] theorem utf8Length_cons (c : Char) (cs : List Char) :
    utf8Length (c :: cs) = c.utf8Size + utf8Length cs := rfl

@[simp] theorem utf8Length_append (cs ds : List Char) :
    utf8Length (cs ++ ds) = utf8Length cs + utf8Length ds := by
  induction cs with
  | nil => simp
  | cons c cs ih => simp only [List.cons_append, utf8Length_cons, ih]; omega

theorem utf8Length_pos {w : List Char} (h : w ≠ []) : 0 < utf8Length w := by
  cases w with
  | nil => exact absurd rfl h
  | cons c cs =>
    have := c.utf8Size_pos
    rw [utf8Length_cons]
    omega

/-- The bytes that a text takes are those of its characters. -/
theorem utf8ByteSize_eq (s : String) : s.utf8ByteSize = utf8Length s.toList := by
  obtain ⟨cs, rfl⟩ : ∃ cs, s = String.ofList cs := ⟨s.toList, by simp⟩
  rw [String.toList_ofList]
  induction cs with
  | nil => rfl
  | cons c cs ih =>
    have hcs : String.ofList (c :: cs) = String.singleton c ++ String.ofList cs := by simp
    rw [hcs, utf8Length_cons]
    simp [ih]

/-- Text still to be read, with its length in bytes at hand. -/
structure Input where
  chars : List Char
  size : Nat
  size_eq : size = utf8Length chars
deriving DecidableEq

namespace Input

/-- Two inputs with the same characters are the same: the length is no choice. -/
@[ext] theorem ext {a b : Input} (h : a.chars = b.chars) : a = b := by
  obtain ⟨as, m, ha⟩ := a
  obtain ⟨bs, n, hb⟩ := b
  subst ha hb
  cases h
  rfl

/-! ## Making and reading back -/

def ofChars (cs : List Char) : Input := ⟨cs, utf8Length cs, rfl⟩

def ofString (s : String) : Input := ofChars s.toList

def toString (inp : Input) : String := String.ofList inp.chars

/-- Nothing is left to read. -/
def isEmpty (inp : Input) : Bool := inp.chars.isEmpty

@[simp] theorem chars_ofChars (cs : List Char) : (ofChars cs).chars = cs := rfl

@[simp] theorem size_ofChars (cs : List Char) : (ofChars cs).size = utf8Length cs := rfl

@[simp] theorem ofChars_chars (inp : Input) : ofChars inp.chars = inp := Input.ext rfl

@[simp] theorem toString_ofString (s : String) : (ofString s).toString = s := by
  simp [ofString, toString]

/-! ## Reading from the left -/

/-- The first character and what follows it. -/
def next? : Input → Option (Char × Input)
  | ⟨[], _, _⟩ => none
  | ⟨c :: cs, n, h⟩ => some (c, ⟨cs, n - c.utf8Size, by rw [h, utf8Length_cons]; omega⟩)

/-- What follows the given literal, if the input begins with it. -/
def strip? : List Char → Input → Option Input
  | [], inp => some inp
  | c :: cs, inp =>
    match inp.next? with
    | some (d, rest) => if c = d then strip? cs rest else none
    | none => none

/-- Cut off exactly the given number of bytes.  There is no such cut behind the end of the input
    or inside a character. -/
def split? (inp : Input) (bytes : Nat) : Option (List Char × Input) :=
  go inp.chars inp.size inp.size_eq bytes []
where
  /-- Move characters from `cs` to the front part, held reversed in `front`, while bytes are due. -/
  go : (cs : List Char) → (size : Nat) → size = utf8Length cs → (due : Nat) →
      (front : List Char) → Option (List Char × Input)
    | cs, size, h, 0, front => some (front.reverse, ⟨cs, size, h⟩)
    | [], _, _, _ + 1, _ => none
    | c :: cs, size, h, due, front =>
      if c.utf8Size ≤ due then
        go cs (size - c.utf8Size) (by rw [h, utf8Length_cons]; omega) (due - c.utf8Size)
          (c :: front)
      else
        none

theorem split_go_of_append {w front : List Char} {rest : Input} :
    {cs : List Char} → {size : Nat} → (h : size = utf8Length cs) → cs = w ++ rest.chars →
      split?.go cs size h (utf8Length w) front = some (front.reverse ++ w, rest) := by
  induction w generalizing front with
  | nil =>
    intro cs size h hcs
    have hrest : (⟨cs, size, h⟩ : Input) = rest := Input.ext hcs
    rw [utf8Length_nil, split?.go, hrest, List.append_nil]
  | cons c w ih =>
    intro cs size h hcs
    subst hcs
    -- A character takes a byte or more, so there is something due.
    obtain ⟨due, hdue⟩ : ∃ due, utf8Length (c :: w) = due + 1 :=
      Nat.exists_eq_add_one.2 (utf8Length_pos (List.cons_ne_nil c w))
    have hfits : c.utf8Size ≤ due + 1 := hdue ▸ Nat.le_add_right _ _
    have hleft : due + 1 - c.utf8Size = utf8Length w := by
      rw [← hdue, utf8Length_cons, Nat.add_sub_cancel_left]
    simp only [List.cons_append, hdue, split?.go, if_pos hfits, hleft]
    rw [ih _ rfl, List.reverse_cons, List.append_assoc, List.singleton_append]

/-- Cutting off as many bytes as stand in front of a rest leaves that rest. -/
theorem split?_of_append {inp rest : Input} {w : List Char} (h : inp.chars = w ++ rest.chars) :
    inp.split? (utf8Length w) = some (w, rest) :=
  split_go_of_append inp.size_eq h

/-! ## Positions -/

/-- The offset in bytes at which the character begins that has `n` others in front of it, if there
    is one. -/
def charOffset? (inp : Input) (n : Nat) : Option Nat := go inp.chars n
where
  go : List Char → Nat → Option Nat
    | [], _ => none
    | _ :: _, 0 => some 0
    | c :: cs, n + 1 => (go cs n).map (c.utf8Size + ·)

theorem charOffset_go_eq_some_iff {cs : List Char} {n bytes : Nat} :
    charOffset?.go cs n = some bytes ↔ n < cs.length ∧ bytes = utf8Length (cs.take n) := by
  induction cs generalizing n bytes with
  | nil => simp [charOffset?.go]
  | cons c cs ih =>
    cases n with
    | zero => simp [charOffset?.go, eq_comm]
    | succ n =>
      have hlength : n + 1 < (c :: cs).length ↔ n < cs.length := by
        rw [List.length_cons]
        omega
      rw [charOffset?.go, Option.map_eq_some_iff, hlength, List.take_succ_cons, utf8Length_cons]
      refine ⟨fun h => ?_, fun h => ?_⟩
      · obtain ⟨behind, hbehind, rfl⟩ := h
        obtain ⟨hn, rfl⟩ := ih.1 hbehind
        exact ⟨hn, rfl⟩
      · obtain ⟨hn, rfl⟩ := h
        exact ⟨_, ih.2 ⟨hn, rfl⟩, rfl⟩

/-- In front of a character are the bytes of those before it. -/
theorem charOffset?_eq_some_iff {inp : Input} {n bytes : Nat} :
    inp.charOffset? n = some bytes ↔
      n < inp.chars.length ∧ bytes = utf8Length (inp.chars.take n) :=
  charOffset_go_eq_some_iff

/-- Where a character begins the input can be cut. -/
theorem split?_of_charOffset? {inp : Input} {n bytes : Nat} (h : inp.charOffset? n = some bytes) :
    inp.split? bytes = some (inp.chars.take n, ofChars (inp.chars.drop n)) := by
  obtain ⟨-, rfl⟩ := charOffset?_eq_some_iff.1 h
  exact split?_of_append (List.take_append_drop n inp.chars).symm

/-- Cut in front of the character that has `n` others in front of it, if there is one. -/
def splitBefore? (inp : Input) (n : Nat) : Option (List Char × Input) :=
  match h : inp.charOffset? n with
  | none => none
  | some bytes => some ((inp.split? bytes).get (by rw [split?_of_charOffset? h]; rfl))

theorem splitBefore?_of_lt {inp : Input} {n : Nat} (h : n < inp.chars.length) :
    inp.splitBefore? n = some (inp.chars.take n, ofChars (inp.chars.drop n)) := by
  have hoffset : inp.charOffset? n = some (utf8Length (inp.chars.take n)) :=
    charOffset?_eq_some_iff.2 ⟨h, rfl⟩
  rw [splitBefore?]
  split
  · next hnone =>
    rw [hoffset] at hnone
    cases hnone
  · next bytes hsome => simp only [split?_of_charOffset? hsome, Option.get_some]

theorem splitBefore?_of_le {inp : Input} {n : Nat} (h : inp.chars.length ≤ n) :
    inp.splitBefore? n = none := by
  rw [splitBefore?]
  split
  · rfl
  · next bytes hsome =>
    obtain ⟨hlt, -⟩ := charOffset?_eq_some_iff.1 hsome
    omega

/-- The offset in bytes at which `rest` begins in `source`, when it is how `source` ends. -/
def offsetIn (rest source : Input) : Option Nat :=
  if rest.chars.isSuffixOf source.chars then some (source.size - rest.size) else none

/-! ## Small laws -/

@[simp] theorem next?_ofChars_nil : (ofChars []).next? = none := rfl

@[simp] theorem next?_ofChars_cons (c : Char) (cs : List Char) :
    (ofChars (c :: cs)).next? = some (c, ofChars cs) := by
  simp only [ofChars, next?, Option.some.injEq, Prod.mk.injEq, true_and]
  exact Input.ext rfl

theorem next?_eq_some_iff {inp rest : Input} {c : Char} :
    inp.next? = some (c, rest) ↔ inp.chars = c :: rest.chars := by
  obtain ⟨cs, n, h⟩ := inp
  subst h
  cases cs with
  | nil => simp [next?]
  | cons d ds =>
    simp only [next?, Option.some.injEq, Prod.mk.injEq, List.cons.injEq, and_congr_right_iff]
    exact fun _ => ⟨fun h => congrArg Input.chars h, fun h => Input.ext h⟩

theorem next?_eq_none_iff {inp : Input} : inp.next? = none ↔ inp.chars = [] := by
  obtain ⟨cs, n, h⟩ := inp
  cases cs <;> simp [next?]

theorem strip?_eq_some_iff {lit : List Char} {inp rest : Input} :
    strip? lit inp = some rest ↔ inp.chars = lit ++ rest.chars := by
  induction lit generalizing inp with
  | nil => simpa [strip?] using ⟨fun h => congrArg Input.chars h, fun h => Input.ext h⟩
  | cons c cs ih =>
    rw [strip?]
    cases hn : inp.next? with
    | none => simp [next?_eq_none_iff.1 hn]
    | some p =>
      obtain ⟨d, tail⟩ := p
      rw [next?_eq_some_iff.1 hn]
      by_cases hcd : c = d
      · simp [hcd, ih]
      · simp [hcd, Ne.symm hcd]

end Input

end Descent
