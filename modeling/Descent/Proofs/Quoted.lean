/-
  Descent.Proofs.Quoted

  Quoted text can be read back, and where it ends can be seen.  However a character is written, it
  begins with something other than a double quote, nothing in it is a line break, and no two
  characters are written alike, whatever stands behind them.  So a quoted text stays on its line
  and is told from what follows it, even if the text itself holds quotes, backslashes or what looks
  like an escape.
-/
import Descent.Text.Quoted
import Descent.Proofs.Runs

namespace Descent.Text

/-! ## One character -/

/-- The characters with a short escape, and what stands behind the backslash. -/
def shortEscapes : List (Char × Char) :=
  [('\x00', '0'), ('\t', 't'), ('\r', 'r'), ('\n', 'n'), ('"', '"'), ('\\', '\\')]

/-- The ways to write a character: by its short escape, by its code point, or as itself if it is
    neither a line break nor part of the notation.  Which characters cannot be shown as themselves
    makes no difference to how they are read. -/
inductive Escaped : Char → List Char → Prop
  | short {c d : Char} (h : (c, d) ∈ shortEscapes) : Escaped c ['\\', d]
  | code (c : Char) : Escaped c (['\\', 'u', '\x7b'] ++ Nat.toDigits 16 c.toNat ++ ['\x7d'])
  | plain {c : Char} (hquote : c ≠ '"') (hbackslash : c ≠ '\\') (hbreak : c ≠ '\n') : Escaped c [c]

theorem escaped_escape (c : Char) : Escaped c (escape c) := by
  unfold escape
  split
  all_goals try exact .short (by decide)
  next hzero htab hreturn hbreak hquote hbackslash =>
    split
    · exact .code c
    · exact .plain hquote hbackslash hbreak

theorem Escaped.head {c : Char} {w : List Char} (h : Escaped c w) :
    ∃ a v, w = a :: v ∧ a ≠ '"' := by
  cases h with
  | short h => exact ⟨_, _, rfl, by decide⟩
  | code => exact ⟨_, _, rfl, by decide⟩
  | plain hquote => exact ⟨_, _, rfl, hquote⟩

theorem Escaped.unbroken {c : Char} {w : List Char} (h : Escaped c w) : '\n' ∉ w := by
  cases h with
  | short h =>
    have hletters : ∀ p ∈ shortEscapes, p.2 ≠ '\n' := by decide
    have hd := hletters _ h
    simp [Ne.symm hd]
  | code =>
    have hdigits : '\n' ∉ Nat.toDigits 16 c.toNat :=
      not_mem_toDigits (by omega) (fun _ => Nat.digitChar_ne _ (by decide)) _
    simp [hdigits]
  | plain hquote hbackslash hbreak => simp [Ne.symm hbreak]

/-- The digits of a code point end at the brace behind them. -/
theorem code_append_inj {c d : Char} {cs ds : List Char}
    (h : Nat.toDigits 16 c.toNat ++ '\x7d' :: cs = Nat.toDigits 16 d.toNat ++ '\x7d' :: ds) :
    c = d ∧ cs = ds := by
  have hdigits : ∀ n, ∀ e ∈ Nat.toDigits 16 n, decide (e ≠ '\x7d') = true := by
    intro n e he
    have hbrace : '\x7d' ∉ Nat.toDigits 16 n :=
      not_mem_toDigits (by omega) (fun _ => Nat.digitChar_ne _ (by decide)) n
    exact decide_eq_true fun heq => hbrace (heq ▸ he)
  obtain ⟨hsame, hbehind⟩ := run_append_inj (hdigits _) (hdigits _) (by simp) (by simp) h
  exact ⟨Char.toNat_inj.1 (toDigits_inj (by omega) (by omega) hsame), (List.cons.inj hbehind).2⟩

/-- A character that is written in front of others is told from them. -/
theorem Escaped.append_inj {c d : Char} {w v cs ds : List Char} (hc : Escaped c w)
    (hd : Escaped d v) (h : w ++ cs = v ++ ds) : c = d ∧ cs = ds := by
  have hletters : ∀ p ∈ shortEscapes, ∀ q ∈ shortEscapes, p.2 = q.2 → p.1 = q.1 := by decide
  have hcode : ∀ p ∈ shortEscapes, p.2 ≠ 'u' := by decide
  cases hc with
  | short hc =>
    cases hd with
    | short hd =>
      obtain ⟨hletter, hbehind⟩ := List.cons.inj (List.cons.inj h).2
      exact ⟨hletters _ hc _ hd hletter, hbehind⟩
    | code => exact absurd (List.cons.inj (List.cons.inj h).2).1 (hcode _ hc)
    | plain hquote hbackslash => exact absurd (List.cons.inj h).1.symm hbackslash
  | code =>
    cases hd with
    | short hd => exact absurd (List.cons.inj (List.cons.inj h).2).1.symm (hcode _ hd)
    | code => simpa using code_append_inj (by simpa using h)
    | plain hquote hbackslash => exact absurd (List.cons.inj h).1.symm hbackslash
  | plain hquote hbackslash =>
    cases hd with
    | short hd => exact absurd (List.cons.inj h).1 hbackslash
    | code => exact absurd (List.cons.inj h).1 hbackslash
    | plain => exact List.cons.inj h

/-! ## A quoted text -/

theorem quote_ne_escape_append (c : Char) (cs ds : List Char) :
    '"' :: cs ≠ escape c ++ ds := by
  obtain ⟨a, v, hw, ha⟩ := (escaped_escape c).head
  rw [hw, List.cons_append]
  exact fun h => ha (List.cons.inj h).1.symm

theorem escapeAll_quote_inj {cs ds xs ys : List Char}
    (h : escapeAll cs ++ '"' :: xs = escapeAll ds ++ '"' :: ys) : cs = ds ∧ xs = ys := by
  induction cs generalizing ds with
  | nil =>
    cases ds with
    | nil => exact ⟨rfl, (List.cons.inj h).2⟩
    | cons d ds =>
      rw [escapeAll, escapeAll, List.flatMap_cons, List.append_assoc] at h
      exact absurd h (quote_ne_escape_append d xs _)
  | cons c cs ih =>
    cases ds with
    | nil =>
      rw [escapeAll, escapeAll, List.flatMap_cons, List.append_assoc] at h
      exact absurd h.symm (quote_ne_escape_append c ys _)
    | cons d ds =>
      simp only [escapeAll, List.flatMap_cons, List.append_assoc] at h
      obtain ⟨rfl, hbehind⟩ := (escaped_escape c).append_inj (escaped_escape d) h
      obtain ⟨rfl, rfl⟩ := ih hbehind
      exact ⟨rfl, rfl⟩

/-- A quoted text in front of others is told from them. -/
theorem quote_append_inj {cs ds xs ys : List Char} (h : quote cs ++ xs = quote ds ++ ys) :
    cs = ds ∧ xs = ys := by
  simp only [quote, List.append_assoc, List.cons_append, List.nil_append] at h
  exact escapeAll_quote_inj (List.cons.inj h).2

theorem escapeAll_unbroken (cs : List Char) : '\n' ∉ escapeAll cs := by
  intro hmem
  obtain ⟨c, -, hc⟩ := List.mem_flatMap.1 hmem
  exact (escaped_escape c).unbroken hc

/-- A quoted text takes no more than its line. -/
theorem quote_unbroken (cs : List Char) : '\n' ∉ quote cs := by
  simp [quote, escapeAll_unbroken]

end Descent.Text
