/-
  Descent.Proofs.Spans

  Repetition of single characters, exactly.  Whatever characters are of the kind and whatever the
  bounds are, there is one span at the front of an input at most, and a repetition takes it or fails
  at the input.  A span is a number of whole characters, so the input can be cut behind it, though
  the repetition itself tells progress by bytes.  Without an upper bound the span is the longest
  run of characters of the kind: blanks and identifiers are such runs.
-/
import Descent.Proofs.Refuses

namespace Descent

/-! ## The longest run -/

/-- A parser that takes all characters of the kind there are, and enough of them, in whatever form
    it gives them, takes the longest run or fails at the input. -/
theorem Parser.Decides.longest_run {α : Type} {p : Parser α} {inp : Input} {keep : Char → Bool}
    {least : Nat} (view : α → List Char)
    (h : p.Decides inp (fun v cs => inp.chars = view v ++ cs ∧ (∀ c ∈ view v, keep c = true) ∧
      StopsAt keep cs ∧ least ≤ (view v).length) (· = inp.chars))
    {run : α} (hrun : view run = inp.chars.takeWhile keep) (scopes : Scopes) :
    ∃ scopes', p inp scopes = some (if least ≤ (inp.chars.takeWhile keep).length then
        .matched (.ofChars (inp.chars.dropWhile keep)) run
      else .failed ⟨inp⟩, scopes') := by
  by_cases hle : least ≤ (inp.chars.takeWhile keep).length
  · obtain ⟨hsplit, hkind, hends⟩ := run_iff_takeWhile.2 ⟨hrun, rfl⟩
    rw [← hrun] at hle
    rw [← hrun, if_pos hle]
    exact (h.matched_iff scopes run _).2 ⟨hsplit, hkind, hends, hle⟩
  · have hnone : ∀ v cs, ¬ (inp.chars = view v ++ cs ∧ (∀ c ∈ view v, keep c = true) ∧
        StopsAt keep cs ∧ least ≤ (view v).length) := by
      rintro v cs ⟨hsplit, hkind, hends, henough⟩
      obtain ⟨hv, -⟩ := run_iff_takeWhile.1 ⟨hsplit, hkind, hends⟩
      exact hle (hv ▸ henough)
    rw [if_neg hle]
    exact (h.refuses_here.failed_iff scopes inp).2 ⟨hnone, rfl⟩

namespace Lexical

/-! ## Spans -/

/-- Repetition of a character of some kind, within any bounds, matches with characters and a rest
    exactly if they are a span of the input, which can then be cut behind their bytes; it fails at
    the input if there is no span, and nowhere else.  So any number of blanks is the longest run of
    blanks, at least one blank is this run if it is not empty, and an identifier is the longest run
    of letters and digits if that is not empty; otherwise the last two fail at the input. -/
theorem repetition_takes_span {N : Type → Type} {σ : Type 1} (book : Rulebook N σ)
    (limits : Limits) (state : σ) (keep : Char → Bool) (b : Bounds) (inp : Input)
    (scopes : Scopes) (hattempts : inp.size < limits.attempts) :
    (∀ taken rest, (∃ scopes', book.parser limits state ((Grammar.any.filter keep).repeated b)
        inp scopes = some (.matched rest taken, scopes')) ↔
      Span keep b inp.chars taken rest.chars) ∧
    (∀ taken rest scopes', book.parser limits state ((Grammar.any.filter keep).repeated b)
        inp scopes = some (.matched rest taken, scopes') →
      inp.split? (utf8Length taken) = some (taken, rest)) ∧
    (∀ rest, (∃ scopes', book.parser limits state ((Grammar.any.filter keep).repeated b)
        inp scopes = some (.failed ⟨rest⟩, scopes')) ↔
      (∀ taken left, ¬ Span keep b inp.chars taken left) ∧ rest = inp) ∧
    (∃ scopes', book.parser limits state blanks inp scopes =
      some (.matched (.ofChars (inp.chars.dropWhile Text.isBlank))
        (inp.chars.takeWhile Text.isBlank), scopes')) ∧
    (∃ scopes', book.parser limits state someBlanks inp scopes =
      some (if 1 ≤ (inp.chars.takeWhile Text.isBlank).length then
          .matched (.ofChars (inp.chars.dropWhile Text.isBlank))
            (inp.chars.takeWhile Text.isBlank)
        else .failed ⟨inp⟩, scopes')) ∧
    (∃ scopes', book.parser limits state identifier inp scopes =
      some (if 1 ≤ (inp.chars.takeWhile Char.isAlphanum).length then
          .matched (.ofChars (inp.chars.dropWhile Char.isAlphanum))
            (String.ofList (inp.chars.takeWhile Char.isAlphanum))
        else .failed ⟨inp⟩, scopes')) := by
  have hspan : (book.parser limits state ((Grammar.any.filter keep).repeated b)).Decides inp
      (Span keep b inp.chars) (· = inp.chars) := Grammar.span_decides keep b hattempts
  have hmatched (taken : List Char) (rest : Input) := hspan.matched_iff scopes taken rest
  refine ⟨hmatched, fun taken rest scopes' hrun => ?_, fun rest => ?_, ?_, ?_, ?_⟩
  · have hsplit := ((hmatched taken rest).1 ⟨scopes', hrun⟩).split
    exact Input.split?_of_append hsplit
  · rw [hspan.refuses_here.failed_iff scopes rest]
    exact and_congr_right fun _ => ⟨Input.ext, congrArg Input.chars⟩
  · have hblanks : (book.parser limits state blanks).Decides inp _ _ :=
      Grammar.satisfying_repeated_decides Text.isBlank rfl hattempts
    have hrun := hblanks.longest_run id rfl scopes
    have henough : Bounds.free.least ≤ (inp.chars.takeWhile Text.isBlank).length := Nat.zero_le _
    rwa [if_pos henough] at hrun
  · have hblanks : (book.parser limits state someBlanks).Decides inp _ _ :=
      Grammar.satisfying_repeated_decides Text.isBlank rfl hattempts
    exact hblanks.longest_run id rfl scopes
  · have hname : (book.parser limits state identifier).Decides inp _ _ :=
      Grammar.satisfying_text_decides Char.isAlphanum rfl hattempts
    exact hname.longest_run String.toList String.toList_ofList scopes

/-- Two of three accented letters are taken where no more are allowed, which are four bytes; where
    four are asked for, none is. -/
theorem repetition_takes_span_of_accents :
    (Input.ofString "ééé").size < 10 ∧
    (∃ scopes', (⟨fun _ n => n.elim⟩ : Rulebook (fun _ => Empty) PUnit).parser ⟨10, 0⟩ ⟨⟩
      ((Grammar.any.filter (· = 'é')).repeated ⟨1, some 2⟩) (.ofString "ééé") [] =
        some (.matched (.ofString "é") ['é', 'é'], scopes')) ∧
    (Input.ofString "ééé").split? 4 = some (['é', 'é'], .ofString "é") ∧
    (∃ scopes', (⟨fun _ n => n.elim⟩ : Rulebook (fun _ => Empty) PUnit).parser ⟨10, 0⟩ ⟨⟩
      ((Grammar.any.filter (· = 'é')).repeated ⟨4, none⟩) (.ofString "ééé") [] =
        some (.failed ⟨.ofString "ééé"⟩, scopes')) := by
  have hsize : (Input.ofString "ééé").size < 10 := by decide +kernel
  obtain ⟨hmatched, hcut, -⟩ := repetition_takes_span
    (⟨fun _ n => n.elim⟩ : Rulebook (fun _ => Empty) PUnit) ⟨10, 0⟩ ⟨⟩ (· = 'é') ⟨1, some 2⟩
    (.ofString "ééé") [] hsize
  obtain ⟨-, -, hfailed, -⟩ := repetition_takes_span
    (⟨fun _ n => n.elim⟩ : Rulebook (fun _ => Empty) PUnit) ⟨10, 0⟩ ⟨⟩ (· = 'é') ⟨4, none⟩
    (.ofString "ééé") [] hsize
  have hspan : Span (· = 'é') ⟨1, some 2⟩ "ééé".toList ['é', 'é'] ['é'] :=
    ⟨by decide, by simp, by decide, by decide, .inl rfl⟩
  have hnone : ∀ taken left, ¬ Span (· = 'é') ⟨4, none⟩ "ééé".toList taken left := by
    intro taken left h
    have hlength := congrArg List.length h.split
    have henough : 4 ≤ taken.length := h.enough
    have hthree : "ééé".toList.length = 3 := by decide
    rw [List.length_append, hthree] at hlength
    omega
  obtain ⟨scopes', hrun⟩ := (hmatched ['é', 'é'] (.ofString "é")).2 hspan
  exact ⟨hsize, ⟨scopes', hrun⟩, hcut _ _ scopes' hrun, (hfailed _).2 ⟨hnone, rfl⟩⟩

end Lexical

end Descent
