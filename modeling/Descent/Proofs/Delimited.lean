/-
  Descent.Proofs.Delimited

  Text between two delimiters, exactly: what is accepted, and where reading fails.  Behind the
  opening delimiter the text goes on up to the next delimiter of either kind, so three things can
  stand there.  A closing one ends the text, and it is the next one even if both are the same
  character.  An opening one is where reading fails.  If there is none at all, reading fails at the
  end.
-/
import Descent.Proofs.Refuses

namespace Descent.Lexical

/-- The rest at which reading text between two delimiters fails. -/
inductive BetweenFailsAt (start finish : Char) : List Char → List Char → Prop
  /-- The text is not opened. -/
  | unopened {s : List Char} (h : ∀ t, s ≠ start :: t) : BetweenFailsAt start finish s s
  /-- It is opened once more before it is closed. -/
  | reopened {v u : List Char} (hne : start ≠ finish) (hs : start ∉ v) (hf : finish ∉ v) :
      BetweenFailsAt start finish (start :: (v ++ start :: u)) (start :: u)
  /-- It is never closed. -/
  | unclosed {v : List Char} (hs : start ∉ v) (hf : finish ∉ v) :
      BetweenFailsAt start finish (start :: v) []

theorem stopsAt_eq_iff {c : Char} {cs : List Char} :
    StopsAt (· = c) cs ↔ ∀ t, cs ≠ c :: t := by
  cases cs with
  | nil => simp
  | cons d ds =>
    rw [stopsAt_cons, decide_eq_false_iff_not]
    refine ⟨fun h t heq => h (List.cons.inj heq).1, fun h heq => h ds ?_⟩
    rw [heq]

section Reading

variable {N : Type → Type} {attempts : Nat} {call : {α : Type} → N α → Parser α} {inp : Input}

/-- Once the text is opened, reading it up to the next delimiter cannot fail. -/
theorem openedText_refuses (start finish : Char) (ha : inp.size < attempts) :
    (((Grammar.satisfying (· = start) : Grammar N Char).skipThen
      ((Grammar.satisfying fun c => c ≠ start && c ≠ finish).repeated Bounds.free).text).eval
        attempts call).Refuses inp fun r => StopsAt (· = start) inp.chars ∧ r = inp.chars := by
  refine (Grammar.skipThen_refuses (H := fun _ _ => False) (Grammar.satisfying_decides _)
    (Grammar.satisfying_refuses _) fun c mid hc => ?_).congr fun r => ?_
  · have hsize : mid.size < inp.size := by
      obtain ⟨w, ⟨rfl, -⟩, hcs⟩ := hc
      exact Input.size_lt_of_consumed (List.cons_ne_nil c []) hcs
    exact Parser.map_refuses _ (Grammar.repeated_refuses rfl
      (Grammar.satisfying_repeated_decides _ rfl (by omega)))
  · exact ⟨.inl, fun h => h.resolve_right fun ⟨_, _, _, hnone⟩ => hnone⟩

/-- Reading fails where no text is opened, and where what stands behind the text that is opened
    does not close it. -/
theorem betweenFailsAt_iff {start finish : Char} {s r : List Char} :
    BetweenFailsAt start finish s r ↔ (StopsAt (· = start) s ∧ r = s) ∨
      ∃ (v : String) (mid : List Char), (s = start :: (v.toList ++ mid) ∧ start ∉ v.toList ∧
        finish ∉ v.toList ∧ StopsAt (isInside start finish) mid) ∧
          StopsAt (· = finish) mid ∧ r = mid := by
  refine ⟨fun h => ?_, fun h => ?_⟩
  · cases h with
    | unopened h => exact .inl ⟨stopsAt_eq_iff.2 h, rfl⟩
    | @reopened v u hne hs hf =>
      have hstop : StopsAt (isInside start finish) (start :: u) :=
        stopsAt_cons.2 (isInside_eq_false_iff.2 (.inl rfl))
      refine .inr ⟨String.ofList v, start :: u, ?_, stopsAt_cons.2 (decide_eq_false hne), rfl⟩
      rw [String.toList_ofList]
      exact ⟨rfl, hs, hf, hstop⟩
    | @unclosed v hs hf =>
      refine .inr ⟨String.ofList v, [], ?_, stopsAt_nil _, rfl⟩
      rw [String.toList_ofList, List.append_nil]
      exact ⟨rfl, hs, hf, stopsAt_nil _⟩
  · rcases h with ⟨hnone, rfl⟩ | ⟨v, mid, ⟨rfl, hs, hf, hstop⟩, hclose, rfl⟩
    · exact .unopened (stopsAt_eq_iff.1 hnone)
    · cases r with
      | nil =>
        rw [List.append_nil]
        exact .unclosed hs hf
      | cons c u =>
        have hother : c ≠ finish := of_decide_eq_false (stopsAt_cons.1 hclose)
        obtain rfl : c = start :=
          (isInside_eq_false_iff.1 (stopsAt_cons.1 hstop)).resolve_right hother
        exact .reopened hother hs hf

theorem textBetween_refuses (start finish : Char) (ha : inp.size < attempts) :
    ((textBetween start finish : Grammar N String).eval attempts call).Refuses inp
      (BetweenFailsAt start finish inp.chars) :=
  (Grammar.thenSkip_refuses (H := fun mid r => StopsAt (· = finish) mid ∧ r = mid)
    (openedText_decides start finish ha) (openedText_refuses start finish ha)
    fun _ _ _ => Grammar.satisfying_refuses _).congr fun _ => betweenFailsAt_iff

end Reading

/-- Reading text between two delimiters always ends in a match or a failure.  It matches with a
    text exactly if the text stands between the delimiters at the front of the input and has
    neither of them inside, and it fails at the input if it is not opened, where it is opened once
    more before it is closed, and at the end if no delimiter stands behind the first. -/
theorem textBetween_matched_iff_or_failed_iff {N : Type → Type} {σ : Type 1}
    (book : Rulebook N σ) (limits : Limits) (state : σ) (start finish : Char) (inp : Input)
    (scopes : Scopes) (hattempts : inp.size < limits.attempts) :
    (∃ reply scopes', book.parser limits state (textBetween start finish) inp scopes =
      some (reply, scopes') ∧ ∀ m, reply ≠ .aborted m) ∧
    (∀ (v : String) (rest : Input),
      (∃ scopes', book.parser limits state (textBetween start finish) inp scopes =
        some (.matched rest v, scopes')) ↔
      inp.chars = start :: (v.toList ++ finish :: rest.chars) ∧ start ∉ v.toList ∧
        finish ∉ v.toList) ∧
    (∀ rest : Input,
      (∃ scopes', book.parser limits state (textBetween start finish) inp scopes =
        some (.failed ⟨rest⟩, scopes')) ↔ BetweenFailsAt start finish inp.chars rest.chars) := by
  have hdecides : (book.parser limits state (textBetween start finish)).Decides inp _ _ :=
    textBetween_decides start finish hattempts
  have hrefuses : (book.parser limits state (textBetween start finish)).Refuses inp _ :=
    textBetween_refuses start finish hattempts
  refine ⟨?_, fun v rest => ?_, fun rest => hrefuses.failed_iff scopes rest⟩
  · obtain ⟨reply, scopes', hrun, hreply⟩ := hrefuses scopes
    refine ⟨reply, scopes', hrun, fun m hm => ?_⟩
    rw [hm] at hreply
    exact hreply
  · rw [hdecides.matched_iff scopes v rest]
    exact ⟨fun ⟨hs, hf, hcs⟩ => ⟨hcs, hs, hf⟩, fun ⟨hcs, hs, hf⟩ => ⟨hs, hf, hcs⟩⟩

/-- With different delimiters reading fails where the text is opened again, behind a character of
    two bytes; with equal ones the same text is closed there. -/
theorem textBetween_of_repeated_delimiter :
    (Input.ofString "<é<b>").size < 10 ∧
    (∃ scopes', (⟨fun _ n => n.elim⟩ : Rulebook (fun _ => Empty) PUnit).parser ⟨10, 0⟩ ⟨⟩
      (textBetween '<' '>') (.ofString "<é<b>") [] =
        some (.failed ⟨.ofString "<b>"⟩, scopes')) ∧
    (∃ scopes', (⟨fun _ n => n.elim⟩ : Rulebook (fun _ => Empty) PUnit).parser ⟨10, 0⟩ ⟨⟩
      (textBetween '<' '<') (.ofString "<é<b>") [] =
        some (.matched (.ofString "b>") "é", scopes')) := by
  have hsize : (Input.ofString "<é<b>").size < 10 := by decide +kernel
  obtain ⟨-, -, hfailed⟩ := textBetween_matched_iff_or_failed_iff
    (⟨fun _ n => n.elim⟩ : Rulebook (fun _ => Empty) PUnit) ⟨10, 0⟩ ⟨⟩ '<' '>'
    (.ofString "<é<b>") [] hsize
  obtain ⟨-, hmatched, -⟩ := textBetween_matched_iff_or_failed_iff
    (⟨fun _ n => n.elim⟩ : Rulebook (fun _ => Empty) PUnit) ⟨10, 0⟩ ⟨⟩ '<' '<'
    (.ofString "<é<b>") [] hsize
  have hreopened : BetweenFailsAt '<' '>' "<é<b>".toList "<b>".toList :=
    .reopened (v := ['é']) (by decide) (by decide) (by decide)
  exact ⟨hsize, (hfailed (.ofString "<b>")).2 hreopened,
    (hmatched "é" (.ofString "b>")).2 (by decide +kernel)⟩

end Descent.Lexical
