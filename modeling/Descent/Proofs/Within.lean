/-
  Descent.Proofs.Within

  No parser makes up input.  What a parser leaves is how its input ends, and so is the rest that a
  failure names, which is why a failure has an offset in the input.  A parser is faithful if this
  holds of every reply it gives, whatever its other replies are.

  Every combinator keeps parsers faithful.  A reply for what is left of an input is one for the
  input, since an end of an end is an end; this is all that sequencing and repetition need.
-/
import Descent.Parser.Mode
import Descent.Parser.Repetition
import Descent.Proofs.Consumed

namespace Descent

variable {α β : Type}

/-- A match leaves an end of the input.  A failure is placed at an end of the input, and its offset
    is the number of bytes in front of it. -/
def Reply.Within (inp : Input) : Reply α → Prop
  | .matched rest _ => rest.chars <:+ inp.chars
  | .failed e => ∃ before, inp.chars = before ++ e.rest.chars ∧
      e.offsetIn inp = some (utf8Length before)
  | .aborted _ => True

/-- Every reply is within the input. -/
def Parser.Faithful (p : Parser α) : Prop :=
  ∀ inp scopes reply scopes', p inp scopes = some (reply, scopes') → reply.Within inp

/-- A single step that leaves, or names in its failure, an end of the input. -/
def Honest (step : Input → Except Failure (Input × α)) : Prop :=
  (∀ inp rest value, step inp = .ok (rest, value) → rest.chars <:+ inp.chars) ∧
    ∀ inp e, step inp = .error e → e.rest.chars <:+ inp.chars

/-! ## Replies -/

namespace Reply

variable {inp mid : Input}

/-- Where the rest of a failure is an end of the input, the offset is right. -/
theorem within_failed_iff {e : Failure} :
    (Reply.failed e : Reply α).Within inp ↔ e.rest.chars <:+ inp.chars := by
  refine ⟨fun h => ?_, fun h => ?_⟩
  · obtain ⟨before, hinp, -⟩ := h
    exact ⟨before, hinp.symm⟩
  · obtain ⟨before, hinp⟩ := h
    exact ⟨before, hinp.symm, Input.offsetIn_of_append hinp.symm⟩

theorem within_failed_self : (Reply.failed ⟨inp⟩ : Reply α).Within inp :=
  within_failed_iff.2 (List.suffix_refl _)

/-- A reply for an end of the input is one for the input. -/
theorem Within.trans {reply : Reply α} (h : reply.Within mid) (hmid : mid.chars <:+ inp.chars) :
    reply.Within inp := by
  cases reply with
  | matched rest value => exact List.IsSuffix.trans h hmid
  | failed e => exact within_failed_iff.2 ((within_failed_iff.1 h).trans hmid)
  | aborted m => trivial

/-- Insisting that nothing is left places the failure at what is left. -/
theorem Within.complete {reply : Reply α} (h : reply.Within inp) : reply.complete.Within inp := by
  cases reply with
  | matched rest value =>
    rw [Reply.complete]
    split
    · exact h
    · exact within_failed_iff.2 h
  | failed e => exact h
  | aborted m => exact h

end Reply

/-! ## Combinators -/

namespace Parser

variable {p q : Parser α}

theorem read_faithful {step : Input → Except Failure (Input × α)} (h : Honest step) :
    (read step).Faithful := by
  intro inp scopes reply scopes' hrun
  rw [read] at hrun
  cases hstep : step inp with
  | ok r =>
    rw [hstep] at hrun
    cases hrun
    exact h.1 inp r.1 r.2 hstep
  | error e =>
    rw [hstep] at hrun
    cases hrun
    exact Reply.within_failed_iff.2 (h.2 inp e hstep)

theorem abort_faithful (m : Misuse) : (abort m : Parser α).Faithful := by
  intro inp scopes reply scopes' hrun
  cases hrun
  trivial

theorem map_faithful (f : α → β) (hp : p.Faithful) : (map f p).Faithful := by
  intro inp scopes reply scopes' hrun
  rw [map] at hrun
  split at hrun
  · exact nomatch hrun
  · next hmatched =>
    cases hrun
    exact hp inp scopes _ _ hmatched
  · next hfailed =>
    cases hrun
    exact hp inp scopes _ _ hfailed
  · cases hrun
    trivial

theorem filter_faithful (keep : α → Bool) (hp : p.Faithful) : (filter keep p).Faithful := by
  intro inp scopes reply scopes' hrun
  rw [filter] at hrun
  split at hrun
  · exact nomatch hrun
  · next hmatched =>
    split at hrun
    · cases hrun
      exact hp inp scopes _ _ hmatched
    · cases hrun
      exact Reply.within_failed_self
  · next hfailed =>
    cases hrun
    exact hp inp scopes _ _ hfailed
  · cases hrun
    trivial

theorem andThen_faithful {next : α → Parser β} (hp : p.Faithful)
    (hnext : ∀ value, (next value).Faithful) : (andThen p next).Faithful := by
  intro inp scopes reply scopes' hrun
  rw [andThen] at hrun
  split at hrun
  · exact nomatch hrun
  · next rest value scopes'' hmatched =>
    have hrest : rest.chars <:+ inp.chars := hp inp scopes _ _ hmatched
    have hreply : reply.Within rest := hnext value rest scopes'' reply scopes' hrun
    exact hreply.trans hrest
  · next hfailed =>
    cases hrun
    exact hp inp scopes _ _ hfailed
  · cases hrun
    trivial

theorem or_faithful (hp : p.Faithful) (hq : q.Faithful) : (or p q).Faithful := by
  intro inp scopes reply scopes' hrun
  rw [or] at hrun
  split at hrun
  · exact nomatch hrun
  · next hmatched =>
    cases hrun
    exact hp inp scopes _ _ hmatched
  · exact hq inp _ reply scopes' hrun
  · cases hrun
    trivial

/-! ### Repetition -/

/-- What is left when gathering stops, and what a refusal names, are ends of what was left. -/
theorem gather_within (hp : p.Faithful) {b : Bounds} {limit count : Nat} {rest : Input}
    {newestFirst : List α} {scopes scopes' : Scopes} {haul : Haul α}
    (hrun : gather b p limit rest count newestFirst scopes = some (.ok haul, scopes')) :
    haul.rest.chars <:+ rest.chars ∧
      ∀ e, haul.stop = .refused e → e.rest.chars <:+ rest.chars := by
  -- Along the attempts that are left; an attempt that goes on leaves an end of what it was given.
  induction limit generalizing rest count newestFirst scopes with
  | zero => exact nomatch hrun
  | succ limit ih =>
    have hself : rest.chars <:+ rest.chars := List.suffix_refl _
    rw [gather] at hrun
    split at hrun
    · cases hrun
      exact ⟨hself, fun e he => nomatch he⟩
    · split at hrun
      · exact nomatch hrun
      · next after value scopes'' hmatched =>
        split at hrun
        · cases hrun
          exact ⟨hself, fun e he => nomatch he⟩
        · have hafter : after.chars <:+ rest.chars := hp rest scopes _ _ hmatched
          obtain ⟨hrest, hrefused⟩ := ih hrun
          exact ⟨hrest.trans hafter, fun e he => (hrefused e he).trans hafter⟩
      · next e scopes'' hfailed =>
        cases hrun
        refine ⟨hself, fun e' he' => ?_⟩
        obtain rfl : e = e' := Stop.refused.inj he'
        exact Reply.within_failed_iff.1 (hp rest scopes _ _ hfailed)
      · exact nomatch hrun

theorem judge_within {b : Bounds} {inp : Input} {haul : Haul α}
    (hrest : haul.rest.chars <:+ inp.chars)
    (hrefused : ∀ e, haul.stop = .refused e → e.rest.chars <:+ inp.chars) :
    (judge b inp haul).Within inp := by
  rw [judge]
  split
  · exact hrest
  · split
    · next hstop => exact Reply.within_failed_iff.2 (hrefused _ hstop)
    · exact Reply.within_failed_self

theorem repeated_faithful (limit : Nat) (b : Bounds) (hp : p.Faithful) :
    (repeated limit b p).Faithful := by
  intro inp scopes reply scopes' hrun
  rw [repeated] at hrun
  split at hrun
  · exact nomatch hrun
  · next hgather =>
    cases hrun
    obtain ⟨hrest, hrefused⟩ := gather_within hp hgather
    exact judge_within hrest hrefused
  · cases hrun
    trivial

/-! ### Traces -/

theorem collect_within (hp : p.Faithful) {inp : Input} {scopes outer : Scopes} {reply : Reply α}
    {trace : Trace} (hrun : collect p inp scopes = some (reply, trace, outer)) :
    reply.Within inp := by
  rw [collect] at hrun
  split at hrun
  · exact nomatch hrun
  · cases hrun
    trivial
  · next hreply =>
    obtain ⟨rfl, -⟩ := Prod.mk.inj (Option.some.inj hrun)
    exact hp inp scopes.enter _ _ hreply

theorem marked_faithful (label : String) (hp : p.Faithful) : (marked label p).Faithful := by
  intro inp scopes reply scopes' hrun
  rw [marked] at hrun
  split at hrun
  · exact hp inp scopes reply scopes' hrun
  · split at hrun
    · exact nomatch hrun
    · next hcollect =>
      split at hrun
      · cases hrun
        trivial
      · cases hrun
        exact collect_within hp hcollect

theorem traced_faithful (hp : p.Faithful) : (traced p).Faithful := by
  intro inp scopes reply scopes' hrun
  rw [traced] at hrun
  split at hrun
  · exact nomatch hrun
  · next hcollect =>
    cases hrun
    exact collect_within hp hcollect
  · next hcollect =>
    cases hrun
    exact collect_within hp hcollect
  · cases hrun
    trivial

/-! ## Starting -/

/-- However a faithful parser is started, what is reported is within the input. -/
theorem Faithful.start (hp : p.Faithful) {mode : Mode} {inp : Input} {scopes scopes' : Scopes}
    {report : Report α} (hrun : p.start mode inp scopes = some (report, scopes')) :
    report.reply.Within inp := by
  cases mode with
  | parse | run =>
    obtain ⟨⟨reply, scopes''⟩, hreply, hreport⟩ := Option.map_eq_some_iff.1 hrun
    cases hreport
    exact hp inp scopes reply _ hreply
  | complete =>
    obtain ⟨⟨reply, scopes''⟩, hreply, hreport⟩ := Option.map_eq_some_iff.1 hrun
    cases hreport
    exact (hp inp scopes reply _ hreply).complete
  | traced | verbose =>
    obtain ⟨⟨reply, trace, scopes''⟩, hreply, hreport⟩ := Option.map_eq_some_iff.1 hrun
    cases hreport
    exact collect_within hp hreply

end Parser

end Descent
