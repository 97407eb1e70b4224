/-
  Descent.Proofs.Counted

  The bytes that are counted in traces.  A count is what is left when the length of a rest is taken
  off the length of the input on which a mark was entered.  There is no such number if the rest of a
  match is longer, and a run is given up for it; and a count says little if the rest is not a part
  of the input.  In a run over honest steps it always is: the reported events are made by exact
  visits, so each counts the bytes in front of what was left, and the subtraction never fails.  And
  since visits are on ends of the input, no count is larger than the input.
-/
import Descent.Proofs.Visits

namespace Descent

/-- How many bytes are counted. -/
def Outcome.bytes : Outcome → Nat
  | .matched bytes => bytes
  | .failed bytes => bytes

mutual

/-- The bytes that an event counts, and those of all events in it. -/
def Event.counts : Event → List Nat
  | ⟨_, outcome, scope⟩ => outcome.bytes :: Trace.counts scope

/-- The bytes that the events of a trace count, at every depth. -/
def Trace.counts : List Event → List Nat
  | [] => []
  | e :: es => e.counts ++ Trace.counts es

end

theorem Trace.counts_append (w w' : Trace) :
    Trace.counts (w ++ w') = Trace.counts w ++ Trace.counts w' := by
  induction w with
  | nil => rfl
  | cons e es ih =>
    rw [List.cons_append, Trace.counts, Trace.counts, ih, List.append_assoc]

/-- What is counted in the events of several visits is counted in those of one. -/
theorem Visit.exists_of_mem_counts {n : Nat} {vs : List Visit}
    (hn : n ∈ Trace.counts (Visit.eventsList vs)) : ∃ v ∈ vs, n ∈ Trace.counts v.events := by
  induction vs with
  | nil => cases hn
  | cons v vs ih =>
    rw [Visit.eventsList, Trace.counts_append] at hn
    rcases List.mem_append.1 hn with hn | hn
    · exact ⟨v, List.mem_cons_self, hn⟩
    · obtain ⟨v', hv', hn'⟩ := ih hn
      exact ⟨v', List.mem_cons_of_mem v hv', hn'⟩

/-- A reply that is counted counts no more bytes than there are. -/
theorem Reply.Counted.bytes_le {place : Input} {reply : Reply Unit} (h : reply.Counted place) :
    ∃ outcome, Parser.outcome place reply = .ok outcome ∧ outcome.bytes ≤ place.size := by
  cases h with
  | matched hplace hsize houtcome | failed hplace hsize houtcome =>
    have hbytes := Input.size_eq_add hplace
    exact ⟨_, houtcome, by rw [Outcome.bytes]; omega⟩

/-- An exact visit counts no more bytes than there are where it was made. -/
theorem Visit.Exact.counts_le {inp : Input} {v : Visit} (h : v.Exact inp) :
    ∀ n ∈ Trace.counts v.events, n ≤ inp.size := by
  induction h with
  | @mark inp place label reply inside hplace hreply _ ih =>
    obtain ⟨outcome, houtcome, hbytes⟩ := hreply.bytes_le
    have hsize : place.size ≤ inp.size := Input.size_le_of_suffix hplace
    intro n hn
    rw [Visit.events, houtcome] at hn
    dsimp only at hn
    rw [Trace.counts, Trace.counts, List.append_nil, Event.counts] at hn
    rcases List.mem_cons.1 hn with rfl | hn
    · exact Nat.le_trans hbytes hsize
    · obtain ⟨v, hv, hn'⟩ := Visit.exists_of_mem_counts hn
      exact Nat.le_trans (ih v hv n hn') hsize
  | trace _ _ _ =>
    intro n hn
    cases hn

section Runs

variable {N : Type → Type} {σ : Type 1} {α : Type}

/-- Started to collect a trace, a run that returns gives the events of its visits. -/
theorem Rulebook.start_eq_report {book : Rulebook N σ} {limits : Limits} {state : σ}
    {g : Grammar N α} {vs : Visits} (hnotes : (book.recorder limits state g true).Notes vs)
    {mode : Mode} (hmode : mode.Opens) {inp : Input} {scopes scopes' : Scopes} {report : Report α}
    (hrun : (book.parser limits state g).start mode inp scopes = some (report, scopes'))
    (hreply : ∀ m, report.reply ≠ .aborted m) :
    report = mode.report (report.reply, Visit.eventsList (vs inp)) ∧
      ∀ v ∈ vs inp, v.Exact inp := by
  have hrecords := book.parser_records limits state g
  obtain ⟨w, hrecord, hreport, -⟩ := (hrecords.start_eq_some_iff hmode hreply).1 hrun
  obtain ⟨hevents, hexact⟩ := hnotes inp _ w hrecord hreply
  exact ⟨by rw [hevents]; exact hreport, hexact⟩

/-- A traced run over honest steps is not given up because a parser left more than it was given,
    unless the lookup of a symbol is.  If it returns, every event of the trace at every depth counts
    the bytes exactly.  The events are those of the visits, and each visit was entered on an end of
    the input on which the one around it was entered, or of the input of the run; what it left, or
    where it failed, is an end of its own input, no longer than it; and the bytes it counts are
    those in front.  So no count is larger than the input. -/
theorem trace_counts_exact (book : Rulebook N σ) (Allowed : σ → Prop) (limits : Limits) (state : σ)
    (g : Grammar N α) (mode : Mode) (inp : Input) (scopes scopes' : Scopes) (report : Report α)
    (hbook : book.Honest Allowed) (hstate : Allowed state) (hg : g.Honest)
    (hmode : mode = .traced ∨ mode = .verbose)
    (hrun : (book.parser limits state g).start mode inp scopes = some (report, scopes')) :
    (report.reply = .aborted .overrun → ∃ (there : σ) (β : Type) (n : N β), Allowed there ∧
      book.resolve there n = .error .overrun) ∧
    ((∀ m, report.reply ≠ .aborted m) →
      report = mode.report
        (report.reply, Visit.eventsList (book.visits limits state g inp)) ∧
      (∀ v ∈ book.visits limits state g inp, v.Exact inp) ∧
      ∀ n ∈ Trace.counts (Visit.eventsList (book.visits limits state g inp)), n ≤ inp.size) := by
  have hopens : mode.Opens := by rcases hmode with rfl | rfl <;> trivial
  have hrecords := book.parser_records limits state g
  refine ⟨fun hreply => ?_, fun hreply => ?_⟩
  · exact hbook.exists_lookup_of_overrun hstate hg ((hrecords.start_aborts_iff hrun).1 hreply)
  · obtain ⟨hreport, hexact⟩ :=
      Rulebook.start_eq_report (Rulebook.recorder_notes hbook limits hstate hg) hopens hrun hreply
    refine ⟨hreport, hexact, fun n hn => ?_⟩
    obtain ⟨v, hv, hn'⟩ := Visit.exists_of_mem_counts hn
    exact (hexact v hv).counts_le n hn'

end Runs

/-- An element that is closed by another name: the attempt at a child fails one byte behind the
    opening tag, where it was entered, the closing tag is refused where it was entered, and the
    failure of the whole is three bytes behind its beginning. -/
theorem trace_counts_exact_of_mismatched_tag :
    let inp := Input.ofString "<a></b>"
    let trace : Trace := [⟨"element", .failed 3,
      [⟨"element", .failed 1, []⟩, ⟨"close_element", .failed 0, []⟩]⟩]
    (Markup.rulebook.parser ⟨9, 9⟩ ⟨⟩ (Markup.element .element)).start .traced inp [] =
        some (⟨.failed ⟨.ofString "</b>"⟩, some trace, ""⟩, []) ∧
      ∃ vs, Visit.eventsList vs = trace ∧ (∀ v ∈ vs, v.Exact inp) ∧
        Trace.counts trace = [3, 1, 0] ∧ ∀ n ∈ Trace.counts trace, n ≤ 7 := by
  intro inp trace
  have hcollect : Parser.collect (Markup.rulebook.parser ⟨9, 9⟩ ⟨⟩ (Markup.element .element)) inp
      [] = some (.failed ⟨.ofString "</b>"⟩, trace, []) := by decide +kernel
  have hrun : (Markup.rulebook.parser ⟨9, 9⟩ ⟨⟩ (Markup.element .element)).start .traced inp [] =
      some (⟨.failed ⟨.ofString "</b>"⟩, some trace, ""⟩, []) := by
    rw [Parser.start, hcollect]
    rfl
  obtain ⟨-, hreturned⟩ := trace_counts_exact Markup.rulebook (fun _ => True) ⟨9, 9⟩ ⟨⟩
    (Markup.element .element) .traced inp [] [] _ Markup.rulebook_honest trivial
    (Markup.element_over trivial) (.inl rfl) hrun
  obtain ⟨hreport, hexact, hcounts⟩ := hreturned Reply.failed_ne_aborted
  have hevents : trace = Visit.eventsList _ := Option.some.inj (congrArg Report.trace hreport)
  rw [← hevents] at hcounts
  exact ⟨hrun, _, hevents.symm, hexact, by decide +kernel, hcounts⟩

end Descent
