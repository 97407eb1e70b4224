/-
  Descent.Proofs.OpenScopes

  The scopes that are left open.  Collecting a trace opens a scope and closes it when the run inside
  has come out, so a run that comes out leaves as many scopes as there were.  A run that is given up
  does not get to the closing: it leaves the scopes around it as they were, with the events reported
  so far, and on top of them whatever scopes were open at that moment.

  Nothing ever closes these again, so the stack never gets lower in a session.
-/
import Descent.Proofs.Answers
import Descent.Proofs.Building
import Descent.Proofs.Steady

namespace Descent

variable {α β : Type}

-- ============================================================================
-- Combinators
-- ============================================================================

namespace Parser

variable {p q : Parser α} {r s : Bool → Recorder α}

/-- What comes out has reported the recorded events, and nothing else has changed. -/
theorem Records.reported (h : p.Records r) {inp : Input} {scopes scopes' : Scopes}
    {reply : Reply α} (hrun : p inp scopes = some (reply, scopes'))
    (hreply : ∀ m, reply ≠ .aborted m) :
    ∃ w, r scopes.listens inp = some (reply, w) ∧ scopes' = scopes.reportAll w :=
  ((h inp scopes).answer_eq_iff hreply).1 hrun

/-- A run that is given up leaves the scopes around it, with some events reported, below those that
    were open inside. -/
def Stacks (p : Parser α) : Prop :=
  ∀ inp scopes m scopes', p inp scopes = some (.aborted m, scopes') →
    ∃ frames w, scopes' = frames ++ scopes.reportAll w

/-- What was reported before the stage that is given up is below as well. -/
theorem Stacks.behind (hp : p.Stacks) {inp : Input} {scopes scopes' : Scopes} {w : Trace}
    {m : Misuse} (hrun : p inp (scopes.reportAll w) = some (.aborted m, scopes')) :
    ∃ frames w', scopes' = frames ++ scopes.reportAll w' := by
  obtain ⟨frames, w', rfl⟩ := hp inp _ m scopes' hrun
  exact ⟨frames, w ++ w', by rw [Scopes.reportAll_append]⟩

theorem read_stacks (step : Input → Except Failure (Input × α)) : (read step).Stacks := by
  intro inp scopes m scopes' hrun
  rw [read] at hrun
  split at hrun <;> cases hrun

theorem abort_stacks (m : Misuse) : (abort m : Parser α).Stacks := by
  intro inp scopes m' scopes' hrun
  cases hrun
  exact ⟨[], [], (Scopes.reportAll_nil scopes).symm⟩

theorem map_stacks (f : α → β) (hp : p.Stacks) : (map f p).Stacks := by
  intro inp scopes m scopes' hrun
  rw [map] at hrun
  split at hrun
  · cases hrun
  · cases hrun
  · cases hrun
  · next haborted =>
    cases hrun
    exact hp inp scopes _ _ haborted

theorem filter_stacks (keep : α → Bool) (hp : p.Stacks) : (filter keep p).Stacks := by
  intro inp scopes m scopes' hrun
  rw [filter] at hrun
  split at hrun
  · cases hrun
  · split at hrun <;> cases hrun
  · cases hrun
  · next haborted =>
    cases hrun
    exact hp inp scopes _ _ haborted

theorem andThen_stacks {next : α → Parser β} (hp : p.Stacks) (hr : p.Records r)
    (hnext : ∀ value, (next value).Stacks) : (andThen p next).Stacks := by
  intro inp scopes m scopes' hrun
  rw [andThen] at hrun
  split at hrun
  · cases hrun
  · next rest value after hmatched =>
    obtain ⟨w, -, rfl⟩ := hr.reported hmatched Reply.matched_ne_aborted
    exact (hnext value).behind hrun
  · cases hrun
  · next haborted =>
    cases hrun
    exact hp inp scopes _ _ haborted

theorem or_stacks (hp : p.Stacks) (hr : p.Records r) (hq : q.Stacks) : (or p q).Stacks := by
  intro inp scopes m scopes' hrun
  rw [or] at hrun
  split at hrun
  · cases hrun
  · cases hrun
  · next e after hfailed =>
    obtain ⟨w, -, rfl⟩ := hr.reported hfailed Reply.failed_ne_aborted
    exact hq.behind hrun
  · next haborted =>
    cases hrun
    exact hp inp scopes _ _ haborted

theorem gather_stacks (hp : p.Stacks) (hr : p.Records r) {b : Bounds} {limit count : Nat}
    {rest : Input} {newestFirst : List α} {scopes scopes' : Scopes} {m : Misuse}
    (hrun : gather b p limit rest count newestFirst scopes = some (.error m, scopes')) :
    ∃ frames w, scopes' = frames ++ scopes.reportAll w := by
  -- Along the attempts; those that came out before have only reported.
  induction limit generalizing rest count newestFirst scopes with
  | zero => cases hrun
  | succ limit ih =>
    rw [gather] at hrun
    split at hrun
    · cases hrun
    · split at hrun
      · cases hrun
      · next after value scopes'' hmatched =>
        split at hrun
        · cases hrun
        · obtain ⟨w, -, rfl⟩ := hr.reported hmatched Reply.matched_ne_aborted
          obtain ⟨frames, w', rfl⟩ := ih hrun
          exact ⟨frames, w ++ w', by rw [Scopes.reportAll_append]⟩
      · cases hrun
      · next haborted =>
        cases hrun
        exact hp rest scopes _ _ haborted

theorem repeated_stacks (limit : Nat) (b : Bounds) (hp : p.Stacks) (hr : p.Records r) :
    (repeated limit b p).Stacks := by
  intro inp scopes m scopes' hrun
  rw [repeated] at hrun
  split at hrun
  · cases hrun
  · exact absurd (Prod.mk.inj (Option.some.inj hrun)).1 (judge_ne_aborted b inp _ m)
  · next haborted =>
    cases hrun
    exact gather_stacks hp hr haborted

/-! ### Traces -/

/-- The scope that was opened for the trace stays where it is. -/
theorem collect_stacks (hp : p.Stacks) {inp : Input} {scopes scopes' : Scopes} {m : Misuse}
    {trace : Trace} (hrun : collect p inp scopes = some (.aborted m, trace, scopes')) :
    ∃ frames frame, scopes' = frames ++ frame :: scopes := by
  rw [collect] at hrun
  split at hrun
  · cases hrun
  · next haborted =>
    cases hrun
    obtain ⟨frames, w, rfl⟩ := hp inp scopes.enter _ _ haborted
    exact ⟨frames, w.reverse ++ [], rfl⟩
  · next hreply _ =>
    obtain ⟨rfl, -⟩ := Prod.mk.inj (Option.some.inj hrun)
    exact absurd rfl (hreply m)

/-- What came out of a scope of its own has left the scopes around as they were. -/
theorem collect_outer (hr : p.Records r) {inp : Input} {scopes scopes' : Scopes}
    {reply : Reply α} {trace : Trace} (hrun : collect p inp scopes = some (reply, trace, scopes'))
    (hreply : ∀ m, reply ≠ .aborted m) :
    scopes' = scopes := by
  obtain ⟨w, -, hleft⟩ := ((collect_records hr inp scopes).answer_eq_iff hreply).1 hrun
  exact (Prod.mk.inj hleft).2

theorem marked_stacks (label : String) (hp : p.Stacks) (hr : p.Records r) :
    (marked label p).Stacks := by
  intro inp scopes m scopes' hrun
  rw [marked] at hrun
  split at hrun
  · exact hp inp scopes m scopes' hrun
  · split at hrun
    · cases hrun
    · next reply scope outer hcollect =>
      split at hrun
      · next hcount =>
        cases hrun
        rcases outcome_eq_error hcount with rfl | ⟨-, rest, value, rfl, -⟩
        · obtain ⟨frames, frame, rfl⟩ := collect_stacks hp hcollect
          exact ⟨frames ++ [frame], [], by simp⟩
        · -- The scope of the mark has been closed, and nothing was reported from it.
          obtain rfl := collect_outer hr hcollect Reply.matched_ne_aborted
          exact ⟨[], [], by simp⟩
      · next hcount =>
        obtain ⟨rfl, -⟩ := Prod.mk.inj (Option.some.inj hrun)
        cases hcount

theorem traced_stacks (hp : p.Stacks) : (traced p).Stacks := by
  intro inp scopes m scopes' hrun
  rw [traced] at hrun
  split at hrun
  · cases hrun
  · cases hrun
  · cases hrun
  · next m' trace after hcollect =>
    cases hrun
    obtain ⟨frames, frame, rfl⟩ := collect_stacks hp hcollect
    exact ⟨frames ++ [frame], [], by simp⟩

end Parser

-- ============================================================================
-- Grammars
-- ============================================================================

section Grammars

variable {N : Type → Type} {σ : Type 1}

theorem Grammar.eval_stacks {attempts : Nat} {call : {α : Type} → N α → Parser α}
    {call' : {α : Type} → N α → Bool → Recorder α}
    (hcall : ∀ {α : Type} (n : N α), Parser.Stacks (call n))
    (hrecords : ∀ {α : Type} (n : N α), Parser.Records (call n) (call' n)) (g : Grammar N α) :
    Parser.Stacks (g.eval attempts call) := by
  have records {α : Type} (g : Grammar N α) :
      (g.eval attempts call).Records (g.record attempts call') := Grammar.eval_records hrecords g
  induction g with
  | leaf step => exact Parser.read_stacks step
  | map f g ih => exact Parser.map_stacks f ih
  | filter keep g ih => exact Parser.filter_stacks keep ih
  | andThen g next ih ihnext => exact Parser.andThen_stacks ih (records g) ihnext
  | or g h ih ih' => exact Parser.or_stacks ih (records g) ih'
  | repeated b g ih => exact Parser.repeated_stacks attempts b ih (records g)
  | marked label g ih => exact Parser.marked_stacks label ih (records g)
  | wrapped w g ih => exact ih
  | traced g ih => exact Parser.traced_stacks ih
  | symbol n => exact hcall n

theorem Rulebook.call_stacks (book : Rulebook N σ) (attempts nesting : Nat) (state : σ) (n : N α) :
    Parser.Stacks (book.call attempts nesting state n) := by
  induction nesting generalizing state α with
  | zero => exact fun inp scopes m scopes' hrun => nomatch hrun
  | succ nesting ih =>
    intro inp scopes m scopes' hrun
    rw [Rulebook.call] at hrun
    split at hrun
    · next m' hresolve => exact Parser.abort_stacks m' inp scopes m scopes' hrun
    · next g state' hresolve =>
      exact Grammar.eval_stacks (fun n => ih state' n)
        (fun n => book.call_records attempts nesting state' n) g inp scopes m scopes' hrun

theorem Rulebook.parser_stacks (book : Rulebook N σ) (limits : Limits) (state : σ)
    (g : Grammar N α) : (book.parser limits state g).Stacks :=
  Grammar.eval_stacks (fun n => book.call_stacks limits.attempts limits.nesting state n)
    (fun n => book.call_records limits.attempts limits.nesting state n) g

end Grammars

-- ============================================================================
-- Starts
-- ============================================================================

/-- What a start leaves of the open scopes, when it comes out and when it is given up.  Opening a
    scope of its own it leaves all others alone, and otherwise it reports to the innermost one; but
    given up it leaves open whatever it has opened. -/
structure Scopes.Left (opens givenUp : Prop) (scopes scopes' : Scopes) : Prop where
  closed : opens → ¬ givenUp → scopes' = scopes
  reported : ¬ opens → ¬ givenUp → ∃ w, scopes' = scopes.reportAll w
  opened : opens → givenUp → ∃ frames frame, scopes' = frames ++ frame :: scopes
  stacked : ¬ opens → givenUp → ∃ frames w, scopes' = frames ++ scopes.reportAll w

theorem Scopes.length_reportAll (scopes : Scopes) (w : Trace) :
    (scopes.reportAll w).length = scopes.length := by
  cases scopes <;> rfl

namespace Scopes.Left

variable {opens givenUp : Prop} {scopes scopes' : Scopes}

theorem length_le (h : Scopes.Left opens givenUp scopes scopes') :
    scopes.length ≤ scopes'.length := by
  by_cases hopens : opens
  · by_cases hgivenUp : givenUp
    · obtain ⟨frames, frame, rfl⟩ := h.opened hopens hgivenUp
      simp only [List.length_append, List.length_cons]
      omega
    · exact Nat.le_of_eq (congrArg List.length (h.closed hopens hgivenUp).symm)
  · by_cases hgivenUp : givenUp
    · obtain ⟨frames, w, rfl⟩ := h.stacked hopens hgivenUp
      rw [List.length_append, length_reportAll]
      omega
    · obtain ⟨w, rfl⟩ := h.reported hopens hgivenUp
      exact Nat.le_of_eq (length_reportAll scopes w).symm

/-- What comes out with nobody listening leaves nobody listening. -/
theorem eq_nil (h : Scopes.Left opens givenUp [] scopes') (hcame : ¬ givenUp) : scopes' = [] := by
  by_cases hopens : opens
  · exact h.closed hopens hcame
  · obtain ⟨w, rfl⟩ := h.reported hopens hcame
    rfl

end Scopes.Left

/-- The run was given up. -/
def Reply.GivenUp (reply : Reply α) : Prop := ∃ m, reply = .aborted m

/-- To insist that nothing is left makes no difference to that. -/
theorem Reply.givenUp_complete (reply : Reply α) : reply.complete.GivenUp ↔ reply.GivenUp :=
  exists_congr fun _ => Reply.complete_eq_aborted_iff

namespace Parser

variable {p : Parser α} {r : Bool → Recorder α}

theorem run_left (hp : p.Stacks) (hr : p.Records r) {inp : Input} {scopes scopes' : Scopes}
    {reply : Reply α} (hrun : p inp scopes = some (reply, scopes')) :
    Scopes.Left False reply.GivenUp scopes scopes' := by
  refine ⟨nofun, fun _ hcame => ?_, nofun, fun _ hgivenUp => ?_⟩
  · obtain ⟨w, -, hw⟩ := hr.reported hrun fun m hm => hcame ⟨m, hm⟩
    exact ⟨w, hw⟩
  · obtain ⟨m, rfl⟩ := hgivenUp
    exact hp inp scopes m scopes' hrun

theorem collect_left (hp : p.Stacks) (hr : p.Records r) {inp : Input} {scopes scopes' : Scopes}
    {reply : Reply α} {trace : Trace} (hrun : collect p inp scopes = some (reply, trace, scopes')) :
    Scopes.Left True reply.GivenUp scopes scopes' := by
  refine ⟨fun _ hcame => ?_, fun hopens => absurd trivial hopens, fun _ hgivenUp => ?_,
    fun hopens => absurd trivial hopens⟩
  · exact collect_outer hr hrun fun m hm => hcame ⟨m, hm⟩
  · obtain ⟨m, rfl⟩ := hgivenUp
    exact collect_stacks hp hrun

theorem start_left (hp : p.Stacks) (hr : p.Records r) {mode : Mode} {inp : Input}
    {scopes scopes' : Scopes} {report : Report α}
    (hrun : p.start mode inp scopes = some (report, scopes')) :
    Scopes.Left mode.Opens report.reply.GivenUp scopes scopes' := by
  cases mode with
  | parse | run =>
    obtain ⟨⟨reply, after⟩, hreply, hreport⟩ := Option.map_eq_some_iff.1 hrun
    cases hreport
    exact run_left hp hr hreply
  | complete =>
    obtain ⟨⟨reply, after⟩, hreply, hreport⟩ := Option.map_eq_some_iff.1 hrun
    cases hreport
    show Scopes.Left False reply.complete.GivenUp scopes scopes'
    rw [Reply.givenUp_complete]
    exact run_left hp hr hreply
  | traced | verbose =>
    obtain ⟨⟨reply, trace, after⟩, hreply, hreport⟩ := Option.map_eq_some_iff.1 hrun
    cases hreport
    exact collect_left hp hr hreply

end Parser

-- ============================================================================
-- Sessions
-- ============================================================================

theorem Answer.ofReport_misused_iff (report : Report Value) :
    (∃ m, Answer.ofReport report = .misused m) ↔ report.reply.GivenUp :=
  exists_congr fun _ => Answer.ofReport_eq_misused_iff

namespace Session

variable {s s' mid : Session}

/-- A run of what could be built leaves the scopes as its mode says. -/
theorem run_left {limits : Limits} {mode : Mode} {recipe : Recipe} {inp : Input} {answer : Answer}
    (h : s.step limits (.run mode recipe inp) = some (answer, s'))
    (hbuild : ∃ built, s.build recipe = .ok built) :
    Scopes.Left mode.Opens (∃ m, answer = .misused m) s.scopes s'.scopes := by
  rcases run_cases h with ⟨m, herror, -⟩ | ⟨b, store, report, scopes, -, hstart, rfl, rfl⟩
  · obtain ⟨built, hbuilt⟩ := hbuild
    exact nomatch herror.symm.trans hbuilt
  · rw [Answer.ofReport_misused_iff]
    exact Parser.start_left (Rulebook.parser_stacks _ _ _ _) (b.parser_records [] limits store)
      hstart

theorem Changes.scopes_eq {step : Step} (h : s.Changes step mid) : mid.scopes = s.scopes := by
  cases h <;> rfl

/-- No step but a run of what could be built touches the scopes. -/
theorem step_left {limits : Limits} {step : Step} {answer : Answer}
    (h : s.step limits step = some (answer, s')) :
    s'.scopes = s.scopes ∨
      ∃ opens, Scopes.Left opens (∃ m, answer = .misused m) s.scopes s'.scopes := by
  rcases step_cases h with ⟨-, mid, hchange, rfl⟩ | ⟨m, -, rfl⟩ |
    ⟨mode, recipe, inp, b, store, -, -, rfl, hbuild, -⟩
  · exact .inl hchange.scopes_eq
  · exact .inl rfl
  · exact .inr ⟨mode.Opens, run_left h ⟨_, hbuild⟩⟩

/-- No step closes a scope that was left open. -/
theorem Becomes.length_scopes_le (h : s.Becomes s') : s.scopes.length ≤ s'.scopes.length := by
  induction h with
  | refl => exact Nat.le_refl _
  | step _ hstep ih =>
    rcases step_left hstep with hscopes | ⟨opens, hleft⟩
    · rw [hscopes]
      exact ih
    · exact Nat.le_trans ih hleft.length_le

end Session

end Descent
