/-
  Descent.Proofs.GivenUp

  When scopes are left open.  A run that is started with nobody listening and given up leaves open
  what was open at that moment: a scope for every trace that was being collected around the part
  that it was given up for, and one for every mark inside these.  So none is left exactly if no
  trace was being collected.

  A start that collects a trace itself leaves a scope whenever it is given up.  As no step ever
  closes a scope again, a session has none open exactly if none of its runs was given up while a
  trace was being collected.  Where one is open it hears whatever later runs report that are not
  traced at all.
-/
import Descent.Proofs.Calls
import Descent.Proofs.OpenScopes

namespace Descent

variable {α β : Type}

-- ============================================================================
-- Combinators
-- ============================================================================

namespace Parser

variable {p : Parser α} {r : Bool → Recorder α} {inp : Input} {m : Misuse}

/-- Where nobody listens, nobody does after a run that comes out. -/
theorem Records.unheard (h : p.Records r) {reply : Reply α} {w : Trace}
    (hrecord : r false inp = some (reply, w)) (hreply : ∀ m, reply ≠ .aborted m) :
    p inp [] = some (reply, []) :=
  (h inp []).answer_eq hrecord hreply

/-- A run is given up as recorded, whatever scopes are open. -/
theorem Records.aborts_iff (h : p.Records r) {scopes : Scopes} :
    (r scopes.listens).Aborts m inp ↔ ∃ scopes', p inp scopes = some (.aborted m, scopes') := by
  constructor
  · rintro ⟨w, hw⟩
    cases h inp scopes with
    | unanswered _ hr | matched _ hr | failed _ hr => exact nomatch hw.symm.trans hr
    | aborted ha hr =>
      cases hw.symm.trans hr
      exact ⟨_, ha⟩
  · rintro ⟨scopes', hrun⟩
    cases h inp scopes with
    | unanswered ha _ | matched ha _ | failed ha _ => exact nomatch hrun.symm.trans ha
    | aborted ha hr =>
      cases hrun.symm.trans ha
      exact ⟨_, hr⟩

/-- A repetition leaves what the attempt leaves that is given up. -/
theorem gather_aborts (hr : p.Records r) {b : Bounds} {place rest : Input} {limit count : Nat}
    {scopes : Scopes} (h : Recorder.Attempts b (r false) place limit count rest)
    (hrun : p place [] = some (.aborted m, scopes)) (newestFirst : List α) :
    gather b p limit rest count newestFirst [] = some (.error m, scopes) := by
  induction h generalizing newestFirst with
  | now hfull => rw [gather, if_neg (by rw [hfull]; exact Bool.false_ne_true), hrun]
  | later hfull hmatched hprogress _ ih =>
    rw [gather, if_neg (by rw [hfull]; exact Bool.false_ne_true),
      hr.unheard hmatched Reply.matched_ne_aborted]
    dsimp only
    rw [if_neg hprogress]
    exact ih _

/-- A trace that is given up leaves its scope. -/
theorem traced_aborts (hp : p.Stacks) (hr : p.Records r) (h : (r true).Aborts m inp)
    (scopes : Scopes) :
    ∃ scopes', traced p inp scopes = some (.aborted m, scopes') ∧ scopes' ≠ [] := by
  obtain ⟨scopes', hrun⟩ : ∃ scopes', p inp scopes.enter = some (.aborted m, scopes') :=
    hr.aborts_iff.1 h
  have hcollect : collect p inp scopes = some (.aborted m, [], scopes') := by
    rw [collect, hrun]
  obtain ⟨frames, frame, rfl⟩ := collect_stacks hp hcollect
  exact ⟨_, by rw [traced, hcollect], by simp⟩

end Parser

-- ============================================================================
-- Grammars
-- ============================================================================

section Grammars

variable {N : Type → Type} {σ : Type 1} {m : Misuse} {traces : Nat} {place inp : Input}
  {part : Grammar N β} {loud heard : Bool} {g : Grammar N α}

/-- What an unheard run leaves that is given up at a part.  No scope is open afterwards exactly if
    the part left none and no trace was being collected around it. -/
theorem Grammar.Runs.leaves {attempts : Nat} {call : {α : Type} → N α → Parser α}
    {call' : {α : Type} → N α → Bool → Recorder α}
    (hstacks : ∀ {α : Type} (n : N α), Parser.Stacks (call n))
    (hrecords : ∀ {α : Type} (n : N α), Parser.Records (call n) (call' n)) {scopes : Scopes}
    (h : Runs attempts call' part loud place traces heard g inp) (hheard : heard = false)
    (hpart : (part.record attempts call' loud).Aborts m place)
    (hquiet : loud = false → part.eval attempts call place [] = some (.aborted m, scopes)) :
    ∃ scopes', g.eval attempts call inp [] = some (.aborted m, scopes') ∧
      (scopes' = [] ↔ scopes = [] ∧ traces = 0) := by
  have records {α : Type} (g : Grammar N α) :
      (g.eval attempts call).Records (g.record attempts call') := Grammar.eval_records hrecords g
  induction h with
  | here => exact ⟨scopes, hquiet hheard, by simp⟩
  | map f _ ih =>
    obtain ⟨scopes', hrun, hempty⟩ := ih hheard
    exact ⟨scopes', by rw [eval, Parser.map, hrun], hempty⟩
  | filter keep _ ih =>
    obtain ⟨scopes', hrun, hempty⟩ := ih hheard
    exact ⟨scopes', by rw [eval, Parser.filter, hrun], hempty⟩
  | first _ ih =>
    obtain ⟨scopes', hrun, hempty⟩ := ih hheard
    exact ⟨scopes', by rw [eval, Parser.andThen, hrun], hempty⟩
  | next hg _ ih =>
    subst hheard
    obtain ⟨scopes', hrun, hempty⟩ := ih rfl
    refine ⟨scopes', ?_, hempty⟩
    rw [eval, Parser.andThen, (records _).unheard hg Reply.matched_ne_aborted]
    exact hrun
  | orLeft _ ih =>
    obtain ⟨scopes', hrun, hempty⟩ := ih hheard
    exact ⟨scopes', by rw [eval, Parser.or, hrun], hempty⟩
  | orRight hg _ ih =>
    subst hheard
    obtain ⟨scopes', hrun, hempty⟩ := ih rfl
    refine ⟨scopes', ?_, hempty⟩
    rw [eval, Parser.or, (records _).unheard hg Reply.failed_ne_aborted]
    exact hrun
  | repeated hrest _ ih =>
    subst hheard
    obtain ⟨scopes', hrun, hempty⟩ := ih rfl
    refine ⟨scopes', ?_, hempty⟩
    rw [eval, Parser.repeated, Parser.gather_aborts (records _) hrest hrun []]
  | marked label _ ih =>
    -- Nobody listens to the mark.
    obtain ⟨scopes', hrun, hempty⟩ := ih hheard
    exact ⟨scopes', hrun, hempty⟩
  | wrapped _ _ ih => exact ih hheard
  | @traced _ traces heard g inp hruns _ =>
    -- Inside somebody listens, so what is left there is told from the record alone.
    obtain ⟨scopes', hrun, hopen⟩ := Parser.traced_aborts
      (Grammar.eval_stacks hstacks hrecords g) (records g) (hruns.aborts hpart) []
    exact ⟨scopes', hrun, by simp [hopen]⟩

namespace Rulebook

variable {book : Rulebook N σ} {state : σ}

/-- What is not heard is given up for a lookup, and leaves no scope by that. -/
theorem Refuses.quiet {attempts left : Nat} {there : σ}
    (h : book.Refuses attempts m left there false part place) :
    book.parser ⟨attempts, left⟩ there part place [] = some (.aborted m, []) := by
  cases h with
  | @symbol m nesting there loud β n place hn =>
    show book.call attempts (nesting + 1) there n place [] = _
    rw [Rulebook.call, hn]
    rfl

/-- What an unheard run leaves that is given up at a part that it meets: a scope for every trace
    that was being collected there, and those of the marks inside. -/
theorem Meets.leaves {attempts nesting left : Nat} {there : σ}
    (h : book.Meets attempts part left there loud place traces nesting heard state g inp)
    (hheard : heard = false) (hpart : book.Refuses attempts m left there loud part place) :
    ∃ scopes, book.parser ⟨attempts, nesting⟩ state g inp [] = some (.aborted m, scopes) ∧
      (scopes = [] ↔ traces = 0) := by
  induction h with
  | here hruns =>
    have hquiet (h : loud = false) :
        book.parser ⟨attempts, left⟩ there part place [] = some (.aborted m, []) :=
      (h ▸ hpart).quiet
    obtain ⟨scopes, hrun, hempty⟩ := hruns.leaves (book.call_stacks attempts left there)
      (book.call_records attempts left there) hheard hpart.aborts hquiet
    exact ⟨scopes, hrun, by rw [hempty]; simp⟩
  | @inside α γ traces inner nesting heard inside state state' g g' inp mid n hruns hfound hmeets
      ih =>
    have haborts : (book.recordCall attempts (nesting + 1) state n inside).Aborts m mid :=
      recordCall_aborts_iff.2 (.inr ⟨g', state', hfound, hmeets.aborts hpart.aborts⟩)
    have leaves (scopes : Scopes) (hquiet : inside = false →
          book.call attempts (nesting + 1) state n mid [] = some (.aborted m, scopes)) :
        ∃ scopes', book.parser ⟨attempts, nesting + 1⟩ state g inp [] =
            some (.aborted m, scopes') ∧ (scopes' = [] ↔ scopes = [] ∧ traces = 0) :=
      hruns.leaves (book.call_stacks attempts (nesting + 1) state)
        (book.call_records attempts (nesting + 1) state) hheard haborts hquiet
    cases inside with
    | false =>
      obtain ⟨scopes, hinside, hempty⟩ := ih rfl
      have hrun : book.call attempts (nesting + 1) state n mid [] = some (.aborted m, scopes) := by
        rw [Rulebook.call, hfound]
        exact hinside
      obtain ⟨scopes', hg, hempty'⟩ := leaves scopes fun _ => hrun
      exact ⟨scopes', hg, by rw [hempty', hempty]; omega⟩
    | true =>
      -- The symbol is heard, so a trace is being collected around it.
      have htraces : traces ≠ 0 := by
        subst hheard
        exact (hruns.loud_iff.1 rfl).resolve_left Bool.false_ne_true
      obtain ⟨scopes', hg, hempty⟩ := leaves [] fun h => absurd h.symm Bool.false_ne_true
      exact ⟨scopes', hg, by rw [hempty]; omega⟩

/-- A run that is started with nobody listening and given up leaves no scope open exactly if it was
    collecting no trace. -/
theorem scopes_eq_nil_iff {limits : Limits} {scopes : Scopes}
    (hrun : book.parser limits state g inp [] = some (.aborted m, scopes)) :
    scopes = [] ↔ ∀ m traces, book.GivesUp limits m traces false state g inp → traces = 0 := by
  have leaves {m' : Misuse} {traces : Nat} (h : book.GivesUp limits m' traces false state g inp) :
      scopes = [] ↔ traces = 0 := by
    obtain ⟨β, part, left, there, loud, place, hmeets, hrefuses⟩ := h
    obtain ⟨scopes', hrun', hempty⟩ := hmeets.leaves rfl hrefuses
    cases hrun.symm.trans hrun'
    exact hempty
  constructor
  · exact fun hscopes m' traces h => (leaves h).1 hscopes
  · intro h
    have haborts : (book.recorder limits state g false).Aborts m inp :=
      (book.parser_records limits state g).aborts_iff.2 ⟨scopes, hrun⟩
    obtain ⟨traces, hgivesUp⟩ := aborts_iff_givesUp.1 haborts
    exact (leaves hgivesUp).2 (h m traces hgivesUp)

end Rulebook

end Grammars

-- ============================================================================
-- Starts
-- ============================================================================

namespace Parser

variable {p : Parser α} {mode : Mode} {inp : Input} {scopes scopes' : Scopes} {report : Report α}

/-- A start that collects no trace runs the parser among the scopes that are open. -/
theorem start_inv (hmode : ¬ mode.Opens) (h : p.start mode inp scopes = some (report, scopes')) :
    ∃ reply, p inp scopes = some (reply, scopes') ∧
      ∀ m, report.reply = .aborted m ↔ reply = .aborted m := by
  cases mode with
  | parse | run =>
    obtain ⟨⟨reply, after⟩, hreply, hreport⟩ := Option.map_eq_some_iff.1 h
    cases hreport
    exact ⟨reply, hreply, fun m => Iff.rfl⟩
  | complete =>
    obtain ⟨⟨reply, after⟩, hreply, hreport⟩ := Option.map_eq_some_iff.1 h
    cases hreport
    exact ⟨reply, hreply, fun m => Reply.complete_eq_aborted_iff⟩
  | traced | verbose => exact absurd trivial hmode

end Parser

namespace Built

variable {b : Built} {limits : Limits} {store : Store} {mode : Mode} {inp : Input}

/-- A run of what was built is given up while a trace is being collected, be it the trace that the
    start has asked for or one that is asked for around the part that it is given up for. -/
def GivesUpTracing (b : Built) (limits : Limits) (store : Store) (mode : Mode) (scopes : Scopes)
    (inp : Input) : Prop :=
  ∃ m traces,
    (Rules.rulebook []).GivesUp limits m traces (mode.listens scopes) store b.grammar inp ∧
      (mode.Opens ∨ traces ≠ 0)

/-- A start with nobody listening leaves nobody listening, unless it is given up while a trace is
    being collected. -/
theorem start_scopes_eq_nil_iff {scopes : Scopes} {report : Report Value}
    (h : (b.parser [] limits store).start mode inp [] = some (report, scopes)) :
    scopes = [] ↔ ¬ b.GivesUpTracing limits store mode [] inp := by
  have hrecords := b.parser_records [] limits store
  have hleft := Parser.start_left (Rulebook.parser_stacks _ _ _ _) hrecords h
  have hgivenUp (m : Misuse) : report.reply = .aborted m ↔ ∃ traces,
      (Rules.rulebook []).GivesUp limits m traces (mode.listens []) store b.grammar inp :=
    (hrecords.start_aborts_iff h).trans Rulebook.aborts_iff_givesUp
  by_cases hreply : report.reply.GivenUp
  · by_cases hmode : mode.Opens
    · obtain ⟨frames, frame, rfl⟩ := hleft.opened hmode hreply
      obtain ⟨m, hm⟩ := hreply
      obtain ⟨traces, hgivesUp⟩ := (hgivenUp m).1 hm
      exact iff_of_false (by simp) (not_not_intro ⟨m, traces, hgivesUp, .inl hmode⟩)
    · obtain ⟨m, hm⟩ := hreply
      obtain ⟨reply, hrun, hsame⟩ := Parser.start_inv hmode h
      obtain rfl := (hsame m).1 hm
      rw [Rulebook.scopes_eq_nil_iff hrun, GivesUpTracing, Mode.listens_of_not_opens hmode]
      constructor
      · rintro hnone ⟨m', traces, hgivesUp, hopens | htraces⟩
        · exact hmode hopens
        · exact htraces (hnone m' traces hgivesUp)
      · exact fun hnot m' traces hgivesUp =>
          Decidable.byContradiction fun htraces => hnot ⟨m', traces, hgivesUp, .inr htraces⟩
  · refine iff_of_true (hleft.eq_nil hreply) ?_
    rintro ⟨m, traces, hgivesUp, -⟩
    exact hreply ⟨m, (hgivenUp m).2 ⟨traces, hgivesUp⟩⟩

end Built

-- ============================================================================
-- Sessions
-- ============================================================================

namespace Session

variable {s s' : Session} {limits : Limits}

/-- The step is a run that is given up while a trace is being collected. -/
def GivesUpTracing (s : Session) (limits : Limits) (step : Step) : Prop :=
  ∃ mode recipe inp b store, step = .run mode recipe inp ∧ s.build recipe = .ok (b, store) ∧
    b.GivesUpTracing limits store mode s.scopes inp

theorem step_scopes_eq_nil_iff {step : Step} {answer : Answer} (hs : s.scopes = [])
    (h : s.step limits step = some (answer, s')) :
    s'.scopes = [] ↔ ¬ s.GivesUpTracing limits step := by
  by_cases hrun : ∃ mode recipe inp b store, step = .run mode recipe inp ∧
      s.build recipe = .ok (b, store)
  · obtain ⟨mode, recipe, inp, b, store, rfl, hbuild⟩ := hrun
    rcases run_cases h with
      ⟨m, herror, -⟩ | ⟨b', store', report, scopes, hbuild', hstart, -, rfl⟩
    · exact nomatch hbuild.symm.trans herror
    · cases hbuild.symm.trans hbuild'
      rw [hs] at hstart
      refine (Built.start_scopes_eq_nil_iff hstart).trans (not_congr ⟨fun hgivesUp => ?_, ?_⟩)
      · rw [← hs] at hgivesUp
        exact ⟨mode, recipe, inp, b, store, rfl, hbuild, hgivesUp⟩
      · rintro ⟨_, _, _, b', store', hstep, hbuild', hgivesUp⟩
        cases hstep
        cases hbuild.symm.trans hbuild'
        rw [hs] at hgivesUp
        exact hgivesUp
  · have hscopes : s'.scopes = s.scopes := by
      rcases step_cases h with ⟨-, mid, hchange, rfl⟩ | ⟨m, -, rfl⟩ |
        ⟨mode, recipe, inp, b, store, -, -, hstep, hbuild, -⟩
      · exact hchange.scopes_eq
      · rfl
      · exact absurd ⟨mode, recipe, inp, b, store, hstep, hbuild⟩ hrun
    refine iff_of_true (hscopes.trans hs) ?_
    rintro ⟨mode, recipe, inp, b, store, hstep, hbuild, -⟩
    exact hrun ⟨mode, recipe, inp, b, store, hstep, hbuild⟩

/-- No scope is open after some steps exactly if none of them was given up while a trace was being
    collected. -/
theorem after_scopes_eq_nil_iff {steps : List Step} (hs : s.scopes = [])
    (h : s.after limits steps = some s') :
    s'.scopes = [] ↔ ∀ before step later mid, steps = before ++ step :: later →
      s.after limits before = some mid → ¬ mid.GivesUpTracing limits step := by
  induction steps generalizing s with
  | nil =>
    obtain rfl := Option.some.inj h
    refine iff_of_true hs fun before step later mid hsteps => ?_
    exact absurd hsteps.symm (List.append_ne_nil_of_right_ne_nil _ (List.cons_ne_nil _ _))
  | cons first steps ih =>
    rw [Session.after] at h
    split at h
    · cases h
    · next answer mid hstep =>
      by_cases hmid : mid.scopes = []
      · have hfirst := (step_scopes_eq_nil_iff hs hstep).1 hmid
        rw [ih hmid h]
        constructor
        · intro hlater before step later mid' hsteps hbefore
          cases before with
          | nil =>
            cases hsteps
            obtain rfl := Option.some.inj hbefore
            exact hfirst
          | cons _ before =>
            cases hsteps
            rw [Session.after, hstep] at hbefore
            exact hlater before step later mid' rfl hbefore
        · intro hall before step later mid' hsteps hbefore
          refine hall (first :: before) step later mid' (by rw [hsteps]; rfl) ?_
          rw [Session.after, hstep]
          exact hbefore
      · have hheight := (Becomes.of_after h).length_scopes_le
        refine iff_of_false (fun hs' => hmid ?_) fun hall => ?_
        · rw [hs'] at hheight
          exact List.length_eq_zero_iff.1 (Nat.le_zero.1 hheight)
        · exact hmid ((step_scopes_eq_nil_iff hs hstep).2 (hall [] first steps s rfl rfl))

end Session

/-- The stack of open scopes is empty after any steps exactly if none of them was a run that was
    given up while a trace was being collected, by the run as a whole or by a part of it.  Whatever
    scopes are open, a run that collects no trace reports all its events to the innermost one when
    it comes out; so the marks that it meets are recorded unless the stack is empty. -/
theorem closed_unless_given_up_tracing (limits : Limits) (steps : List Step) (s : Session)
    (h : Session.empty.after limits steps = some s) :
    (s.scopes = [] ↔ ∀ before step later mid, steps = before ++ step :: later →
      Session.empty.after limits before = some mid → ¬ mid.GivesUpTracing limits step) ∧
    ∀ (mode : Mode) (recipe : Recipe) (inp : Input) (report : Report Value) (s' : Session),
      ¬ mode.Opens → s.step limits (.run mode recipe inp) = some (.ran report, s') →
      ∃ b store reply w, s.build recipe = .ok (b, store) ∧
        b.recorder [] limits store s.scopes.listens inp = some (reply, w) ∧
        s'.scopes = s.scopes.reportAll w := by
  refine ⟨Session.after_scopes_eq_nil_iff rfl h, ?_⟩
  intro mode recipe inp report s' hmode hstep
  rcases Session.run_cases hstep with
    ⟨m, -, hanswer, -⟩ | ⟨b, store, report', scopes, hbuild, hstart, hanswer, rfl⟩
  · exact nomatch hanswer
  · obtain ⟨reply, hrun, hsame⟩ := Parser.start_inv hmode hstart
    have hcame (m : Misuse) : reply ≠ .aborted m := by
      intro hm
      have hmisused := Answer.ofReport_eq_misused_iff.2 ((hsame m).2 hm)
      exact nomatch hanswer.trans hmisused
    obtain ⟨w, hw, hscopes⟩ := (b.parser_records [] limits store).reported hrun hcame
    exact ⟨b, store, reply, w, hbuild, hw, hscopes⟩

/-- A cell without definition, used below a mark. -/
def misusedMark : Recipe := .modified (.marked "m") (.named "x")

/-- A mark that comes out. -/
def anyMark : Recipe := .modified (.marked "j") (.piece .any)

/-- In a run that is not traced the misuse leaves the stack empty, and the mark of a later run is
    not recorded. -/
theorem closed_after_untraced_misuse :
    ∃ mid s s' report, Session.empty.after ⟨9, 9⟩ [.declare "x"] = some mid ∧
      Session.empty.after ⟨9, 9⟩ [.declare "x", .run .parse misusedMark (.ofString "a")] = some s ∧
      s.scopes = [] ∧ ¬ mid.GivesUpTracing ⟨9, 9⟩ (.run .parse misusedMark (.ofString "a")) ∧
      s.step ⟨9, 9⟩ (.run .parse anyMark (.ofString "a")) = some (.ran report, s') ∧
      s'.scopes = [] := by
  obtain ⟨mid, s, s', report, hmid, hs, hscopes, hrun⟩ : ∃ mid s s' report,
      Session.empty.after ⟨9, 9⟩ [.declare "x"] = some mid ∧
      Session.empty.after ⟨9, 9⟩ [.declare "x", .run .parse misusedMark (.ofString "a")] = some s ∧
      s.scopes = [] ∧
      s.step ⟨9, 9⟩ (.run .parse anyMark (.ofString "a")) = some (.ran report, s') :=
    ⟨_, _, _, _, rfl, rfl, rfl, rfl⟩
  obtain ⟨hclosed, hheard⟩ := closed_unless_given_up_tracing ⟨9, 9⟩ _ s hs
  obtain ⟨b, store, reply, w, -, -, hs'⟩ := hheard .parse _ _ report s' nofun hrun
  refine ⟨mid, s, s', report, hmid, hs, hscopes, ?_, hrun, ?_⟩
  · exact hclosed.1 hscopes [.declare "x"] _ [] mid rfl hmid
  · rw [hs', hscopes]
    rfl

/-- In a traced run it leaves the scopes of the trace and of the mark, and the mark of a later run
    that is not traced is recorded in the latter. -/
theorem mark_recorded_untraced :
    ∃ mid s s' report, Session.empty.after ⟨9, 9⟩ [.declare "x"] = some mid ∧ mid.scopes = [] ∧
      mid.step ⟨9, 9⟩ (.run .traced misusedMark (.ofString "a")) =
        some (.misused .undefined, s) ∧ s.scopes = [[], []] ∧
      s.step ⟨9, 9⟩ (.run .parse anyMark (.ofString "a")) = some (.ran report, s') ∧
      s'.scopes = [[⟨"j", .matched 1, []⟩], []] :=
  ⟨_, _, _, _, rfl, rfl, rfl, rfl, rfl, rfl⟩

end Descent
