/-
  Descent.Proofs.Steps

  What a step of a session can do, said once.  A step that comes out changes names and cells in one
  of six ways, and then the cells die that have lost their last owner.  A step that turns out to be
  a misuse leaves the session as it is, and a run changes nothing but the open scopes.

  A session becomes another one by steps taken one after the other, each within limits of its own.
  What each change and each death of cells keeps, and what does not depend on the open scopes, holds
  along all of them.
-/
import Descent.Session
import Descent.Proofs.Building

namespace Descent

/-- The answer to a start that gave this report: a run that is given up is a misuse. -/
def Answer.ofReport : Report Value → Answer
  | ⟨.aborted m, _, _⟩ => .misused m
  | report => .ran report

theorem Answer.ofReport_eq_misused_iff {report : Report Value} {m : Misuse} :
    Answer.ofReport report = .misused m ↔ report.reply = .aborted m := by
  obtain ⟨reply, trace, printed⟩ := report
  cases reply with
  | matched rest value | failed e => exact iff_of_false nofun nofun
  | aborted m' => exact ⟨fun h => congrArg Reply.aborted (Answer.misused.inj h), fun h =>
      congrArg Answer.misused (Reply.aborted.inj h)⟩

theorem Answer.eq_of_ran {report report' : Report Value}
    (h : .ran report = Answer.ofReport report') : report = report' := by
  obtain ⟨reply, trace, printed⟩ := report'
  cases reply with
  | matched rest value | failed e => exact Answer.ran.inj h
  | aborted m => exact nomatch h

namespace Session

variable {s s' mid last : Session}

/-- A cell has been declared, and a name bound to a handle to it. -/
def opened (handle : String) (s : Session) : Session :=
  Session.bind handle (.cell (.handle s.store.next)) { s with store := s.store.declare }

/-- What a step that comes out makes of a session, before cells are let go of. -/
inductive Changes (s : Session) : Step → Session → Prop
  | declare (x : String) :
      Changes s (.declare x)
        (Session.bind x (.cell (.owner s.store.next)) { s with store := s.store.declare })
  | define {x : String} {recipe : Recipe} {b : Built} {store : Store} {r : Reference}
      (hbuild : s.build recipe = .ok (b, store)) (hx : s.lookup x = .ok (.cell r))
      (hreaches : store.reaches r = true) (hundefined : store.definition? r.cell = none) :
      Changes s (.define x recipe) { s with store := store.write r.cell b }
  | bind {x : String} {recipe : Recipe} {b : Built} {store : Store}
      (hbuild : s.build recipe = .ok (b, store)) :
      Changes s (.bind x recipe) (Session.bind x (.grammar b) { s with store := store })
  | recursive {x handle : String} {recipe : Recipe} {b : Built} {store : Store}
      (hbuild : (s.opened handle).build recipe = .ok (b, store)) :
      Changes s (.recursive x handle recipe)
        (Session.bind x (.cell (.owner s.store.next))
          { s.opened handle with store := store.write s.store.next b })
  | copy {y x : String} {b : Binding} (hx : s.lookup x = .ok b) :
      Changes s (.copy y x) (Session.bind y b s)
  | drop {x : String} {b : Binding} (hx : s.lookup x = .ok b) : Changes s (.drop x) (s.unbind x)

-- ============================================================================
-- Single steps
-- ============================================================================

theorem mem_names_of_lookup {x : String} {b : Binding} (h : s.lookup x = .ok b) :
    (x, b) ∈ s.names := by
  rw [Session.lookup] at h
  split at h
  · next hlookup =>
    cases h
    exact mem_of_lookup_eq_some hlookup
  · exact nomatch h

theorem lookup_of_lookupCell {x : String} {r : Reference} (h : s.lookupCell x = .ok r) :
    s.lookup x = .ok (.cell r) := by
  rw [lookupCell] at h
  split at h
  · next hlookup =>
    cases h
    exact hlookup
  · exact nomatch h
  · exact nomatch h

theorem define_changes {x : String} {recipe : Recipe} (h : s.define x recipe = .ok s') :
    ∃ mid, s.Changes (.define x recipe) mid ∧ s' = mid.release := by
  rw [define] at h
  split at h
  · cases h
  · next b store hbuild =>
    split at h
    · cases h
    · next r hx =>
      rw [Store.define] at h
      split at h
      · cases h
      · next store' hdefine =>
        split at hdefine
        · next hreaches =>
          split at hdefine
          · cases hdefine
          · next hundefined =>
            cases hdefine
            cases h
            exact ⟨_, .define hbuild (lookup_of_lookupCell hx) hreaches hundefined, rfl⟩
        · cases hdefine

theorem bindRecipe_changes {x : String} {recipe : Recipe} (h : s.bindRecipe x recipe = .ok s') :
    ∃ mid, s.Changes (.bind x recipe) mid ∧ s' = mid.release := by
  rw [bindRecipe] at h
  split at h
  · exact nomatch h
  · next b store hbuild =>
    cases h
    exact ⟨_, .bind hbuild, rfl⟩

theorem recursive_changes {x handle : String} {recipe : Recipe}
    (h : s.recursive x handle recipe = .ok s') :
    ∃ mid, s.Changes (.recursive x handle recipe) mid ∧ s' = mid.release := by
  rw [recursive] at h
  split at h
  · exact nomatch h
  · next b store hbuild =>
    cases h
    exact ⟨_, .recursive hbuild, rfl⟩

theorem copy_changes {y x : String} (h : s.copy y x = .ok s') :
    ∃ mid, s.Changes (.copy y x) mid ∧ s' = mid.release := by
  rw [copy] at h
  split at h
  · exact nomatch h
  · next b hx =>
    cases h
    exact ⟨_, .copy hx, rfl⟩

theorem drop_changes {x : String} (h : s.drop x = .ok s') :
    ∃ mid, s.Changes (.drop x) mid ∧ s' = mid.release := by
  rw [drop] at h
  split at h
  · exact nomatch h
  · next b hx =>
    cases h
    exact ⟨_, .drop hx, rfl⟩

theorem build_named {x : String} {b : Built} (h : s.builtNames.lookup x = some b) :
    s.build (.named x) = .ok (b, s.store) := by
  simp only [Session.build, Recipe.build, h]

/-- A recipe that cannot be built is a misuse.  Otherwise what was built is started, and nothing
    changes but the open scopes. -/
theorem run_cases {limits : Limits} {mode : Mode} {recipe : Recipe} {inp : Input} {answer : Answer}
    (h : s.run limits mode recipe inp = some (answer, s')) :
    (∃ m, s.build recipe = .error m ∧ answer = .misused m ∧ s' = s) ∨
    ∃ b store report scopes, s.build recipe = .ok (b, store) ∧
      (b.parser [] limits store).start mode inp s.scopes = some (report, scopes) ∧
      answer = .ofReport report ∧ s' = { s with scopes := scopes } := by
  rw [run] at h
  split at h
  · next m hbuild =>
    obtain ⟨rfl, rfl⟩ := Prod.mk.inj (Option.some.inj h)
    exact .inl ⟨m, hbuild, rfl, rfl⟩
  · next b store hbuild =>
    split at h
    · exact nomatch h
    · next m trace printed scopes hstart =>
      obtain ⟨rfl, rfl⟩ := Prod.mk.inj (Option.some.inj h)
      exact .inr ⟨b, store, _, scopes, hbuild, hstart, rfl, rfl⟩
    · next report scopes hreport hstart =>
      obtain ⟨rfl, rfl⟩ := Prod.mk.inj (Option.some.inj h)
      refine .inr ⟨b, store, report, scopes, hbuild, hstart, ?_, rfl⟩
      obtain ⟨reply, trace, printed⟩ := report
      cases reply with
      | matched rest value | failed e => rfl
      | aborted m => exact absurd rfl (hreport m trace printed)

/-- A step changes names and cells and is answered as done, or it is a misuse that changes nothing,
    or it is a run. -/
theorem step_cases {limits : Limits} {step : Step} {answer : Answer}
    (h : s.step limits step = some (answer, s')) :
    (answer = .done ∧ ∃ mid, s.Changes step mid ∧ s' = mid.release) ∨
    (∃ m, answer = .misused m ∧ s' = s) ∨
    ∃ mode recipe inp b store report scopes, step = .run mode recipe inp ∧
      s.build recipe = .ok (b, store) ∧
      (b.parser [] limits store).start mode inp s.scopes = some (report, scopes) ∧
      answer = .ofReport report ∧ s' = { s with scopes := scopes } := by
  have settled {result : Except Misuse Session} (hstep : some (s.settle result) = some (answer, s'))
      (hchanges : ∀ last, result = .ok last →
        ∃ mid, s.Changes step mid ∧ last = mid.release) :
      (answer = .done ∧ ∃ mid, s.Changes step mid ∧ s' = mid.release) ∨
        ∃ m, answer = .misused m ∧ s' = s := by
    cases result with
    | ok last =>
      obtain ⟨rfl, rfl⟩ := Prod.mk.inj (Option.some.inj hstep)
      exact .inl ⟨rfl, hchanges _ rfl⟩
    | error m =>
      obtain ⟨rfl, rfl⟩ := Prod.mk.inj (Option.some.inj hstep)
      exact .inr ⟨m, rfl, rfl⟩
  cases step with
  | declare x =>
    obtain ⟨rfl, rfl⟩ := Prod.mk.inj (Option.some.inj h)
    exact .inl ⟨rfl, _, .declare x, rfl⟩
  | define x recipe => exact (settled h fun _ => define_changes).imp_right .inl
  | bind x recipe => exact (settled h fun _ => bindRecipe_changes).imp_right .inl
  | recursive x handle recipe => exact (settled h fun _ => recursive_changes).imp_right .inl
  | copy y x => exact (settled h fun _ => copy_changes).imp_right .inl
  | drop x => exact (settled h fun _ => drop_changes).imp_right .inl
  | run mode recipe inp =>
    rcases run_cases h with ⟨m, -, rfl, rfl⟩ | ⟨b, store, report, scopes, hbuild, hstart, hs⟩
    · exact .inr (.inl ⟨m, rfl, rfl⟩)
    · exact .inr (.inr ⟨mode, recipe, inp, b, store, report, scopes, rfl, hbuild, hstart, hs⟩)

-- ============================================================================
-- Many steps
-- ============================================================================

/-- Steps taken one after the other, each within some limits, lead from the first session to the
    second. -/
inductive Becomes (s : Session) : Session → Prop
  | refl : Becomes s s
  | step {mid last : Session} {limits : Limits} {step : Step} {answer : Answer}
      (h : Becomes s mid) (hstep : mid.step limits step = some (answer, last)) : Becomes s last

theorem Becomes.trans (h : s.Becomes mid) (h' : mid.Becomes last) : s.Becomes last := by
  induction h' with
  | refl => exact h
  | step _ hstep ih => exact .step ih hstep

/-- The session after steps taken one after the other, all within the same limits. -/
def after (limits : Limits) (s : Session) : List Step → Option Session
  | [] => some s
  | step :: steps =>
    match s.step limits step with
    | none => none
    | some (_, s) => after limits s steps

theorem Becomes.of_after {limits : Limits} {steps : List Step}
    (h : s.after limits steps = some s') : s.Becomes s' := by
  induction steps generalizing s with
  | nil =>
    obtain rfl := Option.some.inj h
    exact .refl
  | cons step steps ih =>
    rw [Session.after] at h
    split at h
    · exact nomatch h
    · next answer mid hstep => exact Becomes.trans (.step .refl hstep) (ih h)

/-- What a step keeps if it changes names and cells, and what the open scopes do not matter to, is
    kept by the step. -/
theorem step_invariant {I : Session → Prop} {limits : Limits} {step : Step} {answer : Answer}
    (h : s.step limits step = some (answer, s')) (hs : I s)
    (hchange : ∀ {mid}, s.Changes step mid → I mid.release)
    (hscopes : ∀ scopes, I { s with scopes := scopes }) : I s' := by
  rcases step_cases h with
    ⟨-, mid, hmid, rfl⟩ | ⟨m, -, rfl⟩ | ⟨-, -, -, -, -, -, scopes, -, -, -, -, rfl⟩
  · exact hchange hmid
  · exact hs
  · exact hscopes scopes

theorem Becomes.invariant {I : Session → Prop} (h : s.Becomes s') (hs : I s)
    (hchange : ∀ {s step mid}, I s → s.Changes step mid → I mid.release)
    (hscopes : ∀ {s : Session} scopes, I s → I { s with scopes := scopes }) : I s' := by
  induction h with
  | refl => exact hs
  | step _ hstep ih =>
    exact step_invariant hstep ih (fun hmid => hchange ih hmid) fun scopes => hscopes scopes ih

/-- The session has come about by steps that declare no cells and define none, so that all cells are
    those of recursive parsers. -/
inductive Knotted : Session → Prop
  | empty : Knotted .empty
  | step {s s' : Session} {limits : Limits} {step : Step} {answer : Answer} (h : Knotted s)
      (hdeclare : ∀ x, step ≠ .declare x) (hdefine : ∀ x recipe, step ≠ .define x recipe)
      (hstep : s.step limits step = some (answer, s')) : Knotted s'

theorem Knotted.becomes (h : s.Knotted) : Session.empty.Becomes s := by
  induction h with
  | empty => exact .refl
  | step _ _ _ hstep ih => exact .step ih hstep

theorem Knotted.after {limits : Limits} {steps : List Step} (h : s.Knotted)
    (hsteps : ∀ step ∈ steps, (∀ x, step ≠ .declare x) ∧ ∀ x recipe, step ≠ .define x recipe)
    (hs' : s.after limits steps = some s') : s'.Knotted := by
  induction steps generalizing s with
  | nil =>
    obtain rfl := Option.some.inj hs'
    exact h
  | cons step steps ih =>
    obtain ⟨⟨hdeclare, hdefine⟩, hsteps⟩ := List.forall_mem_cons.1 hsteps
    rw [Session.after] at hs'
    split at hs'
    · exact nomatch hs'
    · next answer mid hstep => exact ih (.step h hdeclare hdefine hstep) hsteps hs'

end Session

end Descent
