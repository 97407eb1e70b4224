/-
  Descent.Proofs.Answers

  What an answer does not depend on.  A start gives the report that its mode makes of what is
  recorded, and of the scopes that were left open before only this matters: whether there are any,
  and the run is heard.  Limits only decide whether there is an answer at all: with more attempts
  and deeper nesting a recorder gives every answer that it gave before, and so no two limits lead to
  different ones.

  There is one lemma for each combinator.  A repetition is the one that spends attempts, and looking
  up a symbol is what spends nesting.
-/
import Descent.Proofs.Recorded
import Descent.Proofs.Steps

namespace Descent

variable {α β : Type}

-- ============================================================================
-- More attempts and deeper nesting
-- ============================================================================

namespace Recorder

variable {r r' s s' : Recorder α}

/-- Whatever the first recorder answers, the second one answers too. -/
def Below (r r' : Recorder α) : Prop := ∀ inp record, r inp = some record → r' inp = some record

theorem Below.refl (r : Recorder α) : r.Below r := fun _ _ h => h

theorem map_below (f : α → β) (h : r.Below r') : (map f r).Below (map f r') := by
  intro inp record hr
  rw [map] at hr ⊢
  cases hrun : r inp with
  | none =>
    rw [hrun] at hr
    cases hr
  | some first =>
    rw [hrun] at hr
    rw [h inp first hrun]
    exact hr

theorem filter_below (keep : α → Bool) (h : r.Below r') :
    (filter keep r).Below (filter keep r') := by
  intro inp record hr
  rw [filter] at hr ⊢
  cases hrun : r inp with
  | none =>
    rw [hrun] at hr
    cases hr
  | some first =>
    rw [hrun] at hr
    rw [h inp first hrun]
    exact hr

theorem andThen_below {next next' : α → Recorder β} (h : r.Below r')
    (hnext : ∀ value, (next value).Below (next' value)) :
    (andThen r next).Below (andThen r' next') := by
  intro inp record hr
  rw [andThen] at hr ⊢
  cases hrun : r inp with
  | none =>
    rw [hrun] at hr
    cases hr
  | some first =>
    rw [hrun] at hr
    rw [h inp first hrun]
    obtain ⟨reply, w⟩ := first
    cases reply with
    | matched rest value =>
      obtain ⟨second, hsecond, rfl⟩ := Option.map_eq_some_iff.1 hr
      exact Option.map_eq_some_iff.2 ⟨second, hnext value rest second hsecond, rfl⟩
    | failed e | aborted m => exact hr

theorem or_below (h : r.Below r') (hs : s.Below s') : (or r s).Below (or r' s') := by
  intro inp record hr
  rw [or] at hr ⊢
  cases hrun : r inp with
  | none =>
    rw [hrun] at hr
    cases hr
  | some first =>
    rw [hrun] at hr
    rw [h inp first hrun]
    obtain ⟨reply, w⟩ := first
    cases reply with
    | failed e =>
      obtain ⟨second, hsecond, rfl⟩ := Option.map_eq_some_iff.1 hr
      exact Option.map_eq_some_iff.2 ⟨second, hs inp second hsecond, rfl⟩
    | matched rest value | aborted m => exact hr

/-- A repetition that has stopped stops in the same way when it may go on for longer. -/
theorem gather_below (h : r.Below r') (b : Bounds) {limit limit' : Nat} (hlimit : limit ≤ limit')
    (count : Nat) (rest : Input) {record : Except Misuse (Haul α) × Trace}
    (hr : gather b r limit count rest = some record) :
    gather b r' limit' count rest = some record := by
  induction limit generalizing limit' count rest record with
  | zero => cases hr
  | succ limit ih =>
    obtain ⟨limit', rfl⟩ : ∃ n, limit' = n + 1 := Nat.exists_eq_succ_of_ne_zero (by omega)
    rw [gather] at hr ⊢
    split at hr
    · next hfull =>
      rw [if_pos hfull]
      exact hr
    · next hfull =>
      rw [if_neg hfull]
      cases hrun : r rest with
      | none =>
        rw [hrun] at hr
        cases hr
      | some attempt =>
        rw [hrun] at hr
        rw [h rest attempt hrun]
        obtain ⟨reply, w⟩ := attempt
        cases reply with
        | failed e | aborted m => exact hr
        | matched after value =>
          dsimp only at hr ⊢
          split at hr
          · next hidle =>
            rw [if_pos hidle]
            exact hr
          · next hidle =>
            rw [if_neg hidle]
            obtain ⟨later, hlater, rfl⟩ := Option.map_eq_some_iff.1 hr
            exact Option.map_eq_some_iff.2
              ⟨later, ih (Nat.le_of_succ_le_succ hlimit) _ _ hlater, rfl⟩

theorem repeated_below {limit limit' : Nat} (hlimit : limit ≤ limit') (b : Bounds)
    (h : r.Below r') : (repeated limit b r).Below (repeated limit' b r') := by
  intro inp record hr
  rw [repeated] at hr ⊢
  cases hrun : gather b r limit 0 inp with
  | none =>
    rw [hrun] at hr
    cases hr
  | some hauled =>
    rw [hrun] at hr
    rw [gather_below h b hlimit 0 inp hrun]
    exact hr

theorem marked_below (label : String) (h : r.Below r') :
    (marked label r).Below (marked label r') := by
  intro inp record hr
  rw [marked] at hr ⊢
  cases hrun : r inp with
  | none =>
    rw [hrun] at hr
    cases hr
  | some first =>
    rw [hrun] at hr
    rw [h inp first hrun]
    exact hr

theorem traced_below (h : r.Below r') : (traced r).Below (traced r') := by
  intro inp record hr
  rw [traced] at hr ⊢
  cases hrun : r inp with
  | none =>
    rw [hrun] at hr
    cases hr
  | some first =>
    rw [hrun] at hr
    rw [h inp first hrun]
    exact hr

end Recorder

section Grammars

variable {N : Type → Type} {σ : Type 1}

theorem Grammar.record_below {attempts attempts' : Nat} (hattempts : attempts ≤ attempts')
    {call call' : {α : Type} → N α → Bool → Recorder α}
    (hcall : ∀ {α : Type} (n : N α) (heard : Bool), Recorder.Below (call n heard) (call' n heard))
    (g : Grammar N α) (heard : Bool) :
    (g.record attempts call heard).Below (g.record attempts' call' heard) := by
  induction g generalizing heard with
  | leaf step => exact .refl _
  | map f g ih => exact Recorder.map_below f (ih heard)
  | filter keep g ih => exact Recorder.filter_below keep (ih heard)
  | andThen g next ihg ihnext =>
    exact Recorder.andThen_below (ihg heard) fun value => ihnext value heard
  | or g h ihg ihh => exact Recorder.or_below (ihg heard) (ihh heard)
  | repeated b g ih => exact Recorder.repeated_below hattempts b (ih heard)
  | marked label g ih =>
    cases heard with
    | true => exact Recorder.marked_below label (ih true)
    | false => exact ih false
  | wrapped w g ih => exact ih heard
  | traced g ih => exact Recorder.traced_below (ih true)
  | symbol n => exact hcall n heard

namespace Rulebook

theorem recordCall_below (book : Rulebook N σ) {attempts attempts' nesting nesting' : Nat}
    (hattempts : attempts ≤ attempts') (hnesting : nesting ≤ nesting') (state : σ) (n : N α)
    (heard : Bool) :
    Recorder.Below (book.recordCall attempts nesting state n heard)
      (book.recordCall attempts' nesting' state n heard) := by
  intro inp record hr
  induction nesting generalizing nesting' state α heard inp with
  | zero => exact nomatch hr
  | succ nesting ih =>
    obtain ⟨nesting', rfl⟩ : ∃ k, nesting' = k + 1 := Nat.exists_eq_succ_of_ne_zero (by omega)
    have hdeeper {α : Type} (state : σ) (n : N α) (heard : Bool) :
        Recorder.Below (book.recordCall attempts nesting state n heard)
          (book.recordCall attempts' nesting' state n heard) :=
      fun inp record => ih (Nat.le_of_succ_le_succ hnesting) state n heard inp record
    rw [recordCall] at hr ⊢
    cases hresolve : book.resolve state n with
    | error m =>
      rw [hresolve] at hr
      exact hr
    | ok found =>
      rw [hresolve] at hr
      exact Grammar.record_below hattempts (fun n => hdeeper found.2 n) found.1 heard inp record hr

theorem recorder_below (book : Rulebook N σ) {limits limits' : Limits}
    (hattempts : limits.attempts ≤ limits'.attempts) (hnesting : limits.nesting ≤ limits'.nesting)
    (state : σ) (g : Grammar N α) (heard : Bool) :
    (book.recorder limits state g heard).Below (book.recorder limits' state g heard) :=
  Grammar.record_below hattempts
    (fun n => book.recordCall_below hattempts hnesting state n) g heard

end Rulebook

end Grammars

-- ============================================================================
-- Answers
-- ============================================================================

/-- The answer to a start in this mode. -/
def Mode.answer (mode : Mode) (record : Reply Value × Trace) : Answer :=
  .ofReport (mode.report record)

/-- A start is answered as a misuse exactly if its run is given up. -/
theorem Mode.answer_eq_misused_iff {mode : Mode} {record : Reply Value × Trace} {m : Misuse} :
    mode.answer record = .misused m ↔ record.1 = .aborted m := by
  rw [Mode.answer, Answer.ofReport_eq_misused_iff]
  cases mode with
  | complete => exact Reply.complete_eq_aborted_iff
  | parse | run | traced | verbose => exact Iff.rfl

/-- The answer to a start that collects no trace shows no events. -/
theorem Mode.answer_eq_of_reply {mode : Mode} (hmode : ¬ mode.Opens)
    {record record' : Option (Reply Value × Trace)}
    (h : record.map Prod.fst = record'.map Prod.fst) :
    record.map mode.answer = record'.map mode.answer := by
  have shows : ∃ f : Reply Value → Answer, mode.answer = f ∘ Prod.fst := by
    cases mode with
    | parse | run => exact ⟨fun reply => .ofReport ⟨reply, none, ""⟩, rfl⟩
    | complete => exact ⟨fun reply => .ofReport ⟨reply.complete, none, ""⟩, rfl⟩
    | traced | verbose => exact absurd trivial hmode
  obtain ⟨f, hf⟩ := shows
  rw [hf, ← Option.map_map, h, Option.map_map]

/-- Where the record is followed, its events included unless the run is given up, the answer is that
    of the record. -/
theorem Follows.answer_eq_of_report {τ : Type} {after : Trace → τ}
    {answer : Option (Reply Value × τ)} {record : Option (Reply Value × Trace)}
    (h : Follows after answer record) (events : τ → Trace)
    (hevents : ∀ w, events (after w) = w) (mode : Mode) :
    (answer.map fun a => mode.answer (a.1, events a.2)) = record.map mode.answer := by
  cases h with
  | unanswered ha hr => rw [ha, hr]; rfl
  | matched ha hr | failed ha hr =>
    rw [ha, hr, Option.map_some, Option.map_some, hevents]
  | @aborted m t w ha hr =>
    -- What was reported before a run was given up is not shown.
    rw [ha, hr]
    cases mode <;> rfl

namespace Parser

variable {p : Parser Value} {r : Bool → Recorder Value}

/-- The answer to a start is decided by what is recorded, for a run that is heard or for one that is
    not. -/
theorem Records.start_answer (h : p.Records r) (mode : Mode) (inp : Input) (scopes : Scopes) :
    ((p.start mode inp scopes).map fun started => Answer.ofReport started.1) =
      (r (mode.listens scopes) inp).map mode.answer := by
  have hreply (make : Reply Value → Answer) : ((p inp scopes).map fun answer => make answer.1) =
      (r scopes.listens inp).map fun record => make record.1 := by
    have h := congrArg (Option.map make) (h inp scopes).reply_eq
    rw [Option.map_map, Option.map_map] at h
    exact h
  have hcollect := (collect_records h inp scopes).answer_eq_of_report Prod.fst fun _ => rfl
  cases mode with
  | parse | run =>
    rw [start, Option.map_map]
    exact hreply fun reply => .ofReport ⟨reply, none, ""⟩
  | complete =>
    rw [start, Option.map_map]
    exact hreply fun reply => .ofReport ⟨reply.complete, none, ""⟩
  | traced =>
    rw [start, Option.map_map]
    exact hcollect .traced
  | verbose =>
    rw [start, Option.map_map]
    exact hcollect .verbose

end Parser

/-- The recorder of what was built. -/
def Built.recorder (b : Built) (rules : Rules) (limits : Limits) (store : Store) :
    Bool → Recorder Value :=
  rules.rulebook.recorder limits store b.grammar

theorem Built.parser_records (b : Built) (rules : Rules) (limits : Limits) (store : Store) :
    (b.parser rules limits store).Records (b.recorder rules limits store) :=
  rules.rulebook.parser_records limits store b.grammar

/-- Within larger limits what was built is answered the same. -/
theorem Built.recorder_answer_mono {b : Built} {rules : Rules} {limits limits' : Limits}
    (hattempts : limits.attempts ≤ limits'.attempts) (hnesting : limits.nesting ≤ limits'.nesting)
    {store : Store} {heard : Bool} {inp : Input} {mode : Mode} {answer : Answer}
    (h : (b.recorder rules limits store heard inp).map mode.answer = some answer) :
    (b.recorder rules limits' store heard inp).map mode.answer = some answer := by
  obtain ⟨record, hrecord, rfl⟩ := Option.map_eq_some_iff.1 h
  have hlarger : b.recorder rules limits' store heard inp = some record :=
    rules.rulebook.recorder_below hattempts hnesting store b.grammar heard inp record hrecord
  rw [hlarger]
  rfl

namespace Session

variable {s : Session}

/-- The answer to a run is that of the record.  Of the scopes that earlier runs have left open it
    only matters whether there are any. -/
theorem run_answer {limits : Limits} {mode : Mode} {recipe : Recipe} {inp : Input} {b : Built}
    {store : Store} (hbuild : s.build recipe = .ok (b, store)) {r : Bool → Recorder Value}
    (hr : (b.parser [] limits store).Records r) :
    (s.run limits mode recipe inp).map Prod.fst =
      (r (mode.listens s.scopes) inp).map mode.answer := by
  rw [← hr.start_answer mode inp s.scopes, run, hbuild]
  dsimp only
  cases (b.parser [] limits store).start mode inp s.scopes with
  | none => rfl
  | some started =>
    obtain ⟨⟨reply, trace, printed⟩, scopes⟩ := started
    cases reply <;> rfl

end Session

end Descent
