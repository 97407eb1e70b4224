/-
  Descent.Proofs.Recorded

  The stack of open scopes does nothing but write down a trace.  A recorder answers an input with a
  reply and the events that were made for it, and knows of no scopes: stages that follow each other
  put their events one behind the other, a choice adds those of its second branch where it gets
  there, a repetition keeps those of all attempts, a mark wraps what it has into one event, and a
  trace that is collected inside shows nothing outside.

  A grammar describes two recorders, as it describes a parser: that of the runs that are heard, and
  that of those that are not, where a mark makes no event.  The parser follows the one or the other
  from whatever scopes it is started in: it answers the same and reports exactly those events to the
  innermost scope.  There is one lemma for each combinator; the grammar is done by induction on its
  structure and symbols by induction on how deep they are nested.  A run that is given up leaves
  scopes open, so nothing is said of the scopes behind it.
-/
import Descent.Markup.Language
import Descent.Parser.Mode

namespace Descent

/-- From an input to a reply and the events made for it, in the order in which they were entered. -/
abbrev Recorder (α : Type) : Type := Input → Option (Reply α × Trace)

variable {α β : Type}

-- ============================================================================
-- Recorders
-- ============================================================================

namespace Recorder

/-- A single step makes no event. -/
def read (step : Input → Except Failure (Input × α)) : Recorder α := fun inp =>
  match step inp with
  | .ok (rest, value) => some (.matched rest value, [])
  | .error e => some (.failed e, [])

def map (f : α → β) (r : Recorder α) : Recorder β := fun inp =>
  match r inp with
  | none => none
  | some (.matched rest value, w) => some (.matched rest (f value), w)
  | some (.failed e, w) => some (.failed e, w)
  | some (.aborted m, _) => some (.aborted m, [])

/-- What made a value that is refused has been made all the same. -/
def filter (keep : α → Bool) (r : Recorder α) : Recorder α := fun inp =>
  match r inp with
  | none => none
  | some (.matched rest value, w) =>
    if keep value then some (.matched rest value, w) else some (.failed ⟨inp⟩, w)
  | some (.failed e, w) => some (.failed e, w)
  | some (.aborted m, _) => some (.aborted m, [])

/-- The events of the stages that are run, one behind the other. -/
def andThen (r : Recorder α) (next : α → Recorder β) : Recorder β := fun inp =>
  match r inp with
  | none => none
  | some (.matched rest value, w) =>
    (next value rest).map fun (reply, w') => (reply, w ++ w')
  | some (.failed e, w) => some (.failed e, w)
  | some (.aborted m, _) => some (.aborted m, [])

/-- The events of the second branch only where the first one has failed, behind those of the
    first one. -/
def or (r s : Recorder α) : Recorder α := fun inp =>
  match r inp with
  | none => none
  | some (.matched rest value, w) => some (.matched rest value, w)
  | some (.failed _, w) => (s inp).map fun (reply, w') => (reply, w ++ w')
  | some (.aborted m, _) => some (.aborted m, [])

/-- Put a value in front of what was gathered. -/
def push (value : α) : Except Misuse (Haul α) → Except Misuse (Haul α)
  | .ok haul => .ok { haul with items := value :: haul.items }
  | .error m => .error m

/-- The values and events of a repetition that has gathered `count` values before. -/
def gather (b : Bounds) (r : Recorder α) :
    Nat → Nat → Input → Option (Except Misuse (Haul α) × Trace)
  | 0, _, _ => none
  | limit + 1, count, rest =>
    if b.isFull count then
      some (.ok ⟨[], rest, .full⟩, [])
    else
      match r rest with
      | none => none
      | some (.matched after value, w) =>
        -- The last attempt is dropped, its events are not.
        if after.size = rest.size then
          some (.ok ⟨[], rest, .idle⟩, w)
        else
          (gather b r limit (count + 1) after).map fun (haul, w') => (push value haul, w ++ w')
      | some (.failed e, w) => some (.ok ⟨[], rest, .refused e⟩, w)
      | some (.aborted m, _) => some (.error m, [])

def repeated (limit : Nat) (b : Bounds) (r : Recorder α) : Recorder (List α) := fun inp =>
  match gather b r limit 0 inp with
  | none => none
  | some (.ok haul, w) => some (Parser.judge b inp haul, w)
  | some (.error m, _) => some (.aborted m, [])

/-- One event, which holds the others. -/
def marked (label : String) (r : Recorder α) : Recorder α := fun inp =>
  match r inp with
  | none => none
  | some (reply, w) =>
    match Parser.outcome inp reply with
    | .error m => some (.aborted m, [])
    | .ok outcome => some (reply, [⟨label, outcome, w⟩])

theorem marked_eq_of_le {label : String} {r : Recorder α} {inp rest : Input} {value : α} {w : Trace}
    (hr : r inp = some (.matched rest value, w)) (hsize : rest.size ≤ inp.size) :
    marked label r inp =
      some (.matched rest value, [⟨label, .matched (inp.size - rest.size), w⟩]) := by
  rw [marked, hr]
  simp only [Parser.outcome, if_pos hsize]

theorem marked_eq_of_lt {label : String} {r : Recorder α} {inp rest : Input} {value : α} {w : Trace}
    (hr : r inp = some (.matched rest value, w)) (hsize : inp.size < rest.size) :
    marked label r inp = some (.aborted .overrun, []) := by
  rw [marked, hr]
  simp only [Parser.outcome, if_neg (Nat.not_le_of_lt hsize)]

/-- The events are given with the value, and none are left for outside. -/
def traced (r : Recorder α) : Recorder (α × Trace) := fun inp =>
  match r inp with
  | none => none
  | some (.matched rest value, w) => some (.matched rest (value, w), [])
  | some (.failed e, _) => some (.failed e, [])
  | some (.aborted m, _) => some (.aborted m, [])

end Recorder

/-- The recorder that a grammar describes, for runs that are heard or not, where `call` records the
    symbols.  A trace that is collected inside is heard in any case. -/
def Grammar.record {N : Type → Type} (attempts : Nat)
    (call : {α : Type} → N α → Bool → Recorder α) :
    {α : Type} → Grammar N α → Bool → Recorder α
  | _, .leaf step, _ => Recorder.read step
  | _, .map f g, heard => Recorder.map f (g.record attempts call heard)
  | _, .filter keep g, heard => Recorder.filter keep (g.record attempts call heard)
  | _, .andThen g next, heard =>
    Recorder.andThen (g.record attempts call heard) fun value =>
      (next value).record attempts call heard
  | _, .or g h, heard => Recorder.or (g.record attempts call heard) (h.record attempts call heard)
  | _, .repeated b g, heard => Recorder.repeated attempts b (g.record attempts call heard)
  | _, .marked label g, true => Recorder.marked label (g.record attempts call true)
  | _, .marked _ g, false => g.record attempts call false
  | _, .wrapped _ g, heard => g.record attempts call heard
  | _, .traced g, _ => Recorder.traced (g.record attempts call true)
  | _, .symbol n, heard => call n heard

namespace Rulebook

variable {N : Type → Type} {σ : Type 1}

/-- Record a symbol: look it up and record the grammar found. -/
def recordCall (book : Rulebook N σ) (attempts : Nat) :
    Nat → σ → {α : Type} → N α → Bool → Recorder α
  | 0, _, _, _, _, _ => none
  | nesting + 1, state, _, n, heard, inp =>
    match book.resolve state n with
    | .error m => some (.aborted m, [])
    | .ok (g, state) =>
      g.record attempts (fun n => book.recordCall attempts nesting state n) heard inp

/-- The recorder that a grammar describes under a rulebook, within limits. -/
def recorder (book : Rulebook N σ) (limits : Limits) (state : σ) {α : Type} (g : Grammar N α) :
    Bool → Recorder α :=
  g.record limits.attempts fun n => book.recordCall limits.attempts limits.nesting state n

end Rulebook

-- ============================================================================
-- Reporting several events
-- ============================================================================

namespace Scopes

/-- Report events to the innermost scope, if there is one, the newest last. -/
def reportAll (scopes : Scopes) (w : Trace) : Scopes :=
  match scopes with
  | [] => []
  | frame :: outer => (w.reverse ++ frame) :: outer

@[simp] theorem reportAll_nil (scopes : Scopes) : scopes.reportAll [] = scopes := by
  cases scopes <;> rfl

/-- Events one behind the other are reported one behind the other. -/
theorem reportAll_append (w w' : Trace) (scopes : Scopes) :
    scopes.reportAll (w ++ w') = (scopes.reportAll w).reportAll w' := by
  cases scopes with
  | nil => rfl
  | cons frame outer => simp only [reportAll, List.reverse_append, List.append_assoc]

/-- Reporting to a scope that was just opened, and closing it, leaves the scopes around as they
    were. -/
theorem leave_reportAll_enter (w : Trace) (scopes : Scopes) :
    (scopes.enter.reportAll w).leave = (w, scopes) := by
  simp only [enter, reportAll, leave, List.append_nil, List.reverse_reverse]

/-- There is somebody to report to. -/
def listens (scopes : Scopes) : Bool := !scopes.isEmpty

theorem listens_of_ne_nil {scopes : Scopes} (h : scopes ≠ []) : scopes.listens = true := by
  cases scopes with
  | nil => exact absurd rfl h
  | cons frame outer => rfl

/-- Reporting closes no scope and opens none. -/
@[simp] theorem listens_reportAll (scopes : Scopes) (w : Trace) :
    (scopes.reportAll w).listens = scopes.listens := by
  cases scopes <;> rfl

end Scopes

-- ============================================================================
-- Following a recorder
-- ============================================================================

theorem Reply.matched_ne_aborted {rest : Input} {value : α} (m : Misuse) :
    Reply.matched rest value ≠ .aborted m := nofun

theorem Reply.failed_ne_aborted {e : Failure} (m : Misuse) :
    (Reply.failed e : Reply α) ≠ .aborted m := nofun

/-- The answer is the recorded one, with what `after` makes of the events behind it.  Nothing is
    said of what is behind the answer of a run that is given up. -/
inductive Follows {τ : Type} (after : Trace → τ) (answer : Option (Reply α × τ))
    (record : Option (Reply α × Trace)) : Prop
  | unanswered (ha : answer = none) (hr : record = none)
  | matched {rest : Input} {value : α} {w : Trace}
      (ha : answer = some (.matched rest value, after w))
      (hr : record = some (.matched rest value, w))
  | failed {e : Failure} {w : Trace} (ha : answer = some (.failed e, after w))
      (hr : record = some (.failed e, w))
  | aborted {m : Misuse} {t : τ} {w : Trace} (ha : answer = some (.aborted m, t))
      (hr : record = some (.aborted m, w))

/-- What was recorded and not given up is the answer. -/
theorem Follows.answer_eq {τ : Type} {after : Trace → τ} {answer : Option (Reply α × τ)}
    {record : Option (Reply α × Trace)} (h : Follows after answer record) {reply : Reply α}
    {w : Trace} (hrecord : record = some (reply, w)) (hreply : ∀ m, reply ≠ .aborted m) :
    answer = some (reply, after w) := by
  cases h with
  | unanswered ha hr => exact nomatch hr.symm.trans hrecord
  | matched ha hr | failed ha hr =>
    obtain ⟨rfl, rfl⟩ := Prod.mk.inj (Option.some.inj (hr.symm.trans hrecord))
    exact ha
  | aborted ha hr =>
    obtain ⟨rfl, -⟩ := Prod.mk.inj (Option.some.inj (hr.symm.trans hrecord))
    exact absurd rfl (hreply _)

/-- An answer that is not given up was recorded. -/
theorem Follows.exists_record {τ : Type} {after : Trace → τ} {answer : Option (Reply α × τ)}
    {record : Option (Reply α × Trace)} (h : Follows after answer record) {reply : Reply α} {t : τ}
    (hanswer : answer = some (reply, t)) (hreply : ∀ m, reply ≠ .aborted m) :
    ∃ w, record = some (reply, w) := by
  cases h with
  | unanswered ha hr => exact nomatch ha.symm.trans hanswer
  | matched ha hr | failed ha hr =>
    obtain ⟨rfl, -⟩ := Prod.mk.inj (Option.some.inj (ha.symm.trans hanswer))
    exact ⟨_, hr⟩
  | aborted ha hr =>
    obtain ⟨rfl, -⟩ := Prod.mk.inj (Option.some.inj (ha.symm.trans hanswer))
    exact absurd rfl (hreply _)

/-- An answer that is not given up is the recorded one, with its events behind it. -/
theorem Follows.answer_eq_iff {τ : Type} {after : Trace → τ} {answer : Option (Reply α × τ)}
    {record : Option (Reply α × Trace)} (h : Follows after answer record) {reply : Reply α}
    (hreply : ∀ m, reply ≠ .aborted m) {t : τ} :
    answer = some (reply, t) ↔ ∃ w, record = some (reply, w) ∧ t = after w := by
  constructor
  · intro hanswer
    obtain ⟨w, hrecord⟩ := h.exists_record hanswer hreply
    have hafter := hanswer.symm.trans (h.answer_eq hrecord hreply)
    exact ⟨w, hrecord, (Prod.mk.inj (Option.some.inj hafter)).2⟩
  · rintro ⟨w, hrecord, rfl⟩
    exact h.answer_eq hrecord hreply

/-- Whatever follows a recorder gives the recorded reply. -/
theorem Follows.reply_eq {τ : Type} {after : Trace → τ} {answer : Option (Reply α × τ)}
    {record : Option (Reply α × Trace)} (h : Follows after answer record) :
    answer.map Prod.fst = record.map Prod.fst := by
  cases h with
  | unanswered ha hr => rw [ha, hr]; rfl
  | matched ha hr | failed ha hr | aborted ha hr => rw [ha, hr]; rfl

/-- Whatever scopes are open, the parser answers as recorded and reports the events to them. -/
def Parser.Records (p : Parser α) (r : Bool → Recorder α) : Prop :=
  ∀ inp scopes, Follows scopes.reportAll (p inp scopes) (r scopes.listens inp)

/-- The parser gives the reply that is recorded, whatever scopes are open. -/
theorem Parser.Records.exists_answer {p : Parser α} {r : Bool → Recorder α} (h : p.Records r)
    {inp : Input} {reply : Reply α} {w : Trace} {scopes : Scopes}
    (hr : r scopes.listens inp = some (reply, w)) :
    ∃ scopes', p inp scopes = some (reply, scopes') := by
  have hreply := (h inp scopes).reply_eq
  rw [hr] at hreply
  obtain ⟨⟨reply', scopes'⟩, hp, rfl⟩ := Option.map_eq_some_iff.1 hreply
  exact ⟨scopes', hp⟩

/-- What is recorded, heard or not, is the reply of some run. -/
theorem Parser.Records.exists_run {p : Parser α} {r : Bool → Recorder α} (h : p.Records r)
    {heard : Bool} {inp : Input} {reply : Reply α} {w : Trace}
    (hr : r heard inp = some (reply, w)) :
    ∃ scopes scopes', p inp scopes = some (reply, scopes') := by
  cases heard with
  | false => exact ⟨[], h.exists_answer hr⟩
  | true => exact ⟨[[]], h.exists_answer hr⟩

/-- What was reported before is in front of what follows. -/
theorem Follows.behind {w : Trace} {scopes : Scopes} {answer : Option (Reply α × Scopes)}
    {record : Option (Reply α × Trace)}
    (h : Follows (scopes.reportAll w).reportAll answer record) :
    Follows scopes.reportAll answer (record.map fun (reply, w') => (reply, w ++ w')) := by
  cases h with
  | unanswered ha hr => exact .unanswered ha (by rw [hr]; rfl)
  | matched ha hr =>
    rw [← Scopes.reportAll_append] at ha
    exact .matched ha (by rw [hr]; rfl)
  | failed ha hr =>
    rw [← Scopes.reportAll_append] at ha
    exact .failed ha (by rw [hr]; rfl)
  | aborted ha hr => exact .aborted ha (by rw [hr]; rfl)

namespace Parser

variable {p q : Parser α} {r s : Bool → Recorder α}

theorem read_records (step : Input → Except Failure (Input × α)) :
    (read step).Records fun _ => Recorder.read step := by
  intro inp scopes
  dsimp only
  cases hstep : step inp with
  | ok next =>
    refine .matched (w := []) ?_ (by rw [Recorder.read, hstep])
    rw [read, hstep, Scopes.reportAll_nil]
  | error e =>
    refine .failed (w := []) ?_ (by rw [Recorder.read, hstep])
    rw [read, hstep, Scopes.reportAll_nil]

theorem map_records (f : α → β) (hp : p.Records r) :
    (map f p).Records fun heard => Recorder.map f (r heard) := by
  intro inp scopes
  dsimp only
  cases hp inp scopes with
  | unanswered ha hr => exact .unanswered (by rw [map, ha]) (by rw [Recorder.map, hr])
  | matched ha hr => exact .matched (by rw [map, ha]) (by rw [Recorder.map, hr])
  | failed ha hr => exact .failed (by rw [map, ha]) (by rw [Recorder.map, hr])
  | aborted ha hr => exact .aborted (by rw [map, ha]) (by rw [Recorder.map, hr])

theorem filter_records (keep : α → Bool) (hp : p.Records r) :
    (filter keep p).Records fun heard => Recorder.filter keep (r heard) := by
  intro inp scopes
  dsimp only
  cases hp inp scopes with
  | unanswered ha hr => exact .unanswered (by rw [filter, ha]) (by rw [Recorder.filter, hr])
  | @matched rest value w ha hr =>
    cases hkeep : keep value with
    | true =>
      exact .matched (by simp only [filter, ha, hkeep]; rfl)
        (by simp only [Recorder.filter, hr, hkeep]; rfl)
    | false =>
      exact .failed (by simp only [filter, ha, hkeep]; rfl)
        (by simp only [Recorder.filter, hr, hkeep]; rfl)
  | failed ha hr => exact .failed (by rw [filter, ha]) (by rw [Recorder.filter, hr])
  | aborted ha hr => exact .aborted (by rw [filter, ha]) (by rw [Recorder.filter, hr])

theorem andThen_records {next : α → Parser β} {next' : α → Bool → Recorder β} (hp : p.Records r)
    (hnext : ∀ value, (next value).Records (next' value)) :
    (andThen p next).Records fun heard =>
      Recorder.andThen (r heard) fun value => next' value heard := by
  intro inp scopes
  dsimp only
  cases hp inp scopes with
  | unanswered ha hr => exact .unanswered (by rw [andThen, ha]) (by rw [Recorder.andThen, hr])
  | @matched rest value w ha hr =>
    have hrest := hnext value rest (scopes.reportAll w)
    rw [Scopes.listens_reportAll] at hrest
    rw [andThen, ha, Recorder.andThen, hr]
    exact hrest.behind
  | failed ha hr => exact .failed (by rw [andThen, ha]) (by rw [Recorder.andThen, hr])
  | aborted ha hr => exact .aborted (by rw [andThen, ha]) (by rw [Recorder.andThen, hr])

theorem or_records (hp : p.Records r) (hq : q.Records s) :
    (or p q).Records fun heard => Recorder.or (r heard) (s heard) := by
  intro inp scopes
  dsimp only
  cases hp inp scopes with
  | unanswered ha hr => exact .unanswered (by rw [or, ha]) (by rw [Recorder.or, hr])
  | matched ha hr => exact .matched (by rw [or, ha]) (by rw [Recorder.or, hr])
  | @failed e w ha hr =>
    have hsecond := hq inp (scopes.reportAll w)
    rw [Scopes.listens_reportAll] at hsecond
    rw [or, ha, Recorder.or, hr]
    exact hsecond.behind
  | aborted ha hr => exact .aborted (by rw [or, ha]) (by rw [Recorder.or, hr])

/-! ### Repetition -/

/-- The loop hauls the recorded values behind those it had, and has reported the recorded events. -/
inductive Hauls (newestFirst : List α) (scopes : Scopes)
    (answer : Option (Except Misuse (Haul α) × Scopes))
    (record : Option (Except Misuse (Haul α) × Trace)) : Prop
  | unanswered (ha : answer = none) (hr : record = none)
  | stopped (haul : Haul α) (w : Trace)
      (ha : answer = some (.ok { haul with items := newestFirst.reverse ++ haul.items },
        scopes.reportAll w))
      (hr : record = some (.ok haul, w))
  | aborted {m : Misuse} {scopes' : Scopes} {w : Trace} (ha : answer = some (.error m, scopes'))
      (hr : record = some (.error m, w))

theorem gather_records (hp : p.Records r) (b : Bounds) (limit : Nat) (rest : Input) (count : Nat)
    (newestFirst : List α) (scopes : Scopes) :
    Hauls newestFirst scopes (gather b p limit rest count newestFirst scopes)
      (Recorder.gather b (r scopes.listens) limit count rest) := by
  -- Along the attempts that are left.  The events of an attempt stand in front of the later ones.
  induction limit generalizing rest count newestFirst scopes with
  | zero => exact .unanswered rfl rfl
  | succ limit ih =>
    rw [gather, Recorder.gather]
    cases hfull : b.isFull count with
    | true =>
      refine .stopped ⟨[], rest, .full⟩ [] ?_ rfl
      rw [if_pos rfl, Scopes.reportAll_nil, List.append_nil]
    | false =>
      cases hp rest scopes with
      | unanswered ha hr => exact .unanswered (by simp [ha]) (by simp [hr])
      | @matched after value w ha hr =>
        by_cases hidle : after.size = rest.size
        · refine .stopped ⟨[], rest, .idle⟩ w ?_ ?_
          · simp [ha, hidle]
          · simp [hr, hidle]
        · have hattempt := ih after (count + 1) (value :: newestFirst) (scopes.reportAll w)
          rw [Scopes.listens_reportAll] at hattempt
          simp only [ha, hr, hidle, if_false, Bool.false_eq_true]
          cases hattempt with
          | unanswered ha' hr' => exact .unanswered ha' (by rw [hr']; rfl)
          | stopped haul w' ha' hr' =>
            refine .stopped { haul with items := value :: haul.items } (w ++ w') ?_
              (by rw [hr']; rfl)
            rw [ha', Scopes.reportAll_append, List.reverse_cons, List.append_assoc]
            rfl
          | aborted ha' hr' => exact .aborted ha' (by rw [hr']; rfl)
      | @failed e w ha hr =>
        refine .stopped ⟨[], rest, .refused e⟩ w ?_ ?_
        · simp [ha]
        · simp [hr]
      | aborted ha hr =>
        simp only [ha, hr, if_false, Bool.false_eq_true]
        exact .aborted rfl rfl

theorem repeated_records (limit : Nat) (b : Bounds) (hp : p.Records r) :
    (repeated limit b p).Records fun heard => Recorder.repeated limit b (r heard) := by
  intro inp scopes
  dsimp only
  cases gather_records hp b limit inp 0 [] scopes with
  | unanswered ha hr => exact .unanswered (by rw [repeated, ha]) (by rw [Recorder.repeated, hr])
  | stopped haul w ha hr =>
    have hrun : repeated limit b p inp scopes = some (judge b inp haul, scopes.reportAll w) := by
      rw [repeated, ha]
      rfl
    have hrecord : Recorder.repeated limit b (r scopes.listens) inp =
        some (judge b inp haul, w) := by
      rw [Recorder.repeated, hr]
    rw [hrun, hrecord]
    cases hjudge : judge b inp haul with
    | matched rest value => exact .matched rfl rfl
    | failed e => exact .failed rfl rfl
    | aborted m => exact .aborted rfl rfl
  | aborted ha hr => exact .aborted (by rw [repeated, ha]) (by rw [Recorder.repeated, hr])

/-! ### Traces -/

/-- Collecting listens, gives the recorded events and leaves the scopes as they were. -/
theorem collect_records (hp : p.Records r) (inp : Input) (scopes : Scopes) :
    Follows (fun w => (w, scopes)) (collect p inp scopes) (r true inp) := by
  cases hp inp scopes.enter with
  | unanswered ha hr => exact .unanswered (by rw [collect, ha]) hr
  | @matched rest value w ha hr =>
    refine .matched ?_ hr
    rw [collect, ha]
    simp only [Scopes.leave_reportAll_enter]
  | @failed e w ha hr =>
    refine .failed ?_ hr
    rw [collect, ha]
    simp only [Scopes.leave_reportAll_enter]
  | aborted ha hr => exact .aborted (by rw [collect, ha]) hr

/-- Where somebody listens, a mark makes its event. -/
theorem marked_records (label : String) (hp : p.Records r) (inp : Input) (frame : List Event)
    (outer : Scopes) :
    Follows (Scopes.reportAll (frame :: outer)) (marked label p inp (frame :: outer))
      (Recorder.marked label (r true) inp) := by
  have hlisten : ¬ List.isEmpty (frame :: outer) = true := Bool.false_ne_true
  rw [marked, if_neg hlisten, Recorder.marked]
  cases collect_records hp inp (frame :: outer) with
  | unanswered ha hr =>
    rw [ha, hr]
    exact .unanswered rfl rfl
  | @matched rest value w ha hr =>
    rw [ha, hr]
    by_cases hsize : rest.size ≤ inp.size
    · simp only [outcome, if_pos hsize]
      exact .matched rfl rfl
    · simp only [outcome, if_neg hsize]
      exact .aborted rfl rfl
  | failed ha hr =>
    rw [ha, hr]
    exact .failed rfl rfl
  | aborted ha hr =>
    rw [ha, hr]
    exact .aborted rfl rfl

theorem traced_records (hp : p.Records r) :
    (traced p).Records fun _ => Recorder.traced (r true) := by
  intro inp scopes
  dsimp only
  cases collect_records hp inp scopes with
  | unanswered ha hr => exact .unanswered (by rw [traced, ha]) (by rw [Recorder.traced, hr])
  | matched ha hr =>
    refine .matched (w := []) ?_ (by rw [Recorder.traced, hr])
    rw [traced, ha, Scopes.reportAll_nil]
  | failed ha hr =>
    refine .failed (w := []) ?_ (by rw [Recorder.traced, hr])
    rw [traced, ha, Scopes.reportAll_nil]
  | aborted ha hr => exact .aborted (by rw [traced, ha]) (by rw [Recorder.traced, hr])

end Parser

/-! ### Starts -/

/-- A start in this mode opens a scope, to collect the trace in. -/
def Mode.Opens : Mode → Prop
  | .parse | .run | .complete => False
  | .traced | .verbose => True

/-- A run that is started in this mode is heard: the start opens a scope of its own, or one was left
    open before. -/
def Mode.listens : Mode → Scopes → Bool
  | .parse, scopes | .run, scopes | .complete, scopes => scopes.listens
  | .traced, _ | .verbose, _ => true

/-- A start that opens no scope is heard where somebody listens already. -/
theorem Mode.listens_of_not_opens {mode : Mode} (h : ¬ mode.Opens) (scopes : Scopes) :
    mode.listens scopes = scopes.listens := by
  cases mode with
  | parse | run | complete => rfl
  | traced | verbose => exact absurd trivial h

/-- A start that opens one is heard in any case. -/
theorem Mode.listens_of_opens {mode : Mode} (h : mode.Opens) (scopes : Scopes) :
    mode.listens scopes = true := by
  cases mode with
  | parse | run | complete => exact h.elim
  | traced | verbose => rfl

/-- Of the scopes that are open it only matters whether there are any. -/
theorem Mode.listens_congr {scopes scopes' : Scopes} (h : scopes = [] ↔ scopes' = [])
    (mode : Mode) : mode.listens scopes = mode.listens scopes' := by
  by_cases hmode : mode.Opens
  · rw [Mode.listens_of_opens hmode, Mode.listens_of_opens hmode]
  · rw [Mode.listens_of_not_opens hmode, Mode.listens_of_not_opens hmode]
    by_cases hscopes : scopes = []
    · rw [hscopes, h.1 hscopes]
    · rw [Scopes.listens_of_ne_nil hscopes, Scopes.listens_of_ne_nil fun h' => hscopes (h.2 h')]

/-- The report that a start in this mode makes of a reply and the events recorded with it. -/
def Mode.report : Mode → Reply α × Trace → Report α
  | .parse, (reply, _) | .run, (reply, _) => ⟨reply, none, ""⟩
  | .complete, (reply, _) => ⟨reply.complete, none, ""⟩
  | .traced, (reply, w) => ⟨reply, some w, ""⟩
  | .verbose, (reply, w) => ⟨reply, none, w.shown⟩

/-- The reply that a start gives, without what comes with it. -/
def Parser.startReply (p : Parser α) (mode : Mode) (inp : Input) (scopes : Scopes) :
    Option (Reply α) :=
  (p.start mode inp scopes).map fun start => start.1.reply

/-- What a start in this mode makes of the reply of the run. -/
def Mode.reply : Mode → Reply α → Reply α
  | .complete, reply => reply.complete
  | .parse, reply | .run, reply | .traced, reply | .verbose, reply => reply

/-- A start is given up where its run is. -/
theorem Mode.reply_eq_aborted_iff (mode : Mode) {reply : Reply α} {m : Misuse} :
    mode.reply reply = .aborted m ↔ reply = .aborted m := by
  cases mode with
  | complete => exact Reply.complete_eq_aborted_iff
  | parse | run | traced | verbose => exact Iff.rfl

namespace Parser

/-- A start gives what it makes of the recorded reply. -/
theorem Records.startReply_eq {p : Parser α} {r : Bool → Recorder α} (h : p.Records r)
    (mode : Mode) (inp : Input) (scopes : Scopes) :
    p.startReply mode inp scopes =
      ((r (mode.listens scopes) inp).map Prod.fst).map mode.reply := by
  cases mode with
  | parse | run | complete =>
    rw [startReply, start, Option.map_map, Mode.listens, ← (h inp scopes).reply_eq,
      Option.map_map]
    rfl
  | traced | verbose =>
    rw [startReply, start, Option.map_map, Mode.listens,
      ← (collect_records h inp scopes).reply_eq, Option.map_map]
    rfl

/-- In every mode but the complete one that is the recorded reply itself. -/
theorem Records.startReply_eq_of_ne {p : Parser α} {r : Bool → Recorder α}
    (h : p.Records r) {mode : Mode} (hmode : mode ≠ .complete) (inp : Input) (scopes : Scopes) :
    p.startReply mode inp scopes = (r (mode.listens scopes) inp).map Prod.fst := by
  have hreply : (mode.reply : Reply α → Reply α) = id := by
    cases mode with
    | complete => exact absurd rfl hmode
    | parse | run | traced | verbose => rfl
  rw [h.startReply_eq, hreply, Option.map_id, id]

/-- A start that collects a trace reports the events that are recorded, and leaves all scopes as
    they were. -/
theorem Records.start_eq_some_iff {p : Parser α} {r : Bool → Recorder α} (h : p.Records r)
    {mode : Mode} (hmode : mode.Opens) {inp : Input} {scopes scopes' : Scopes} {report : Report α}
    (hreply : ∀ m, report.reply ≠ .aborted m) :
    p.start mode inp scopes = some (report, scopes') ↔
      ∃ w, r true inp = some (report.reply, w) ∧ report = mode.report (report.reply, w) ∧
        scopes' = scopes := by
  have hcollect := collect_records h inp scopes
  cases mode with
  | parse | run | complete => exact hmode.elim
  | traced | verbose =>
    rw [start]
    constructor
    · intro hstart
      obtain ⟨⟨reply, trace, after⟩, hrun, hreport⟩ := Option.map_eq_some_iff.1 hstart
      cases hreport
      obtain ⟨w, hw, hleft⟩ := (hcollect.answer_eq_iff hreply).1 hrun
      cases hleft
      exact ⟨_, hw, rfl, rfl⟩
    · rintro ⟨w, hw, hreport, rfl⟩
      rw [(hcollect.answer_eq_iff hreply).2 ⟨w, hw, rfl⟩, hreport]
      rfl

end Parser

-- ============================================================================
-- Grammars
-- ============================================================================

section Grammars

variable {N : Type → Type} {σ : Type 1}

/-- Where symbols follow what is recorded for them, so does the grammar. -/
theorem Grammar.eval_records {attempts : Nat} {call : {α : Type} → N α → Parser α}
    {call' : {α : Type} → N α → Bool → Recorder α}
    (hcall : ∀ {α : Type} (n : N α), Parser.Records (call n) (call' n)) (g : Grammar N α) :
    Parser.Records (g.eval attempts call) (g.record attempts call') := by
  induction g with
  | leaf step => exact Parser.read_records step
  | map f g ih => exact Parser.map_records f ih
  | filter keep g ih => exact Parser.filter_records keep ih
  | andThen g next ihg ihnext => exact Parser.andThen_records ihg ihnext
  | or g h ihg ihh => exact Parser.or_records ihg ihh
  | repeated b g ih => exact Parser.repeated_records attempts b ih
  | marked label g ih =>
    intro inp scopes
    cases scopes with
    | nil => exact ih inp []
    | cons frame outer => exact Parser.marked_records label ih inp frame outer
  | wrapped w g ih => exact ih
  | traced g ih => exact Parser.traced_records ih
  | symbol n => exact hcall n

theorem Rulebook.call_records (book : Rulebook N σ) (attempts nesting : Nat) (state : σ)
    (n : N α) :
    Parser.Records (book.call attempts nesting state n)
      (book.recordCall attempts nesting state n) := by
  induction nesting generalizing state α with
  | zero => exact fun inp scopes => .unanswered rfl rfl
  | succ nesting ih =>
    intro inp scopes
    rw [Rulebook.call, Rulebook.recordCall]
    cases book.resolve state n with
    | error m => exact .aborted rfl rfl
    | ok found => exact Grammar.eval_records (fun n => ih found.2 n) found.1 inp scopes

theorem Rulebook.parser_records (book : Rulebook N σ) (limits : Limits) (state : σ)
    (g : Grammar N α) :
    Parser.Records (book.parser limits state g) (book.recorder limits state g) :=
  Grammar.eval_records (fun n => book.call_records limits.attempts limits.nesting state n) g

end Grammars

end Descent
