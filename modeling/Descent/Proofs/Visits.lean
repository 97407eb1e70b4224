/-
  Descent.Proofs.Visits

  Where the events of a trace come from.  An event says how many bytes were consumed and not of
  what, so the bytes alone cannot be checked.  A visit keeps what the event leaves out: the input on
  which a mark was entered, the reply it came out with, and the visits made meanwhile.  The visits
  of a run that is heard are told from the grammar and the input, and the events they make are the
  ones recorded.

  Over honest steps every visit is exact.  The input it was entered on is an end of the one on which
  the visit around it was entered, however stages, attempts and branches have led there; what it
  left is an end of its own input; and the bytes its event counts are those in front of what it
  left.
-/
import Descent.Proofs.Places

namespace Descent

variable {α β : Type}

-- ============================================================================
-- Visits
-- ============================================================================

/-- A mark that was entered, or a trace that was collected inside a parser and is part of its
    value, with the visits made meanwhile. -/
inductive Visit where
  | mark (label : String) (place : Input) (reply : Reply Unit) (inside : List Visit)
  | trace (place : Input) (inside : List Visit)

mutual

/-- The event that a mark makes; a trace that is part of a value makes none. -/
def Visit.events : Visit → Trace
  | .mark label place reply inside =>
    match Parser.outcome place reply with
    | .error _ => []
    | .ok outcome => [⟨label, outcome, Visit.eventsList inside⟩]
  | .trace _ _ => []

def Visit.eventsList : List Visit → Trace
  | [] => []
  | v :: vs => v.events ++ Visit.eventsList vs

end

/-- From an input to the visits made in a run on it. -/
abbrev Visits : Type := Input → List Visit

/-- The reply without its value. -/
def Reply.forget : Reply α → Reply Unit
  | .matched rest _ => .matched rest ()
  | .failed e => .failed e
  | .aborted m => .aborted m

namespace Recorder

/-- The visits behind a match, if there is one. -/
def behindMatch (r : Recorder α) (vs : α → Visits) : Visits := fun inp =>
  match r inp with
  | some (.matched rest value, _) => vs value rest
  | _ => []

/-- The visits behind a failure, if there is one. -/
def behindFailure (r : Recorder α) (vs : Visits) : Visits := fun inp =>
  match r inp with
  | some (.failed _, _) => vs inp
  | _ => []

/-- The visits of all attempts of a repetition that has gathered `count` values. -/
def attempted (b : Bounds) (r : Recorder α) (vs : Visits) : Nat → Nat → Visits
  | 0, _, _ => []
  | limit + 1, count, rest =>
    if b.isFull count then
      []
    else
      vs rest ++
        match r rest with
        | some (.matched after _, _) =>
          if after.size = rest.size then [] else attempted b r vs limit (count + 1) after
        | _ => []

/-- The visit of a mark. -/
def visit (label : String) (r : Recorder α) (vs : Visits) : Visits := fun inp =>
  match r inp with
  | some (reply, _) => [.mark label inp reply.forget (vs inp)]
  | none => []

end Recorder

/-- The visits that a grammar makes, where `inside` gives those of the symbols. -/
def Grammar.visits {N : Type → Type} (attempts : Nat)
    (call : {α : Type} → N α → Bool → Recorder α) (inside : {α : Type} → N α → Visits) :
    {α : Type} → Grammar N α → Visits
  | _, .leaf _ => fun _ => []
  | _, .map _ g => g.visits attempts call inside
  | _, .filter _ g => g.visits attempts call inside
  | _, .andThen g next => fun inp => g.visits attempts call inside inp ++
      (g.record attempts call true).behindMatch
        (fun value => (next value).visits attempts call inside) inp
  | _, .or g h => fun inp => g.visits attempts call inside inp ++
      (g.record attempts call true).behindFailure (h.visits attempts call inside) inp
  | _, .repeated b g =>
      (g.record attempts call true).attempted b (g.visits attempts call inside) attempts 0
  | _, .marked label g => (g.record attempts call true).visit label (g.visits attempts call inside)
  | _, .wrapped _ g => g.visits attempts call inside
  | _, .traced g => fun inp => [.trace inp (g.visits attempts call inside inp)]
  | _, .symbol n => inside n

namespace Rulebook

variable {N : Type → Type} {σ : Type 1}

/-- The visits of a symbol: look it up and make those of the grammar found. -/
def callVisits (book : Rulebook N σ) (attempts : Nat) : Nat → σ → {α : Type} → N α → Visits
  | 0, _, _, _ => fun _ => []
  | nesting + 1, state, _, n =>
    match book.resolve state n with
    | .error _ => fun _ => []
    | .ok (g, state) => g.visits attempts (fun n => book.recordCall attempts nesting state n)
        fun n => book.callVisits attempts nesting state n

/-- The visits that a grammar makes under a rulebook, within limits. -/
def visits (book : Rulebook N σ) (limits : Limits) (state : σ) (g : Grammar N α) : Visits :=
  g.visits limits.attempts (fun n => book.recordCall limits.attempts limits.nesting state n)
    fun n => book.callVisits limits.attempts limits.nesting state n

end Rulebook

-- ============================================================================
-- Exact visits
-- ============================================================================

/-- What was left is an end of the input on which the mark was entered, and the bytes counted are
    those of the text in front of it, with nothing cut off in subtracting.  A run that was given up
    is not counted. -/
inductive Reply.Counted (place : Input) : Reply Unit → Prop
  | matched {before : List Char} {rest : Input} (hplace : place.chars = before ++ rest.chars)
      (hsize : rest.size ≤ place.size)
      (houtcome : Parser.outcome place (.matched rest ()) =
        .ok (.matched (utf8Length before))) : Counted place (.matched rest ())
  | failed {before : List Char} {e : Failure} (hplace : place.chars = before ++ e.rest.chars)
      (hsize : e.rest.size ≤ place.size)
      (houtcome : Parser.outcome place (.failed e : Reply Unit) =
        .ok (.failed (utf8Length before))) : Counted place (.failed e)

/-- A visit in a run on the input is exact, with all visits inside. -/
inductive Visit.Exact : Input → Visit → Prop
  | mark {inp place : Input} {label : String} {reply : Reply Unit} {inside : List Visit}
      (hplace : place.chars <:+ inp.chars) (hreply : reply.Counted place)
      (hinside : ∀ v ∈ inside, Exact place v) : Exact inp (.mark label place reply inside)
  | trace {inp place : Input} {inside : List Visit} (hplace : place.chars <:+ inp.chars)
      (hinside : ∀ v ∈ inside, Exact place v) : Exact inp (.trace place inside)

/-- The visits of a run on the input are exact, and they make these events. -/
def Visit.Make (inp : Input) (vs : List Visit) (w : Trace) : Prop :=
  Visit.eventsList vs = w ∧ ∀ v ∈ vs, v.Exact inp

/-- Unless a run is given up, the visits are exact and make the events that are recorded. -/
def Recorder.Notes (r : Recorder α) (vs : Visits) : Prop :=
  ∀ inp reply w, r inp = some (reply, w) → (∀ m, reply ≠ .aborted m) → Visit.Make inp (vs inp) w

theorem Visit.eventsList_append (vs vs' : List Visit) :
    Visit.eventsList (vs ++ vs') = Visit.eventsList vs ++ Visit.eventsList vs' := by
  induction vs with
  | nil => rfl
  | cons v vs ih =>
    rw [List.cons_append, Visit.eventsList, Visit.eventsList, ih, List.append_assoc]

theorem Visit.Exact.mono {inp mid : Input} {v : Visit} (h : v.Exact mid)
    (hmid : mid.chars <:+ inp.chars) : v.Exact inp := by
  cases h with
  | mark hplace hreply hinside => exact .mark (hplace.trans hmid) hreply hinside
  | trace hplace hinside => exact .trace (hplace.trans hmid) hinside

theorem Visit.make_nil (inp : Input) : Visit.Make inp [] [] := ⟨rfl, List.forall_mem_nil _⟩

/-- Visits further on are visits of the whole. -/
theorem Visit.Make.append {inp mid : Input} {vs vs' : List Visit} {w w' : Trace}
    (h : Visit.Make inp vs w) (h' : Visit.Make mid vs' w') (hmid : mid.chars <:+ inp.chars) :
    Visit.Make inp (vs ++ vs') (w ++ w') := by
  refine ⟨by rw [Visit.eventsList_append, h.1, h'.1], fun v hv => ?_⟩
  rcases List.mem_append.1 hv with hv | hv
  · exact h.2 v hv
  · exact (h'.2 v hv).mono hmid

/-- A reply within its input is counted. -/
theorem Reply.Within.counted {inp : Input} {reply : Reply α} (h : reply.Within inp)
    (hreply : ∀ m, reply ≠ .aborted m) : reply.forget.Counted inp := by
  cases reply with
  | matched rest value =>
    obtain ⟨before, hbefore⟩ := h
    have hsize : inp.size = utf8Length before + rest.size := Input.size_eq_add hbefore.symm
    have hcount : inp.size - rest.size = utf8Length before := by omega
    have hle : rest.size ≤ inp.size := by omega
    exact .matched hbefore.symm hle (by rw [Parser.outcome, if_pos hle, hcount])
  | failed e =>
    obtain ⟨before, hbefore, -⟩ := h
    have hsize : inp.size = utf8Length before + e.rest.size := Input.size_eq_add hbefore
    have hcount : inp.size - e.rest.size = utf8Length before := by omega
    exact .failed hbefore (by omega) (by rw [Parser.outcome, hcount])
  | aborted m => exact absurd rfl (hreply m)

-- ============================================================================
-- The combinators
-- ============================================================================

namespace Recorder

variable {r s : Recorder α} {vs vs' : Visits}

theorem read_notes (step : Input → Except Failure (Input × α)) :
    (read step).Notes fun _ => [] := by
  intro inp reply w h hreply
  rw [read] at h
  split at h
  all_goals
    cases h
    exact Visit.make_nil inp

theorem map_notes (f : α → β) (hr : r.Notes vs) : (map f r).Notes vs := by
  intro inp reply w h hreply
  rw [map] at h
  split at h
  · cases h
  · next rest value w' hrun =>
    cases h
    exact hr inp _ _ hrun Reply.matched_ne_aborted
  · next e w' hrun =>
    cases h
    exact hr inp _ _ hrun Reply.failed_ne_aborted
  · next m w' hrun =>
    cases h
    exact absurd rfl (hreply m)

theorem filter_notes (keep : α → Bool) (hr : r.Notes vs) : (filter keep r).Notes vs := by
  intro inp reply w h hreply
  rw [filter] at h
  split at h
  · cases h
  · next rest value w' hrun =>
    have hmake : Visit.Make inp (vs inp) w' := hr inp _ _ hrun Reply.matched_ne_aborted
    split at h
    all_goals
      cases h
      exact hmake
  · next e w' hrun =>
    cases h
    exact hr inp _ _ hrun Reply.failed_ne_aborted
  · next m w' hrun =>
    cases h
    exact absurd rfl (hreply m)

/-- The second stage is run on an end of the input. -/
theorem andThen_notes {next : α → Recorder β} {vs' : α → Visits} (hfaithful : r.Faithful)
    (hr : r.Notes vs) (hnext : ∀ value, (next value).Notes (vs' value)) :
    (andThen r next).Notes fun inp => vs inp ++ r.behindMatch vs' inp := by
  intro inp reply w h hreply
  rw [andThen] at h
  dsimp only
  rw [behindMatch]
  split at h
  · cases h
  · next rest value w' hrun =>
    obtain ⟨⟨reply', w''⟩, hlater, heq⟩ := Option.map_eq_some_iff.1 h
    obtain ⟨rfl, rfl⟩ := Prod.mk.inj heq
    have hrest : rest.chars <:+ inp.chars := hfaithful inp _ w' hrun
    rw [hrun]
    exact (hr inp _ _ hrun Reply.matched_ne_aborted).append (hnext value rest _ _ hlater hreply)
      hrest
  · next e w' hrun =>
    cases h
    rw [hrun, List.append_nil]
    exact hr inp _ _ hrun Reply.failed_ne_aborted
  · next m w' hrun =>
    cases h
    exact absurd rfl (hreply m)

theorem or_notes (hr : r.Notes vs) (hs : s.Notes vs') :
    (or r s).Notes fun inp => vs inp ++ r.behindFailure vs' inp := by
  intro inp reply w h hreply
  rw [or] at h
  dsimp only
  rw [behindFailure]
  split at h
  · cases h
  · next rest value w' hrun =>
    cases h
    rw [hrun, List.append_nil]
    exact hr inp _ _ hrun Reply.matched_ne_aborted
  · next e w' hrun =>
    obtain ⟨⟨reply', w''⟩, hlater, heq⟩ := Option.map_eq_some_iff.1 h
    obtain ⟨rfl, rfl⟩ := Prod.mk.inj heq
    rw [hrun]
    exact (hr inp _ _ hrun Reply.failed_ne_aborted).append (hs inp _ _ hlater hreply)
      (List.suffix_refl _)
  · next m w' hrun =>
    cases h
    exact absurd rfl (hreply m)

/-- Every attempt is on an end of what the one before was on. -/
theorem gather_notes (hfaithful : r.Faithful) (hr : r.Notes vs) {b : Bounds} {limit count : Nat}
    {rest : Input} {haul : Haul α} {w : Trace}
    (h : gather b r limit count rest = some (.ok haul, w)) :
    Visit.Make rest (r.attempted b vs limit count rest) w := by
  induction limit generalizing count rest haul w with
  | zero => cases h
  | succ limit ih =>
    rw [gather] at h
    rw [attempted]
    split at h
    · next hfull =>
      cases h
      rw [if_pos hfull]
      exact Visit.make_nil rest
    · next hfull =>
      rw [if_neg hfull]
      split at h
      · cases h
      · next after value w' hrun =>
        have hmake : Visit.Make rest (vs rest) w' := hr rest _ _ hrun Reply.matched_ne_aborted
        rw [hrun]
        dsimp only
        split at h
        · next hidle =>
          cases h
          rw [if_pos hidle, List.append_nil]
          exact hmake
        · next hprogress =>
          obtain ⟨⟨later, w''⟩, hlater, heq⟩ := Option.map_eq_some_iff.1 h
          obtain ⟨hpush, rfl⟩ := Prod.mk.inj heq
          have hafter : after.chars <:+ rest.chars := hfaithful rest _ w' hrun
          rw [if_neg hprogress]
          cases later with
          | ok haul' => exact hmake.append (ih hlater) hafter
          | error m => cases hpush
      · next e w' hrun =>
        cases h
        rw [hrun, List.append_nil]
        exact hr rest _ _ hrun Reply.failed_ne_aborted
      · cases h

theorem repeated_notes (limit : Nat) (b : Bounds) (hfaithful : r.Faithful) (hr : r.Notes vs) :
    (repeated limit b r).Notes (r.attempted b vs limit 0) := by
  intro inp reply w h hreply
  rw [repeated] at h
  split at h
  · cases h
  · next haul w' hgather =>
    cases h
    exact gather_notes hfaithful hr hgather
  · next m w' hgather =>
    cases h
    exact absurd rfl (hreply m)

/-- A mark makes one event, and it counts the bytes in front of what was left. -/
theorem marked_notes (label : String) (hfaithful : r.Faithful) (hr : r.Notes vs) :
    (marked label r).Notes (r.visit label vs) := by
  intro inp reply w h hreply
  rw [marked] at h
  split at h
  · cases h
  · next reply' w' hrun =>
    split at h
    · cases h
      exact absurd rfl (hreply _)
    · next outcome hcount =>
      cases h
      obtain ⟨hevents, hexact⟩ := hr inp _ _ hrun hreply
      have hcounted : reply.forget.Counted inp := (hfaithful inp _ w' hrun).counted hreply
      have houtcome : Parser.outcome inp reply.forget = .ok outcome := by
        rw [← hcount]
        cases reply <;> rfl
      rw [visit, hrun]
      refine ⟨?_, List.forall_mem_singleton.2 (.mark (List.suffix_refl _) hcounted hexact)⟩
      rw [Visit.eventsList, Visit.eventsList, List.append_nil, Visit.events, houtcome, hevents]

/-- A trace that is collected inside makes no event outside. -/
theorem traced_notes (hr : r.Notes vs) : (traced r).Notes fun inp => [.trace inp (vs inp)] := by
  intro inp reply w h hreply
  rw [traced] at h
  have hmake {reply' : Reply α} {w' : Trace} (hrun : r inp = some (reply', w'))
      (hreply' : ∀ m, reply' ≠ .aborted m) : Visit.Make inp [.trace inp (vs inp)] [] :=
    ⟨rfl, List.forall_mem_singleton.2
      (.trace (List.suffix_refl _) (hr inp _ _ hrun hreply').2)⟩
  split at h
  · cases h
  · next rest value w' hrun =>
    cases h
    exact hmake hrun Reply.matched_ne_aborted
  · next e w' hrun =>
    cases h
    exact hmake hrun Reply.failed_ne_aborted
  · next m w' hrun =>
    cases h
    exact absurd rfl (hreply m)

end Recorder

-- ============================================================================
-- Grammars
-- ============================================================================

section Grammars

variable {N : Type → Type} {σ : Type 1}

/-- Over honest steps, and symbols that are run by faithful parsers and note their visits, a grammar
    notes its visits. -/
theorem Grammar.record_notes {attempts : Nat} {call : {α : Type} → N α → Parser α}
    {call' : {α : Type} → N α → Bool → Recorder α} {inside : {α : Type} → N α → Visits}
    (hcall : FaithfulCalls call call')
    (hnotes : ∀ {α : Type} (n : N α), Recorder.Notes (call' n true) (inside n)) {g : Grammar N α}
    (hg : g.Honest) : (g.record attempts call' true).Notes (g.visits attempts call' inside) := by
  have hkeeps {β : Type} {g' : Grammar N β} (hg' : g'.Honest) :
      (g'.record attempts call' true).Faithful := Grammar.record_faithful hcall hg' true
  induction g with
  | leaf step => exact Recorder.read_notes step
  | map f g ih => exact Recorder.map_notes f (ih hg)
  | filter keep g ih => exact Recorder.filter_notes keep (ih hg)
  | andThen g next ihg ihnext =>
    exact Recorder.andThen_notes (hkeeps hg.1) (ihg hg.1) fun value => ihnext value (hg.2 value)
  | or g h ihg ihh => exact Recorder.or_notes (ihg hg.1) (ihh hg.2)
  | repeated b g ih =>
    have hrepeated : g.Honest := hg
    exact Recorder.repeated_notes attempts b (hkeeps hrepeated) (ih hg)
  | marked label g ih =>
    have hmarked : g.Honest := hg
    exact Recorder.marked_notes label (hkeeps hmarked) (ih hg)
  | wrapped w g ih => exact ih hg
  | traced g ih => exact Recorder.traced_notes (ih hg)
  | symbol n => exact hnotes n

variable {book : Rulebook N σ} {Allowed : σ → Prop}

theorem Rulebook.recordCall_notes (hbook : book.Honest Allowed) (attempts nesting : Nat)
    {state : σ} (hstate : Allowed state) (n : N α) :
    Recorder.Notes (book.recordCall attempts nesting state n true)
      (book.callVisits attempts nesting state n) := by
  induction nesting generalizing state α with
  | zero =>
    intro inp reply w h
    cases h
  | succ nesting ih =>
    intro inp reply w h hreply
    rw [recordCall] at h
    rw [callVisits]
    cases hresolve : book.resolve state n with
    | error m =>
      rw [hresolve] at h
      cases h
      exact absurd rfl (hreply m)
    | ok found =>
      obtain ⟨g, state'⟩ := found
      rw [hresolve] at h
      obtain ⟨hg, hstate'⟩ := hbook state state' n g hstate hresolve
      exact Grammar.record_notes (Rulebook.faithfulCalls hbook attempts nesting hstate')
        (fun n => ih hstate' n) hg inp reply w h hreply

theorem Rulebook.recorder_notes (hbook : book.Honest Allowed) (limits : Limits) {state : σ}
    (hstate : Allowed state) {g : Grammar N α} (hg : g.Honest) :
    (book.recorder limits state g true).Notes (book.visits limits state g) :=
  Grammar.record_notes (faithfulCalls hbook limits.attempts limits.nesting hstate)
    (fun n => recordCall_notes hbook limits.attempts limits.nesting hstate n) hg

end Grammars

end Descent
