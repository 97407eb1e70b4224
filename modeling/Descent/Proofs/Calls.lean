/-
  Descent.Proofs.Calls

  Which parts of a grammar a run gets to.  The stages of a sequence, the branches of a choice and
  the attempts of a repetition that a run gets to are told from what is recorded for those before
  them.  Looking up a symbol that is run gives a grammar, whose run may run symbols again, and so a
  run meets parts of grammars at every depth, each in a state of the rulebook, on an input of its
  own, and heard or not.

  A run is given up exactly if it meets a symbol whose lookup is a misuse, or a mark that is heard
  and cannot count the bytes of what it marks; and then it is given up for this reason, while it
  collects as many traces as are asked for around the part.  What holds of the symbols of a grammar
  in a state, and of those of every grammar that is found for such a symbol, holds of all symbols
  that a run meets.
-/
import Descent.Proofs.Answers
import Descent.Proofs.Over
import Descent.Proofs.Recorded
import Descent.Proofs.Steady

namespace Descent

variable {α β γ : Type}

-- ============================================================================
-- What is run
-- ============================================================================

namespace Recorder

/-- The recorder gives the run up with this misuse. -/
def Aborts (r : Recorder α) (m : Misuse) (inp : Input) : Prop := ∃ w, r inp = some (.aborted m, w)

/-- A start is answered as a misuse exactly if the run is given up. -/
theorem answer_eq_misused_iff {r : Recorder Value} {mode : Mode} {m : Misuse} {inp : Input} :
    (r inp).map mode.answer = some (.misused m) ↔ r.Aborts m inp := by
  constructor
  · intro h
    obtain ⟨⟨reply, w⟩, hrecord, hanswer⟩ := Option.map_eq_some_iff.1 h
    obtain rfl : reply = .aborted m := Mode.answer_eq_misused_iff.1 hanswer
    exact ⟨w, hrecord⟩
  · rintro ⟨w, hrecord⟩
    rw [hrecord]
    exact congrArg some (Mode.answer_eq_misused_iff.2 rfl)

/-- A repetition that has gathered `count` values and may make so many more attempts gets to an
    attempt at the given place. -/
inductive Attempts (b : Bounds) (r : Recorder α) (place : Input) : Nat → Nat → Input → Prop
  | now {limit count : Nat} (hfull : b.isFull count = false) :
      Attempts b r place (limit + 1) count place
  | later {limit count : Nat} {rest after : Input} {value : α} {w : Trace}
      (hfull : b.isFull count = false) (hr : r rest = some (.matched after value, w))
      (hprogress : after.size ≠ rest.size) (h : Attempts b r place limit (count + 1) after) :
      Attempts b r place (limit + 1) count rest

end Recorder

/-- A start is given up exactly if the run is. -/
theorem Parser.Records.start_aborts_iff {p : Parser α} {r : Bool → Recorder α} (h : p.Records r)
    {mode : Mode} {inp : Input} {scopes scopes' : Scopes} {report : Report α} {m : Misuse}
    (hstart : p.start mode inp scopes = some (report, scopes')) :
    report.reply = .aborted m ↔ (r (mode.listens scopes)).Aborts m inp := by
  have hreply := h.startReply_eq mode inp scopes
  rw [Parser.startReply, hstart, Option.map_some] at hreply
  constructor
  · intro hm
    obtain ⟨reply, hrecorded, hsame⟩ := Option.map_eq_some_iff.1 hreply.symm
    obtain ⟨⟨reply', w⟩, hw, rfl⟩ := Option.map_eq_some_iff.1 hrecorded
    obtain rfl := mode.reply_eq_aborted_iff.1 (hsame.trans hm)
    exact ⟨w, hw⟩
  · rintro ⟨w, hw⟩
    rw [hw] at hreply
    exact (Option.some.inj hreply).trans (mode.reply_eq_aborted_iff.2 rfl)

section Grammars

variable {N : Type → Type} {σ : Type 1}

/-- The run of a grammar on an input, which is heard or not, gets to this part of the grammar at the
    given place, loud if it is heard there, while it collects so many traces. -/
inductive Grammar.Runs (attempts : Nat) (call : {α : Type} → N α → Bool → Recorder α)
    (part : Grammar N β) (loud : Bool) (place : Input) :
    Nat → Bool → {α : Type} → Grammar N α → Input → Prop
  | here : Runs attempts @call part loud place 0 loud part place
  | map {α γ : Type} (f : α → γ) {traces : Nat} {heard : Bool} {g : Grammar N α} {inp : Input}
      (h : Runs attempts @call part loud place traces heard g inp) :
      Runs attempts @call part loud place traces heard (.map f g) inp
  | filter {α : Type} (keep : α → Bool) {traces : Nat} {heard : Bool} {g : Grammar N α}
      {inp : Input} (h : Runs attempts @call part loud place traces heard g inp) :
      Runs attempts @call part loud place traces heard (.filter keep g) inp
  | first {α γ : Type} {traces : Nat} {heard : Bool} {g : Grammar N α} {next : α → Grammar N γ}
      {inp : Input} (h : Runs attempts @call part loud place traces heard g inp) :
      Runs attempts @call part loud place traces heard (.andThen g next) inp
  | next {α γ : Type} {traces : Nat} {heard : Bool} {g : Grammar N α} {next : α → Grammar N γ}
      {inp rest : Input} {value : α} {w : Trace}
      (hg : g.record attempts call heard inp = some (.matched rest value, w))
      (h : Runs attempts @call part loud place traces heard (next value) rest) :
      Runs attempts @call part loud place traces heard (.andThen g next) inp
  | orLeft {α : Type} {traces : Nat} {heard : Bool} {g g' : Grammar N α} {inp : Input}
      (h : Runs attempts @call part loud place traces heard g inp) :
      Runs attempts @call part loud place traces heard (.or g g') inp
  | orRight {α : Type} {traces : Nat} {heard : Bool} {g g' : Grammar N α} {inp : Input}
      {e : Failure} {w : Trace} (hg : g.record attempts call heard inp = some (.failed e, w))
      (h : Runs attempts @call part loud place traces heard g' inp) :
      Runs attempts @call part loud place traces heard (.or g g') inp
  | repeated {α : Type} {traces : Nat} {heard : Bool} {b : Bounds} {g : Grammar N α}
      {inp rest : Input}
      (hrest : Recorder.Attempts b (g.record attempts call heard) rest attempts 0 inp)
      (h : Runs attempts @call part loud place traces heard g rest) :
      Runs attempts @call part loud place traces heard (.repeated b g) inp
  | marked {α : Type} (label : String) {traces : Nat} {heard : Bool} {g : Grammar N α}
      {inp : Input} (h : Runs attempts @call part loud place traces heard g inp) :
      Runs attempts @call part loud place traces heard (.marked label g) inp
  | wrapped {α : Type} (w : Wrapper) {traces : Nat} {heard : Bool} {g : Grammar N α} {inp : Input}
      (h : Runs attempts @call part loud place traces heard g inp) :
      Runs attempts @call part loud place traces heard (.wrapped w g) inp
  | traced {α : Type} {traces : Nat} {heard : Bool} {g : Grammar N α} {inp : Input}
      (h : Runs attempts @call part loud place traces true g inp) :
      Runs attempts @call part loud place (traces + 1) heard (.traced g) inp

/-- The run of a grammar gets to this part, of the grammar or of one that is found for a symbol that
    it runs, in the state `there`, at the given place and with so much nesting left, loud if it is
    heard there, while it collects so many traces. -/
inductive Rulebook.Meets (book : Rulebook N σ) (attempts : Nat) (part : Grammar N β) (left : Nat)
    (there : σ) (loud : Bool) (place : Input) :
    Nat → Nat → Bool → {α : Type} → σ → Grammar N α → Input → Prop
  | here {α : Type} {traces : Nat} {heard : Bool} {g : Grammar N α} {inp : Input}
      (h : Grammar.Runs attempts (book.recordCall attempts left there) part loud place traces heard
        g inp) :
      Meets book attempts part left there loud place traces left heard there g inp
  | inside {α γ : Type} {traces inner nesting : Nat} {heard inside : Bool} {state state' : σ}
      {g : Grammar N α} {g' : Grammar N γ} {inp mid : Input} {n : N γ}
      (h : Grammar.Runs attempts (book.recordCall attempts (nesting + 1) state) (.symbol n) inside
        mid traces heard g inp)
      (hn : book.resolve state n = .ok (g', state'))
      (hinside : Meets book attempts part left there loud place inner nesting inside state' g'
        mid) :
      Meets book attempts part left there loud place (inner + traces) (nesting + 1) heard state g
        inp

/-- Why a run is given up at a part that it gets to: it is a symbol whose lookup is this misuse, or
    a mark that is heard, around something that leaves more than it is given. -/
inductive Rulebook.Refuses (book : Rulebook N σ) (attempts : Nat) :
    Misuse → Nat → σ → Bool → {β : Type} → Grammar N β → Input → Prop
  | symbol {m : Misuse} {nesting : Nat} {state : σ} {loud : Bool} {β : Type} {n : N β}
      {place : Input} (hn : book.resolve state n = .error m) :
      Refuses book attempts m (nesting + 1) state loud (.symbol n) place
  | overrun {nesting : Nat} {state : σ} {β : Type} {label : String} {g : Grammar N β}
      {place rest : Input} {value : β} {w : Trace}
      (hg : book.recorder ⟨attempts, nesting⟩ state g true place = some (.matched rest value, w))
      (hsize : place.size < rest.size) :
      Refuses book attempts .overrun nesting state true (.marked label g) place

/-- The run of a grammar meets a part at which it is given up for this reason, while it collects so
    many traces. -/
def Rulebook.GivesUp (book : Rulebook N σ) (limits : Limits) (m : Misuse) (traces : Nat)
    (heard : Bool) (state : σ) (g : Grammar N α) (inp : Input) : Prop :=
  ∃ (β : Type) (part : Grammar N β) (left : Nat) (there : σ) (loud : Bool) (place : Input),
    book.Meets limits.attempts part left there loud place traces limits.nesting heard state g inp ∧
      book.Refuses limits.attempts m left there loud part place

-- ============================================================================
-- Giving up
-- ============================================================================

namespace Recorder

variable {r : Recorder α} {b : Bounds} {m : Misuse}

/-- A repetition is given up if it gets to an attempt that is. -/
theorem Attempts.aborts {place rest : Input} {limit count : Nat}
    (h : Attempts b r place limit count rest) (hr : r.Aborts m place) :
    ∃ w, gather b r limit count rest = some (.error m, w) := by
  induction h with
  | now hfull =>
    obtain ⟨w, hw⟩ := hr
    refine ⟨[], ?_⟩
    rw [gather, if_neg (by rw [hfull]; exact Bool.false_ne_true), hw]
  | @later limit count rest after value w hfull hmatched hprogress _ ih =>
    obtain ⟨w', hw'⟩ := ih
    refine ⟨w ++ w', ?_⟩
    rw [gather, if_neg (by rw [hfull]; exact Bool.false_ne_true), hmatched]
    dsimp only
    rw [if_neg hprogress, hw']
    rfl

theorem exists_attempt {limit count : Nat} {rest : Input} {w : Trace}
    (h : gather b r limit count rest = some (.error m, w)) :
    ∃ place, Attempts b r place limit count rest ∧ r.Aborts m place := by
  induction limit generalizing count rest w with
  | zero => cases h
  | succ limit ih =>
    rw [gather] at h
    split at h
    · cases h
    · next hfull =>
      have hfull' : b.isFull count = false := Bool.eq_false_iff.2 hfull
      split at h
      · cases h
      · next after value w' hmatched =>
        split at h
        · cases h
        · next hprogress =>
          obtain ⟨⟨hauled, w''⟩, hlater, heq⟩ := Option.map_eq_some_iff.1 h
          cases hauled with
          | ok haul => cases heq
          | error m' =>
            obtain rfl : m' = m := Except.error.inj (Prod.mk.inj heq).1
            obtain ⟨place, hplace, haborts⟩ := ih hlater
            exact ⟨place, .later hfull' hmatched hprogress hplace, haborts⟩
      · cases h
      · next m' w' haborted =>
        cases h
        exact ⟨rest, .now hfull', w', haborted⟩

end Recorder

namespace Grammar

variable {attempts : Nat} {call : {α : Type} → N α → Bool → Recorder α} {m : Misuse}
  {part : Grammar N β} {loud heard : Bool} {place inp : Input} {traces : Nat} {g : Grammar N α}

/-- The symbols of a part are symbols of the grammar. -/
theorem Runs.has {n : N γ} (h : Runs attempts call part loud place traces heard g inp)
    (hn : part.Has n) : g.Has n := by
  induction h with
  | here => exact hn
  | map f _ ih => exact .map f ih
  | filter keep _ ih => exact .filter keep ih
  | first _ ih => exact .first ih
  | next _ _ ih => exact .next _ ih
  | orLeft _ ih => exact .orLeft ih
  | orRight _ _ ih => exact .orRight ih
  | repeated _ _ ih => exact .repeated _ ih
  | marked label _ ih => exact .marked label ih
  | wrapped w _ ih => exact .wrapped w ih
  | traced _ ih => exact .traced ih

/-- A part is heard if the run is, and inside a trace that is collected. -/
theorem Runs.loud_iff (h : Runs attempts call part loud place traces heard g inp) :
    loud = true ↔ heard = true ∨ traces ≠ 0 := by
  induction h with
  | here => exact (or_iff_left (not_not_intro rfl)).symm
  | map _ _ ih | filter _ _ ih | first _ ih | next _ _ ih | orLeft _ ih | orRight _ _ ih
  | repeated _ _ ih | marked _ _ ih | wrapped _ _ ih => exact ih
  | traced _ ih => exact ⟨fun _ => .inr (Nat.succ_ne_zero _), fun _ => ih.2 (.inl rfl)⟩

/-- A mark is given up where what it marks is. -/
theorem marked_aborts (label : String) (h : (g.record attempts call heard).Aborts m inp) :
    ((marked label g).record attempts call heard).Aborts m inp := by
  cases heard with
  | true =>
    obtain ⟨w, hw⟩ := h
    exact ⟨[], by rw [record, Recorder.marked, hw]; rfl⟩
  | false => exact h

/-- A run is given up where a part is that it gets to. -/
theorem Runs.aborts (h : Runs attempts call part loud place traces heard g inp)
    (hpart : (part.record attempts call loud).Aborts m place) :
    (g.record attempts call heard).Aborts m inp := by
  induction h with
  | here => exact hpart
  | map f _ ih =>
    obtain ⟨w, hw⟩ := ih
    exact ⟨[], by rw [record, Recorder.map, hw]⟩
  | filter keep _ ih =>
    obtain ⟨w, hw⟩ := ih
    exact ⟨[], by rw [record, Recorder.filter, hw]⟩
  | first _ ih =>
    obtain ⟨w, hw⟩ := ih
    exact ⟨[], by rw [record, Recorder.andThen, hw]⟩
  | next hg _ ih =>
    obtain ⟨w, hw⟩ := ih
    exact ⟨_, by rw [record, Recorder.andThen, hg]; dsimp only; rw [hw]; rfl⟩
  | orLeft _ ih =>
    obtain ⟨w, hw⟩ := ih
    exact ⟨[], by rw [record, Recorder.or, hw]⟩
  | orRight hg _ ih =>
    obtain ⟨w, hw⟩ := ih
    exact ⟨_, by rw [record, Recorder.or, hg]; dsimp only; rw [hw]; rfl⟩
  | repeated hrest _ ih =>
    obtain ⟨w, hw⟩ := hrest.aborts ih
    exact ⟨[], by rw [record, Recorder.repeated, hw]⟩
  | marked label _ ih => exact marked_aborts label ih
  | wrapped _ _ ih => exact ih
  | traced _ ih =>
    obtain ⟨w, hw⟩ := ih
    exact ⟨[], by rw [record, Recorder.traced, hw]⟩

/-- What a run is given up for at a part that it gets to: a symbol that is given up, or a mark that
    is heard, around something that leaves more than it is given. -/
inductive Faults (attempts : Nat) (call : {α : Type} → N α → Bool → Recorder α) :
    Misuse → Bool → {β : Type} → Grammar N β → Input → Prop
  | symbol {m : Misuse} {loud : Bool} {β : Type} {n : N β} {place : Input}
      (h : (call n loud).Aborts m place) : Faults attempts @call m loud (.symbol n) place
  | overrun {β : Type} {label : String} {g : Grammar N β} {place rest : Input} {value : β}
      {w : Trace} (hg : g.record attempts call true place = some (.matched rest value, w))
      (hsize : place.size < rest.size) :
      Faults attempts @call .overrun true (.marked label g) place

/-- A run gets to a part that it is given up for. -/
def FindsFault (attempts : Nat) (call : {α : Type} → N α → Bool → Recorder α) (m : Misuse)
    (heard : Bool) (g : Grammar N α) (inp : Input) : Prop :=
  ∃ (β : Type) (part : Grammar N β) (loud : Bool) (place : Input) (traces : Nat),
    Runs attempts call part loud place traces heard g inp ∧ Faults attempts call m loud part place

/-- A run gets to the part that another one gets to, if it gets to whatever that one does. -/
theorem FindsFault.lift {heard' : Bool} {g' : Grammar N γ} {inp' : Input}
    (h : FindsFault attempts call m heard g inp)
    (hlift : ∀ {β : Type} {part : Grammar N β} {loud : Bool} {place : Input} {traces : Nat},
      Runs attempts call part loud place traces heard g inp →
        ∃ traces', Runs attempts call part loud place traces' heard' g' inp') :
    FindsFault attempts call m heard' g' inp' := by
  obtain ⟨β, part, loud, place, traces, hruns, hfaults⟩ := h
  obtain ⟨traces', hruns'⟩ := hlift hruns
  exact ⟨β, part, loud, place, traces', hruns', hfaults⟩

/-- A run that is given up gets to a part that it is given up for. -/
theorem findsFault_of_aborts (h : (g.record attempts call heard).Aborts m inp) :
    FindsFault attempts call m heard g inp := by
  obtain ⟨w, hw⟩ := h
  induction g generalizing heard inp w with
  | leaf step =>
    rw [record, Recorder.read] at hw
    split at hw <;> cases hw
  | map f g ih =>
    rw [record, Recorder.map] at hw
    split at hw
    · cases hw
    · cases hw
    · cases hw
    · next hg =>
      cases hw
      exact (ih _ hg).lift fun h => ⟨_, .map f h⟩
  | filter keep g ih =>
    rw [record, Recorder.filter] at hw
    split at hw
    · cases hw
    · split at hw <;> cases hw
    · cases hw
    · next hg =>
      cases hw
      exact (ih _ hg).lift fun h => ⟨_, .filter keep h⟩
  | andThen g next ih ihnext =>
    rw [record, Recorder.andThen] at hw
    split at hw
    · cases hw
    · next rest value w' hg =>
      obtain ⟨⟨reply, w''⟩, hlater, heq⟩ := Option.map_eq_some_iff.1 hw
      obtain ⟨rfl, -⟩ := Prod.mk.inj heq
      exact (ihnext value _ hlater).lift fun h => ⟨_, .next hg h⟩
    · cases hw
    · next hg =>
      cases hw
      exact (ih _ hg).lift fun h => ⟨_, .first h⟩
  | or g g' ih ih' =>
    rw [record, Recorder.or] at hw
    split at hw
    · cases hw
    · cases hw
    · next e w' hg =>
      obtain ⟨⟨reply, w''⟩, hlater, heq⟩ := Option.map_eq_some_iff.1 hw
      obtain ⟨rfl, -⟩ := Prod.mk.inj heq
      exact (ih' _ hlater).lift fun h => ⟨_, .orRight hg h⟩
    · next hg =>
      cases hw
      exact (ih _ hg).lift fun h => ⟨_, .orLeft h⟩
  | repeated b g ih =>
    rw [record, Recorder.repeated] at hw
    split at hw
    · cases hw
    · exact absurd (Prod.mk.inj (Option.some.inj hw)).1 (Parser.judge_ne_aborted b inp _ m)
    · next hgather =>
      cases hw
      obtain ⟨rest, hrest, w'', hg⟩ := Recorder.exists_attempt hgather
      exact (ih _ hg).lift fun h => ⟨_, .repeated hrest h⟩
  | marked label g ih =>
    cases heard with
    | false => exact (ih w hw).lift fun h => ⟨_, .marked label h⟩
    | true =>
      rw [record, Recorder.marked] at hw
      split at hw
      · cases hw
      · next reply w' hg =>
        split at hw
        · next hcount =>
          cases hw
          -- What is marked was given up already, or there are no bytes to count.
          rcases Parser.outcome_eq_error hcount with rfl | ⟨rfl, rest, value, rfl, hsize⟩
          · exact (ih w' hg).lift fun h => ⟨_, .marked label h⟩
          · exact ⟨_, .marked label g, true, inp, 0, .here, .overrun hg hsize⟩
        · next hcount =>
          obtain ⟨rfl, -⟩ := Prod.mk.inj (Option.some.inj hw)
          cases hcount
  | wrapped wrapper g ih => exact (ih w hw).lift fun h => ⟨_, .wrapped wrapper h⟩
  | traced g ih =>
    rw [record, Recorder.traced] at hw
    split at hw
    · cases hw
    · cases hw
    · cases hw
    · next hg =>
      cases hw
      exact (ih _ hg).lift fun h => ⟨_, .traced h⟩
  | symbol n => exact ⟨_, .symbol n, heard, inp, 0, .here, .symbol ⟨w, hw⟩⟩

end Grammar

namespace Rulebook

variable {book : Rulebook N σ} {attempts nesting : Nat} {m : Misuse} {part : Grammar N β}
  {left : Nat} {there state : σ} {loud heard : Bool} {place inp : Input} {traces : Nat}
  {g : Grammar N α}

theorem recordCall_aborts_iff {n : N β} :
    (book.recordCall attempts (nesting + 1) state n heard).Aborts m inp ↔
      book.resolve state n = .error m ∨ ∃ g state', book.resolve state n = .ok (g, state') ∧
        (book.recorder ⟨attempts, nesting⟩ state' g heard).Aborts m inp := by
  simp only [Recorder.Aborts, recordCall]
  cases hresolve : book.resolve state n with
  | error m' =>
    constructor
    · rintro ⟨w, hw⟩
      cases hw
      exact .inl rfl
    · rintro (heq | ⟨g, state', heq, -⟩)
      · cases heq
        exact ⟨[], rfl⟩
      · cases heq
  | ok found =>
    constructor
    · exact fun haborts => .inr ⟨found.1, found.2, rfl, haborts⟩
    · rintro (heq | ⟨g, state', heq, haborts⟩)
      · cases heq
      · cases heq
        exact haborts

theorem Refuses.aborts (h : book.Refuses attempts m left there loud part place) :
    (book.recorder ⟨attempts, left⟩ there part loud).Aborts m place := by
  cases h with
  | symbol hn => exact recordCall_aborts_iff.2 (.inl hn)
  | overrun hg hsize => exact ⟨[], Recorder.marked_eq_of_lt hg hsize⟩

/-- A run is given up where a part is that it meets. -/
theorem Meets.aborts
    (h : book.Meets attempts part left there loud place traces nesting heard state g inp)
    (hpart : (book.recorder ⟨attempts, left⟩ there part loud).Aborts m place) :
    (book.recorder ⟨attempts, nesting⟩ state g heard).Aborts m inp := by
  induction h with
  | here hruns => exact hruns.aborts hpart
  | inside hruns hn _ ih => exact hruns.aborts (recordCall_aborts_iff.2 (.inr ⟨_, _, hn, ih⟩))

/-- A run is given up for a reason exactly if it meets a part at which it is. -/
theorem aborts_iff_givesUp :
    (book.recorder ⟨attempts, nesting⟩ state g heard).Aborts m inp ↔
      ∃ traces, book.GivesUp ⟨attempts, nesting⟩ m traces heard state g inp := by
  constructor
  · intro haborts
    induction nesting generalizing state g inp heard α with
    | zero =>
      obtain ⟨β, part, loud, place, traces, hruns, hfaults⟩ :=
        Grammar.findsFault_of_aborts haborts
      cases hfaults with
      | symbol h => exact nomatch h
      | overrun hg hsize =>
        exact ⟨traces, β, _, 0, state, true, place, .here hruns, .overrun hg hsize⟩
    | succ nesting ih =>
      obtain ⟨β, part, loud, place, traces, hruns, hfaults⟩ :=
        Grammar.findsFault_of_aborts haborts
      cases hfaults with
      | overrun hg hsize =>
        exact ⟨traces, β, _, nesting + 1, state, true, place, .here hruns, .overrun hg hsize⟩
      | symbol h =>
        rcases recordCall_aborts_iff.1 h with hmisuse | ⟨g', state', hfound, hinside⟩
        · exact ⟨traces, β, _, nesting + 1, state, loud, place, .here hruns, .symbol hmisuse⟩
        · obtain ⟨inner, γ, part', left, there, loud', place', hmeets, hrefuses⟩ := ih hinside
          exact ⟨inner + traces, γ, part', left, there, loud', place',
            .inside hruns hfound hmeets, hrefuses⟩
  · rintro ⟨traces, β, part, left, there, loud, place, hmeets, hrefuses⟩
    exact hmeets.aborts hrefuses.aborts

/-- What holds of the symbols of a grammar, and of those of every grammar found for such a symbol,
    holds of every symbol that is met. -/
theorem Meets.holds {S : σ → {α : Type} → N α → Prop}
    (hbook : ∀ {α : Type} (state state' : σ) (n : N α) (g : Grammar N α), S state n →
      book.resolve state n = .ok (g, state') → g.Over (fun _ => True) (S state')) {n : N β}
    (h : book.Meets attempts (.symbol n) left there loud place traces nesting heard state g inp)
    (hg : g.Over (fun _ => True) (S state)) : S there n := by
  induction h with
  | here hruns => exact hg.of_has (hruns.has .symbol)
  | inside hruns hfound _ ih => exact ih (hbook _ _ _ _ (hg.of_has (hruns.has .symbol)) hfound)

end Rulebook

end Grammars

end Descent
