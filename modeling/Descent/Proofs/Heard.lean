/-
  Descent.Proofs.Heard

  Whether somebody listens.  A run that is heard and one that is not do the same, step by step,
  until a mark is to report a parser that left more than it was given: the one that is heard is
  given up there, and the other one goes on.  Where all single steps leave ends of their input no
  parser leaves more than it was given, and so it makes no difference at all who listens.

  Two recorders agree if they answer every input in the same way, with values that are related and
  whatever events.  Two allowances are parameters: that the first run is given up for a count of
  bytes, and that failures are placed elsewhere.  Each combinator takes recorders that agree to
  recorders that agree, if its function does not tell related values apart, and a mark may stand on
  one side alone.
-/
import Mathlib.Data.List.Forall2
import Descent.Proofs.Answers
import Descent.Proofs.Contract

namespace Descent

variable {α β : Type}

-- ============================================================================
-- Recorders that keep to their input
-- ============================================================================

/-- Every reply that is recorded is within the input. -/
def Recorder.Faithful (r : Recorder α) : Prop :=
  ∀ inp reply w, r inp = some (reply, w) → reply.Within inp

/-- What is recorded for a faithful parser, heard or not, is within the input. -/
theorem Parser.Faithful.recorder {p : Parser α} {r : Bool → Recorder α} (hp : p.Faithful)
    (h : p.Records r) (heard : Bool) : (r heard).Faithful := by
  intro inp reply w hr
  obtain ⟨scopes, scopes', hrun⟩ := h.exists_run hr
  exact hp inp scopes reply scopes' hrun

/-- Symbols are run by faithful parsers, and this is what is recorded for them. -/
structure Grammar.FaithfulCalls {N : Type → Type} (call : {α : Type} → N α → Parser α)
    (call' : {α : Type} → N α → Bool → Recorder α) : Prop where
  records {α : Type} (n : N α) : Parser.Records (call n) (call' n)
  faithful {α : Type} (n : N α) : Parser.Faithful (call n)

section Grammars

variable {N : Type → Type} {σ : Type 1} {attempts : Nat} {call : {α : Type} → N α → Parser α}
  {call' : {α : Type} → N α → Bool → Recorder α} {g : Grammar N α}

theorem Rulebook.faithfulCalls {book : Rulebook N σ} {Allowed : σ → Prop}
    (hbook : book.Honest Allowed) (attempts nesting : Nat) {state : σ} (hstate : Allowed state) :
    Grammar.FaithfulCalls (fun n => book.call attempts nesting state n)
      fun n => book.recordCall attempts nesting state n where
  records n := book.call_records attempts nesting state n
  faithful n := Rulebook.call_faithful hbook attempts nesting hstate n

/-- Over honest steps, and symbols that are run by faithful parsers, whatever is recorded is within
    the input. -/
theorem Grammar.record_faithful (hcall : FaithfulCalls call call') (hg : g.Honest) (heard : Bool) :
    (g.record attempts call' heard).Faithful := by
  have hparser : (g.eval attempts call).Faithful :=
    Grammar.eval_faithful (fun n _ => hcall.faithful n) hg
  exact hparser.recorder (Grammar.eval_records hcall.records g) heard

end Grammars

-- ============================================================================
-- Answers that agree
-- ============================================================================

section Agreement

variable {may moved : Prop} {R : α → α → Prop} {T : β → β → Prop}

/-- The same answer up to related values, whatever the events are; but if it may be so, the first
    run can be given up because a parser left more than it was given, and if they are moved,
    failures can be placed differently. -/
inductive Agree (may moved : Prop) (R : α → α → Prop) (x y : Option (Reply α × Trace)) : Prop
  | unanswered (hx : x = none) (hy : y = none)
  | matched {rest : Input} {a b : α} {w w' : Trace} (hab : R a b)
      (hx : x = some (.matched rest a, w)) (hy : y = some (.matched rest b, w'))
  | failed {e e' : Failure} {w w' : Trace} (he : moved ∨ e = e') (hx : x = some (.failed e, w))
      (hy : y = some (.failed e', w'))
  | aborted {m : Misuse} {w w' : Trace} (hx : x = some (.aborted m, w))
      (hy : y = some (.aborted m, w'))
  | overrun (hmay : may) {w : Trace} (hx : x = some (.aborted .overrun, w))

namespace Agree

variable {x y : Option (Reply α × Trace)}

theorem weaken {T : α → α → Prop} (h : Agree may moved R x y) (hRT : ∀ a b, R a b → T a b) :
    Agree may moved T x y := by
  cases h with
  | unanswered hx hy => exact .unanswered hx hy
  | matched hab hx hy => exact .matched (hRT _ _ hab) hx hy
  | failed he hx hy => exact .failed he hx hy
  | aborted hx hy => exact .aborted hx hy
  | overrun hmay hx => exact .overrun hmay hx

/-- Events put in front make no difference. -/
theorem behind (h : Agree may moved R x y) (w w' : Trace) :
    Agree may moved R (x.map fun (reply, v) => (reply, w ++ v))
      (y.map fun (reply, v) => (reply, w' ++ v)) := by
  cases h with
  | unanswered hx hy => exact .unanswered (by rw [hx]; rfl) (by rw [hy]; rfl)
  | matched hab hx hy => exact .matched hab (by rw [hx]; rfl) (by rw [hy]; rfl)
  | failed he hx hy => exact .failed he (by rw [hx]; rfl) (by rw [hy]; rfl)
  | aborted hx hy => exact .aborted (by rw [hx]; rfl) (by rw [hy]; rfl)
  | overrun hmay hx => exact .overrun hmay (by rw [hx]; rfl)

/-- Where values are related only to themselves the replies are the same, or the first run was given
    up for itself. -/
theorem reply_eq_or (h : Agree may False Eq x y) :
    x.map Prod.fst = y.map Prod.fst ∨ may ∧ ∃ w, x = some (.aborted .overrun, w) := by
  cases h with
  | unanswered hx hy => exact .inl (by rw [hx, hy])
  | matched hab hx hy =>
    subst hab
    exact .inl (by rw [hx, hy]; rfl)
  | failed he hx hy =>
    obtain rfl := he.resolve_left id
    exact .inl (by rw [hx, hy]; rfl)
  | aborted hx hy => exact .inl (by rw [hx, hy]; rfl)
  | overrun hmay hx => exact .inr ⟨hmay, _, hx⟩

theorem reply_eq (h : Agree False False Eq x y) : x.map Prod.fst = y.map Prod.fst :=
  h.reply_eq_or.resolve_right fun hmay => hmay.1

/-- What the first run comes out with, so does the second one. -/
theorem exists_right (h : Agree may False Eq x y) {reply : Reply α} {w : Trace}
    (hx : x = some (reply, w)) (hreply : ∀ m, reply ≠ .aborted m) : ∃ w', y = some (reply, w') := by
  rcases h.reply_eq_or with heq | ⟨-, w', hoverrun⟩
  · rw [hx] at heq
    obtain ⟨⟨reply', w'⟩, hy, rfl⟩ := Option.map_eq_some_iff.1 heq.symm
    exact ⟨w', hy⟩
  · obtain ⟨rfl, -⟩ := Prod.mk.inj (Option.some.inj (hx.symm.trans hoverrun))
    exact absurd rfl (hreply _)

/-- What the second run ends with, so does the first one, unless it was given up for itself. -/
theorem exists_left (h : Agree may False Eq x y) {reply : Reply α} {w : Trace}
    (hy : y = some (reply, w)) :
    (∃ w', x = some (reply, w')) ∨ may ∧ ∃ w', x = some (.aborted .overrun, w') := by
  refine h.reply_eq_or.imp_left fun heq => ?_
  rw [hy] at heq
  obtain ⟨⟨reply', w'⟩, hx, rfl⟩ := Option.map_eq_some_iff.1 heq
  exact ⟨w', hx⟩

end Agree

namespace Recorder

/-- Answers to every input that agree. -/
def Agrees (may moved : Prop) (R : α → α → Prop) (r s : Recorder α) : Prop :=
  ∀ inp, Agree may moved R (r inp) (s inp)

variable {r r' s s' : Recorder α}

theorem read_agrees {step : Input → Except Failure (Input × α)}
    (hstep : ∀ inp rest value, step inp = .ok (rest, value) → R value value) :
    (read step).Agrees may moved R (read step) := by
  intro inp
  cases hread : step inp with
  | ok next =>
    exact .matched (hstep inp _ _ hread) (by rw [read, hread]) (by rw [read, hread])
  | error e => exact .failed (.inr rfl) (by rw [read, hread]) (by rw [read, hread])

theorem map_agrees {f f' : α → β} (hf : ∀ a b, R a b → T (f a) (f' b))
    (h : r.Agrees may moved R s) : (map f r).Agrees may moved T (map f' s) := by
  intro inp
  cases h inp with
  | unanswered hx hy => exact .unanswered (by rw [map, hx]) (by rw [map, hy])
  | matched hab hx hy => exact .matched (hf _ _ hab) (by rw [map, hx]) (by rw [map, hy])
  | failed he hx hy => exact .failed he (by rw [map, hx]) (by rw [map, hy])
  | aborted hx hy => exact .aborted (by rw [map, hx]) (by rw [map, hy])
  | overrun hmay hx => exact .overrun hmay (by rw [map, hx])

theorem filter_agrees {keep keep' : α → Bool} (hkeep : ∀ a b, R a b → keep a = keep' b)
    (h : r.Agrees may moved R s) : (filter keep r).Agrees may moved R (filter keep' s) := by
  intro inp
  cases h inp with
  | unanswered hx hy => exact .unanswered (by rw [filter, hx]) (by rw [filter, hy])
  | @matched rest a b w w' hab hx hy =>
    have hboth := hkeep a b hab
    cases hb : keep' b with
    | true =>
      rw [hb] at hboth
      exact .matched hab (by simp only [filter, hx, hboth]; rfl)
        (by simp only [filter, hy, hb]; rfl)
    | false =>
      rw [hb] at hboth
      exact .failed (.inr rfl) (by simp only [filter, hx, hboth]; rfl)
        (by simp only [filter, hy, hb]; rfl)
  | failed he hx hy => exact .failed he (by rw [filter, hx]) (by rw [filter, hy])
  | aborted hx hy => exact .aborted (by rw [filter, hx]) (by rw [filter, hy])
  | overrun hmay hx => exact .overrun hmay (by rw [filter, hx])

theorem andThen_agrees {next next' : α → Recorder β} (h : r.Agrees may moved R s)
    (hnext : ∀ a b, R a b → (next a).Agrees may moved T (next' b)) :
    (andThen r next).Agrees may moved T (andThen s next') := by
  intro inp
  cases h inp with
  | unanswered hx hy => exact .unanswered (by rw [andThen, hx]) (by rw [andThen, hy])
  | @matched rest a b w w' hab hx hy =>
    rw [andThen, hx, andThen, hy]
    exact (hnext a b hab rest).behind w w'
  | failed he hx hy => exact .failed he (by rw [andThen, hx]) (by rw [andThen, hy])
  | aborted hx hy => exact .aborted (by rw [andThen, hx]) (by rw [andThen, hy])
  | overrun hmay hx => exact .overrun hmay (by rw [andThen, hx])

theorem or_agrees (h : r.Agrees may moved R s) (h' : r'.Agrees may moved R s') :
    (or r r').Agrees may moved R (or s s') := by
  intro inp
  cases h inp with
  | unanswered hx hy => exact .unanswered (by rw [or, hx]) (by rw [or, hy])
  | matched hab hx hy => exact .matched hab (by rw [or, hx]) (by rw [or, hy])
  | @failed e e' w w' he hx hy =>
    rw [or, hx, or, hy]
    exact (h' inp).behind w w'
  | aborted hx hy => exact .aborted (by rw [or, hx]) (by rw [or, hy])
  | overrun hmay hx => exact .overrun hmay (by rw [or, hx])

/-! ### Repetition -/

/-- The same hauled up to related values, whatever the events are. -/
inductive AgreeHaul (may moved : Prop) (R : α → α → Prop)
    (x y : Option (Except Misuse (Haul α) × Trace)) : Prop
  | unanswered (hx : x = none) (hy : y = none)
  | stopped {as bs : List α} {rest : Input} {stop stop' : Stop} {w w' : Trace}
      (hitems : List.Forall₂ R as bs) (hstop : moved ∨ stop = stop')
      (hx : x = some (.ok ⟨as, rest, stop⟩, w)) (hy : y = some (.ok ⟨bs, rest, stop'⟩, w'))
  | aborted {m : Misuse} {w w' : Trace} (hx : x = some (.error m, w)) (hy : y = some (.error m, w'))
  | overrun (hmay : may) {w : Trace} (hx : x = some (.error .overrun, w))

theorem gather_agrees (h : r.Agrees may moved R s) (b : Bounds) (limit count : Nat) (rest : Input) :
    AgreeHaul may moved R (gather b r limit count rest) (gather b s limit count rest) := by
  -- Along the attempts that are left; both sides stop at the same one.
  induction limit generalizing count rest with
  | zero => exact .unanswered rfl rfl
  | succ limit ih =>
    rw [gather, gather]
    cases hfull : b.isFull count with
    | true => exact .stopped .nil (.inr rfl) rfl rfl
    | false =>
      simp only [Bool.false_eq_true, if_false]
      cases h rest with
      | unanswered hx hy => exact .unanswered (by rw [hx]) (by rw [hy])
      | @matched after a b w w' hab hx hy =>
        rw [hx, hy]
        by_cases hidle : after.size = rest.size
        · simp only [hidle, if_true]
          exact .stopped .nil (.inr rfl) rfl rfl
        · simp only [hidle, if_false]
          cases ih (count + 1) after with
          | unanswered hx' hy' => exact .unanswered (by rw [hx']; rfl) (by rw [hy']; rfl)
          | stopped hitems hstop hx' hy' =>
            exact .stopped (.cons hab hitems) hstop (by rw [hx']; rfl) (by rw [hy']; rfl)
          | aborted hx' hy' => exact .aborted (by rw [hx']; rfl) (by rw [hy']; rfl)
          | overrun hmay hx' => exact .overrun hmay (by rw [hx']; rfl)
      | failed he hx hy =>
        exact .stopped .nil (he.imp_right (congrArg Stop.refused)) (by rw [hx]) (by rw [hy])
      | aborted hx hy => exact .aborted (by rw [hx]) (by rw [hy])
      | overrun hmay hx => exact .overrun hmay (by rw [hx])

/-- The verdict on a repetition depends on how much it gathered, and only the place of a failure on
    why it stopped. -/
theorem judge_agree (b : Bounds) (inp rest : Input) {stop stop' : Stop} {as bs : List α}
    (hitems : List.Forall₂ R as bs) (hstop : moved ∨ stop = stop') (w w' : Trace) :
    Agree may moved (List.Forall₂ R) (some (Parser.judge b inp ⟨as, rest, stop⟩, w))
      (some (Parser.judge b inp ⟨bs, rest, stop'⟩, w')) := by
  have hlength : as.length = bs.length := hitems.length_eq
  by_cases hle : b.least ≤ as.length
  · exact .matched hitems (by rw [Parser.judge_of_le hle])
      (by rw [Parser.judge_of_le (hlength ▸ hle : b.least ≤ bs.length)])
  · cases hitems with
    | nil =>
      have fails (stop : Stop) :
          ∃ e, Parser.judge b inp ⟨([] : List α), rest, stop⟩ = .failed e := by
        rw [Parser.judge, if_neg hle]
        cases stop with
        | full | idle | refused e => exact ⟨_, rfl⟩
      rcases hstop with hmoved | rfl
      · obtain ⟨e, he⟩ := fails stop
        obtain ⟨e', he'⟩ := fails stop'
        exact .failed (.inl hmoved) (by rw [he]) (by rw [he'])
      · obtain ⟨e, he⟩ := fails stop
        exact .failed (.inr rfl) (by rw [he]) (by rw [he])
    | @cons a a' as bs hab hitems =>
      have hfew : (a :: as).length < b.least := Nat.lt_of_not_le hle
      exact .failed (.inr rfl) (by rw [Parser.judge_of_lt hfew (List.cons_ne_nil a as)])
        (by rw [Parser.judge_of_lt (hlength ▸ hfew : (a' :: bs).length < b.least)
          (List.cons_ne_nil a' bs)])

theorem repeated_agrees (limit : Nat) (b : Bounds) (h : r.Agrees may moved R s) :
    (repeated limit b r).Agrees may moved (List.Forall₂ R) (repeated limit b s) := by
  intro inp
  cases gather_agrees h b limit 0 inp with
  | unanswered hx hy => exact .unanswered (by rw [repeated, hx]) (by rw [repeated, hy])
  | @stopped as bs rest stop stop' w w' hitems hstop hx hy =>
    rw [repeated, hx, repeated, hy]
    exact judge_agree b inp rest hitems hstop w w'
  | aborted hx hy => exact .aborted (by rw [repeated, hx]) (by rw [repeated, hy])
  | overrun hmay hx => exact .overrun hmay (by rw [repeated, hx])

/-! ### Traces -/

/-- A mark can stand on the first side alone, if it may give the run up or never has to. -/
theorem marked_agrees (label : String) (hr : may ∨ r.Faithful) (h : r.Agrees may moved R s) :
    (marked label r).Agrees may moved R s := by
  intro inp
  cases h inp with
  | unanswered hx hy => exact .unanswered (by rw [marked, hx]) hy
  | @matched rest a b w w' hab hx hy =>
    rcases Nat.lt_or_ge inp.size rest.size with hsize | hsize
    · rcases hr with hmay | hr
      · exact .overrun hmay (marked_eq_of_lt hx hsize)
      · exact absurd (Input.size_le_of_suffix (hr inp _ w hx)) (Nat.not_le_of_lt hsize)
    · exact .matched hab (marked_eq_of_le hx hsize) hy
  | failed he hx hy => exact .failed he (by rw [marked, hx]; rfl) hy
  | aborted hx hy => exact .aborted (by rw [marked, hx]; rfl) hy
  | overrun hmay hx => exact .overrun hmay (by rw [marked, hx]; rfl)

/-- On both sides it comes to the same. -/
theorem marked_agrees_marked (label : String) (h : r.Agrees may moved R s) :
    (marked label r).Agrees may moved R (marked label s) := by
  intro inp
  cases h inp with
  | unanswered hx hy => exact .unanswered (by rw [marked, hx]) (by rw [marked, hy])
  | @matched rest a b w w' hab hx hy =>
    rcases Nat.lt_or_ge inp.size rest.size with hsize | hsize
    · exact .aborted (marked_eq_of_lt hx hsize) (marked_eq_of_lt hy hsize)
    · exact .matched hab (marked_eq_of_le hx hsize) (marked_eq_of_le hy hsize)
  | failed he hx hy => exact .failed he (by rw [marked, hx]; rfl) (by rw [marked, hy]; rfl)
  | aborted hx hy => exact .aborted (by rw [marked, hx]; rfl) (by rw [marked, hy]; rfl)
  | overrun hmay hx => exact .overrun hmay (by rw [marked, hx]; rfl)

/-- The collected traces need not be the same. -/
theorem traced_agrees (h : r.Agrees may moved R s) :
    (traced r).Agrees may moved (fun a b => R a.1 b.1) (traced s) := by
  intro inp
  cases h inp with
  | unanswered hx hy => exact .unanswered (by rw [traced, hx]) (by rw [traced, hy])
  | matched hab hx hy => exact .matched hab (by rw [traced, hx]) (by rw [traced, hy])
  | failed he hx hy => exact .failed he (by rw [traced, hx]) (by rw [traced, hy])
  | aborted hx hy => exact .aborted (by rw [traced, hx]) (by rw [traced, hy])
  | overrun hmay hx => exact .overrun hmay (by rw [traced, hx])

theorem Agrees.refl (r : Recorder α) : r.Agrees may moved Eq r := by
  intro inp
  cases hr : r inp with
  | none => exact .unanswered rfl rfl
  | some record =>
    obtain ⟨reply, w⟩ := record
    cases reply with
    | matched rest value => exact .matched rfl rfl rfl
    | failed e => exact .failed (.inr rfl) rfl rfl
    | aborted m => exact .aborted rfl rfl

end Recorder

end Agreement

-- ============================================================================
-- Heard and unheard
-- ============================================================================

section Grammars

variable {N : Type → Type} {σ : Type 1} {may : Prop}

/-- A run that is heard and one that is not do the same, unless the former is given up for a count
    of bytes.  It cannot be where all steps are honest. -/
theorem Grammar.record_agrees_unheard {attempts : Nat} {call : {α : Type} → N α → Parser α}
    {call' : {α : Type} → N α → Bool → Recorder α}
    (hfaithful : may ∨ FaithfulCalls call call')
    (hcall : ∀ {α : Type} (n : N α), Recorder.Agrees may False Eq (call' n true) (call' n false))
    {g : Grammar N α} (hg : may ∨ g.Honest) :
    Recorder.Agrees may False Eq (g.record attempts call' true)
      (g.record attempts call' false) := by
  induction g with
  | leaf step => exact .refl _
  | map f g ih => exact Recorder.map_agrees (fun a b hab => congrArg f hab) (ih hg)
  | filter keep g ih => exact Recorder.filter_agrees (fun a b hab => congrArg keep hab) (ih hg)
  | andThen g next ihg ihnext =>
    refine Recorder.andThen_agrees (ihg (hg.imp_right And.left)) fun a b hab => ?_
    subst hab
    exact ihnext a (hg.imp_right fun h => h.2 a)
  | or g h ihg ihh =>
    exact Recorder.or_agrees (ihg (hg.imp_right And.left)) (ihh (hg.imp_right And.right))
  | repeated b g ih =>
    intro inp
    exact (Recorder.repeated_agrees attempts b (ih hg) inp).weaken fun as bs h =>
      List.forall₂_eq_eq_eq ▸ h
  | marked label g ih =>
    refine Recorder.marked_agrees label ?_ (ih hg)
    rcases hfaithful with hmay | hfaithful
    · exact .inl hmay
    · exact hg.imp_right fun hg => Grammar.record_faithful hfaithful hg true
  | wrapped w g ih => exact ih hg
  | traced g ih => exact .refl _
  | symbol n => exact hcall n

namespace Rulebook

variable {book : Rulebook N σ} {Allowed : σ → Prop}

theorem recordCall_agrees_unheard (hbook : may ∨ book.Honest Allowed) (attempts nesting : Nat)
    {state : σ} (hstate : may ∨ Allowed state) (n : N α) :
    Recorder.Agrees may False Eq (book.recordCall attempts nesting state n true)
      (book.recordCall attempts nesting state n false) := by
  induction nesting generalizing state α with
  | zero => exact fun inp => .unanswered rfl rfl
  | succ nesting ih =>
    intro inp
    rw [recordCall, recordCall]
    cases hresolve : book.resolve state n with
    | error m => exact .aborted rfl rfl
    | ok found =>
      obtain ⟨g, state'⟩ := found
      have hfound : may ∨ book.Honest Allowed ∧ g.Honest ∧ Allowed state' := by
        rcases hbook with hmay | hbook
        · exact .inl hmay
        · exact hstate.imp_right fun hstate => ⟨hbook, hbook state state' n g hstate hresolve⟩
      refine Grammar.record_agrees_unheard
        (hfound.imp_right fun h => Rulebook.faithfulCalls h.1 attempts nesting h.2.2) ?_
        (hfound.imp_right fun h => h.2.1) inp
      exact fun n => ih (hfound.imp_right fun h => h.2.2) n

theorem recorder_agrees_unheard_of (hbook : may ∨ book.Honest Allowed) (limits : Limits)
    {state : σ} (hstate : may ∨ Allowed state) {g : Grammar N α} (hg : may ∨ g.Honest) :
    Recorder.Agrees may False Eq (book.recorder limits state g true)
      (book.recorder limits state g false) := by
  have hfaithful : may ∨ Grammar.FaithfulCalls
      (fun n => book.call limits.attempts limits.nesting state n)
      fun n => book.recordCall limits.attempts limits.nesting state n := by
    rcases hbook with hmay | hbook
    · exact .inl hmay
    · exact hstate.imp_right fun hstate => faithfulCalls hbook _ _ hstate
  exact Grammar.record_agrees_unheard hfaithful
    (fun n => recordCall_agrees_unheard hbook limits.attempts limits.nesting hstate n) hg

/-- Whatever the steps do, a count of bytes is all that being heard can make a difference by. -/
theorem recorder_agrees_unheard (book : Rulebook N σ) (limits : Limits) (state : σ)
    (g : Grammar N α) :
    Recorder.Agrees True False Eq (book.recorder limits state g true)
      (book.recorder limits state g false) := by
  have hbook : True ∨ book.Honest fun _ => True := .inl trivial
  exact recorder_agrees_unheard_of hbook limits (.inl trivial) (.inl trivial)

/-- Where all steps are honest it makes no difference to the reply who listens. -/
theorem Honest.recorder_reply_eq (hbook : book.Honest Allowed) (limits : Limits) {state : σ}
    (hstate : Allowed state) {g : Grammar N α} (hg : g.Honest) (heard heard' : Bool) (inp : Input) :
    (book.recorder limits state g heard inp).map Prod.fst =
      (book.recorder limits state g heard' inp).map Prod.fst := by
  have hhonest : False ∨ book.Honest Allowed := .inr hbook
  have hunheard := (recorder_agrees_unheard_of hhonest limits (.inr hstate) (.inr hg) inp).reply_eq
  cases heard with
  | true =>
    cases heard' with
    | true => rfl
    | false => exact hunheard
  | false =>
    cases heard' with
    | true => exact hunheard.symm
    | false => rfl

/-- The stack of open scopes holds the events that the grammar and the input alone decide, for every
    run that comes out, whatever was reported before.  Such a run adds them to the innermost scope
    and leaves the others as they are, and a start that collects a trace gives them and leaves all
    scopes as they were.  With no scope open none is there afterwards.  A run that comes out where
    somebody listens comes out where nobody does; conversely it does, unless a mark cannot count
    the bytes of what it marks, and where all steps leave ends of their input each mark can. -/
theorem scopes_hold_recorded (book : Rulebook N σ) (limits : Limits) (state : σ) (g : Grammar N α)
    (inp : Input) (reply : Reply α) (hreply : ∀ m, reply ≠ .aborted m) :
    (∀ frame outer stack, book.parser limits state g inp (frame :: outer) = some (reply, stack) ↔
      ∃ w, book.recorder limits state g true inp = some (reply, w) ∧
        stack = (w.reverse ++ frame) :: outer) ∧
    (∀ trace stack stack', (book.parser limits state g).start .traced inp stack =
        some (⟨reply, some trace, ""⟩, stack') ↔
      book.recorder limits state g true inp = some (reply, trace) ∧ stack' = stack) ∧
    (∀ printed stack stack', (book.parser limits state g).start .verbose inp stack =
        some (⟨reply, none, printed⟩, stack') ↔
      ∃ w, book.recorder limits state g true inp = some (reply, w) ∧ printed = w.shown ∧
        stack' = stack) ∧
    (∀ w, book.recorder limits state g true inp = some (reply, w) →
      book.parser limits state g inp [] = some (reply, [])) ∧
    (∀ stack, book.parser limits state g inp [] = some (reply, stack) → stack = [] ∧
      ((∃ w, book.recorder limits state g true inp = some (reply, w)) ∨ ∀ frame outer, ∃ stack',
        book.parser limits state g inp (frame :: outer) = some (.aborted .overrun, stack'))) ∧
    ∀ (Allowed : σ → Prop) (stack : Scopes), book.Honest Allowed → Allowed state → g.Honest →
      book.parser limits state g inp [] = some (reply, stack) →
      ∃ w, book.recorder limits state g true inp = some (reply, w) := by
  have hrecords := book.parser_records limits state g
  have hunheard := book.recorder_agrees_unheard limits state g inp
  refine ⟨?_, ?_, ?_, ?_, ?_, ?_⟩
  · exact fun frame outer stack => (hrecords inp (frame :: outer)).answer_eq_iff hreply
  · intro trace stack stack'
    rw [hrecords.start_eq_some_iff (show Mode.traced.Opens from trivial) hreply]
    constructor
    · rintro ⟨w, hw, hreport, hleft⟩
      cases hreport
      exact ⟨hw, hleft⟩
    · rintro ⟨hw, hleft⟩
      exact ⟨trace, hw, rfl, hleft⟩
  · intro printed stack stack'
    rw [hrecords.start_eq_some_iff (show Mode.verbose.Opens from trivial) hreply]
    constructor
    · rintro ⟨w, hw, hreport, hleft⟩
      cases hreport
      exact ⟨w, hw, rfl, hleft⟩
    · rintro ⟨w, hw, rfl, hleft⟩
      exact ⟨w, hw, rfl, hleft⟩
  · intro w hw
    obtain ⟨w', hw'⟩ := hunheard.exists_right hw hreply
    exact (hrecords inp []).answer_eq hw' hreply
  · intro stack hstack
    obtain ⟨w, hw, rfl⟩ := ((hrecords inp []).answer_eq_iff hreply).1 hstack
    refine ⟨rfl, (hunheard.exists_left hw).imp_right ?_⟩
    rintro ⟨-, w', hoverrun⟩ frame outer
    exact hrecords.exists_answer hoverrun
  · intro Allowed stack hbook hstate hg hstack
    obtain ⟨w, hw, -⟩ := ((hrecords inp []).answer_eq_iff hreply).1 hstack
    have hsame := hbook.recorder_reply_eq limits hstate hg true false inp
    rw [show book.recorder limits state g false inp = some (reply, w) from hw] at hsame
    obtain ⟨⟨reply', w'⟩, hw', rfl⟩ := Option.map_eq_some_iff.1 hsame
    exact ⟨w', hw'⟩

end Rulebook

end Grammars

/-- It makes no difference to the replies of what was built from honest pieces who listens. -/
theorem Built.recorder_reply_eq {b : Built} (hb : Kind.honest b) {rules : Rules}
    (hrules : rules.Honest) (limits : Limits) {store : Store} (hstore : store.All Kind.honest)
    (heard heard' : Bool) (inp : Input) :
    (b.recorder rules limits store heard inp).map Prod.fst =
      (b.recorder rules limits store heard' inp).map Prod.fst := by
  have hbook : rules.rulebook.Honest (Store.All Kind.honest) := hrules.rulebook
  exact hbook.recorder_reply_eq limits hstore hb heard heard' inp

/-- An element that is closed by another name: one event with the attempt at a child and the refused
    closing tag inside, behind what was reported before. -/
theorem scopes_hold_mismatched_tag :
    Markup.rulebook.parser ⟨9, 9⟩ ⟨⟩ (Markup.element .element) (.ofString "<a></b>")
        [[⟨"before", .matched 0, []⟩], []] =
      some (.failed ⟨.ofString "</b>"⟩, [[⟨"element", .failed 3,
        [⟨"element", .failed 1, []⟩, ⟨"close_element", .failed 0, []⟩]⟩,
        ⟨"before", .matched 0, []⟩], []]) := by
  have hrecord : Markup.rulebook.recorder ⟨9, 9⟩ ⟨⟩ (Markup.element .element) true
      (.ofString "<a></b>") = some (.failed ⟨.ofString "</b>"⟩, [⟨"element", .failed 3,
        [⟨"element", .failed 1, []⟩, ⟨"close_element", .failed 0, []⟩]⟩]) := by decide +kernel
  obtain ⟨hframe, -⟩ := Markup.rulebook.scopes_hold_recorded ⟨9, 9⟩ ⟨⟩ (Markup.element .element)
    (.ofString "<a></b>") (.failed ⟨.ofString "</b>"⟩) (fun m => nofun)
  exact (hframe [⟨"before", .matched 0, []⟩] [[]] _).2 ⟨_, hrecord, rfl⟩

end Descent
