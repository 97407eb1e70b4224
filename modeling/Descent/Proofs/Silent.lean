/-
  Descent.Proofs.Silent

  Grammars that record nothing.  Without marks and symbols no event is made, and those made for a
  trace that is collected inside do not show.  What is known of the reply of such a grammar is all
  there is to know of its record: the reply, and no events.
-/
import Descent.Proofs.Recorded
import Descent.Proofs.Refuses

namespace Descent

variable {α β : Type}

-- ============================================================================
-- Recorders
-- ============================================================================

namespace Recorder

/-- No events, whatever the input is. -/
def Silent (r : Recorder α) : Prop := ∀ inp reply w, r inp = some (reply, w) → w = []

variable {r s : Recorder α}

theorem trace_eq {ρ : Type} {a b : ρ} {v w : Trace} (h : some (a, v) = some (b, w)) : w = v :=
  (Prod.mk.inj (Option.some.inj h)).2.symm

theorem read_silent (step : Input → Except Failure (Input × α)) : (read step).Silent := by
  intro inp reply w h
  rw [read] at h
  cases hstep : step inp with
  | ok next | error e =>
    rw [hstep] at h
    exact trace_eq h

theorem map_silent (f : α → β) (hr : r.Silent) : (map f r).Silent := by
  intro inp reply w h
  rw [map] at h
  split at h
  · cases h
  · next hrun => exact (trace_eq h).trans (hr _ _ _ hrun)
  · next hrun => exact (trace_eq h).trans (hr _ _ _ hrun)
  · exact trace_eq h

theorem filter_silent (keep : α → Bool) (hr : r.Silent) : (filter keep r).Silent := by
  intro inp reply w h
  rw [filter] at h
  split at h
  · cases h
  · next hrun =>
    have hnone := hr _ _ _ hrun
    split at h <;> exact (trace_eq h).trans hnone
  · next hrun => exact (trace_eq h).trans (hr _ _ _ hrun)
  · exact trace_eq h

/-- What is put behind no events is all there is. -/
theorem Silent.behind_nil (hs : s.Silent) {inp : Input} {v w : Trace} {reply : Reply α}
    (hv : v = []) (h : (s inp).map (fun (reply, w') => (reply, v ++ w')) = some (reply, w)) :
    w = [] := by
  obtain ⟨⟨reply', w'⟩, hrun, heq⟩ := Option.map_eq_some_iff.1 h
  have hw : v ++ w' = w := (Prod.mk.inj heq).2
  rw [← hw, hv, hs _ _ _ hrun]
  rfl

theorem andThen_silent {next : α → Recorder β} (hr : r.Silent) (hnext : ∀ v, (next v).Silent) :
    (andThen r next).Silent := by
  intro inp reply w h
  rw [andThen] at h
  split at h
  · cases h
  · next hrun => exact (hnext _).behind_nil (hr _ _ _ hrun) h
  · next hrun => exact (trace_eq h).trans (hr _ _ _ hrun)
  · exact trace_eq h

theorem or_silent (hr : r.Silent) (hs : s.Silent) : (or r s).Silent := by
  intro inp reply w h
  rw [or] at h
  split at h
  · cases h
  · next hrun => exact (trace_eq h).trans (hr _ _ _ hrun)
  · next hrun => exact hs.behind_nil (hr _ _ _ hrun) h
  · exact trace_eq h

theorem gather_silent (hr : r.Silent) (b : Bounds) {limit count : Nat} {rest : Input}
    {haul : Except Misuse (Haul α)} {w : Trace}
    (h : gather b r limit count rest = some (haul, w)) : w = [] := by
  -- Along the attempts that are left.
  induction limit generalizing count rest haul w with
  | zero => cases h
  | succ limit ih =>
    rw [gather] at h
    split at h
    · exact trace_eq h
    · split at h
      · cases h
      · next after value v hrun =>
        have hv : v = [] := hr _ _ _ hrun
        split at h
        · exact (trace_eq h).trans hv
        · obtain ⟨⟨haul', w'⟩, hrest, heq⟩ := Option.map_eq_some_iff.1 h
          have hw : v ++ w' = w := (Prod.mk.inj heq).2
          rw [← hw, hv, ih hrest]
          rfl
      · next hrun => exact (trace_eq h).trans (hr _ _ _ hrun)
      · exact trace_eq h

theorem repeated_silent (limit : Nat) (b : Bounds) (hr : r.Silent) :
    (repeated limit b r).Silent := by
  intro inp reply w h
  rw [repeated] at h
  split at h
  · cases h
  · next hrun => exact (trace_eq h).trans (gather_silent hr b hrun)
  · exact trace_eq h

/-- The events that are collected are given with the value. -/
theorem traced_silent : (traced r).Silent := by
  intro inp reply w h
  rw [traced] at h
  split at h
  · cases h
  all_goals exact trace_eq h

end Recorder

-- ============================================================================
-- Grammars
-- ============================================================================

section Grammars

variable {N : Type → Type}

/-- No marks and no symbols, unless a trace is collected around them. -/
inductive Grammar.Silent : {α : Type} → Grammar N α → Prop
  | leaf {α : Type} (step : Input → Except Failure (Input × α)) : Silent (.leaf step)
  | map {α β : Type} (f : α → β) {g : Grammar N α} (hg : Silent g) : Silent (.map f g)
  | filter {α : Type} (keep : α → Bool) {g : Grammar N α} (hg : Silent g) :
      Silent (.filter keep g)
  | andThen {α β : Type} {g : Grammar N α} {next : α → Grammar N β} (hg : Silent g)
      (hnext : ∀ v, Silent (next v)) : Silent (.andThen g next)
  | or {α : Type} {g h : Grammar N α} (hg : Silent g) (hh : Silent h) : Silent (.or g h)
  | repeated {α : Type} (b : Bounds) {g : Grammar N α} (hg : Silent g) : Silent (.repeated b g)
  | wrapped {α : Type} (w : Wrapper) {g : Grammar N α} (hg : Silent g) : Silent (.wrapped w g)
  | traced {α : Type} (g : Grammar N α) : Silent (.traced g)

namespace Grammar

variable {attempts : Nat} {call : {α : Type} → N α → Parser α}
  {call' : {α : Type} → N α → Bool → Recorder α} {inp : Input}

theorem Silent.record_silent {g : Grammar N α} (hg : g.Silent) (heard : Bool) :
    (g.record attempts call' heard).Silent := by
  induction hg with
  | leaf step => exact Recorder.read_silent step
  | map f _ ih => exact Recorder.map_silent f ih
  | filter keep _ ih => exact Recorder.filter_silent keep ih
  | andThen _ _ ih ihnext => exact Recorder.andThen_silent ih ihnext
  | or _ _ ih ih' => exact Recorder.or_silent ih ih'
  | repeated b _ ih => exact Recorder.repeated_silent attempts b ih
  | wrapped w _ ih => exact ih
  | traced g => exact Recorder.traced_silent

section Known

variable (hcall : ∀ {α : Type} (n : N α), Parser.Records (call n) (call' n)) {g : Grammar N α}
  (hg : g.Silent)

include hcall hg

/-- The reply of a run that is heard is its record, and nothing else is. -/
theorem Silent.record_eq {frame : List Event} {outer scopes : Scopes} {reply : Reply α}
    (hrun : g.eval attempts call inp (frame :: outer) = some (reply, scopes))
    (hreply : ∀ m, reply ≠ .aborted m) : g.record attempts call' true inp = some (reply, []) := by
  obtain ⟨w, hw⟩ := (eval_records hcall g inp (frame :: outer)).exists_record hrun hreply
  obtain rfl : w = [] := hg.record_silent true inp reply w hw
  exact hw

/-- What a decision allows is recorded. -/
theorem Silent.record_matched {T : α → List Char → Prop} {F : List Char → Prop}
    (h : (g.eval attempts call).Decides inp T F) {v : α} {rest : Input} (hT : T v rest.chars) :
    g.record attempts call' true inp = some (.matched rest v, []) := by
  obtain ⟨scopes', hrun⟩ := (h.matched_iff [[]] v rest).2 hT
  exact hg.record_eq hcall hrun nofun

/-- A failure is recorded where a decision allows nothing. -/
theorem Silent.exists_record_failed {T : α → List Char → Prop} {F : List Char → Prop}
    (h : (g.eval attempts call).Decides inp T F) (hT : ∀ v cs, ¬ T v cs) :
    ∃ e, g.record attempts call' true inp = some (.failed e, []) := by
  obtain ⟨reply, scopes', hrun, hr⟩ := h [[]]
  cases reply with
  | matched rest v => exact absurd ((hr v rest.chars).2 ⟨rfl, rfl⟩) (hT v _)
  | failed e => exact ⟨e, hg.record_eq hcall hrun nofun⟩
  | aborted m => exact hr.elim

/-- A failure is recorded where it is allowed. -/
theorem Silent.record_failed {F : List Char → Prop} (h : (g.eval attempts call).Refuses inp F)
    {rest : Input} (hF : F rest.chars) :
    g.record attempts call' true inp = some (.failed ⟨rest⟩, []) := by
  obtain ⟨scopes', hrun⟩ := (h.failed_iff [[]] rest).2 hF
  exact hg.record_eq hcall hrun nofun

end Known

theorem literal_silent (s : String) : (literal s : Grammar N String).Silent := .map _ (.leaf _)

theorem char_silent (c : Char) : (char c : Grammar N Char).Silent := .map _ (.leaf _)

theorem satisfying_silent (keep : Char → Bool) : (satisfying keep : Grammar N Char).Silent :=
  .filter keep (.leaf _)

theorem Silent.both {g : Grammar N α} {h : Grammar N β} (hg : g.Silent) (hh : h.Silent) :
    (g.both h).Silent := .andThen hg fun _ => .map _ hh

theorem Silent.skipThen {g : Grammar N α} {h : Grammar N β} (hg : g.Silent) (hh : h.Silent) :
    (g.skipThen h).Silent := .andThen hg fun _ => hh

theorem Silent.thenSkip {g : Grammar N α} {h : Grammar N β} (hg : g.Silent) (hh : h.Silent) :
    (g.thenSkip h).Silent := .andThen hg fun _ => .map _ hh

end Grammar

namespace Lexical

theorem identifier_silent : (identifier : Grammar N String).Silent :=
  .map _ (.repeated _ (Grammar.satisfying_silent _))

theorem textBetween_silent (start finish : Char) :
    (textBetween start finish : Grammar N String).Silent :=
  ((Grammar.satisfying_silent _).skipThen
    (.map _ (.repeated _ (Grammar.satisfying_silent _)))).thenSkip (Grammar.satisfying_silent _)

end Lexical

namespace Markup

theorem elementStart_silent :
    (elementStart : Grammar N (String × List (String × String))).Silent := by
  have hpair : (attributePair : Grammar N (String × String)).Silent :=
    (Lexical.identifier_silent.thenSkip (Grammar.char_silent '=')).both
      (Lexical.textBetween_silent '"' '"')
  have hblanks : (Lexical.someBlanks : Grammar N (List Char)).Silent :=
    .repeated _ (Grammar.satisfying_silent _)
  exact (Grammar.char_silent '<').skipThen
    (Lexical.identifier_silent.both (.repeated _ (hblanks.skipThen hpair)))

theorem singleElement_silent : (singleElement : Grammar N Element).Silent :=
  .map _ (elementStart_silent.thenSkip (Grammar.literal_silent "/>"))

theorem openElement_silent : (openElement : Grammar N (String × List (String × String))).Silent :=
  elementStart_silent.thenSkip (Grammar.char_silent '>')

theorem closeElement_silent (name : String) : (closeElement name : Grammar N String).Silent :=
  .filter _ (((Grammar.literal_silent "</").skipThen Lexical.identifier_silent).thenSkip
    (Grammar.char_silent '>'))

end Markup

end Grammars

end Descent
