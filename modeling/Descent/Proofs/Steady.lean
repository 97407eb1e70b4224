/-
  Descent.Proofs.Steady

  Runs in which no recursive parser is misused.  A parser is steady if no run of it is given up but
  by a mark around something that left more than it was given, whatever the input and whatever
  scopes are open.  Every combinator keeps that, so a grammar describes a steady parser if its
  symbols are run by steady parsers.  Where two rulebooks are in step all symbols that correspond
  are found on both sides; hence both sides are steady.
-/
import Descent.Parser.Mode
import Descent.Proofs.Alike

namespace Descent

namespace Parser

variable {α β : Type} {p q : Parser α}

/-- No run is given up but for a count of bytes. -/
def Steady (p : Parser α) : Prop :=
  ∀ inp scopes m scopes', p inp scopes = some (.aborted m, scopes') → m = .overrun

theorem read_steady (step : Input → Except Failure (Input × α)) : (read step).Steady := by
  intro inp scopes m scopes' h
  rw [read] at h
  split at h <;> cases h

theorem map_steady (f : α → β) (hp : p.Steady) : (map f p).Steady := by
  intro inp scopes m scopes' h
  rw [map] at h
  split at h
  · cases h
  · cases h
  · cases h
  · next hrun =>
    cases h
    exact hp inp scopes _ _ hrun

theorem filter_steady (keep : α → Bool) (hp : p.Steady) : (filter keep p).Steady := by
  intro inp scopes m scopes' h
  rw [filter] at h
  split at h
  · cases h
  · split at h <;> cases h
  · cases h
  · next hrun =>
    cases h
    exact hp inp scopes _ _ hrun

theorem andThen_steady {next : α → Parser β} (hp : p.Steady)
    (hnext : ∀ value, (next value).Steady) : (andThen p next).Steady := by
  intro inp scopes m scopes' h
  rw [andThen] at h
  split at h
  · cases h
  · next rest value after hrun => exact hnext value rest after m scopes' h
  · cases h
  · next hrun =>
    cases h
    exact hp inp scopes _ _ hrun

theorem or_steady (hp : p.Steady) (hq : q.Steady) : (or p q).Steady := by
  intro inp scopes m scopes' h
  rw [or] at h
  split at h
  · cases h
  · cases h
  · next e after hrun => exact hq inp after m scopes' h
  · next hrun =>
    cases h
    exact hp inp scopes _ _ hrun

theorem gather_steady (hp : p.Steady) {b : Bounds} {limit : Nat} {rest : Input} {count : Nat}
    {newestFirst : List α} {scopes : Scopes} {m : Misuse} {scopes' : Scopes}
    (h : gather b p limit rest count newestFirst scopes = some (.error m, scopes')) :
    m = .overrun := by
  induction limit generalizing rest count newestFirst scopes with
  | zero => cases h
  | succ limit ih =>
    rw [gather] at h
    split at h
    · cases h
    · split at h
      · cases h
      · split at h
        · cases h
        · exact ih h
      · cases h
      · next hrun =>
        cases h
        exact hp rest scopes _ _ hrun

theorem judge_ne_aborted (b : Bounds) (inp : Input) (haul : Haul α) (m : Misuse) :
    judge b inp haul ≠ .aborted m := by
  intro h
  rw [judge] at h
  split at h
  · cases h
  · split at h <;> cases h

theorem repeated_steady (limit : Nat) (b : Bounds) (hp : p.Steady) :
    (repeated limit b p).Steady := by
  intro inp scopes m scopes' h
  rw [repeated] at h
  split at h
  · cases h
  · exact absurd (Prod.mk.inj (Option.some.inj h)).1 (judge_ne_aborted b inp _ m)
  · next hrun =>
    cases h
    exact gather_steady hp hrun

theorem collect_steady (hp : p.Steady) {inp : Input} {scopes : Scopes} {m : Misuse}
    {rest : Trace × Scopes} (h : collect p inp scopes = some (.aborted m, rest)) :
    m = .overrun := by
  rw [collect] at h
  split at h
  · cases h
  · next hrun =>
    cases h
    exact hp inp scopes.enter _ _ hrun
  · next hrun =>
    obtain ⟨rfl, -⟩ := Prod.mk.inj (Option.some.inj h)
    exact hp inp scopes.enter _ _ hrun

/-- The count of bytes is the only thing that a mark gives a run up for itself. -/
theorem outcome_eq_error {inp : Input} {reply : Reply α} {m : Misuse}
    (h : outcome inp reply = .error m) :
    reply = .aborted m ∨ m = .overrun ∧ ∃ rest value, reply = .matched rest value ∧
      inp.size < rest.size := by
  cases reply with
  | matched rest value =>
    rw [outcome] at h
    split at h
    · cases h
    · next hsize =>
      cases h
      exact .inr ⟨rfl, rest, value, rfl, Nat.lt_of_not_le hsize⟩
  | failed e => cases h
  | aborted m' =>
    cases h
    exact .inl rfl

theorem marked_steady (label : String) (hp : p.Steady) : (marked label p).Steady := by
  intro inp scopes m scopes' h
  rw [marked] at h
  split at h
  · exact hp inp scopes m scopes' h
  · split at h
    · cases h
    · next reply scope outer hrun =>
      split at h
      · next m' hcount =>
        cases h
        rcases outcome_eq_error hcount with rfl | ⟨hm, -⟩
        · exact collect_steady hp hrun
        · exact hm
      · next outcome hcount =>
        obtain ⟨rfl, -⟩ := Prod.mk.inj (Option.some.inj h)
        cases hcount

theorem traced_steady (hp : p.Steady) : (traced p).Steady := by
  intro inp scopes m scopes' h
  rw [traced] at h
  split at h
  · cases h
  · cases h
  · cases h
  · next hrun =>
    cases h
    exact collect_steady hp hrun

/-- No start of a steady parser is given up but for a count of bytes, in any mode. -/
theorem Steady.start (hp : p.Steady) {mode : Mode} {inp : Input} {scopes scopes' : Scopes}
    {report : Report α} (h : p.start mode inp scopes = some (report, scopes')) {m : Misuse}
    (hm : report.reply = .aborted m) : m = .overrun := by
  cases mode with
  | parse | run =>
    obtain ⟨⟨reply, after⟩, hrun, hreport⟩ := Option.map_eq_some_iff.1 h
    obtain ⟨rfl, -⟩ := Prod.mk.inj hreport
    obtain rfl : reply = .aborted m := hm
    exact hp inp scopes m after hrun
  | complete =>
    obtain ⟨⟨reply, after⟩, hrun, hreport⟩ := Option.map_eq_some_iff.1 h
    obtain ⟨rfl, -⟩ := Prod.mk.inj hreport
    have hreply : reply.complete = .aborted m := hm
    cases reply with
    | matched rest value =>
      rw [Reply.complete] at hreply
      split at hreply <;> cases hreply
    | failed e => cases hreply
    | aborted m' =>
      cases hreply
      exact hp inp scopes m after hrun
  | traced | verbose =>
    obtain ⟨⟨reply, trace, after⟩, hrun, hreport⟩ := Option.map_eq_some_iff.1 h
    obtain ⟨rfl, -⟩ := Prod.mk.inj hreport
    obtain rfl : reply = .aborted m := hm
    exact collect_steady hp hrun

end Parser

-- ============================================================================
-- Grammars and rulebooks
-- ============================================================================

section Grammars

variable {N M : Type → Type} {σ τ : Type 1} {α : Type}

/-- Where the symbols that correspond are run by steady parsers, so is the grammar. -/
theorem Grammar.Alike.eval_steady {R : Correspondence N M} {attempts : Nat}
    {call : {α : Type} → N α → Parser α}
    (hcall : ∀ {α : Type} (n : N α) (m : M α), R α n m → Parser.Steady (call n)) {g : Grammar N α}
    {h : Grammar M α} (hgh : Alike R g h) : Parser.Steady (g.eval attempts call) := by
  induction hgh with
  | leaf step => exact Parser.read_steady step
  | map f _ ih => exact Parser.map_steady f ih
  | filter keep _ ih => exact Parser.filter_steady keep ih
  | andThen _ _ ih ihnext => exact Parser.andThen_steady ih ihnext
  | or _ _ ih ih' => exact Parser.or_steady ih ih'
  | repeated b _ ih => exact Parser.repeated_steady attempts b ih
  | marked label _ ih => exact Parser.marked_steady label ih
  | wrapped w _ ih => exact ih
  | traced _ ih => exact Parser.traced_steady ih
  | symbol hnm => exact hcall _ _ hnm

namespace Rulebook

variable {book : Rulebook N σ} {book' : Rulebook M τ} {R : σ → τ → Correspondence N M}

theorem InStep.call_steady (h : book.InStep book' R) (attempts nesting : Nat) {s : σ} {t : τ}
    {n : N α} {m : M α} (hnm : R s t α n m) :
    Parser.Steady (book.call attempts nesting s n) := by
  induction nesting generalizing s t α with
  | zero =>
    intro inp scopes m scopes' hrun
    cases hrun
  | succ nesting ih =>
    obtain ⟨g, s', g', t', hn, -, hgg'⟩ := h α s t n m hnm
    have heval : Parser.Steady (g.eval attempts fun n => book.call attempts nesting s' n) :=
      hgg'.eval_steady fun n m hnm => ih hnm
    intro inp scopes m scopes' hrun
    rw [Rulebook.call, hn] at hrun
    exact heval inp scopes m scopes' hrun

/-- Nothing is misused that is over symbols with a counterpart in a rulebook in step. -/
theorem InStep.parser_steady (h : book.InStep book' R) (limits : Limits) {s : σ} {t : τ}
    {g : Grammar N α} {g' : Grammar M α} (hgg' : Grammar.Alike (R s t) g g') :
    (book.parser limits s g).Steady :=
  hgg'.eval_steady fun _ _ hnm => h.call_steady limits.attempts limits.nesting hnm

end Rulebook

end Grammars

end Descent
