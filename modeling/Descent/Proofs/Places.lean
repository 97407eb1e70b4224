/-
  Descent.Proofs.Places

  Where a run gets to.  A recorder that keeps to its input, as a faithful parser does, gives rests
  that are ends of what it was given.  So whatever a run of a grammar over honest steps does next, a
  later stage of a sequence or a later attempt of a repetition, it does on an end of its input, and
  there are the places at which it runs symbols.  A mark in it never finds more left than it was
  given.

  In a recursive grammar something stands in front of its symbols, or it would run itself on the
  same input without end.  How many bytes this takes at least is told from the grammar: it is taken
  by the first stage of a sequence or lies further inside, on every way to a symbol.
-/
import Descent.Proofs.Calls
import Descent.Proofs.Faithful
import Descent.Proofs.Heard

namespace Descent

variable {α β : Type}

/-- Every match that is recorded takes so many bytes at least. -/
def Recorder.Takes (r : Recorder α) (bytes : Nat) : Prop :=
  ∀ inp rest value w, r inp = some (.matched rest value, w) → rest.size + bytes ≤ inp.size

/-- The attempts of a repetition are on ends of its input. -/
theorem Recorder.Attempts.within {r : Recorder α} (hr : r.Faithful) {b : Bounds}
    {limit count : Nat} {place rest : Input} (h : Attempts b r place limit count rest) :
    place.chars <:+ rest.chars := by
  induction h with
  | now hfull => exact List.suffix_refl _
  | @later limit count rest after value w hfull hmatched hprogress _ ih =>
    have hafter : after.chars <:+ rest.chars := hr rest _ w hmatched
    exact ih.trans hafter

/-- So many bytes at least are taken in front of every symbol of the grammar. -/
def Grammar.Guarded {N : Type → Type} (attempts : Nat)
    (call : {α : Type} → N α → Bool → Recorder α) (bytes : Nat) :
    {α : Type} → Grammar N α → Prop
  | _, .leaf _ => True
  | _, .map _ g => g.Guarded attempts call bytes
  | _, .filter _ g => g.Guarded attempts call bytes
  | _, .andThen g next => g.Guarded attempts call bytes ∧
      ((∀ heard, (g.record attempts call heard).Takes bytes) ∨
        ∀ value, (next value).Guarded attempts call bytes)
  | _, .or g h => g.Guarded attempts call bytes ∧ h.Guarded attempts call bytes
  | _, .repeated _ g => g.Guarded attempts call bytes
  | _, .marked _ g => g.Guarded attempts call bytes
  | _, .wrapped _ g => g.Guarded attempts call bytes
  | _, .traced g => g.Guarded attempts call bytes
  | _, .symbol _ => bytes = 0

section Grammars

variable {N : Type → Type} {attempts : Nat} {call : {α : Type} → N α → Parser α}
  {call' : {α : Type} → N α → Bool → Recorder α} {part : Grammar N β} {loud heard : Bool}
  {g : Grammar N α} {place inp : Input} {traces : Nat}

/-- A run gets to its parts on ends of the input. -/
theorem Grammar.Runs.within (hcall : FaithfulCalls call call')
    (h : Runs attempts call' part loud place traces heard g inp) (hg : g.Honest) :
    place.chars <:+ inp.chars := by
  induction h with
  | here => exact List.suffix_refl _
  | map _ _ ih | filter _ _ ih | marked _ _ ih | wrapped _ _ ih | traced _ ih => exact ih hg
  | first _ ih | orLeft _ ih => exact ih hg.1
  | @next α γ traces heard g next inp rest value w hmatched _ ih =>
    have hrest : rest.chars <:+ inp.chars :=
      Grammar.record_faithful hcall hg.1 heard inp _ w hmatched
    exact (ih (hg.2 value)).trans hrest
  | orRight _ _ ih => exact ih hg.2
  | @repeated α traces heard b g inp rest hattempt _ ih =>
    have hfaithful : (g.record attempts call' heard).Faithful :=
      Grammar.record_faithful (g := g) hcall hg heard
    exact (ih hg).trans (hattempt.within hfaithful)

/-- The parts of a grammar are over the steps and symbols that it is over. -/
theorem Grammar.Runs.over {L : Steps} {S : {α : Type} → N α → Prop}
    (h : Runs attempts call' part loud place traces heard g inp) (hg : g.Over L S) :
    part.Over L S := by
  induction h with
  | here => exact hg
  | map _ _ ih | filter _ _ ih | repeated _ _ ih | marked _ _ ih | wrapped _ _ ih
  | traced _ ih => exact ih hg
  | first _ ih | orLeft _ ih => exact ih hg.1
  | next _ _ ih => exact ih (hg.2 _)
  | orRight _ _ ih => exact ih hg.2

/-- Nothing has to be in front of symbols where there are none. -/
theorem Grammar.Over.guarded {L : Steps} (h : g.Over L fun _ => False) (bytes : Nat) :
    g.Guarded attempts call' bytes := by
  induction g with
  | leaf step => trivial
  | map _ _ ih | filter _ _ ih | repeated _ _ ih | marked _ _ ih | wrapped _ _ ih
  | traced _ ih => exact ih h
  | andThen _ _ ihg ihnext => exact ⟨ihg h.1, .inr fun value => ihnext value (h.2 value)⟩
  | or _ _ ihg ihh => exact ⟨ihg h.1, ihh h.2⟩
  | symbol n => exact h.elim

/-- Symbols are run so many bytes further on. -/
theorem Grammar.Runs.size_add_le (hcall : FaithfulCalls call call') {n : N β} {bytes : Nat}
    (h : Runs attempts call' (.symbol n) loud place traces heard g inp) (hg : g.Honest)
    (hguarded : g.Guarded attempts call' bytes) : place.size + bytes ≤ inp.size := by
  induction h with
  | here =>
    have hzero : bytes = 0 := hguarded
    omega
  | map _ _ ih | filter _ _ ih | marked _ _ ih | wrapped _ _ ih | traced _ ih =>
    exact ih hg hguarded
  | first _ ih | orLeft _ ih => exact ih hg.1 hguarded.1
  | @next α γ traces heard g next inp rest value w hmatched hruns ih =>
    have hrest : rest.size ≤ inp.size :=
      Input.size_le_of_suffix (Grammar.record_faithful hcall hg.1 heard inp _ w hmatched)
    -- What is in front is taken by the first stage, or it is further inside.
    rcases hguarded.2 with htakes | hnext
    · have htaken := htakes heard inp rest value w hmatched
      have hplace : place.size ≤ rest.size :=
        Input.size_le_of_suffix (hruns.within hcall (hg.2 value))
      omega
    · have hplace := ih (hg.2 value) (hnext value)
      omega
  | orRight _ _ ih => exact ih hg.2 hguarded.2
  | @repeated α traces heard b g inp rest hattempt _ ih =>
    have hfaithful : (g.record attempts call' heard).Faithful :=
      Grammar.record_faithful (g := g) hcall hg heard
    have hrest : rest.size ≤ inp.size := Input.size_le_of_suffix (hattempt.within hfaithful)
    have hplace := ih hg hguarded
    omega

variable {σ : Type 1} {book : Rulebook N σ} {Allowed : σ → Prop} {left nesting : Nat}
  {there state : σ}

/-- A run over honest steps only meets parts over honest steps. -/
theorem Rulebook.Meets.honest (hbook : book.Honest Allowed)
    (h : book.Meets attempts part left there loud place traces nesting heard state g inp)
    (hstate : Allowed state) (hg : g.Honest) : Allowed there ∧ part.Honest := by
  induction h with
  | here hruns => exact ⟨hstate, hruns.over hg⟩
  | inside _ hn _ ih =>
    obtain ⟨hg', hstate'⟩ := hbook _ _ _ _ hstate hn
    exact ih hstate' hg'

/-- In a run over honest steps no mark finds more left than it was given: the run is given up for
    this only if the lookup of a symbol is. -/
theorem Rulebook.Honest.exists_lookup_of_overrun (hbook : book.Honest Allowed) {limits : Limits}
    (hstate : Allowed state) (hg : g.Honest)
    (h : (book.recorder limits state g heard).Aborts .overrun inp) :
    ∃ (there : σ) (β : Type) (n : N β), Allowed there ∧ book.resolve there n = .error .overrun := by
  obtain ⟨traces, β, part, left, there, loud, place, hmeets, hrefuses⟩ := aborts_iff_givesUp.1 h
  obtain ⟨hthere, hpart⟩ := hmeets.honest hbook hstate hg
  cases hrefuses with
  | symbol hn => exact ⟨there, β, _, hthere, hn⟩
  | @overrun _ _ _ label g' _ rest value w hmatched hsize =>
    have hinside : g'.Honest := hpart
    have hfaithful : (book.recorder ⟨limits.attempts, left⟩ there g' true).Faithful :=
      Grammar.record_faithful (faithfulCalls hbook limits.attempts left hthere) hinside true
    have hle : rest.size ≤ place.size := Input.size_le_of_suffix (hfaithful place _ w hmatched)
    omega

end Grammars

/-- The lookup of a symbol gives no misuse of a count of bytes. -/
theorem Rules.resolve_ne_overrun (rules : Rules) (store : Store) (n : Symbol α) :
    rules.rulebook.resolve store n ≠ .error .overrun := by
  intro h
  cases n with
  | element => cases h
  | rule name =>
    simp only [rulebook] at h
    split at h
    · cases h
    · next recipe hlookup =>
      split at h
      · next m hbuild =>
        cases h
        obtain ⟨x, hx⟩ := recipe.build_onlyUnbound [] store .overrun hbuild
        cases hx
      · cases h
  | cell r =>
    simp only [rulebook, Store.resolve] at h
    split at h
    · next m hm =>
      cases h
      split at hm
      · split at hm <;> cases hm
      · cases hm
    · cases h

/-- No run of what was built from honest pieces is given up for a count of bytes. -/
theorem Built.not_overrun {b : Built} (hb : Kind.honest b) {rules : Rules} (hrules : rules.Honest)
    (limits : Limits) {store : Store} (hstore : store.All Kind.honest) (heard : Bool)
    (inp : Input) : ¬ (b.recorder rules limits store heard).Aborts .overrun inp := by
  intro h
  have hbook : rules.rulebook.Honest (Store.All Kind.honest) := hrules.rulebook
  obtain ⟨there, β, n, -, hn⟩ := hbook.exists_lookup_of_overrun hstore hb h
  exact rules.resolve_ne_overrun there n hn

end Descent
