/-
  Descent.Proofs.Decides

  What a parser makes of one input, said without the scopes that are open around it.  A parser
  decides a relation between values and rests if it always answers, is never given up, and matches
  with exactly those values and those rests that the relation allows.  A parser gives one answer,
  so a relation that is decided allows one value and one rest at most.  The second predicate of a
  decision says where a failure may be placed.

  Every combinator gets one rule that makes a decision of a combination from decisions of its
  parts.  The rule for repetition is the only one that needs an induction: over the attempts that
  are left, with what has been gathered so far generalized.
-/
import Descent.Grammar.Forms
import Descent.Proofs.Consumed

namespace Descent

/-- A reply that decides which values and rests are allowed, and where a failure may be. -/
def Reply.Decides {α : Type} (T : α → List Char → Prop) (F : List Char → Prop) : Reply α → Prop
  | .matched rest value => ∀ v cs, T v cs ↔ v = value ∧ cs = rest.chars
  | .failed e => (∀ v cs, ¬ T v cs) ∧ F e.rest.chars
  | .aborted _ => False

/-- Whatever scopes are open, the parser answers the input with a decision. -/
def Parser.Decides {α : Type} (p : Parser α) (inp : Input) (T : α → List Char → Prop)
    (F : List Char → Prop) : Prop :=
  ∀ scopes, ∃ reply scopes', p inp scopes = some (reply, scopes') ∧ reply.Decides T F

variable {α β γ : Type} {T T' : α → List Char → Prop} {F F' : List Char → Prop}

theorem Reply.Decides.congr {reply : Reply α} (h : reply.Decides T F)
    (hT : ∀ v cs, T' v cs ↔ T v cs) (hF : ∀ cs, F cs → F' cs) : reply.Decides T' F' := by
  cases reply with
  | matched rest value =>
    intro v cs
    rw [hT]
    exact h v cs
  | failed e => exact ⟨fun v cs ht => h.1 v cs ((hT v cs).1 ht), hF _ h.2⟩
  | aborted m => exact h

namespace Parser

variable {p q : Parser α} {inp : Input}

/-! ## Using a decision -/

theorem Decides.congr (h : p.Decides inp T F) (hT : ∀ v cs, T' v cs ↔ T v cs)
    (hF : ∀ cs, F cs → F' cs) : p.Decides inp T' F' := by
  intro scopes
  obtain ⟨reply, scopes', hp, hr⟩ := h scopes
  exact ⟨reply, scopes', hp, hr.congr hT hF⟩

/-- Forget where failures are. -/
theorem Decides.weaken (h : p.Decides inp T F) : p.Decides inp T fun _ => True :=
  h.congr (fun _ _ => Iff.rfl) fun _ _ => trivial

/-- A parser that has something to match does not fail, wherever failures are said to be. -/
theorem Decides.of_exists {G : List Char → Prop} (h : p.Decides inp T F) {v : α} {cs : List Char}
    (hT : T v cs) : p.Decides inp T G := by
  intro scopes
  obtain ⟨reply, scopes', hp, hr⟩ := h scopes
  cases reply with
  | matched rest value => exact ⟨.matched rest value, scopes', hp, hr⟩
  | failed e => exact absurd hT (hr.1 v cs)
  | aborted m => exact hr.elim

/-- A relation that is decided allows one value and one rest at most. -/
theorem Decides.unique (h : p.Decides inp T F) {v w : α} {cs ds : List Char} (hv : T v cs)
    (hw : T w ds) : v = w ∧ cs = ds := by
  obtain ⟨reply, scopes', hp, hr⟩ := h []
  cases reply with
  | matched rest value =>
    obtain ⟨rfl, rfl⟩ := (hr v cs).1 hv
    obtain ⟨rfl, rfl⟩ := (hr w ds).1 hw
    exact ⟨rfl, rfl⟩
  | failed e => exact absurd hv (hr.1 v cs)
  | aborted m => exact hr.elim

/-- The parser matches with a value and a rest exactly if the relation allows them. -/
theorem Decides.matched_iff (h : p.Decides inp T F) (scopes : Scopes) (v : α) (rest : Input) :
    (∃ scopes', p inp scopes = some (.matched rest v, scopes')) ↔ T v rest.chars := by
  obtain ⟨reply, scopes', hp, hr⟩ := h scopes
  refine ⟨fun hT => ?_, fun hT => ?_⟩
  · obtain ⟨scopes'', hm⟩ := hT
    rw [hp] at hm
    simp only [Option.some.injEq, Prod.mk.injEq] at hm
    rw [hm.1] at hr
    exact (hr v rest.chars).2 ⟨rfl, rfl⟩
  · cases reply with
    | matched rest' value =>
      obtain ⟨rfl, hrest⟩ := (hr v rest.chars).1 hT
      have : rest = rest' := Input.ext hrest
      exact ⟨scopes', by rw [hp, this]⟩
    | failed e => exact absurd hT (hr.1 v _)
    | aborted m => exact hr.elim

/-! ## Rules for the combinators -/

theorem read_decides {step : Input → Except Failure (Input × α)}
    (h : match step inp with
      | .ok (rest, value) => ∀ v cs, T v cs ↔ v = value ∧ cs = rest.chars
      | .error e => (∀ v cs, ¬ T v cs) ∧ F e.rest.chars) :
    (read step).Decides inp T F := by
  intro scopes
  cases hs : step inp with
  | ok r =>
    rw [hs] at h
    exact ⟨.matched r.1 r.2, scopes, by simp [read, hs], h⟩
  | error e =>
    rw [hs] at h
    exact ⟨.failed e, scopes, by simp [read, hs], h⟩

theorem map_decides (f : α → β) (hp : p.Decides inp T F) :
    (map f p).Decides inp (fun w cs => ∃ v, T v cs ∧ w = f v) F := by
  intro scopes
  obtain ⟨reply, scopes', hp, hr⟩ := hp scopes
  cases reply with
  | matched rest value =>
    refine ⟨.matched rest (f value), scopes', by simp [map, hp], ?_⟩
    intro w cs
    refine ⟨fun h => ?_, fun h => ?_⟩
    · obtain ⟨v, hv, rfl⟩ := h
      obtain ⟨rfl, rfl⟩ := (hr v cs).1 hv
      exact ⟨rfl, rfl⟩
    · obtain ⟨rfl, rfl⟩ := h
      exact ⟨value, (hr value rest.chars).2 ⟨rfl, rfl⟩, rfl⟩
  | failed e =>
    refine ⟨.failed e, scopes', by simp [map, hp], ?_, hr.2⟩
    rintro w cs ⟨v, hv, -⟩
    exact hr.1 v cs hv
  | aborted m => exact hr.elim

/-- A refused value leaves the failure at the input. -/
theorem filter_decides (keep : α → Bool) (hp : p.Decides inp T F) (hF : F inp.chars) :
    (filter keep p).Decides inp (fun v cs => T v cs ∧ keep v = true) F := by
  intro scopes
  obtain ⟨reply, scopes', hp, hr⟩ := hp scopes
  cases reply with
  | matched rest value =>
    cases hk : keep value with
    | true =>
      refine ⟨.matched rest value, scopes', by simp [filter, hp, hk], ?_⟩
      intro v cs
      refine ⟨fun h => ?_, fun h => ?_⟩
      · obtain ⟨hv, -⟩ := h
        exact (hr v cs).1 hv
      · obtain ⟨rfl, rfl⟩ := h
        exact ⟨(hr v rest.chars).2 ⟨rfl, rfl⟩, hk⟩
    | false =>
      refine ⟨.failed ⟨inp⟩, scopes', by simp [filter, hp, hk], ?_, hF⟩
      rintro v cs ⟨hv, hkeep⟩
      obtain ⟨rfl, rfl⟩ := (hr v cs).1 hv
      rw [hk] at hkeep
      exact Bool.noConfusion hkeep
  | failed e =>
    refine ⟨.failed e, scopes', by simp [filter, hp], ?_, hr.2⟩
    rintro v cs ⟨hv, -⟩
    exact hr.1 v cs hv
  | aborted m => exact hr.elim

/-- What follows has to decide only where the first parser can leave it. -/
theorem andThen_decides {next : α → Parser β} {U : α → List Char → β → List Char → Prop}
    (hp : p.Decides inp T F)
    (hnext : ∀ v mid, T v mid.chars → (next v).Decides mid (U v mid.chars) F) :
    (andThen p next).Decides inp (fun w cs => ∃ v mid, T v mid ∧ U v mid w cs) F := by
  intro scopes
  obtain ⟨reply, scopes', hp, hr⟩ := hp scopes
  cases reply with
  | matched mid value =>
    have hT : T value mid.chars := (hr value mid.chars).2 ⟨rfl, rfl⟩
    obtain ⟨reply', scopes'', hn, hr'⟩ := hnext value mid hT scopes'
    refine ⟨reply', scopes'', by simp [andThen, hp, hn], hr'.congr ?_ fun _ h => h⟩
    intro w cs
    refine ⟨fun hU => ?_, fun hU => ?_⟩
    · obtain ⟨v, ds, hv, hU⟩ := hU
      obtain ⟨rfl, rfl⟩ := (hr v ds).1 hv
      exact hU
    · exact ⟨value, mid.chars, hT, hU⟩
  | failed e =>
    refine ⟨.failed e, scopes', by simp [andThen, hp], ?_, hr.2⟩
    rintro w cs ⟨v, mid, hv, -⟩
    exact hr.1 v mid hv
  | aborted m => exact hr.elim

/-- The second parser counts only where the first one allows nothing, and so does its failure. -/
theorem or_decides {G : List Char → Prop} (hp : p.Decides inp T G)
    (hq : (∀ v cs, ¬ T v cs) → q.Decides inp T' F) :
    (or p q).Decides inp (fun v cs => T v cs ∨ (∀ w ds, ¬ T w ds) ∧ T' v cs) F := by
  intro scopes
  obtain ⟨reply, scopes', hp, hr⟩ := hp scopes
  cases reply with
  | matched rest value =>
    refine ⟨.matched rest value, scopes', by simp [or, hp], ?_⟩
    intro v cs
    refine ⟨fun h => ?_, fun h => ?_⟩
    · rcases h with hv | ⟨hnone, -⟩
      · exact (hr v cs).1 hv
      · exact absurd ((hr value rest.chars).2 ⟨rfl, rfl⟩) (hnone _ _)
    · exact .inl ((hr v cs).2 h)
  | failed e =>
    obtain ⟨reply', scopes'', hq, hr'⟩ := hq hr.1 scopes'
    refine ⟨reply', scopes'', by simp [or, hp, hq], hr'.congr ?_ fun _ h => h⟩
    intro v cs
    refine ⟨fun hv => ?_, fun hv => ?_⟩
    · rcases hv with hv | ⟨-, hv⟩
      · exact absurd hv (hr.1 v cs)
      · exact hv
    · exact .inr ⟨hr.1, hv⟩
  | aborted m => exact hr.elim

/-- A mark answers what the marked parser answers in any scopes, where that is never given up and
    leaves no more than it is given. -/
theorem marked_answers (label : String) {P : Reply α → Prop}
    (hp : ∀ scopes, ∃ reply scopes', p inp scopes = some (reply, scopes') ∧ P reply)
    (haborted : ∀ m, ¬ P (.aborted m))
    (hsize : ∀ rest v, P (.matched rest v) → rest.size ≤ inp.size) (scopes : Scopes) :
    ∃ reply scopes', marked label p inp scopes = some (reply, scopes') ∧ P reply := by
  by_cases hs : scopes.isEmpty = true
  · obtain ⟨reply, scopes', hp, hr⟩ := hp scopes
    exact ⟨reply, scopes', by rw [marked, if_pos hs, hp], hr⟩
  · obtain ⟨reply, scopes', hp, hr⟩ := hp scopes.enter
    cases reply with
    | matched rest v =>
      have hcount : outcome inp (.matched rest v) = .ok (.matched (inp.size - rest.size)) :=
        if_pos (hsize rest v hr)
      exact ⟨.matched rest v, _, by rw [marked, if_neg hs, collect, hp]; simp only [hcount]; rfl,
        hr⟩
    | failed e => exact ⟨.failed e, _, by rw [marked, if_neg hs, collect, hp]; rfl, hr⟩
    | aborted m => exact absurd hr (haborted m)

/-- A mark changes scopes only, where no match leaves more than the input. -/
theorem marked_decides (label : String) (hp : p.Decides inp T F)
    (hends : ∀ v cs, T v cs → cs <:+ inp.chars) : (marked label p).Decides inp T F := by
  refine marked_answers label hp (fun _ h => h) fun rest v hr => ?_
  exact Input.size_le_of_suffix (hends v rest.chars ((hr v rest.chars).2 ⟨rfl, rfl⟩))

end Parser

/-! ## Rules for grammars -/

namespace Grammar

variable {N : Type → Type} {attempts : Nat} {call : {α : Type} → N α → Parser α} {inp : Input}
  {g : Grammar N α} {h : Grammar N β} {U : List Char → β → List Char → Prop}

theorem map_decides (f : α → β) (hg : (g.eval attempts call).Decides inp T F) :
    ((map f g).eval attempts call).Decides inp (fun w cs => ∃ v, T v cs ∧ w = f v) F :=
  Parser.map_decides f hg

theorem filter_decides (keep : α → Bool) (hg : (g.eval attempts call).Decides inp T F)
    (hF : F inp.chars) :
    ((filter keep g).eval attempts call).Decides inp
      (fun v cs => T v cs ∧ keep v = true) F :=
  Parser.filter_decides keep hg hF

theorem andThen_decides {next : α → Grammar N β} {U : α → List Char → β → List Char → Prop}
    (hg : (g.eval attempts call).Decides inp T F)
    (hnext : ∀ a mid, T a mid.chars →
      ((next a).eval attempts call).Decides mid (U a mid.chars) F) :
    ((andThen g next).eval attempts call).Decides inp
      (fun w cs => ∃ v mid, T v mid ∧ U v mid w cs) F :=
  Parser.andThen_decides hg hnext

theorem both_decides (hg : (g.eval attempts call).Decides inp T F)
    (hh : ∀ a mid, T a mid.chars → (h.eval attempts call).Decides mid (U mid.chars) F) :
    ((g.both h).eval attempts call).Decides inp
      (fun v cs => ∃ mid, T v.1 mid ∧ U mid v.2 cs) F := by
  refine (andThen_decides (U := fun a mid v cs => ∃ b, U mid b cs ∧ v = (a, b)) hg
    fun a mid ha => map_decides _ (hh a mid ha)).congr ?_ fun _ hf => hf
  rintro ⟨a, b⟩ cs
  refine ⟨fun h => ?_, fun h => ?_⟩
  · obtain ⟨mid, ha, hb⟩ := h
    exact ⟨a, mid, ha, b, hb, rfl⟩
  · obtain ⟨a', mid, ha, b', hb, hab⟩ := h
    obtain ⟨rfl, rfl⟩ := Prod.mk.inj hab
    exact ⟨mid, ha, hb⟩

theorem skipThen_decides (hg : (g.eval attempts call).Decides inp T F)
    (hh : ∀ a mid, T a mid.chars → (h.eval attempts call).Decides mid (U mid.chars) F) :
    ((g.skipThen h).eval attempts call).Decides inp
      (fun v cs => ∃ a mid, T a mid ∧ U mid v cs) F :=
  andThen_decides hg hh

theorem thenSkip_decides (hg : (g.eval attempts call).Decides inp T F)
    (hh : ∀ a mid, T a mid.chars → (h.eval attempts call).Decides mid (U mid.chars) F) :
    ((g.thenSkip h).eval attempts call).Decides inp
      (fun v cs => ∃ b mid, T v mid ∧ U mid b cs) F := by
  refine (andThen_decides (U := fun a mid v cs => ∃ b, U mid b cs ∧ v = a) hg
    fun a mid ha => map_decides _ (hh a mid ha)).congr ?_ fun _ hf => hf
  intro v cs
  refine ⟨fun h => ?_, fun h => ?_⟩
  · obtain ⟨b, mid, hv, hb⟩ := h
    exact ⟨v, mid, hv, b, hb, rfl⟩
  · obtain ⟨a, mid, ha, b, hb, rfl⟩ := h
    exact ⟨b, mid, ha, hb⟩

/-- The second grammar counts only where the first one allows nothing. -/
theorem or_decides {g h : Grammar N α} {G : List Char → Prop}
    (hg : (g.eval attempts call).Decides inp T G)
    (hh : (∀ v cs, ¬ T v cs) → (h.eval attempts call).Decides inp T' F) :
    ((or g h).eval attempts call).Decides inp
      (fun v cs => T v cs ∨ (∀ w ds, ¬ T w ds) ∧ T' v cs) F :=
  Parser.or_decides hg hh

theorem marked_decides (label : String) (hg : (g.eval attempts call).Decides inp T F)
    (hends : ∀ v cs, T v cs → cs <:+ inp.chars) :
    ((marked label g).eval attempts call).Decides inp T F :=
  Parser.marked_decides label hg hends

end Grammar

end Descent
