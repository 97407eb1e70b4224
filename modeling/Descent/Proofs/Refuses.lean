/-
  Descent.Proofs.Refuses

  Where a parser fails, exactly.  A decision bounds the places of failures from one side only; a
  parser refuses an input at the rests that a relation allows if these are the rests of its
  failures and it has no others, whatever scopes are open.  So at most one rest is allowed, and none
  if the parser matches.

  Each combinator gets one rule.  What a first parser matches has to be known as a decision, since
  a second one may fail where the first one has left it.
-/
import Mathlib.Data.List.TakeWhile
import Descent.Proofs.Courses
import Descent.Proofs.Lexical

namespace Descent

/-- A reply that tells at which rests the parser fails. -/
def Reply.Refuses {α : Type} (F : List Char → Prop) : Reply α → Prop
  | .matched _ _ => ∀ r, ¬ F r
  | .failed e => ∀ r, F r ↔ r = e.rest.chars
  | .aborted _ => False

/-- Whatever scopes are open, the parser fails on the input at the rests that are allowed, and
    matches if there are none. -/
def Parser.Refuses {α : Type} (p : Parser α) (inp : Input) (F : List Char → Prop) : Prop :=
  ∀ scopes, ∃ reply scopes', p inp scopes = some (reply, scopes') ∧ reply.Refuses F

variable {α β γ : Type} {T : α → List Char → Prop} {F F' G : List Char → Prop}

theorem Reply.Refuses.congr {reply : Reply α} (h : reply.Refuses F) (hF : ∀ r, F' r ↔ F r) :
    reply.Refuses F' := by
  have hsame : F' = F := funext fun r => propext (hF r)
  rw [hsame]
  exact h

namespace Parser

variable {p q : Parser α} {inp : Input}

/-! ## Using where a parser fails -/

theorem Refuses.congr (h : p.Refuses inp F) (hF : ∀ r, F' r ↔ F r) : p.Refuses inp F' := by
  intro scopes
  obtain ⟨reply, scopes', hp, hr⟩ := h scopes
  exact ⟨reply, scopes', hp, hr.congr hF⟩

/-- The parser fails at a rest exactly if it is allowed. -/
theorem Refuses.failed_iff (h : p.Refuses inp F) (scopes : Scopes) (rest : Input) :
    (∃ scopes', p inp scopes = some (.failed ⟨rest⟩, scopes')) ↔ F rest.chars := by
  obtain ⟨reply, scopes', hp, hr⟩ := h scopes
  rw [hp]
  cases reply with
  | matched rest' v =>
    refine ⟨fun hfailed => ?_, fun hF => absurd hF (hr _)⟩
    obtain ⟨scopes'', hfailed⟩ := hfailed
    cases hfailed
  | failed e =>
    refine ⟨fun hfailed => ?_, fun hF => ?_⟩
    · obtain ⟨scopes'', hfailed⟩ := hfailed
      obtain ⟨he, -⟩ := Prod.mk.inj (Option.some.inj hfailed)
      rw [Reply.failed.inj he] at hr
      exact (hr _).2 rfl
    · have he : e = ⟨rest⟩ := Failure.ext (Input.ext ((hr _).1 hF).symm)
      exact ⟨scopes', by rw [he]⟩
  | aborted m => exact hr.elim

/-- One run tells the places of failures and, where there is a decision, what is matched. -/
theorem Refuses.decided (hp : p.Refuses inp F) (hT : p.Decides inp T G) (scopes : Scopes) :
    ∃ reply scopes', p inp scopes = some (reply, scopes') ∧ reply.Refuses F ∧
      reply.Decides T G := by
  obtain ⟨reply, scopes', hrun, hr⟩ := hp scopes
  obtain ⟨_, _, hrun', hdecides⟩ := hT scopes
  obtain ⟨rfl, rfl⟩ := Prod.mk.inj (Option.some.inj (hrun.symm.trans hrun'))
  exact ⟨reply, scopes', hrun, hr, hdecides⟩

/-! ## From a decision -/

/-- Where a decision says the one place at which a failure can be, it is there if nothing is
    matched. -/
theorem Decides.refuses (h : p.Decides inp T F) (hF : ∀ r r', F r → F r' → r = r') :
    p.Refuses inp fun r => (∀ v cs, ¬ T v cs) ∧ F r := by
  intro scopes
  obtain ⟨reply, scopes', hp, hr⟩ := h scopes
  refine ⟨reply, scopes', hp, ?_⟩
  cases reply with
  | matched rest v =>
    intro r hnone
    exact hnone.1 v rest.chars ((hr v rest.chars).2 ⟨rfl, rfl⟩)
  | failed e =>
    obtain ⟨hnone, he⟩ := hr
    intro r
    refine ⟨fun hfails => hF r _ hfails.2 he, fun hrest => ?_⟩
    subst hrest
    exact ⟨hnone, he⟩
  | aborted m => exact hr.elim

/-- The same for a parser that fails only at its input. -/
theorem Decides.refuses_here (h : p.Decides inp T (· = inp.chars)) :
    p.Refuses inp fun r => (∀ v cs, ¬ T v cs) ∧ r = inp.chars :=
  h.refuses fun _ _ hr hr' => hr.trans hr'.symm

/-! ## Rules for the combinators -/

theorem map_refuses (f : α → β) (hp : p.Refuses inp F) : (map f p).Refuses inp F := by
  intro scopes
  obtain ⟨reply, scopes', hp, hr⟩ := hp scopes
  cases reply with
  | matched rest v => exact ⟨.matched rest (f v), scopes', by rw [map, hp], hr⟩
  | failed e => exact ⟨.failed e, scopes', by rw [map, hp], hr⟩
  | aborted m => exact hr.elim

/-- A value that is refused is refused at the input, whatever was consumed for it. -/
theorem filter_refuses (keep : α → Bool) (hT : p.Decides inp T G) (hp : p.Refuses inp F) :
    (filter keep p).Refuses inp fun r =>
      F r ∨ (∃ v cs, T v cs ∧ keep v = false) ∧ r = inp.chars := by
  intro scopes
  obtain ⟨reply, scopes', hrun, hr, hdecides⟩ := hp.decided hT scopes
  cases reply with
  | matched rest v =>
    have hv : T v rest.chars := (hdecides v rest.chars).2 ⟨rfl, rfl⟩
    cases hkeep : keep v with
    | true =>
      refine ⟨.matched rest v, scopes', by simp [filter, hrun, hkeep], ?_⟩
      rintro r (hF | ⟨⟨w, cs, hw, hdrop⟩, -⟩)
      · exact hr r hF
      · obtain ⟨rfl, -⟩ := (hdecides w cs).1 hw
        rw [hkeep] at hdrop
        exact Bool.noConfusion hdrop
    | false =>
      refine ⟨.failed ⟨inp⟩, scopes', by simp [filter, hrun, hkeep], fun r => ?_⟩
      exact ⟨fun h => (h.resolve_left (hr r)).2, fun h => .inr ⟨⟨v, _, hv, hkeep⟩, h⟩⟩
  | failed e =>
    refine ⟨.failed e, scopes', by rw [filter, hrun], fun r => ?_⟩
    refine ⟨fun h => (hr r).1 (h.resolve_right ?_), fun h => .inl ((hr r).2 h)⟩
    rintro ⟨⟨v, cs, hv, -⟩, -⟩
    exact hdecides.1 v cs hv
  | aborted m => exact hr.elim

/-- The failures of a sequence are those of its first part, and those of what follows a match. -/
theorem andThen_refuses {next : α → Parser β} {H : α → List Char → List Char → Prop}
    (hT : p.Decides inp T G) (hp : p.Refuses inp F)
    (hnext : ∀ v mid, T v mid.chars → (next v).Refuses mid (H v mid.chars)) :
    (andThen p next).Refuses inp fun r => F r ∨ ∃ v mid, T v mid ∧ H v mid r := by
  intro scopes
  obtain ⟨reply, scopes', hrun, hr, hdecides⟩ := hp.decided hT scopes
  cases reply with
  | matched mid v =>
    have hv : T v mid.chars := (hdecides v mid.chars).2 ⟨rfl, rfl⟩
    obtain ⟨reply', scopes'', hrun', hr'⟩ := hnext v mid hv scopes'
    refine ⟨reply', scopes'', by rw [andThen, hrun]; exact hrun', hr'.congr fun r => ?_⟩
    refine ⟨fun h => ?_, fun h => .inr ⟨v, mid.chars, hv, h⟩⟩
    obtain ⟨w, cs, hw, hH⟩ := h.resolve_left (hr r)
    obtain ⟨rfl, rfl⟩ := (hdecides w cs).1 hw
    exact hH
  | failed e =>
    refine ⟨.failed e, scopes', by rw [andThen, hrun], fun r => ?_⟩
    refine ⟨fun h => (hr r).1 (h.resolve_right ?_), fun h => .inl ((hr r).2 h)⟩
    rintro ⟨v, mid, hv, -⟩
    exact hdecides.1 v mid hv
  | aborted m => exact hr.elim

/-- A choice fails where the second parser does, if the first one fails at all. -/
theorem or_refuses (hT : p.Decides inp T G) (hq : q.Refuses inp F) :
    (or p q).Refuses inp fun r => (∀ v cs, ¬ T v cs) ∧ F r := by
  intro scopes
  obtain ⟨reply, scopes', hrun, hdecides⟩ := hT scopes
  cases reply with
  | matched rest v =>
    refine ⟨.matched rest v, scopes', by rw [or, hrun], fun r hnone => ?_⟩
    exact hnone.1 v rest.chars ((hdecides v rest.chars).2 ⟨rfl, rfl⟩)
  | failed e =>
    obtain ⟨reply', scopes'', hrun', hr'⟩ := hq scopes'
    refine ⟨reply', scopes'', by rw [or, hrun]; exact hrun', hr'.congr fun r => ?_⟩
    exact ⟨fun h => h.2, fun h => ⟨hdecides.1, h⟩⟩
  | aborted m => exact hdecides.elim

/-- A repetition that asks for nothing does not fail. -/
theorem repeated_refuses {limit : Nat} {b : Bounds} {T : List α → List Char → Prop}
    (hleast : b.least = 0) (h : (repeated limit b p).Decides inp T G) :
    (repeated limit b p).Refuses inp fun _ => False := by
  intro scopes
  obtain ⟨reply, scopes', hrun, hr⟩ := h scopes
  refine ⟨reply, scopes', hrun, ?_⟩
  cases reply with
  | matched rest vs => exact fun _ h => h
  | failed e =>
    obtain ⟨vs, _, _, _, _, hlt, _⟩ := course_of_repeated_failed (x := (inp, scopes)) hrun
    omega
  | aborted m => exact hr.elim

/-- A mark changes scopes only, where no match leaves more than the input. -/
theorem marked_refuses (label : String) (hT : p.Decides inp T G) (hp : p.Refuses inp F)
    (hends : ∀ v cs, T v cs → cs <:+ inp.chars) : (marked label p).Refuses inp F := by
  intro scopes
  obtain ⟨reply, scopes', hrun, hr, -⟩ := marked_answers label (hp.decided hT)
    (fun _ h => h.2) (fun rest v h =>
      Input.size_le_of_suffix (hends v rest.chars ((h.2 v rest.chars).2 ⟨rfl, rfl⟩))) scopes
  exact ⟨reply, scopes', hrun, hr⟩

end Parser

/-! ## Rules for grammars -/

namespace Grammar

variable {N : Type → Type} {attempts : Nat} {call : {α : Type} → N α → Parser α} {inp : Input}
  {g : Grammar N α} {h : Grammar N β} {H : List Char → List Char → Prop}

theorem both_refuses (hT : (g.eval attempts call).Decides inp T G)
    (hg : (g.eval attempts call).Refuses inp F)
    (hh : ∀ a mid, T a mid.chars → (h.eval attempts call).Refuses mid (H mid.chars)) :
    ((g.both h).eval attempts call).Refuses inp fun r => F r ∨ ∃ a mid, T a mid ∧ H mid r :=
  Parser.andThen_refuses hT hg fun a mid ha => Parser.map_refuses _ (hh a mid ha)

theorem skipThen_refuses (hT : (g.eval attempts call).Decides inp T G)
    (hg : (g.eval attempts call).Refuses inp F)
    (hh : ∀ a mid, T a mid.chars → (h.eval attempts call).Refuses mid (H mid.chars)) :
    ((g.skipThen h).eval attempts call).Refuses inp fun r => F r ∨ ∃ a mid, T a mid ∧ H mid r :=
  Parser.andThen_refuses hT hg hh

theorem thenSkip_refuses (hT : (g.eval attempts call).Decides inp T G)
    (hg : (g.eval attempts call).Refuses inp F)
    (hh : ∀ a mid, T a mid.chars → (h.eval attempts call).Refuses mid (H mid.chars)) :
    ((g.thenSkip h).eval attempts call).Refuses inp fun r => F r ∨ ∃ a mid, T a mid ∧ H mid r :=
  Parser.andThen_refuses hT hg fun a mid ha => Parser.map_refuses _ (hh a mid ha)

theorem repeated_refuses {b : Bounds} {T : List α → List Char → Prop} (hleast : b.least = 0)
    (hg : ((g.repeated b).eval attempts call).Decides inp T G) :
    ((g.repeated b).eval attempts call).Refuses inp fun _ => False :=
  Parser.repeated_refuses hleast hg

/-! ## Small pieces of text -/

theorem char_refuses (c : Char) :
    ((Grammar.char c : Grammar N Char).eval attempts call).Refuses inp
      fun r => (∀ cs, inp.chars ≠ c :: cs) ∧ r = inp.chars := by
  refine (char_decides c).refuses_here.congr fun r => and_congr_left' ?_
  exact ⟨fun h _ cs hcs => h cs hcs.2, fun h cs hcs => h c cs ⟨rfl, hcs⟩⟩

theorem literal_refuses (s : String) :
    ((Grammar.literal s : Grammar N String).eval attempts call).Refuses inp
      fun r => (∀ cs, inp.chars ≠ s.toList ++ cs) ∧ r = inp.chars := by
  refine (literal_decides s).refuses_here.congr fun r => and_congr_left' ?_
  exact ⟨fun h _ cs hcs => h cs hcs.2, fun h cs hcs => h s cs ⟨rfl, hcs⟩⟩

theorem satisfying_refuses (keep : Char → Bool) :
    ((Grammar.satisfying keep : Grammar N Char).eval attempts call).Refuses inp
      fun r => StopsAt keep inp.chars ∧ r = inp.chars :=
  (satisfying_decides keep).refuses_here.congr fun _ => and_congr_left' stopsAt_iff

end Grammar

namespace Lexical

variable {N : Type → Type} {attempts : Nat} {call : {α : Type} → N α → Parser α} {inp : Input}

/-- There is a name wherever a letter or digit is. -/
theorem exists_name_iff {cs : List Char} :
    (∃ name rest, IsName name ∧ cs = name.toList ++ rest ∧ StopsAt Char.isAlphanum rest) ↔
      ¬ StopsAt Char.isAlphanum cs := by
  refine ⟨fun h => ?_, fun h => ?_⟩
  · obtain ⟨name, rest, ⟨hne, hall⟩, rfl, -⟩ := h
    obtain ⟨c, ds, hname⟩ := List.exists_cons_of_ne_nil hne
    rw [hname, List.cons_append, stopsAt_cons, Bool.not_eq_false]
    exact hall c (by simp [hname])
  · refine ⟨String.ofList (cs.takeWhile Char.isAlphanum), cs.dropWhile Char.isAlphanum,
      ⟨?_, ?_⟩, ?_, ?_⟩
    · cases cs with
      | nil => exact absurd (stopsAt_nil Char.isAlphanum) h
      | cons c ds =>
        rw [stopsAt_cons, Bool.not_eq_false] at h
        simp [h]
    · intro c hc
      rw [String.toList_ofList] at hc
      exact List.mem_takeWhile_imp hc
    · rw [String.toList_ofList, List.takeWhile_append_dropWhile]
    · exact stopsAt_dropWhile Char.isAlphanum cs

theorem identifier_refuses (ha : inp.size < attempts) :
    ((identifier : Grammar N String).eval attempts call).Refuses inp
      fun r => StopsAt Char.isAlphanum inp.chars ∧ r = inp.chars := by
  refine (identifier_decides ha).refuses_here.congr fun r => and_congr_left' ?_
  rw [← not_iff_not, ← exists_name_iff]
  simp only [not_forall, not_not]

end Lexical

end Descent
