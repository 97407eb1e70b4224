/-
  Descent.Proofs.Gathered

  What a repetition gathers, as a relation.  It takes one value after the other as long as its
  bounds allow more and the relation of the repeated parser allows one, and so it is greedy: it
  stops only where it has to.  Where every value consumes something, a repetition decides this
  relation within as many attempts as the input has bytes.
-/
import Descent.Proofs.Consumed
import Descent.Proofs.Decides

namespace Descent

variable {α : Type} {T : List Char → α → List Char → Prop} {b : Bounds}

/-! ## The relation -/

/-- From `cs`, with `n` values gathered before, these values are gathered and this is left. -/
inductive Gathered (T : List Char → α → List Char → Prop) (b : Bounds) :
    Nat → List Char → List α → List Char → Prop
  | done {n : Nat} {cs : List Char} (h : b.isFull n = true ∨ ∀ v rest, ¬ T cs v rest) :
      Gathered T b n cs [] cs
  | more {n : Nat} {cs mid rest : List Char} {v : α} {vs : List α} (hn : b.isFull n = false)
      (hv : T cs v mid) (hvs : Gathered T b (n + 1) mid vs rest) : Gathered T b n cs (v :: vs) rest

/-- Every value takes some characters from the front. -/
def Consuming (T : List Char → α → List Char → Prop) : Prop :=
  ∀ cs v rest, T cs v rest → ∃ w, w ≠ [] ∧ cs = w ++ rest

/-- A repetition of what consumes something comes to an end. -/
theorem Gathered.exists (hT : Consuming T) (b : Bounds) (n : Nat) (cs : List Char) :
    ∃ vs rest, Gathered T b n cs vs rest := by
  -- On the length of the text, which every value makes shorter.
  induction hlength : cs.length using Nat.strongRecOn generalizing n cs with
  | ind length ih =>
    by_cases hnext : b.isFull n = false ∧ ∃ v mid, T cs v mid
    · obtain ⟨hfull, v, mid, hv⟩ := hnext
      obtain ⟨w, hw, rfl⟩ := hT cs v mid hv
      have hlt : mid.length < length := by
        have hpos := List.length_pos_iff.2 hw
        rw [← hlength, List.length_append]
        omega
      obtain ⟨vs, rest, hvs⟩ := ih mid.length hlt (n + 1) mid rfl
      exact ⟨v :: vs, rest, .more hfull hv hvs⟩
    · refine ⟨[], cs, .done ?_⟩
      cases hfull : b.isFull n with
      | true => exact .inl rfl
      | false => exact .inr fun v mid hv => hnext ⟨hfull, v, mid, hv⟩

theorem Gathered.length_le (hT : Consuming T) {n : Nat} {cs rest : List Char} {vs : List α}
    (h : Gathered T b n cs vs rest) : rest.length ≤ cs.length := by
  induction h with
  | done _ => exact Nat.le_refl _
  | more _ hv _ ih =>
    obtain ⟨w, -, rfl⟩ := hT _ _ _ hv
    rw [List.length_append]
    omega

theorem Gathered.full_iff {n : Nat} (h : b.isFull n = true) {cs rest : List Char} {vs : List α} :
    Gathered T b n cs vs rest ↔ vs = [] ∧ rest = cs := by
  refine ⟨fun hg => ?_, fun hg => ?_⟩
  · cases hg with
    | done _ => exact ⟨rfl, rfl⟩
    | more hn _ _ => rw [h] at hn; exact Bool.noConfusion hn
  · obtain ⟨rfl, rfl⟩ := hg
    exact .done (.inl h)

theorem Gathered.none_iff {n : Nat} {cs : List Char} (h : ∀ v rest, ¬ T cs v rest)
    {rest : List Char} {vs : List α} : Gathered T b n cs vs rest ↔ vs = [] ∧ rest = cs := by
  refine ⟨fun hg => ?_, fun hg => ?_⟩
  · cases hg with
    | done _ => exact ⟨rfl, rfl⟩
    | more _ hv _ => exact absurd hv (h _ _)
  · obtain ⟨rfl, rfl⟩ := hg
    exact .done (.inr h)

/-- Where one value is allowed and no other, it is gathered first. -/
theorem Gathered.next_iff {n : Nat} (hn : b.isFull n = false) {cs mid : List Char} {v : α}
    (h : ∀ w ds, T cs w ds ↔ w = v ∧ ds = mid) {rest : List Char} {vs : List α} :
    Gathered T b n cs vs rest ↔ ∃ ws, vs = v :: ws ∧ Gathered T b (n + 1) mid ws rest := by
  refine ⟨fun hg => ?_, fun hg => ?_⟩
  · cases hg with
    | done hstop =>
      rcases hstop with hfull | hnone
      · rw [hn] at hfull; exact Bool.noConfusion hfull
      · exact absurd ((h v mid).2 ⟨rfl, rfl⟩) (hnone v mid)
    | more _ hv hvs =>
      obtain ⟨rfl, rfl⟩ := (h _ _).1 hv
      exact ⟨_, rfl, hvs⟩
  · obtain ⟨ws, rfl, hg⟩ := hg
    exact .more hn ((h v mid).2 ⟨rfl, rfl⟩) hg

/-! ## The loop -/

namespace Parser

variable {p : Parser α} {F : List Char → Prop} {G : List Char → List Char → Prop}

/-- The loop stops in time and hauls what the relation says.  If its very first attempt fails, it
    keeps the failure. -/
theorem gather_decides (hT : Consuming T) (limit : Nat) (rest : Input) (hlimit : rest.size < limit)
    (hp : ∀ inp : Input, inp.size ≤ rest.size → p.Decides inp (T inp.chars) (G inp.chars))
    (count : Nat) (newestFirst : List α) (scopes : Scopes) :
    ∃ items haul scopes', gather b p limit rest count newestFirst scopes =
        some (.ok haul, scopes') ∧
      haul.items = newestFirst.reverse ++ items ∧
      (∀ vs cs, Gathered T b count rest.chars vs cs ↔ vs = items ∧ cs = haul.rest.chars) ∧
      (∀ e, items = [] → haul.stop = .refused e → G rest.chars e.rest.chars) := by
  induction limit generalizing rest count newestFirst scopes with
  | zero => omega
  | succ limit ih =>
    cases hfull : b.isFull count with
    | true =>
      refine ⟨[], ⟨newestFirst.reverse, rest, .full⟩, scopes, by simp [gather, hfull], by simp,
        fun vs cs => Gathered.full_iff hfull, ?_⟩
      intro e _ hstop
      exact Stop.noConfusion hstop
    | false =>
      obtain ⟨reply, scopes', hrun, hr⟩ := hp rest (Nat.le_refl _) scopes
      cases reply with
      | matched after value =>
        have hstep : T rest.chars value after.chars := (hr value after.chars).2 ⟨rfl, rfl⟩
        obtain ⟨w, hw, hchars⟩ := hT _ _ _ hstep
        have hlt : after.size < rest.size := Input.size_lt_of_consumed hw hchars
        obtain ⟨items, haul, scopes'', hg, hitems, hiff, -⟩ :=
          ih after (by omega) (fun inp h => hp inp (by omega)) (count + 1)
            (value :: newestFirst) scopes'
        refine ⟨value :: items, haul, scopes'', ?_, by simp [hitems], ?_, ?_⟩
        · have hne : after.size ≠ rest.size := by omega
          simp [gather, hfull, hrun, hne, hg]
        · intro vs cs
          rw [Gathered.next_iff hfull hr]
          refine ⟨fun h => ?_, fun h => ?_⟩
          · obtain ⟨ws, rfl, hws⟩ := h
            obtain ⟨rfl, rfl⟩ := (hiff ws cs).1 hws
            exact ⟨rfl, rfl⟩
          · obtain ⟨rfl, rfl⟩ := h
            exact ⟨items, rfl, (hiff items haul.rest.chars).2 ⟨rfl, rfl⟩⟩
        · intro e hnil
          exact absurd hnil (List.cons_ne_nil value items)
      | failed e =>
        refine ⟨[], ⟨newestFirst.reverse, rest, .refused e⟩, scopes', by simp [gather, hfull, hrun],
          by simp, fun vs cs => Gathered.none_iff hr.1, ?_⟩
        intro e' _ hstop
        obtain rfl : e = e' := by simpa using hstop
        exact hr.2
      | aborted m => exact hr.elim

/-- Too little is a failure, at the input or as the very first attempt failed. -/
theorem judge_of_not_le (inp : Input) {haul : Haul α} (h : ¬ b.least ≤ haul.items.length) :
    ∃ e, judge b inp haul = .failed e ∧ (e = ⟨inp⟩ ∨ haul.items = [] ∧ haul.stop = .refused e) := by
  obtain ⟨items, rest, stop⟩ := haul
  cases items with
  | nil =>
    have hne : b.least ≠ 0 := by simpa using h
    cases stop with
    | refused e => exact ⟨e, by simp [judge, hne], .inr ⟨rfl, rfl⟩⟩
    | full => exact ⟨⟨inp⟩, by simp [judge, hne], .inl rfl⟩
    | idle => exact ⟨⟨inp⟩, by simp [judge, hne], .inl rfl⟩
  | cons v vs =>
    exact ⟨⟨inp⟩, judge_of_lt (Nat.lt_of_not_le h) (List.cons_ne_nil v vs), .inl rfl⟩

/-- A repetition decides what is gathered, if it is enough.  It fails at its input, or as the very
    first attempt did. -/
theorem repeated_decides {limit : Nat} {inp : Input} (hT : Consuming T) (hlimit : inp.size < limit)
    (hp : ∀ inp' : Input, inp'.size ≤ inp.size → p.Decides inp' (T inp'.chars) (G inp'.chars))
    (hF : F inp.chars) (hG : ∀ cs, G inp.chars cs → F cs) :
    (repeated limit b p).Decides inp
      (fun vs cs => Gathered T b 0 inp.chars vs cs ∧ b.least ≤ vs.length) F := by
  intro scopes
  obtain ⟨items, haul, scopes', hg, hitems, hiff, hstop⟩ :=
    gather_decides (b := b) hT limit inp hlimit hp 0 [] scopes
  obtain rfl : haul.items = items := by simpa using hitems
  refine ⟨judge b inp haul, scopes', by simp [repeated, hg], ?_⟩
  by_cases hle : b.least ≤ haul.items.length
  · rw [judge_of_le hle]
    intro vs cs
    refine ⟨fun h => ?_, fun h => ?_⟩
    · obtain ⟨hvs, -⟩ := h
      exact (hiff vs cs).1 hvs
    · obtain ⟨rfl, rfl⟩ := h
      exact ⟨(hiff haul.items haul.rest.chars).2 ⟨rfl, rfl⟩, hle⟩
  · have hnone : ∀ vs cs, ¬ (Gathered T b 0 inp.chars vs cs ∧ b.least ≤ vs.length) := by
      rintro vs cs ⟨hvs, hlen⟩
      obtain ⟨rfl, -⟩ := (hiff vs cs).1 hvs
      exact hle hlen
    obtain ⟨e, hjudge, he⟩ := judge_of_not_le inp hle
    rw [hjudge]
    rcases he with rfl | ⟨hnil, hrefused⟩
    · exact ⟨hnone, hF⟩
    · exact ⟨hnone, hG _ (hstop e hnil hrefused)⟩

end Parser

theorem Grammar.repeated_decides {N : Type → Type} {attempts : Nat}
    {call : {α : Type} → N α → Parser α} {g : Grammar N α} {inp : Input}
    {F : List Char → Prop} {G : List Char → List Char → Prop} (hT : Consuming T)
    (ha : inp.size < attempts)
    (hg : ∀ inp' : Input, inp'.size ≤ inp.size →
      (g.eval attempts call).Decides inp' (T inp'.chars) (G inp'.chars))
    (hF : F inp.chars) (hG : ∀ cs, G inp.chars cs → F cs) :
    ((Grammar.repeated b g).eval attempts call).Decides inp
      (fun vs cs => Gathered T b 0 inp.chars vs cs ∧ b.least ≤ vs.length) F :=
  Parser.repeated_decides hT ha hg hF hG

end Descent
