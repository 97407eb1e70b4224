/-
  Descent.Proofs.Lexical

  What the small pieces of text decide: single characters, literals, runs of characters of one
  kind, identifiers, and text between two delimiters.  All but the last fail at their input and
  nowhere else.
-/
import Descent.Lexical
import Descent.Proofs.Runs
import Descent.Proofs.Texts

namespace Descent

variable {N : Type → Type} {attempts : Nat} {call : {α : Type} → N α → Parser α}
  {inp : Input}

/-! ## Single steps -/

theorem Grammar.any_decides :
    ((Grammar.any : Grammar N Char).eval attempts call).Decides inp
      (fun c cs => inp.chars = c :: cs) (· = inp.chars) := by
  apply Parser.read_decides
  cases hn : inp.next? with
  | none =>
    have hnil := Input.next?_eq_none_iff.1 hn
    simp [hnil]
  | some r =>
    have hcons := Input.next?_eq_some_iff.1 hn
    intro v cs
    rw [hcons]
    simp [eq_comm]

theorem Grammar.atEnd_decides :
    ((Grammar.atEnd : Grammar N Unit).eval attempts call).Decides inp
      (fun _ cs => inp.chars = [] ∧ cs = []) (fun cs => cs = inp.chars ∧ cs ≠ []) := by
  apply Parser.read_decides
  cases hempty : inp.isEmpty with
  | true =>
    have hnil : inp.chars = [] := List.isEmpty_iff.1 hempty
    intro v cs
    simp [hnil]
  | false =>
    have hne : inp.chars ≠ [] := List.isEmpty_eq_false_iff.1 hempty
    exact ⟨fun v cs h => hne h.1, rfl, hne⟩

theorem Grammar.chars_decides (lit : List Char) :
    ((Grammar.chars lit : Grammar N (List Char)).eval attempts call).Decides inp
      (fun v cs => v = lit ∧ inp.chars = lit ++ cs) (· = inp.chars) := by
  apply Parser.read_decides
  cases hs : inp.strip? lit with
  | none =>
    refine ⟨?_, rfl⟩
    rintro v cs ⟨rfl, hcs⟩
    have : inp.strip? v = some (.ofChars cs) := Input.strip?_eq_some_iff.2 hcs
    simp [hs] at this
  | some rest =>
    have hrest := Input.strip?_eq_some_iff.1 hs
    intro v cs
    rw [hrest, List.append_cancel_left_eq]
    exact and_congr_right' eq_comm

theorem Grammar.literal_decides (s : String) :
    ((Grammar.literal s : Grammar N String).eval attempts call).Decides inp
      (fun v cs => v = s ∧ inp.chars = s.toList ++ cs) (· = inp.chars) := by
  refine (map_decides _ (chars_decides s.toList)).congr ?_ fun _ h => h
  intro v cs
  refine ⟨fun h => ?_, fun h => ?_⟩
  · obtain ⟨rfl, hcs⟩ := h
    exact ⟨_, ⟨rfl, hcs⟩, rfl⟩
  · obtain ⟨_, ⟨rfl, hcs⟩, rfl⟩ := h
    exact ⟨rfl, hcs⟩

theorem Grammar.char_decides (c : Char) :
    ((Grammar.char c : Grammar N Char).eval attempts call).Decides inp
      (fun v cs => v = c ∧ inp.chars = c :: cs) (· = inp.chars) := by
  refine (map_decides _ (chars_decides [c])).congr ?_ fun _ h => h
  intro v cs
  refine ⟨fun h => ?_, fun h => ?_⟩
  · obtain ⟨rfl, hcs⟩ := h
    exact ⟨_, ⟨rfl, hcs⟩, rfl⟩
  · obtain ⟨_, ⟨rfl, hcs⟩, rfl⟩ := h
    exact ⟨rfl, hcs⟩

theorem Grammar.satisfying_decides (keep : Char → Bool) :
    ((Grammar.satisfying keep : Grammar N Char).eval attempts call).Decides inp
      (Begins (fun w c => w = [c] ∧ keep c = true) inp.chars) (· = inp.chars) := by
  refine (filter_decides keep any_decides rfl).congr ?_ fun _ h => h
  intro c cs
  refine ⟨fun h => ?_, fun h => ?_⟩
  · obtain ⟨_, ⟨rfl, hk⟩, hcs⟩ := h
    exact ⟨hcs, hk⟩
  · obtain ⟨hcs, hk⟩ := h
    exact ⟨[c], ⟨rfl, hk⟩, hcs⟩

/-! ## Runs of characters of one kind -/

theorem stopsAt_iff {keep : Char → Bool} {cs : List Char} :
    StopsAt keep cs ↔ ∀ c ds, ¬ Begins (fun w c => w = [c] ∧ keep c = true) cs c ds := by
  cases cs with
  | nil => simp [Begins]
  | cons c cs =>
    rw [stopsAt_cons]
    refine ⟨fun hc d ds h => ?_, fun hnone => ?_⟩
    · obtain ⟨_, ⟨rfl, hd⟩, hcs⟩ := h
      obtain ⟨rfl, -⟩ := List.cons.inj hcs
      rw [hc] at hd
      exact Bool.noConfusion hd
    · exact Bool.eq_false_iff.2 fun hc => hnone c cs ⟨[c], ⟨rfl, hc⟩, rfl⟩

/-- What a repetition takes from the front of `cs` and what it leaves.  It takes characters of the
    kind, as many as its bounds ask for and no more than they allow, and it stops before its bounds
    make it stop only where no other such character follows. -/
structure Span (keep : Char → Bool) (b : Bounds) (cs taken rest : List Char) : Prop where
  split : cs = taken ++ rest
  kind : ∀ c ∈ taken, keep c = true
  enough : b.least ≤ taken.length
  allowed : ∀ hi ∈ b.most, taken.length ≤ hi
  ends : b.most = some taken.length ∨ StopsAt keep rest

/-- Single characters are gathered as a span. -/
theorem gathered_char_iff {keep : Char → Bool} {b : Bounds} {cs vs rest : List Char} :
    Gathered (Begins fun w c => w = [c] ∧ keep c = true) b 0 cs vs rest ∧ b.least ≤ vs.length ↔
      Span keep b cs vs rest := by
  rw [gathered_texts_iff, ← stopsAt_iff]
  simp only [Nat.zero_add, Bounds.forall_isFull_eq_false_iff]
  refine ⟨fun h => ?_, fun h => ?_⟩
  · obtain ⟨⟨⟨w, hw, hcs⟩, hallowed, hends⟩, henough⟩ := h
    obtain ⟨rfl, hall⟩ := texts_char_iff.1 hw
    refine ⟨hcs, hall, henough, hallowed, hends.imp_left fun hfull => ?_⟩
    obtain ⟨hi, hmost, hle⟩ := (Bounds.isFull_iff b _).1 hfull
    have hhi : hi = w.length := Nat.le_antisymm hle (hallowed hi hmost)
    rw [hmost, hhi]
  · have hfull : b.most = some vs.length → b.isFull vs.length = true := fun hmost =>
      (Bounds.isFull_iff b _).2 ⟨vs.length, hmost, Nat.le_refl _⟩
    have htexts := texts_char_iff.2 ⟨rfl, h.kind⟩
    exact ⟨⟨⟨vs, htexts, h.split⟩, h.allowed, h.ends.imp_left hfull⟩, h.enough⟩

/-- A repetition of single characters takes a span. -/
theorem Grammar.span_decides (keep : Char → Bool) (b : Bounds) (ha : inp.size < attempts) :
    (((Grammar.satisfying keep : Grammar N Char).repeated b).eval attempts call).Decides inp
      (Span keep b inp.chars) (· = inp.chars) := by
  have hconsuming : Consuming (Begins fun w c => w = [c] ∧ keep c = true) :=
    consuming_begins (by rintro w c ⟨rfl, -⟩; exact List.cons_ne_nil c [])
  exact (Parser.repeated_decides (F := (· = inp.chars)) (G := fun ds cs => cs = ds) hconsuming ha
    (fun inp' _ => satisfying_decides keep) rfl fun _ h => h).congr
      (fun _ _ => gathered_char_iff.symm) fun _ h => h

/-- All characters of the kind are taken, and it has to be enough of them. -/
theorem Grammar.satisfying_repeated_decides (keep : Char → Bool) {b : Bounds}
    (hb : b.most = none) (ha : inp.size < attempts) :
    (((Grammar.satisfying keep : Grammar N Char).repeated b).eval attempts call).Decides inp
      (fun vs cs => inp.chars = vs ++ cs ∧ (∀ c ∈ vs, keep c = true) ∧ StopsAt keep cs ∧
        b.least ≤ vs.length) (· = inp.chars) := by
  refine (span_decides keep b ha).congr (fun vs cs => ⟨fun h => ?_, fun h => ?_⟩) fun _ h => h
  · obtain ⟨hcs, hall, hstop, hle⟩ := h
    exact ⟨hcs, hall, hle, by simp [hb], .inr hstop⟩
  · have hstop : StopsAt keep cs := h.ends.resolve_left (by simp [hb])
    exact ⟨h.split, h.kind, hstop, h.enough⟩

/-- The same as a text. -/
theorem Grammar.satisfying_text_decides (keep : Char → Bool) {b : Bounds} (hb : b.most = none)
    (ha : inp.size < attempts) :
    ((((Grammar.satisfying keep : Grammar N Char).repeated b).text).eval attempts call).Decides inp
      (fun s cs => inp.chars = s.toList ++ cs ∧ (∀ c ∈ s.toList, keep c = true) ∧
        StopsAt keep cs ∧ b.least ≤ s.toList.length) (· = inp.chars) := by
  refine (map_decides String.ofList (satisfying_repeated_decides keep hb ha)).congr ?_ fun _ h => h
  intro s cs
  refine ⟨fun h => ⟨s.toList, h, String.ofList_toList.symm⟩, fun h => ?_⟩
  obtain ⟨vs, hvs, rfl⟩ := h
  rw [String.toList_ofList]
  exact hvs

namespace Lexical

/-- At least one ASCII letter or digit, and nothing else. -/
def IsName (s : String) : Prop := s.toList ≠ [] ∧ ∀ c ∈ s.toList, c.isAlphanum = true

-- Along the characters of the name, not along all characters there are.
instance (s : String) : Decidable (IsName s) :=
  have : Decidable (∀ c ∈ s.toList, c.isAlphanum = true) := List.decidableBAll _ _
  inferInstanceAs (Decidable (s.toList ≠ [] ∧ ∀ c ∈ s.toList, c.isAlphanum = true))

theorem blanks_decides (ha : inp.size < attempts) :
    ((blanks : Grammar N (List Char)).eval attempts call).Decides inp
      (fun vs cs => inp.chars = vs ++ cs ∧ (∀ c ∈ vs, Text.isBlank c = true) ∧
        StopsAt Text.isBlank cs) (· = inp.chars) := by
  refine (Grammar.satisfying_repeated_decides Text.isBlank rfl ha).congr ?_ fun _ h => h
  intro vs cs
  simp [Bounds.free]

theorem someBlanks_decides (ha : inp.size < attempts) :
    ((someBlanks : Grammar N (List Char)).eval attempts call).Decides inp
      (fun vs cs => vs ≠ [] ∧ inp.chars = vs ++ cs ∧ (∀ c ∈ vs, Text.isBlank c = true) ∧
        StopsAt Text.isBlank cs) (· = inp.chars) := by
  refine (Grammar.satisfying_repeated_decides Text.isBlank rfl ha).congr ?_ fun _ h => h
  intro vs cs
  refine ⟨fun h => ?_, fun h => ?_⟩
  · obtain ⟨hne, hcs, hall, hstop⟩ := h
    exact ⟨hcs, hall, hstop, List.length_pos_iff.2 hne⟩
  · obtain ⟨hcs, hall, hstop, hle⟩ := h
    exact ⟨List.length_pos_iff.1 hle, hcs, hall, hstop⟩

/-- An identifier is a name that goes on for as long as it can. -/
theorem identifier_decides (ha : inp.size < attempts) :
    ((identifier : Grammar N String).eval attempts call).Decides inp
      (fun s cs => IsName s ∧ inp.chars = s.toList ++ cs ∧ StopsAt Char.isAlphanum cs)
      (· = inp.chars) := by
  refine (Grammar.satisfying_text_decides Char.isAlphanum rfl ha).congr ?_ fun _ h => h
  intro s cs
  refine ⟨fun h => ?_, fun h => ?_⟩
  · obtain ⟨⟨hne, hall⟩, hcs, hstop⟩ := h
    exact ⟨hcs, hall, hstop, List.length_pos_iff.2 hne⟩
  · obtain ⟨hcs, hall, hstop, hle⟩ := h
    exact ⟨⟨List.length_pos_iff.1 hle, hall⟩, hcs, hstop⟩

/-- Neither of two delimiters. -/
def isInside (start finish c : Char) : Bool := c ≠ start && c ≠ finish

theorem isInside_eq_false_iff {start finish c : Char} :
    isInside start finish c = false ↔ c = start ∨ c = finish := by
  simp [isInside, Decidable.or_iff_not_imp_left]

theorem forall_isInside_iff {start finish : Char} {cs : List Char} :
    (∀ c ∈ cs, isInside start finish c = true) ↔ start ∉ cs ∧ finish ∉ cs := by
  refine ⟨fun h => ⟨fun hs => ?_, fun hf => ?_⟩, fun h c hc => ?_⟩
  · simpa [isInside] using h start hs
  · simpa [isInside] using h finish hf
  · have hcs : c ≠ start := fun heq => h.1 (heq ▸ hc)
    have hcf : c ≠ finish := fun heq => h.2 (heq ▸ hc)
    simp [isInside, hcs, hcf]

/-- Behind the opening delimiter the text goes on up to the next delimiter of either kind. -/
theorem openedText_decides (start finish : Char) (ha : inp.size < attempts) :
    (((Grammar.satisfying (· = start) : Grammar N Char).skipThen
      ((Grammar.satisfying fun c => c ≠ start && c ≠ finish).repeated Bounds.free).text).eval
        attempts call).Decides inp
      (fun s cs => inp.chars = start :: (s.toList ++ cs) ∧ start ∉ s.toList ∧
        finish ∉ s.toList ∧ StopsAt (isInside start finish) cs) (fun _ => True) := by
  have hopen : ((Grammar.satisfying (· = start) : Grammar N Char).eval attempts call).Decides inp
      (Begins (fun w c => w = [c] ∧ decide (c = start) = true) inp.chars) fun _ => True :=
    (Grammar.satisfying_decides _).weaken
  -- What is left behind the opening delimiter is shorter, so there are still attempts enough.
  refine (Grammar.skipThen_decides
    (U := fun ds (s : String) cs => ds = s.toList ++ cs ∧
      (∀ c ∈ s.toList, isInside start finish c = true) ∧
      StopsAt (isInside start finish) cs ∧ 0 ≤ s.toList.length) hopen
    fun c mid hc => ?_).congr ?_ fun _ h => h
  · obtain ⟨w, ⟨rfl, -⟩, hcs⟩ := hc
    have := Input.size_lt_of_consumed (List.cons_ne_nil c []) hcs
    exact (Grammar.satisfying_text_decides (b := Bounds.free) _ rfl (by omega)).weaken
  intro s cs
  refine ⟨fun h => ?_, fun h => ?_⟩
  · obtain ⟨hcs, hs, hf, hstop⟩ := h
    exact ⟨start, s.toList ++ cs, ⟨[start], by simp, hcs⟩, rfl, forall_isInside_iff.2 ⟨hs, hf⟩,
      hstop, Nat.zero_le _⟩
  · obtain ⟨c, mid, ⟨w, ⟨rfl, hc⟩, hinp⟩, rfl, hall, hstop, -⟩ := h
    have hc : c = start := of_decide_eq_true hc
    obtain ⟨hs, hf⟩ := forall_isInside_iff.1 hall
    exact ⟨by rw [hinp, hc]; rfl, hs, hf, hstop⟩

/-- Text between two delimiters is free of both of them. -/
theorem textBetween_decides (start finish : Char) (ha : inp.size < attempts) :
    ((textBetween start finish : Grammar N String).eval attempts call).Decides inp
      (fun s cs => start ∉ s.toList ∧ finish ∉ s.toList ∧
        inp.chars = start :: (s.toList ++ finish :: cs)) (fun _ => True) := by
  refine (Grammar.thenSkip_decides (U := Begins fun w c => w = [c] ∧ decide (c = finish) = true)
    (openedText_decides start finish ha) fun s mid _ =>
      (Grammar.satisfying_decides _).weaken).congr ?_ fun _ h => h
  intro s cs
  refine ⟨fun h => ?_, fun h => ?_⟩
  · obtain ⟨hs, hf, hcs⟩ := h
    have hstop : StopsAt (isInside start finish) (finish :: cs) :=
      stopsAt_cons.2 (isInside_eq_false_iff.2 (.inr rfl))
    exact ⟨finish, finish :: cs, ⟨hcs, hs, hf, hstop⟩, [finish], by simp, rfl⟩
  · obtain ⟨d, mid, ⟨hinp, hs, hf, -⟩, w, ⟨rfl, hd⟩, rfl⟩ := h
    have hd : d = finish := of_decide_eq_true hd
    exact ⟨hs, hf, by rw [hinp, hd]; rfl⟩

theorem quotedText_decides (ha : inp.size < attempts) :
    ((quotedText : Grammar N String).eval attempts call).Decides inp
      (fun s cs => '"' ∉ s.toList ∧ inp.chars = '"' :: (s.toList ++ '"' :: cs))
      (fun _ => True) := by
  refine (textBetween_decides '"' '"' ha).congr ?_ fun _ h => h
  intro s cs
  exact ⟨fun ⟨hs, hcs⟩ => ⟨hs, hs, hcs⟩, fun ⟨hs, _, hcs⟩ => ⟨hs, hcs⟩⟩

end Lexical

end Descent
