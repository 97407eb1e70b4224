/-
  Descent.Proofs.Transparent

  Marks and wrappers change nothing but the trace, where all steps are honest and so every mark can
  count the bytes of what it marks.

  A grammar can look at the traces it collects, and then a mark inside can be noticed.  What is said
  here is for grammars that do not: values are related across two grammars that are the same but for
  marks and wrappers, pairs of a value and a trace being related if the values are, and no function
  of the grammars tells related values apart.
-/
import Descent.Proofs.Heard

namespace Descent

variable {α : Type} {R : α → α → Prop}

-- ============================================================================
-- Grammars without their marks and wrappers
-- ============================================================================

/-- Which values of a symbol are related. -/
abbrev Likeness (N : Type → Type) := (α : Type) → N α → α → α → Prop

section Grammars

variable {N : Type → Type} {σ τ : Type 1}

namespace Grammar

/-- What a grammar is without marks and wrappers, continuations included. -/
def plain : {α : Type} → Grammar N α → Grammar N α
  | _, .leaf step => .leaf step
  | _, .map f g => .map f g.plain
  | _, .filter keep g => .filter keep g.plain
  | _, .andThen g next => .andThen g.plain fun value => (next value).plain
  | _, .or g h => .or g.plain h.plain
  | _, .repeated b g => .repeated b g.plain
  | _, .marked _ g => g.plain
  | _, .wrapped _ g => g.plain
  | _, .traced g => .traced g.plain
  | _, .symbol n => .symbol n

/-- The second grammar is the first one, without some of its marks and wrappers, and no function in
    them tells apart what is related: the values of symbols by `V`, those of single steps to
    themselves, and traces to all others.  The values of the two grammars are related by `R`. -/
inductive Undressed (V : Likeness N) :
    {α : Type} → (α → α → Prop) → Grammar N α → Grammar N α → Prop
  | leaf {α : Type} {R : α → α → Prop} {step : Input → Except Failure (Input × α)}
      (hstep : ∀ inp rest value, step inp = .ok (rest, value) → R value value) :
      Undressed V R (.leaf step) (.leaf step)
  | map {α β : Type} {R : α → α → Prop} {T : β → β → Prop} {f f' : α → β} {g h : Grammar N α}
      (hf : ∀ a b, R a b → T (f a) (f' b)) (hgh : Undressed V R g h) :
      Undressed V T (.map f g) (.map f' h)
  | filter {α : Type} {R : α → α → Prop} {keep keep' : α → Bool} {g h : Grammar N α}
      (hkeep : ∀ a b, R a b → keep a = keep' b) (hgh : Undressed V R g h) :
      Undressed V R (.filter keep g) (.filter keep' h)
  | andThen {α β : Type} {R : α → α → Prop} {T : β → β → Prop} {g h : Grammar N α}
      {next next' : α → Grammar N β} (hgh : Undressed V R g h)
      (hnext : ∀ a b, R a b → Undressed V T (next a) (next' b)) :
      Undressed V T (.andThen g next) (.andThen h next')
  | or {α : Type} {R : α → α → Prop} {g g' h h' : Grammar N α} (hgh : Undressed V R g h)
      (hgh' : Undressed V R g' h') : Undressed V R (.or g g') (.or h h')
  | repeated {α : Type} {R : α → α → Prop} (b : Bounds) {g h : Grammar N α}
      (hgh : Undressed V R g h) : Undressed V (List.Forall₂ R) (.repeated b g) (.repeated b h)
  | marked {α : Type} {R : α → α → Prop} (label : String) {g h : Grammar N α}
      (hgh : Undressed V R g h) : Undressed V R (.marked label g) (.marked label h)
  | wrapped {α : Type} {R : α → α → Prop} (w : Wrapper) {g h : Grammar N α}
      (hgh : Undressed V R g h) : Undressed V R (.wrapped w g) (.wrapped w h)
  | traced {α : Type} {R : α → α → Prop} {g h : Grammar N α} (hgh : Undressed V R g h) :
      Undressed V (fun a b => R a.1 b.1) (.traced g) (.traced h)
  | symbol {α : Type} (n : N α) : Undressed V (V _ n) (.symbol n) (.symbol n)
  /-- A mark of the first grammar alone. -/
  | unmarked {α : Type} {R : α → α → Prop} (label : String) {g h : Grammar N α}
      (hgh : Undressed V R g h) : Undressed V R (.marked label g) h
  /-- A wrapper of the first grammar alone. -/
  | unwrapped {α : Type} {R : α → α → Prop} (w : Wrapper) {g h : Grammar N α}
      (hgh : Undressed V R g h) : Undressed V R (.wrapped w g) h
  | weaken {α : Type} {R T : α → α → Prop} {g h : Grammar N α} (hgh : Undressed V R g h)
      (hRT : ∀ a b, R a b → T a b) : Undressed V T g h

variable {V : Likeness N} {g h : Grammar N α}

/-- Without the marks and wrappers of the second grammar as well. -/
theorem Undressed.plain (hgh : Undressed V R g h) : Undressed V R g h.plain := by
  induction hgh with
  | leaf hstep => exact .leaf hstep
  | map hf _ ih => exact .map hf ih
  | filter hkeep _ ih => exact .filter hkeep ih
  | andThen _ _ ih ihnext => exact .andThen ih ihnext
  | or _ _ ih ih' => exact .or ih ih'
  | repeated b _ ih => exact .repeated b ih
  | marked label _ ih | unmarked label _ ih => exact .unmarked label ih
  | wrapped w _ ih | unwrapped w _ ih => exact .unwrapped w ih
  | traced _ ih => exact .traced ih
  | symbol n => exact .symbol n
  | weaken _ hRT ih => exact .weaken ih hRT

/-- Over honest steps the two grammars agree where symbols do, be they heard or not. -/
theorem Undressed.record_agrees {attempts : Nat} {parse : {α : Type} → N α → Parser α}
    {call call' : {α : Type} → N α → Bool → Recorder α} (hfaithful : FaithfulCalls parse call)
    (hcall : ∀ {α : Type} (n : N α) (heard : Bool),
      Recorder.Agrees False False (V _ n) (call n heard) (call' n heard))
    (hgh : Undressed V R g h) (hg : g.Honest) (heard : Bool) :
    Recorder.Agrees False False R (g.record attempts call heard)
      (h.record attempts call' heard) := by
  induction hgh generalizing heard with
  | leaf hstep => exact Recorder.read_agrees hstep
  | map hf _ ih => exact Recorder.map_agrees hf (ih hg heard)
  | filter hkeep _ ih => exact Recorder.filter_agrees hkeep (ih hg heard)
  | andThen _ _ ih ihnext =>
    exact Recorder.andThen_agrees (ih hg.1 heard) fun a b hab => ihnext a b hab (hg.2 a) heard
  | or _ _ ih ih' => exact Recorder.or_agrees (ih hg.1 heard) (ih' hg.2 heard)
  | repeated b _ ih => exact Recorder.repeated_agrees attempts b (ih hg heard)
  | marked label _ ih =>
    cases heard with
    | true => exact Recorder.marked_agrees_marked label (ih hg true)
    | false => exact ih hg false
  | wrapped w _ ih | unwrapped w _ ih => exact ih hg heard
  | traced _ ih => exact Recorder.traced_agrees (ih hg true)
  | symbol n => exact hcall n heard
  | @unmarked α R label g h _ ih =>
    cases heard with
    | true =>
      have hinside : g.Honest := hg
      exact Recorder.marked_agrees label (.inr (record_faithful hfaithful hinside true))
        (ih hinside true)
    | false => exact ih hg false
  | weaken _ hRT ih => exact fun inp => (ih hg heard inp).weaken hRT

/-- Without marks and wrappers the steps are the same. -/
theorem Over.plain {L : Steps} {S : {α : Type} → N α → Prop} (hg : g.Over L S) :
    g.plain.Over L S := by
  induction g with
  | leaf _ => exact hg
  | map _ _ ih | filter _ _ ih | repeated _ _ ih | marked _ _ ih | wrapped _ _ ih | traced _ ih =>
    exact ih hg
  | andThen _ _ ih ihnext => exact ⟨ih hg.1, fun value => ihnext value (hg.2 value)⟩
  | or _ _ ih ih' => exact ⟨ih hg.1, ih' hg.2⟩
  | symbol _ => exact hg

/-- No trace is collected to be a value, and every symbol is of the given kind. -/
def Untraced (S : {α : Type} → N α → Prop) : {α : Type} → Grammar N α → Prop
  | _, .leaf _ => True
  | _, .map _ g => g.Untraced S
  | _, .filter _ g => g.Untraced S
  | _, .andThen g next => g.Untraced S ∧ ∀ value, (next value).Untraced S
  | _, .or g h => g.Untraced S ∧ h.Untraced S
  | _, .repeated _ g => g.Untraced S
  | _, .marked _ g => g.Untraced S
  | _, .wrapped _ g => g.Untraced S
  | _, .traced _ => False
  | _, .symbol n => S n

/-- Where no trace is collected there is nothing that could be told apart. -/
theorem Untraced.undressed {S : {α : Type} → N α → Prop}
    (hS : ∀ {α : Type} (n : N α), S n → ∀ a b, V α n a b → a = b) (hg : g.Untraced S) :
    Undressed V Eq g g := by
  induction g with
  | leaf step => exact .leaf fun _ _ _ _ => rfl
  | map f _ ih => exact .map (fun a b hab => congrArg f hab) (ih hg)
  | filter keep _ ih => exact .filter (fun a b hab => congrArg keep hab) (ih hg)
  | andThen _ next ih ihnext =>
    refine .andThen (ih hg.1) fun a b hab => ?_
    subst hab
    exact ihnext a (hg.2 a)
  | or _ _ ih ih' => exact .or (ih hg.1) (ih' hg.2)
  | repeated b _ ih =>
    refine .weaken (.repeated b (ih hg)) fun as bs h => ?_
    exact List.forall₂_eq_eq_eq ▸ h
  | marked label _ ih => exact .marked label (ih hg)
  | wrapped w _ ih => exact .wrapped w (ih hg)
  | traced _ _ => exact hg.elim
  | symbol n => exact .weaken (.symbol n) (hS n hg)

end Grammar

-- ============================================================================
-- Rulebooks
-- ============================================================================

namespace Rulebook

variable {V : Likeness N} {book : Rulebook N σ} {book' : Rulebook N τ}
  {Beside : σ → τ → Prop} {Allowed : σ → Prop}

/-- In states beside each other a symbol is the same misuse, or stands for a grammar and for that
    grammar without some of its marks and wrappers, in states beside each other again. -/
def Undresses (book : Rulebook N σ) (book' : Rulebook N τ)
    (V : Likeness N) (Beside : σ → τ → Prop) : Prop :=
  ∀ (α : Type) (s : σ) (t : τ) (n : N α), Beside s t →
    (∃ m, book.resolve s n = .error m ∧ book'.resolve t n = .error m) ∨
    ∃ g s' h t', book.resolve s n = .ok (g, s') ∧ book'.resolve t n = .ok (h, t') ∧
      Grammar.Undressed V (V _ n) g h ∧ Beside s' t'

theorem Undresses.recordCall_agrees (h : book.Undresses book' V Beside)
    (hbook : book.Honest Allowed) (attempts nesting : Nat) {s : σ} {t : τ} (hst : Beside s t)
    (hs : Allowed s) (n : N α) (heard : Bool) :
    Recorder.Agrees False False (V _ n) (book.recordCall attempts nesting s n heard)
      (book'.recordCall attempts nesting t n heard) := by
  induction nesting generalizing s t α heard with
  | zero => exact fun inp => .unanswered rfl rfl
  | succ nesting ih =>
    intro inp
    rw [recordCall, recordCall]
    rcases h α s t n hst with ⟨m, hn, hn'⟩ | ⟨g, s', g', t', hn, hn', hgg', hst'⟩
    · rw [hn, hn']
      exact .aborted rfl rfl
    · obtain ⟨hg, hs'⟩ := hbook s s' n g hs hn
      rw [hn, hn']
      exact hgg'.record_agrees (faithfulCalls hbook attempts nesting hs')
        (fun n => ih hst' hs' n) hg heard inp

theorem Undresses.recorder_agrees (h : book.Undresses book' V Beside)
    (hbook : book.Honest Allowed) (limits : Limits) {s : σ} {t : τ} (hst : Beside s t)
    (hs : Allowed s) {g g' : Grammar N α} (hgg' : Grammar.Undressed V R g g') (hg : g.Honest)
    (heard : Bool) :
    Recorder.Agrees False False R (book.recorder limits s g heard)
      (book'.recorder limits t g' heard) :=
  hgg'.record_agrees (faithfulCalls hbook limits.attempts limits.nesting hs)
    (fun n => h.recordCall_agrees hbook limits.attempts limits.nesting hst hs n) hg heard

/-- The rulebook that gives every grammar without its marks and wrappers. -/
def plain (book : Rulebook N σ) : Rulebook N σ where
  resolve state n :=
    match book.resolve state n with
    | .error m => .error m
    | .ok (g, state) => .ok (g.plain, state)

/-- In every state that is allowed, the grammar that a symbol stands for looks at no trace, and the
    state behind is allowed. -/
def Blind (book : Rulebook N σ) (V : Likeness N) (Allowed : σ → Prop) : Prop :=
  ∀ (α : Type) (state state' : σ) (n : N α) (g : Grammar N α), Allowed state →
    book.resolve state n = .ok (g, state') → Grammar.Undressed V (V _ n) g g ∧ Allowed state'

theorem Blind.undresses (h : book.Blind V Allowed) :
    book.Undresses book.plain V fun s t => s = t ∧ Allowed s := by
  intro α s t n hst
  obtain ⟨rfl, hs⟩ := hst
  cases hresolve : book.resolve s n with
  | error m => exact .inl ⟨m, rfl, by simp only [plain, hresolve]⟩
  | ok found =>
    obtain ⟨g, s'⟩ := found
    obtain ⟨hg, hs'⟩ := h α s s' n g hs hresolve
    exact .inr ⟨g, s', g.plain, s', rfl, by simp only [plain, hresolve], hg.plain, rfl, hs'⟩

theorem Honest.plain (h : book.Honest Allowed) : book.plain.Honest Allowed := by
  intro α state state' n g hstate hresolve
  cases hn : book.resolve state n with
  | error m =>
    simp only [Rulebook.plain, hn] at hresolve
    cases hresolve
  | ok found =>
    simp only [Rulebook.plain, hn] at hresolve
    cases hresolve
    obtain ⟨hg, hstate'⟩ := h state found.2 n found.1 hstate hn
    exact ⟨hg.plain, hstate'⟩

end Rulebook

-- ============================================================================
-- Starting
-- ============================================================================

/-- A grammar over honest steps that looks at no trace gives the same reply in all these modes,
    whatever scopes are open, as it does without marks and wrappers. -/
theorem Rulebook.Blind.startReply_plain {V : Likeness N} {book : Rulebook N σ} {Allowed : σ → Prop}
    (hbook : book.Blind V Allowed) (hhonest : book.Honest Allowed) (limits : Limits) {state : σ}
    (hstate : Allowed state) {g : Grammar N α} (hg : Grammar.Undressed V Eq g g)
    (hg' : g.Honest) {mode : Mode} (hmode : mode ≠ .complete) (inp : Input)
    (scopes scopes' : Scopes) :
    (book.parser limits state g).startReply mode inp scopes =
      (book.plain.parser limits state g.plain).startReply .parse inp scopes' := by
  have hagree := hbook.undresses.recorder_agrees hhonest limits ⟨rfl, hstate⟩ hstate hg.plain hg'
    (mode.listens scopes)
  rw [(book.parser_records limits state g).startReply_eq_of_ne hmode,
    (book.plain.parser_records limits state g.plain).startReply_eq_of_ne (by decide),
    (hagree inp).reply_eq]
  have hplain : book.plain.Honest Allowed := hhonest.plain
  exact hplain.recorder_reply_eq limits hstate hg'.plain _ _ inp

end Grammars

end Descent
