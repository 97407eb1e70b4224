/-
  Descent.Proofs.Alike

  Grammars that differ in nothing but their symbols.  Where symbols that correspond to each other
  are run by equal parsers, alike grammars describe equal parsers, continuations included.

  Two rulebooks agree if looking up symbols that correspond is the same misuse or gives alike
  grammars, over symbols that correspond again.  Then running them is the same thing, to every depth
  and within every limit: the induction is on how deep symbols may still be nested, and both sides
  go down together.  Two rulebooks are in step if none of that is ever a misuse.
-/
import Descent.Proofs.Over

namespace Descent

/-- A correspondence between two families of symbols. -/
abbrev Correspondence (N M : Type → Type) := (α : Type) → N α → M α → Prop

namespace Grammar

/-- The same grammar but for its symbols, which correspond to each other. -/
inductive Alike {N M : Type → Type} (R : Correspondence N M) :
    {α : Type} → Grammar N α → Grammar M α → Prop
  | leaf {α : Type} (step : Input → Except Failure (Input × α)) : Alike R (.leaf step) (.leaf step)
  | map {α β : Type} (f : α → β) {g : Grammar N α} {h : Grammar M α} (hgh : Alike R g h) :
      Alike R (.map f g) (.map f h)
  | filter {α : Type} (keep : α → Bool) {g : Grammar N α} {h : Grammar M α} (hgh : Alike R g h) :
      Alike R (.filter keep g) (.filter keep h)
  | andThen {α β : Type} {g : Grammar N α} {h : Grammar M α} {next : α → Grammar N β}
      {next' : α → Grammar M β} (hgh : Alike R g h)
      (hnext : ∀ value, Alike R (next value) (next' value)) :
      Alike R (.andThen g next) (.andThen h next')
  | or {α : Type} {g g' : Grammar N α} {h h' : Grammar M α} (hgh : Alike R g h)
      (hgh' : Alike R g' h') : Alike R (.or g g') (.or h h')
  | repeated {α : Type} (b : Bounds) {g : Grammar N α} {h : Grammar M α} (hgh : Alike R g h) :
      Alike R (.repeated b g) (.repeated b h)
  | marked {α : Type} (label : String) {g : Grammar N α} {h : Grammar M α} (hgh : Alike R g h) :
      Alike R (.marked label g) (.marked label h)
  | wrapped {α : Type} (w : Wrapper) {g : Grammar N α} {h : Grammar M α} (hgh : Alike R g h) :
      Alike R (.wrapped w g) (.wrapped w h)
  | traced {α : Type} {g : Grammar N α} {h : Grammar M α} (hgh : Alike R g h) :
      Alike R (.traced g) (.traced h)
  | symbol {α : Type} {n : N α} {m : M α} (hnm : R α n m) :
      Alike R (.symbol n : Grammar N α) (.symbol m : Grammar M α)

variable {N M : Type → Type} {R T : Correspondence N M} {α : Type}

theorem Alike.mono (hRT : ∀ (α : Type) (n : N α) (m : M α), R α n m → T α n m) {g : Grammar N α}
    {h : Grammar M α} (hgh : Alike R g h) : Alike T g h := by
  induction hgh with
  | leaf step => exact .leaf step
  | map f _ ih => exact .map f ih
  | filter keep _ ih => exact .filter keep ih
  | andThen _ _ ih ihnext => exact .andThen ih ihnext
  | or _ _ ih ih' => exact .or ih ih'
  | repeated b _ ih => exact .repeated b ih
  | marked label _ ih => exact .marked label ih
  | wrapped w _ ih => exact .wrapped w ih
  | traced _ ih => exact .traced ih
  | symbol hnm => exact .symbol (hRT _ _ _ hnm)

/-- Alike grammars describe the same parser if their symbols are run by the same parsers. -/
theorem Alike.eval_eq {attempts : Nat} {call : {α : Type} → N α → Parser α}
    {call' : {α : Type} → M α → Parser α}
    (hcall : ∀ {α : Type} (n : N α) (m : M α), R α n m → call n = call' m) {g : Grammar N α}
    {h : Grammar M α} (hgh : Alike R g h) : g.eval attempts call = h.eval attempts call' := by
  induction hgh with
  | leaf step => rfl
  | map f _ ih =>
    show Parser.map f _ = Parser.map f _
    rw [ih]
  | filter keep _ ih =>
    show Parser.filter keep _ = Parser.filter keep _
    rw [ih]
  | andThen _ _ ih ihnext =>
    show Parser.andThen _ _ = Parser.andThen _ _
    rw [ih, funext ihnext]
  | or _ _ ih ih' =>
    show Parser.or _ _ = Parser.or _ _
    rw [ih, ih']
  | repeated b _ ih =>
    show Parser.repeated attempts b _ = Parser.repeated attempts b _
    rw [ih]
  | marked label _ ih =>
    show Parser.marked label _ = Parser.marked label _
    rw [ih]
  | wrapped w _ ih => exact ih
  | traced _ ih =>
    show Parser.traced _ = Parser.traced _
    rw [ih]
  | symbol hnm => exact hcall _ _ hnm

/-- A grammar is like itself if its symbols correspond to themselves. -/
theorem Over.alike {L : Steps} {S : {α : Type} → N α → Prop} {R : Correspondence N N}
    (hS : ∀ {α : Type} (n : N α), S n → R α n n) {g : Grammar N α} (h : g.Over L S) :
    Alike R g g := by
  induction g with
  | leaf step => exact .leaf step
  | map f _ ih => exact .map f (ih h)
  | filter keep _ ih => exact .filter keep (ih h)
  | andThen _ _ ih ihnext => exact .andThen (ih h.1) fun value => ihnext value (h.2 value)
  | or _ _ ih ih' => exact .or (ih h.1) (ih' h.2)
  | repeated b _ ih => exact .repeated b (ih h)
  | marked label _ ih => exact .marked label (ih h)
  | wrapped w _ ih => exact .wrapped w (ih h)
  | traced _ ih => exact .traced (ih h)
  | symbol n => exact .symbol (hS n h)

/-! ## Other symbols for the same -/

/-- The grammar with other symbols, continuations included. -/
def rename (f : {α : Type} → N α → M α) : {α : Type} → Grammar N α → Grammar M α
  | _, .leaf step => .leaf step
  | _, .map k g => .map k (g.rename f)
  | _, .filter keep g => .filter keep (g.rename f)
  | _, .andThen g next => .andThen (g.rename f) fun value => (next value).rename f
  | _, .or g h => .or (g.rename f) (h.rename f)
  | _, .repeated b g => .repeated b (g.rename f)
  | _, .marked label g => .marked label (g.rename f)
  | _, .wrapped w g => .wrapped w (g.rename f)
  | _, .traced g => .traced (g.rename f)
  | _, .symbol n => .symbol (f n)

theorem Over.alike_rename {L : Steps} {S : {α : Type} → N α → Prop} {f : {α : Type} → N α → M α}
    (hS : ∀ {α : Type} (n : N α), S n → R α n (f n)) {g : Grammar N α} (h : g.Over L S) :
    Alike R g (g.rename f) := by
  induction g with
  | leaf step => exact .leaf step
  | map k _ ih => exact .map k (ih h)
  | filter keep _ ih => exact .filter keep (ih h)
  | andThen _ _ ih ihnext => exact .andThen (ih h.1) fun value => ihnext value (h.2 value)
  | or _ _ ih ih' => exact .or (ih h.1) (ih' h.2)
  | repeated b _ ih => exact .repeated b (ih h)
  | marked label _ ih => exact .marked label (ih h)
  | wrapped w _ ih => exact .wrapped w (ih h)
  | traced _ ih => exact .traced (ih h)
  | symbol n => exact .symbol (hS n h)

end Grammar

-- ============================================================================
-- Rulebooks in step
-- ============================================================================

namespace Rulebook

variable {N M : Type → Type} {σ τ : Type 1} {book : Rulebook N σ} {book' : Rulebook M τ}
  {R : σ → τ → Correspondence N M} {α : Type}

/-- In states in which two symbols correspond, looking them up is the same misuse, or both stand for
    grammars that are alike in the states behind them. -/
def Agrees (book : Rulebook N σ) (book' : Rulebook M τ) (R : σ → τ → Correspondence N M) : Prop :=
  ∀ (α : Type) (s : σ) (t : τ) (n : N α) (m : M α), R s t α n m →
    (∃ e, book.resolve s n = .error e ∧ book'.resolve t m = .error e) ∨
    ∃ g s' h t', book.resolve s n = .ok (g, s') ∧ book'.resolve t m = .ok (h, t') ∧
      Grammar.Alike (R s' t') g h

/-- Symbols that correspond run the same. -/
theorem Agrees.call_eq (h : book.Agrees book' R) (attempts nesting : Nat) {s : σ} {t : τ} {n : N α}
    {m : M α} (hnm : R s t α n m) :
    book.call attempts nesting s n = book'.call attempts nesting t m := by
  -- One level down, what was found is alike, and its symbols run the same with one level less.
  induction nesting generalizing s t α with
  | zero => rfl
  | succ nesting ih =>
    funext inp scopes
    rw [Rulebook.call, Rulebook.call]
    rcases h α s t n m hnm with ⟨e, hn, hm⟩ | ⟨g, s', g', t', hn, hm, hgg'⟩
    · rw [hn, hm]
    · have heval : (g.eval attempts fun n => book.call attempts nesting s' n) =
          g'.eval attempts fun m => book'.call attempts nesting t' m :=
        hgg'.eval_eq fun n m hnm => ih hnm
      rw [hn, hm]
      exact congrFun (congrFun heval inp) scopes

theorem Agrees.parser_eq (h : book.Agrees book' R) (limits : Limits) {s : σ} {t : τ}
    {g : Grammar N α} {g' : Grammar M α} (hgg' : Grammar.Alike (R s t) g g') :
    book.parser limits s g = book'.parser limits t g' :=
  hgg'.eval_eq fun _ _ hnm => h.call_eq limits.attempts limits.nesting hnm

/-- In states in which two symbols correspond, both are found, and stand for grammars that are alike
    in the states behind them. -/
def InStep (book : Rulebook N σ) (book' : Rulebook M τ) (R : σ → τ → Correspondence N M) : Prop :=
  ∀ (α : Type) (s : σ) (t : τ) (n : N α) (m : M α), R s t α n m →
    ∃ g s' h t', book.resolve s n = .ok (g, s') ∧ book'.resolve t m = .ok (h, t') ∧
      Grammar.Alike (R s' t') g h

theorem InStep.agrees (h : book.InStep book' R) : book.Agrees book' R :=
  fun α s t n m hnm => .inr (h α s t n m hnm)

theorem InStep.parser_eq (h : book.InStep book' R) (limits : Limits) {s : σ} {t : τ}
    {g : Grammar N α} {g' : Grammar M α} (hgg' : Grammar.Alike (R s t) g g') :
    book.parser limits s g = book'.parser limits t g' :=
  h.agrees.parser_eq limits hgg'

end Rulebook

end Descent
