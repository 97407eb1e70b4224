/-
  Descent.Proofs.Unplaced

  Where a parser fails is told to the outside and to the trace, and to nobody else.  Each combinator
  takes recorders that agree but for the places of failures to such recorders: choice and repetition
  start again from an input of their own and never from where an attempt has failed, and a mark
  reports the place of a failure without looking at it.

  Two grammars have the same shape if they are the same but for the failures of their single steps.
  A trace that is collected to be a value would show these, so there is none.  What grammars of the
  same shape record agrees if that of their symbols does; symbols are done by induction on how deep
  they may be nested, for two rulebooks side by side.

  A run is compared with one that is heard if it is heard itself.  As no trace is collected inside,
  a start leaves a scope open on both sides or on neither, so this holds of the next starts again.
-/
import Descent.Proofs.GivenUp
import Descent.Proofs.Transparent

namespace Descent

variable {α β : Type}

/-- The reply without the place of the failure. -/
def Reply.unplaced : Reply α → Reply α
  | .failed _ => .failed ⟨.ofChars []⟩
  | reply => reply

/-- A reply without its place is given up where the reply is. -/
theorem Reply.givenUp_unplaced (reply : Reply α) : reply.unplaced.GivenUp ↔ reply.GivenUp := by
  cases reply with
  | matched | aborted => exact Iff.rfl
  | failed e => exact iff_of_false (fun h => nomatch h.choose_spec) fun h => nomatch h.choose_spec

-- ============================================================================
-- Answers but for places
-- ============================================================================

/-- Whatever is made of a reply without its place is the same where the answers agree but for the
    places of failures. -/
theorem Agree.map_reply_eq {x y : Option (Reply α × Trace)} (h : Agree False True Eq x y)
    (f : Reply α → β) (hf : ∀ e e', f (.failed e) = f (.failed e')) :
    (x.map Prod.fst).map f = (y.map Prod.fst).map f := by
  cases h with
  | unanswered hx hy => rw [hx, hy]
  | matched hab hx hy =>
    subst hab
    rw [hx, hy]
    rfl
  | @failed e e' w w' _ hx hy =>
    rw [hx, hy]
    exact congrArg some (hf e e')
  | aborted hx hy => rw [hx, hy]; rfl
  | overrun hmay _ => exact hmay.elim

/-- Steps that succeed alike, whatever they say when they fail. -/
theorem Recorder.read_agrees_of_toOption {may : Prop}
    {step step' : Input → Except Failure (Input × α)}
    (hstep : ∀ inp, (step inp).toOption = (step' inp).toOption) :
    (read step).Agrees may True Eq (read step') := by
  intro inp
  have hsame := hstep inp
  cases hs : step inp with
  | ok next =>
    cases hs' : step' inp with
    | ok next' =>
      rw [hs, hs'] at hsame
      obtain rfl : next = next' := Option.some.inj hsame
      exact .matched rfl (by rw [read, hs]) (by rw [read, hs'])
    | error e' =>
      rw [hs, hs'] at hsame
      cases hsame
  | error e =>
    cases hs' : step' inp with
    | ok next' =>
      rw [hs, hs'] at hsame
      cases hsame
    | error e' => exact .failed (.inl trivial) (by rw [read, hs]) (by rw [read, hs'])

-- ============================================================================
-- Grammars of the same shape
-- ============================================================================

section Grammars

variable {N : Type → Type} {σ τ : Type 1}

/-- The same grammar but for the failures of single steps: steps succeed on the same inputs, with
    the same rests and values.  No trace is collected to be a value. -/
inductive Grammar.SameShape : {α : Type} → Grammar N α → Grammar N α → Prop
  | leaf {α : Type} {step step' : Input → Except Failure (Input × α)}
      (hstep : ∀ inp, (step inp).toOption = (step' inp).toOption) :
      SameShape (.leaf step) (.leaf step')
  | map {α β : Type} (f : α → β) {g h : Grammar N α} (hgh : SameShape g h) :
      SameShape (.map f g) (.map f h)
  | filter {α : Type} (keep : α → Bool) {g h : Grammar N α} (hgh : SameShape g h) :
      SameShape (.filter keep g) (.filter keep h)
  | andThen {α β : Type} {g h : Grammar N α} {next next' : α → Grammar N β} (hgh : SameShape g h)
      (hnext : ∀ value, SameShape (next value) (next' value)) :
      SameShape (.andThen g next) (.andThen h next')
  | or {α : Type} {g g' h h' : Grammar N α} (hgh : SameShape g h) (hgh' : SameShape g' h') :
      SameShape (.or g g') (.or h h')
  | repeated {α : Type} (b : Bounds) {g h : Grammar N α} (hgh : SameShape g h) :
      SameShape (.repeated b g) (.repeated b h)
  | marked {α : Type} (label : String) {g h : Grammar N α} (hgh : SameShape g h) :
      SameShape (.marked label g) (.marked label h)
  | wrapped {α : Type} (w : Wrapper) {g h : Grammar N α} (hgh : SameShape g h) :
      SameShape (.wrapped w g) (.wrapped w h)
  | symbol {α : Type} (n : N α) : SameShape (.symbol n) (.symbol n)

namespace Grammar

variable {g h : Grammar N α}

/-- Grammars of the same shape agree but for the places of failures where symbols do, be they heard
    or not. -/
theorem SameShape.record_agrees {attempts : Nat}
    {call call' : {α : Type} → N α → Bool → Recorder α}
    (hcall : ∀ {α : Type} (n : N α) (heard : Bool),
      Recorder.Agrees False True Eq (call n heard) (call' n heard))
    (hgh : SameShape g h) (heard : Bool) :
    Recorder.Agrees False True Eq (g.record attempts call heard)
      (h.record attempts call' heard) := by
  induction hgh with
  | leaf hstep => exact Recorder.read_agrees_of_toOption hstep
  | map f _ ih => exact Recorder.map_agrees (fun a b hab => congrArg f hab) ih
  | filter keep _ ih => exact Recorder.filter_agrees (fun a b hab => congrArg keep hab) ih
  | andThen _ _ ih ihnext =>
    refine Recorder.andThen_agrees ih fun a b hab => ?_
    subst hab
    exact ihnext a
  | or _ _ ih ih' => exact Recorder.or_agrees ih ih'
  | repeated b _ ih =>
    intro inp
    exact (Recorder.repeated_agrees attempts b ih inp).weaken fun as bs hitems =>
      List.forall₂_eq_eq_eq ▸ hitems
  | marked label _ ih =>
    cases heard with
    | true => exact Recorder.marked_agrees_marked label ih
    | false => exact ih
  | wrapped w _ ih => exact ih
  | symbol n => exact hcall n heard

/-- No trace is collected in grammars of the same shape. -/
theorem SameShape.untraced (hgh : SameShape g h) :
    g.Untraced (fun _ => True) ∧ h.Untraced fun _ => True := by
  induction hgh with
  | leaf | symbol => exact ⟨trivial, trivial⟩
  | map _ _ ih | filter _ _ ih | repeated _ _ ih | marked _ _ ih | wrapped _ _ ih => exact ih
  | andThen _ _ ih ihnext =>
    exact ⟨⟨ih.1, fun value => (ihnext value).1⟩, ih.2, fun value => (ihnext value).2⟩
  | or _ _ ih ih' => exact ⟨⟨ih.1, ih'.1⟩, ih.2, ih'.2⟩

/-- A grammar that collects no trace has its own shape. -/
theorem Untraced.sameShape {S : {α : Type} → N α → Prop} (hg : g.Untraced S) : SameShape g g := by
  induction g with
  | leaf step => exact .leaf fun _ => rfl
  | map f _ ih => exact .map f (ih hg)
  | filter keep _ ih => exact .filter keep (ih hg)
  | andThen _ _ ih ihnext => exact .andThen (ih hg.1) fun value => ihnext value (hg.2 value)
  | or _ _ ih ih' => exact .or (ih hg.1) (ih' hg.2)
  | repeated b _ ih => exact .repeated b (ih hg)
  | marked label _ ih => exact .marked label (ih hg)
  | wrapped w _ ih => exact .wrapped w (ih hg)
  | traced _ _ => exact hg.elim
  | symbol n => exact .symbol n

end Grammar

namespace Rulebook

variable {book : Rulebook N σ} {book' : Rulebook N τ} {Beside : σ → τ → Prop}

/-- In states beside each other a symbol is the same misuse, or stands for grammars of the same
    shape, in states beside each other again. -/
def SameShape (book : Rulebook N σ) (book' : Rulebook N τ) (Beside : σ → τ → Prop) : Prop :=
  ∀ (α : Type) (s : σ) (t : τ) (n : N α), Beside s t →
    (∃ m, book.resolve s n = .error m ∧ book'.resolve t n = .error m) ∨
    ∃ g s' h t', book.resolve s n = .ok (g, s') ∧ book'.resolve t n = .ok (h, t') ∧
      g.SameShape h ∧ Beside s' t'

theorem SameShape.recordCall_agrees (hbook : book.SameShape book' Beside) (attempts nesting : Nat)
    {s : σ} {t : τ} (hst : Beside s t) (n : N α) (heard : Bool) :
    Recorder.Agrees False True Eq (book.recordCall attempts nesting s n heard)
      (book'.recordCall attempts nesting t n heard) := by
  induction nesting generalizing s t α heard with
  | zero => exact fun inp => .unanswered rfl rfl
  | succ nesting ih =>
    intro inp
    rw [recordCall, recordCall]
    rcases hbook α s t n hst with ⟨m, hs, ht⟩ | ⟨g, s', h, t', hs, ht, hgh, hst'⟩
    · rw [hs, ht]
      exact .aborted rfl rfl
    · rw [hs, ht]
      exact hgh.record_agrees (fun n heard => ih hst' n heard) heard inp

theorem SameShape.recorder_agrees (hbook : book.SameShape book' Beside) (limits : Limits) {s : σ}
    {t : τ} (hst : Beside s t) {g h : Grammar N α} (hgh : g.SameShape h) (heard : Bool) :
    Recorder.Agrees False True Eq (book.recorder limits s g heard)
      (book'.recorder limits t h heard) :=
  hgh.record_agrees
    (fun n heard => hbook.recordCall_agrees limits.attempts limits.nesting hst n heard) heard

/-- A start in any mode gives the same reply but for the place of a failure, if both are heard or
    neither is. -/
theorem SameShape.startReply (hbook : book.SameShape book' Beside) (limits : Limits) {s : σ} {t : τ}
    (hst : Beside s t) {g h : Grammar N α} (hgh : g.SameShape h) {mode : Mode} (inp : Input)
    {scopes scopes' : Scopes} (hlistens : mode.listens scopes = mode.listens scopes') :
    ((book.parser limits s g).startReply mode inp scopes).map Reply.unplaced =
      ((book'.parser limits t h).startReply mode inp scopes').map Reply.unplaced := by
  have hreply := (hbook.recorder_agrees limits hst hgh (mode.listens scopes') inp).map_reply_eq
    (Reply.unplaced ∘ mode.reply) fun e e' => by cases mode <;> rfl
  rw [(book.parser_records limits s g).startReply_eq, hlistens,
    (book'.parser_records limits t h).startReply_eq]
  simp only [Option.map_map] at hreply ⊢
  exact hreply

end Rulebook

-- ============================================================================
-- Scopes that are left open
-- ============================================================================

/-- Where no trace is collected inside, a run collects none at any part that it gets to. -/
theorem Grammar.Runs.traces_eq_zero {attempts : Nat}
    {call : {α : Type} → N α → Bool → Recorder α} {part : Grammar N β} {loud heard : Bool}
    {place inp : Input} {traces : Nat} {g : Grammar N α}
    (h : Runs attempts call part loud place traces heard g inp) (hg : g.Untraced fun _ => True) :
    traces = 0 := by
  induction h with
  | here => rfl
  | map _ _ ih | filter _ _ ih | repeated _ _ ih | marked _ _ ih | wrapped _ _ ih => exact ih hg
  | first _ ih | orLeft _ ih => exact ih hg.1
  | next _ _ ih => exact ih (hg.2 _)
  | orRight _ _ ih => exact ih hg.2
  | traced _ _ => exact hg.elim

namespace Rulebook

/-- In every state that is allowed a symbol stands for a grammar that collects no trace, in such a
    state again. -/
def Untraced (book : Rulebook N σ) (Allowed : σ → Prop) : Prop :=
  ∀ (α : Type) (state state' : σ) (n : N α) (g : Grammar N α), Allowed state →
    book.resolve state n = .ok (g, state') → g.Untraced (fun _ => True) ∧ Allowed state'

variable {book : Rulebook N σ} {book' : Rulebook N τ} {Beside : σ → τ → Prop} {Allowed : σ → Prop}
  {limits : Limits} {state : σ} {g : Grammar N α} {inp : Input}

theorem Meets.traces_eq_zero (hbook : book.Untraced Allowed) {attempts left nesting traces : Nat}
    {part : Grammar N β} {there : σ} {loud heard : Bool} {place : Input}
    (h : book.Meets attempts part left there loud place traces nesting heard state g inp)
    (hstate : Allowed state) (hg : g.Untraced fun _ => True) : traces = 0 := by
  induction h with
  | here hruns => exact hruns.traces_eq_zero hg
  | inside hruns hfound _ ih =>
    obtain ⟨hg', hstate'⟩ := hbook _ _ _ _ _ hstate hfound
    rw [hruns.traces_eq_zero hg, ih hstate' hg']

/-- With nobody listening such a run leaves nobody listening, even if it is given up. -/
theorem Untraced.scopes_eq_nil (hbook : book.Untraced Allowed) (hstate : Allowed state)
    (hg : g.Untraced fun _ => True) {reply : Reply α} {scopes : Scopes}
    (hrun : book.parser limits state g inp [] = some (reply, scopes)) : scopes = [] := by
  by_cases hreply : reply.GivenUp
  · obtain ⟨m, rfl⟩ := hreply
    rw [Rulebook.scopes_eq_nil_iff hrun]
    rintro m' traces ⟨β, part, left, there, loud, place, hmeets, -⟩
    exact hmeets.traces_eq_zero hbook hstate hg
  · exact (Parser.run_left (book.parser_stacks limits state g) (book.parser_records limits state g)
      hrun).eq_nil hreply

/-- A start leaves a scope open where there was one, and where it opens one and is given up. -/
theorem Untraced.start_scopes_eq_nil_iff (hbook : book.Untraced Allowed) (hstate : Allowed state)
    (hg : g.Untraced fun _ => True) {mode : Mode} {scopes scopes' : Scopes} {report : Report α}
    (hrun : (book.parser limits state g).start mode inp scopes = some (report, scopes')) :
    scopes' = [] ↔ scopes = [] ∧ ¬ (mode.Opens ∧ report.reply.GivenUp) := by
  have hleft := Parser.start_left (book.parser_stacks limits state g)
    (book.parser_records limits state g) hrun
  have hheight := hleft.length_le
  constructor
  · rintro rfl
    obtain rfl : scopes = [] := List.length_eq_zero_iff.1 (Nat.le_zero.1 hheight)
    refine ⟨rfl, fun ⟨hmode, hgivenUp⟩ => ?_⟩
    obtain ⟨frames, frame, hframes⟩ := hleft.opened hmode hgivenUp
    exact List.append_ne_nil_of_right_ne_nil _ (List.cons_ne_nil _ _) hframes.symm
  · rintro ⟨rfl, hnot⟩
    by_cases hmode : mode.Opens
    · exact hleft.closed hmode fun hgivenUp => hnot ⟨hmode, hgivenUp⟩
    · obtain ⟨reply, hreply, -⟩ := Parser.start_inv hmode hrun
      exact hbook.scopes_eq_nil hstate hg hreply

/-- What symbols of the same shape stand for collects no trace. -/
theorem SameShape.untraced (hbook : book.SameShape book' Beside) :
    book.Untraced (fun s => ∃ t, Beside s t) ∧ book'.Untraced fun t => ∃ s, Beside s t := by
  constructor
  · rintro α s s' n g ⟨t, hst⟩ hfound
    rcases hbook α s t n hst with ⟨m, hs, -⟩ | ⟨g', s'', h, t', hs, -, hgh, hst'⟩
    · exact nomatch hfound.symm.trans hs
    · cases hfound.symm.trans hs
      exact ⟨hgh.untraced.1, t', hst'⟩
  · rintro α t t' n h ⟨s, hst⟩ hfound
    rcases hbook α s t n hst with ⟨m, -, ht⟩ | ⟨g, s', h', t'', -, ht, hgh, hst'⟩
    · exact nomatch hfound.symm.trans ht
    · cases hfound.symm.trans ht
      exact ⟨hgh.untraced.2, s', hst'⟩

end Rulebook

end Grammars

end Descent
