/-
  Descent.Proofs.Atomic

  Without sequences failure is atomic: however much was read before, the failure is placed where the
  parser began.  Mapping and marking hand a failure on, a filter places its own at its input, a
  choice fails as its second branch does, on the same input, and a repetition hands on the failure
  of its very first attempt only.  It is sequencing alone that moves on before it fails.

  A grammar is unsequenced if nothing in it follows anything else.  Over single steps that fail in
  place, and symbols that stand for such grammars again, it describes an atomic parser, to every
  depth of recursion.
-/
import Descent.Parser.Mode
import Descent.Parser.Repetition
import Descent.Proofs.Kinds
import Descent.Proofs.Over

namespace Descent

variable {α β : Type}

/-- A single step that fails, if it does, where it began. -/
def InPlace (step : Input → Except Failure (Input × α)) : Prop :=
  ∀ inp e, step inp = .error e → e = ⟨inp⟩

/-- Whenever the parser fails, it fails where it began. -/
def Parser.Atomic (p : Parser α) : Prop :=
  ∀ inp scopes e scopes', p inp scopes = some (.failed e, scopes') → e = ⟨inp⟩

-- ============================================================================
-- Combinators
-- ============================================================================

namespace Parser

variable {p q : Parser α}

theorem read_atomic {step : Input → Except Failure (Input × α)} (h : InPlace step) :
    (read step).Atomic := by
  intro inp scopes e scopes' hrun
  rw [read] at hrun
  split at hrun
  · cases hrun
  · next hstep =>
    cases hrun
    exact h inp e hstep

theorem abort_atomic (m : Misuse) : (abort m : Parser α).Atomic := by
  intro inp scopes e scopes' hrun
  exact nomatch hrun

theorem map_atomic (f : α → β) (hp : p.Atomic) : (map f p).Atomic := by
  intro inp scopes e scopes' hrun
  rw [map] at hrun
  split at hrun
  · cases hrun
  · cases hrun
  · next hfailed =>
    cases hrun
    exact hp inp scopes _ _ hfailed
  · cases hrun

theorem filter_atomic (keep : α → Bool) (hp : p.Atomic) : (filter keep p).Atomic := by
  intro inp scopes e scopes' hrun
  rw [filter] at hrun
  split at hrun
  · cases hrun
  · split at hrun
    · cases hrun
    · -- A refusal is placed at the input, whatever was consumed.
      cases hrun
      rfl
  · next hfailed =>
    cases hrun
    exact hp inp scopes _ _ hfailed
  · cases hrun

/-- The second branch starts where the first one did, and where the first one failed is forgotten.
    -/
theorem or_atomic (p : Parser α) (hq : q.Atomic) : (or p q).Atomic := by
  intro inp scopes e scopes' hrun
  rw [or] at hrun
  split at hrun
  · cases hrun
  · cases hrun
  · exact hq inp _ e scopes' hrun
  · cases hrun

/-! ### Repetition -/

/-- What was gathered before stands in front of what is hauled. -/
theorem length_le_of_gather {b : Bounds} {limit count : Nat} {rest : Input} {newestFirst : List α}
    {scopes scopes' : Scopes} {haul : Haul α}
    (hrun : gather b p limit rest count newestFirst scopes = some (.ok haul, scopes')) :
    newestFirst.length ≤ haul.items.length := by
  induction limit generalizing rest count newestFirst scopes with
  | zero => cases hrun
  | succ limit ih =>
    have hself : newestFirst.length ≤ newestFirst.reverse.length :=
      Nat.le_of_eq List.length_reverse.symm
    rw [gather] at hrun
    split at hrun
    · cases hrun
      exact hself
    · split at hrun
      · cases hrun
      · split at hrun
        · cases hrun
          exact hself
        · have hmore := ih hrun
          rw [List.length_cons] at hmore
          omega
      · cases hrun
        exact hself
      · cases hrun

/-- A repetition that gathered nothing and was refused was refused at its very first attempt. -/
theorem refused_of_gather_nil (hp : p.Atomic) {b : Bounds} {limit : Nat} {inp : Input}
    {scopes scopes' : Scopes} {haul : Haul α}
    (hrun : gather b p limit inp 0 [] scopes = some (.ok haul, scopes')) (hitems : haul.items = [])
    {e : Failure} (hstop : haul.stop = .refused e) : e = ⟨inp⟩ := by
  cases limit with
  | zero => cases hrun
  | succ limit =>
    rw [gather] at hrun
    split at hrun
    · cases hrun
      cases hstop
    · split at hrun
      · cases hrun
      · split at hrun
        · cases hrun
          cases hstop
        · -- One value is there already.
          have hmore := length_le_of_gather hrun
          rw [hitems] at hmore
          exact absurd hmore (Nat.not_succ_le_zero 0)
      · next e' scopes'' hfailed =>
        cases hrun
        obtain rfl : e' = e := Stop.refused.inj hstop
        exact hp inp scopes e' _ hfailed
      · cases hrun

theorem repeated_atomic (limit : Nat) (b : Bounds) (hp : p.Atomic) :
    (repeated limit b p).Atomic := by
  intro inp scopes e scopes' hrun
  rw [repeated] at hrun
  split at hrun
  · cases hrun
  · next haul after hgather =>
    obtain ⟨hjudge, -⟩ := Prod.mk.inj (Option.some.inj hrun)
    rw [judge] at hjudge
    split at hjudge
    · cases hjudge
    · split at hjudge
      · next e' hitems hstop =>
        cases hjudge
        exact refused_of_gather_nil hp hgather hitems hstop
      · cases hjudge
        rfl
  · cases hrun

/-! ### Traces -/

theorem collect_failed (hp : p.Atomic) {inp : Input} {scopes outer : Scopes} {e : Failure}
    {trace : Trace} (hrun : collect p inp scopes = some (.failed e, trace, outer)) : e = ⟨inp⟩ := by
  rw [collect] at hrun
  split at hrun
  · cases hrun
  · cases hrun
  · next hreply =>
    obtain ⟨rfl, -⟩ := Prod.mk.inj (Option.some.inj hrun)
    exact hp inp scopes.enter e _ hreply

theorem marked_atomic (label : String) (hp : p.Atomic) : (marked label p).Atomic := by
  intro inp scopes e scopes' hrun
  rw [marked] at hrun
  split at hrun
  · exact hp inp scopes e scopes' hrun
  · split at hrun
    · cases hrun
    · next hcollect =>
      split at hrun <;> cases hrun
      exact collect_failed hp hcollect

theorem traced_atomic (hp : p.Atomic) : (traced p).Atomic := by
  intro inp scopes e scopes' hrun
  rw [traced] at hrun
  split at hrun
  · cases hrun
  · cases hrun
  · next hcollect =>
    cases hrun
    exact collect_failed hp hcollect
  · cases hrun

/-- Where leftovers are no failure, a start fails where the run began. -/
theorem Atomic.start (hp : p.Atomic) {mode : Mode} (hmode : mode ≠ .complete) {inp : Input}
    {scopes scopes' : Scopes} {report : Report α}
    (hrun : p.start mode inp scopes = some (report, scopes')) {e : Failure}
    (hreply : report.reply = .failed e) : e = ⟨inp⟩ := by
  cases mode with
  | parse | run =>
    obtain ⟨⟨reply, scopes''⟩, hreply', hreport⟩ := Option.map_eq_some_iff.1 hrun
    cases hreport
    obtain rfl : reply = .failed e := hreply
    exact hp inp scopes e _ hreply'
  | complete => exact absurd rfl hmode
  | traced | verbose =>
    obtain ⟨⟨reply, trace, scopes''⟩, hreply', hreport⟩ := Option.map_eq_some_iff.1 hrun
    cases hreport
    obtain rfl : reply = .failed e := hreply
    exact collect_failed hp hreply'

end Parser

-- ============================================================================
-- Grammars and rulebooks
-- ============================================================================

section Grammars

variable {N : Type → Type} {σ : Type 1}

/-- Nothing in the grammar follows anything else, and every single step and every symbol is of the
    given kinds. -/
def Grammar.Unsequenced (L : Steps) (S : {α : Type} → N α → Prop) :
    {α : Type} → Grammar N α → Prop
  | _, .leaf step => L step
  | _, .map _ g => g.Unsequenced L S
  | _, .filter _ g => g.Unsequenced L S
  | _, .andThen _ _ => False
  | _, .or g h => g.Unsequenced L S ∧ h.Unsequenced L S
  | _, .repeated _ g => g.Unsequenced L S
  | _, .marked _ g => g.Unsequenced L S
  | _, .wrapped _ g => g.Unsequenced L S
  | _, .traced g => g.Unsequenced L S
  | _, .symbol n => S n

/-- Over steps that fail in place and symbols run by atomic parsers, an unsequenced grammar
    describes an atomic parser. -/
theorem Grammar.eval_atomic {S : {α : Type} → N α → Prop} {attempts : Nat}
    {call : {α : Type} → N α → Parser α}
    (hcall : ∀ {α : Type} (n : N α), S n → Parser.Atomic (call n)) {g : Grammar N α}
    (h : g.Unsequenced InPlace S) : Parser.Atomic (g.eval attempts call) := by
  induction g with
  | leaf step => exact Parser.read_atomic h
  | map f g ih => exact Parser.map_atomic f (ih h)
  | filter keep g ih => exact Parser.filter_atomic keep (ih h)
  | andThen g next _ _ => exact h.elim
  | or g h' _ ihh => exact Parser.or_atomic _ (ihh h.2)
  | repeated b g ih => exact Parser.repeated_atomic attempts b (ih h)
  | marked label g ih => exact Parser.marked_atomic label (ih h)
  | wrapped w g ih => exact ih h
  | traced g ih => exact Parser.traced_atomic (ih h)
  | symbol n => exact hcall n h

/-- In every state that is allowed, a symbol of the kind gives an unsequenced grammar over steps
    that fail in place and symbols of the kind, and another such state. -/
def Rulebook.Unsequenced (book : Rulebook N σ) (Allowed : σ → Prop)
    (S : {α : Type} → N α → Prop) : Prop :=
  ∀ {α : Type} (state state' : σ) (n : N α) (g : Grammar N α), Allowed state → S n →
    book.resolve state n = .ok (g, state') → g.Unsequenced InPlace S ∧ Allowed state'

namespace Rulebook

variable {book : Rulebook N σ} {Allowed : σ → Prop} {S : {α : Type} → N α → Prop}

theorem call_atomic (hbook : book.Unsequenced Allowed S) (attempts nesting : Nat) {state : σ}
    (hstate : Allowed state) (n : N α) (hn : S n) :
    Parser.Atomic (book.call attempts nesting state n) := by
  induction nesting generalizing state α with
  | zero =>
    intro inp scopes e scopes' hrun
    exact nomatch hrun
  | succ nesting ih =>
    intro inp scopes e scopes' hrun
    rw [Rulebook.call] at hrun
    split at hrun
    · next m hresolve => exact Parser.abort_atomic m inp scopes e scopes' hrun
    · next g state' hresolve =>
      obtain ⟨hg, hstate'⟩ := hbook state state' n g hstate hn hresolve
      have hatomic : Parser.Atomic
          (g.eval attempts fun n => book.call attempts nesting state' n) :=
        Grammar.eval_atomic (fun n hn => ih hstate' n hn) hg
      exact hatomic inp scopes e scopes' hrun

theorem parser_atomic (hbook : book.Unsequenced Allowed S) (limits : Limits) {state : σ}
    (hstate : Allowed state) {g : Grammar N α} (hg : g.Unsequenced InPlace S) :
    (book.parser limits state g).Atomic :=
  Grammar.eval_atomic
    (fun n hn => call_atomic hbook limits.attempts limits.nesting hstate n hn) hg

end Rulebook

end Grammars

-- ============================================================================
-- Ready-made grammars
-- ============================================================================

section Ready

variable {N : Type → Type} {S : {α : Type} → N α → Prop}

namespace Grammar

theorem pure_unsequenced (value : α) : (pure value : Grammar N α).Unsequenced InPlace S :=
  fun _ _ h => nomatch h

theorem atEnd_unsequenced : (atEnd : Grammar N Unit).Unsequenced InPlace S := by
  intro inp e h
  dsimp only at h
  split at h
  · exact nomatch h
  · cases h
    rfl

theorem any_unsequenced : (any : Grammar N Char).Unsequenced InPlace S := by
  intro inp e h
  dsimp only at h
  split at h
  · exact nomatch h
  · cases h
    rfl

theorem chars_unsequenced (literal : List Char) :
    (chars literal : Grammar N _).Unsequenced InPlace S := by
  intro inp e h
  dsimp only at h
  split at h
  · exact nomatch h
  · cases h
    rfl

end Grammar

theorem takeDigit_inPlace : InPlace takeDigit := by
  intro inp e h
  rw [takeDigit] at h
  split at h
  · split at h
    · cases h
    · cases h
      rfl
  · cases h
    rfl

theorem takeBytes_inPlace (n : Nat) : InPlace (takeBytes n) := by
  intro inp e h
  rw [takeBytes] at h
  split at h
  · cases h
  · cases h
    rfl

theorem Lexical.someBlanks_unsequenced :
    (Lexical.someBlanks : Grammar N (List Char)).Unsequenced InPlace S :=
  Grammar.any_unsequenced

theorem Lexical.identifier_unsequenced :
    (Lexical.identifier : Grammar N String).Unsequenced InPlace S :=
  Grammar.any_unsequenced

end Ready

-- ============================================================================
-- Descriptions
-- ============================================================================

/-- The pieces that are one step, which fails in place, or a run of characters.  The piece that
    always fails is not among them: it fails with a rest of its own. -/
def Piece.Unsequenced : Piece → Prop
  | .literal _ | .char _ | .any | .atEnd | .empty | .bytes _ | .digit | .everything | .preview
  | .leaving _ | .blank | .blanks | .someBlanks | .identifier => True
  | .failing _ | .quotedText | .textBetween _ _ | .attributePair | .attributes | .elementStart
  | .openElement | .singleElement | .parentElement | .element | .closeElement _ | .document => False

/-- A choice between two. -/
def Joint.IsChoice : Joint → Prop
  | .or | .either => True
  | .both | .skipThen | .thenSkip | .pair | .right | .left => False

/-- Nothing in the description follows anything else, and all pieces of it fail in place. -/
def Recipe.Unsequenced : Recipe → Prop
  | .piece p => p.Unsequenced
  | .modified _ body => body.Unsequenced
  | .joined j first second => j.IsChoice ∧ first.Unsequenced ∧ second.Unsequenced
  | .between _ _ _ => False
  | .andThen _ _ => False
  | .chained _ _ => False
  | .rule _ => True
  | .recursive _ body => body.Unsequenced
  | .named _ => True

/-- Any symbol but the element of the markup language. -/
def Symbol.NotElement (n : Symbol α) : Prop := ¬ n.IsElement

/-- What is built without sequences and of steps that fail in place. -/
def Kind.unsequenced : Kind := fun b => b.grammar.Unsequenced InPlace Symbol.NotElement

theorem Kind.unsequenced_cell (r : Reference) : Kind.unsequenced r.built := id

theorem Piece.grammar_unsequenced {p : Piece} (h : p.Unsequenced) :
    p.grammar.Unsequenced InPlace Symbol.NotElement := by
  cases p with
  | literal s => exact Grammar.chars_unsequenced _
  | char c => exact Grammar.chars_unsequenced _
  | any => exact Grammar.any_unsequenced
  | atEnd => exact Grammar.atEnd_unsequenced
  | empty => exact Grammar.pure_unsequenced ()
  | bytes n => exact takeBytes_inPlace n
  | digit => exact takeDigit_inPlace
  | everything | preview | leaving rest => exact fun _ _ h => nomatch h
  | blank | blanks | someBlanks | identifier => exact Grammar.any_unsequenced
  | failing | quotedText | textBetween | attributePair | attributes | elementStart | openElement
  | singleElement | parentElement | element | closeElement | document => exact h.elim

section Combinations

variable {L : Steps} {S : {α : Type} → Symbol α → Prop} {g h : Grammar Symbol Value}

/-- A modifier adds no step but that of an option. -/
theorem Modifier.apply_unsequenced (m : Modifier)
    (hnone : (Grammar.pure none : Grammar Symbol (Option Value)).Unsequenced L S)
    (hg : g.Unsequenced L S) : (m.apply g).Unsequenced L S := by
  cases m with
  | optional => exact ⟨hg, hnone⟩
  | map | constant | ignored | collect | filter | repeated | wrapped | marked | traced | mapped
  | accepted | zeroOrMore | oneOrMore => exact hg

theorem Joint.apply_unsequenced {j : Joint} (hj : j.IsChoice) (hg : g.Unsequenced L S)
    (hh : h.Unsequenced L S) : (j.apply g h).Unsequenced L S := by
  cases j with
  | or | either => exact ⟨hg, hh⟩
  | both | skipThen | thenSkip | pair | right | left => exact hj.elim

end Combinations

/-- What is built from an unsequenced description is unsequenced, and so are the cells it
    defines. -/
theorem Recipe.build_unsequenced :
    (recipe : Recipe) → recipe.Unsequenced → recipe.Builds Kind.unsequenced
  | .piece _, hp, _, _ => .done (Piece.grammar_unsequenced hp)
  | .modified m body, hr, names, hnames => by
    refine .next (body.build_unsequenced hr names hnames) fun a ha => ?_
    exact .done (m.apply_unsequenced (Grammar.pure_unsequenced none) ha)
  | .joined j first second, hr, names, hnames => by
    refine .next (first.build_unsequenced hr.2.1 names hnames) fun a ha => ?_
    refine .next (second.build_unsequenced hr.2.2 names hnames) fun b hb => ?_
    exact .done (Joint.apply_unsequenced hr.1 ha hb)
  | .between _ _ _, hr, _, _ | .andThen _ _, hr, _, _ | .chained _ _, hr, _, _ => hr.elim
  | .rule _, _, _, _ => .done id
  | .recursive _ body, hr, _, hnames =>
    .recursive Kind.unsequenced_cell hnames (body.build_unsequenced hr)
  | .named name, _, _, hnames => .named hnames name

/-- All rules are unsequenced. -/
def Rules.Unsequenced (rules : Rules) : Prop := ∀ rule ∈ rules, rule.2.Unsequenced

theorem Rules.unsequenced_nil : Rules.Unsequenced [] := List.forall_mem_nil _

/-- As long as the definitions of cells are unsequenced, so is whatever a symbol stands for. -/
theorem Rules.Unsequenced.rulebook {rules : Rules} (h : rules.Unsequenced) :
    rules.rulebook.Unsequenced (Store.All Kind.unsequenced) Symbol.NotElement := by
  intro α store store' n g hstore hn hresolve
  have hrules : ∀ rule ∈ rules, rule.2.Builds Kind.unsequenced := fun rule hrule =>
    rule.2.build_unsequenced (h rule hrule)
  cases Rules.finds hrules hstore hresolve with
  | element => exact absurd trivial hn
  | value hb hstore' => exact ⟨hb, hstore'⟩

theorem Built.parser_atomic {b : Built} (hb : Kind.unsequenced b) {rules : Rules}
    (hrules : rules.Unsequenced) (limits : Limits) {store : Store}
    (hstore : store.All Kind.unsequenced) : (b.parser rules limits store).Atomic :=
  Rulebook.parser_atomic hrules.rulebook limits hstore hb

/-- The recipe of a step is unsequenced. -/
def Step.Unsequenced : Step → Prop
  | .declare _ => True
  | .define _ recipe => recipe.Unsequenced
  | .bind _ recipe => recipe.Unsequenced
  | .recursive _ _ recipe => recipe.Unsequenced
  | .copy _ _ => True
  | .drop _ => True
  | .run _ recipe _ => recipe.Unsequenced

theorem Step.Unsequenced.builds {step : Step} (h : step.Unsequenced) :
    step.Builds Kind.unsequenced := by
  cases step with
  | define x recipe | bind x recipe | recursive x handle recipe | run mode recipe inp =>
    exact recipe.build_unsequenced h
  | declare | copy | drop => trivial

-- ============================================================================
-- Failing where it began
-- ============================================================================

/-- Without sequences failure is atomic.  Over steps that fail in place, with choices, repetitions
    and filters nested in any way and symbols that stand for more of the same, a run that fails does
    so where it began.  First for grammars with symbols of any kind, then for described grammars
    with rules, then for the runs of a session; and whatever the symbols are, blanks and identifiers
    are among them. -/
theorem unsequenced_fails_in_place :
    (∀ {N : Type → Type} {σ : Type 1} (book : Rulebook N σ) (Allowed : σ → Prop)
      (S : {α : Type} → N α → Prop) (state : σ) {α : Type} (g : Grammar N α) (limits : Limits)
      (mode : Mode) (inp : Input) (scopes scopes' : Scopes) (report : Report α) (e : Failure),
      book.Unsequenced Allowed S → Allowed state → g.Unsequenced InPlace S → mode ≠ .complete →
      (book.parser limits state g).start mode inp scopes = some (report, scopes') →
      report.reply = .failed e → e = ⟨inp⟩) ∧
    (∀ (limits : Limits) (rules : Rules) (mode : Mode) (recipe : Recipe) (inputs : List Input)
      (answers : List Answer) (i : Nat) (inp : Input) (report : Report Value) (e : Failure),
      rules.Unsequenced → recipe.Unsequenced → mode ≠ .complete →
      recipe.runAll limits rules mode inputs = some answers → inputs[i]? = some inp →
      answers[i]? = some (.ran report) → report.reply = .failed e → e = ⟨inp⟩) ∧
    (∀ (limits : Limits) (steps : List Step) (answers : List Answer) (i : Nat) (mode : Mode)
      (recipe : Recipe) (inp : Input) (report : Report Value) (e : Failure),
      (∀ step ∈ steps, step.Unsequenced) → mode ≠ .complete →
      Session.empty.answers limits steps = some answers →
      steps[i]? = some (.run mode recipe inp) → answers[i]? = some (.ran report) →
      report.reply = .failed e → e = ⟨inp⟩) ∧
    (∀ {N : Type → Type} {σ : Type 1} (book : Rulebook N σ) (limits : Limits) (state : σ),
      (book.parser limits state Lexical.someBlanks).Atomic ∧
      (book.parser limits state Lexical.identifier).Atomic) := by
  refine ⟨?_, ?_, ?_, ?_⟩
  · intro N σ book Allowed S state α g limits mode inp scopes scopes' report e hbook hstate hg
      hmode hstart hreply
    exact (Rulebook.parser_atomic hbook limits hstate hg).start hmode hstart hreply
  · intro limits rules mode recipe inputs answers i inp report e hrules hrecipe hmode hrun hinp
      hreport hreply
    obtain ⟨b, store, before, after, hb, hstore, hstart⟩ :=
      (recipe.build_unsequenced hrecipe).runAll hrun hinp hreport
    exact (Built.parser_atomic hb hrules limits hstore).start hmode hstart hreply
  · intro limits steps answers i mode recipe inp report e hsteps hmode hrun hstep hreport hreply
    obtain ⟨b, store, before, after, hb, hstore, hstart⟩ :=
      Session.all_empty.answers Kind.unsequenced_cell
        (fun step hmem => (hsteps step hmem).builds) hrun hstep hreport
    exact (Built.parser_atomic hb Rules.unsequenced_nil limits hstore).start hmode hstart hreply
  · intro N σ book limits state
    -- Neither of them has a symbol, so it does not matter what symbols stand for.
    exact ⟨Grammar.eval_atomic (S := fun _ => False) (fun _ hn => hn.elim)
        Lexical.someBlanks_unsequenced,
      Grammar.eval_atomic (S := fun _ => False) (fun _ hn => hn.elim)
        Lexical.identifier_unsequenced⟩

/-- Three digits. -/
def threeDigits : Grammar Markup.Symbol (List Char) :=
  (Grammar.satisfying Char.isDigit).repeated (Bounds.free.exactly 3)

/-- One word, or two bytes at least twice. -/
def bytePairs : Rules :=
  [("pairs", .joined .or (.piece (.literal "no")) (.modified (.repeated ⟨2, none⟩) (.rule "pair"))),
    ("pair", .piece (.bytes 2))]

/-- Two accented letters, which are refused, or a digit. -/
def refusedAccents : Recipe :=
  .joined .or (.modified (.filter .never) (.modified (.repeated (Bounds.free.exactly 2))
    (.piece (.char 'é')))) (.piece .digit)

/-- Three digits where two are given, in a run that is traced; pairs of bytes that run out; and a
    recursive parser that has read two letters of two bytes when it is refused. -/
theorem fails_in_place_after_reading :
    (Markup.rulebook.parser ⟨9, 9⟩ ⟨⟩ threeDigits).start .traced (.ofString "12x") [] =
      some (⟨.failed ⟨.ofString "12x"⟩, some [], ""⟩, []) ∧
    Recipe.runAll ⟨9, 9⟩ bytePairs .run (.rule "pairs") [.ofString "abc"] =
      some [.ran ⟨.failed ⟨.ofString "abc"⟩, none, ""⟩] ∧
    Session.empty.answers ⟨9, 9⟩ [.recursive "x" "h" refusedAccents,
        .run .parse (.named "x") (.ofString "éé!")] =
      some [.done, .ran ⟨.failed ⟨.ofString "éé!"⟩, none, ""⟩] := by
  obtain ⟨hgrammar, hrules, hsession, -⟩ := unsequenced_fails_in_place
  refine ⟨?_, ?_, ?_⟩
  · have hbook : Markup.rulebook.Unsequenced (fun _ => True) fun _ => False :=
      fun _ _ _ _ _ hn => hn.elim
    have hdigits : threeDigits.Unsequenced InPlace fun _ => False := Grammar.any_unsequenced
    obtain ⟨e, he⟩ : ∃ e, (Markup.rulebook.parser ⟨9, 9⟩ ⟨⟩ threeDigits).start .traced
        (.ofString "12x") [] = some (⟨.failed e, some [], ""⟩, []) := ⟨_, rfl⟩
    rw [he, hgrammar _ _ _ _ _ _ .traced _ _ _ _ e hbook trivial hdigits (by decide) he rfl]
  · obtain ⟨e, he⟩ : ∃ e, Recipe.runAll ⟨9, 9⟩ bytePairs .run (.rule "pairs") [.ofString "abc"] =
        some [.ran ⟨.failed e, none, ""⟩] := ⟨_, rfl⟩
    have hpairs : bytePairs.Unsequenced :=
      List.forall_mem_cons.2 ⟨⟨trivial, trivial, trivial⟩, List.forall_mem_singleton.2 trivial⟩
    rw [he, hrules _ _ .run (.rule "pairs") _ _ 0 (.ofString "abc") _ e hpairs trivial (by decide)
      he rfl rfl rfl]
  · obtain ⟨e, he⟩ : ∃ e, Session.empty.answers ⟨9, 9⟩ [.recursive "x" "h" refusedAccents,
        .run .parse (.named "x") (.ofString "éé!")] =
          some [.done, .ran ⟨.failed e, none, ""⟩] := ⟨_, rfl⟩
    have hsteps : ∀ step ∈ [Step.recursive "x" "h" refusedAccents,
        .run .parse (.named "x") (.ofString "éé!")], step.Unsequenced :=
      List.forall_mem_cons.2 ⟨⟨trivial, trivial, trivial⟩, List.forall_mem_singleton.2 trivial⟩
    rw [he, hsession _ _ _ 1 .parse (.named "x") (.ofString "éé!") _ e hsteps (by decide) he rfl rfl
      rfl]

end Descent
