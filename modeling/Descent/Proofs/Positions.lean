/-
  Descent.Proofs.Positions

  Positions of errors never influence what is parsed.  Described grammars can place a failure
  anywhere, through the piece that fails with a rest of its own.  A description is compared with the
  one in which all these pieces fail at the end: the two are built side by side into grammars of the
  same shape, and their cells are defined by grammars of the same shape.  So descriptions that
  differ in nothing but where these pieces fail answer alike.
-/
import Descent.Proofs.Pairs
import Descent.Proofs.Unmarked
import Descent.Proofs.Unplaced

namespace Descent

-- ============================================================================
-- Descriptions without places
-- ============================================================================

/-- The piece that always fails does so at the end. -/
def Piece.unplaced : Piece → Piece
  | .failing _ => .failing (.ofChars [])
  | p => p

mutual

/-- The description with all failures of its own at the end. -/
def Recipe.unplaced : Recipe → Recipe
  | .piece p => .piece p.unplaced
  | .modified m body => .modified m body.unplaced
  | .joined j first second => .joined j first.unplaced second.unplaced
  | .between body start finish => .between body.unplaced start.unplaced finish.unplaced
  | .andThen body next => .andThen body.unplaced next.unplaced
  | .chained body next => .chained body.unplaced next.unplaced
  | .rule name => .rule name
  | .recursive name body => .recursive name body.unplaced
  | .named name => .named name

def Continuation.unplaced : Continuation → Continuation
  | .same => .same
  | .close => .close
  | .keep => .keep
  | .count body => .count body.unplaced
  | .always body => .always body.unplaced
  | .cases table otherwise => .cases (Recipe.unplacedTable table) otherwise.unplaced

def Recipe.unplacedTable : List (String × Recipe) → List (String × Recipe)
  | [] => []
  | (key, body) :: table => (key, body.unplaced) :: Recipe.unplacedTable table

end

/-- All rules with their own failures at the end. -/
def Rules.unplaced (rules : Rules) : Rules := rules.map fun rule => (rule.1, rule.2.unplaced)

-- A description is untraced if nothing in it collects a trace to be a value.

mutual

def Recipe.Untraced : Recipe → Prop
  | .piece _ => True
  | .modified m body => m ≠ .traced ∧ body.Untraced
  | .joined _ first second => first.Untraced ∧ second.Untraced
  | .between body start finish => body.Untraced ∧ start.Untraced ∧ finish.Untraced
  | .andThen body next => body.Untraced ∧ next.Untraced
  | .chained body next => body.Untraced ∧ next.Untraced
  | .rule _ => True
  | .recursive _ body => body.Untraced
  | .named _ => True

def Continuation.Untraced : Continuation → Prop
  | .same => True
  | .close => True
  | .keep => True
  | .count body => body.Untraced
  | .always body => body.Untraced
  | .cases table otherwise => Recipe.UntracedTable table ∧ otherwise.Untraced

def Recipe.UntracedTable : List (String × Recipe) → Prop
  | [] => True
  | (_, body) :: table => body.Untraced ∧ Recipe.UntracedTable table

end

/-- No rule collects a trace to be a value. -/
def Rules.Untraced (rules : Rules) : Prop := ∀ rule ∈ rules, rule.2.Untraced

-- ============================================================================
-- Grammars of descriptions
-- ============================================================================

/-- Built into grammars of the same shape. -/
abbrev Built.SameShape (b b' : Built) : Prop := b.grammar.SameShape b'.grammar

theorem Piece.grammar_unplaced (p : Piece) : p.grammar.SameShape p.unplaced.grammar := by
  by_cases hfailing : ∃ rest, p = .failing rest
  · obtain ⟨rest, rfl⟩ := hfailing
    exact .leaf fun _ => rfl
  · have hsame : p.unplaced = p := by
      cases p with
      | failing rest => exact absurd ⟨rest, rfl⟩ hfailing
      | _ => rfl
    rw [hsame]
    exact p.grammar_untraced.sameShape

theorem Modifier.apply_sameShape {m : Modifier} (hm : m ≠ .traced) {g h : Grammar Symbol Value}
    (hgh : g.SameShape h) : (m.apply g).SameShape (m.apply h) := by
  cases m with
  | map f | mapped f => exact .map f.apply hgh
  | constant v => exact .map _ hgh
  | ignored =>
    have hunit : g.ignored.SameShape h.ignored := .map _ hgh
    exact .map _ hunit
  | collect c => exact .map c.apply hgh
  | filter c | accepted c => exact .filter c.holds hgh
  | optional =>
    have hoption : g.optional.SameShape h.optional := .or (.map some hgh) (.leaf fun _ => rfl)
    exact .map _ hoption
  | repeated b => exact .map _ (.repeated b hgh)
  | wrapped w => exact .wrapped w hgh
  | marked label => exact .marked label hgh
  | traced => exact absurd rfl hm
  | zeroOrMore => exact .map _ (.repeated Bounds.free hgh)
  | oneOrMore => exact .map _ (.repeated (Bounds.free.atLeast 1) hgh)

section Joints

variable {g h g' h' : Grammar Symbol Value}

theorem Grammar.SameShape.both (hgh : g.SameShape h) (hgh' : g'.SameShape h') :
    ((g.both g').map Value.ofPair).SameShape ((h.both h').map Value.ofPair) :=
  have hpair : (g.both g').SameShape (h.both h') := .andThen hgh fun _ => .map _ hgh'
  .map _ hpair

theorem Grammar.SameShape.thenSkip (hgh : g.SameShape h) (hgh' : g'.SameShape h') :
    (g.thenSkip g').SameShape (h.thenSkip h') :=
  .andThen hgh fun _ => .map _ hgh'

theorem Grammar.SameShape.skipThen (hgh : g.SameShape h) (hgh' : g'.SameShape h') :
    (g.skipThen g').SameShape (h.skipThen h') :=
  .andThen hgh fun _ => hgh'

theorem Joint.apply_sameShape (j : Joint) (hgh : g.SameShape h) (hgh' : g'.SameShape h') :
    (j.apply g g').SameShape (j.apply h h') := by
  cases j with
  | both | pair => exact hgh.both hgh'
  | skipThen | right => exact hgh.skipThen hgh'
  | thenSkip | left => exact hgh.thenSkip hgh'
  | or | either => exact .or hgh hgh'

end Joints

-- ============================================================================
-- Building side by side
-- ============================================================================

/-- In stores with cells of the same shape both builds come to the same end. -/
abbrev Build.SameShape {β : Type 1} (Q : β → β → Prop) (build build' : Build β) : Prop :=
  Build.Paired (Store.Paired Built.SameShape) Q build build'

/-- Continuations that give grammars of the same shape to the same value. -/
abbrev BuiltContinuation.SameShape (k k' : BuiltContinuation) : Prop :=
  ∀ v, (k.next v).SameShape (k'.next v)

-- Along the description; the parts are built one after the other on both sides.

mutual

theorem Recipe.build_unplaced : (recipe : Recipe) → recipe.Untraced →
    ∀ {names names' : Names}, names.Paired Built.SameShape names' →
    Build.SameShape Built.SameShape (recipe.build names) (recipe.unplaced.build names')
  | .piece p, _, _, _, _ => .done p.grammar_unplaced
  | .modified _ body, hr, _, _, hnames => by
    refine .next (body.build_unplaced hr.2 hnames) fun b b' hb => ?_
    exact .done (Modifier.apply_sameShape hr.1 hb)
  | .joined j first second, hr, _, _, hnames => by
    refine .next (first.build_unplaced hr.1 hnames) fun a a' ha => ?_
    refine .next (second.build_unplaced hr.2 hnames) fun b b' hb => ?_
    exact .done (j.apply_sameShape ha hb)
  | .between body start finish, hr, _, _, hnames => by
    refine .next (body.build_unplaced hr.1 hnames) fun b b' hb => ?_
    refine .next (start.build_unplaced hr.2.1 hnames) fun s s' hs => ?_
    refine .next (finish.build_unplaced hr.2.2 hnames) fun f f' hf => ?_
    exact .done (hs.skipThen (hb.thenSkip hf))
  | .andThen body next, hr, _, _, hnames | .chained body next, hr, _, _, hnames => by
    refine .next (body.build_unplaced hr.1 hnames) fun b b' hb => ?_
    refine .next (next.build_unplaced hr.2 hnames) fun k k' hk => ?_
    exact .done (.andThen hb hk)
  | .rule name, _, _, _, _ => .done (.symbol (Symbol.rule name))
  | .recursive x body, hr, _, _, hnames =>
    .recursive (fun r => .symbol (Symbol.cell r)) fun c =>
      body.build_unplaced hr (hnames.cons x (.symbol (Symbol.cell (.handle c))))
  | .named x, _, _, _, hnames => .named hnames x

theorem Continuation.build_unplaced : (next : Continuation) → next.Untraced →
    ∀ {names names' : Names}, names.Paired Built.SameShape names' →
    Build.SameShape BuiltContinuation.SameShape (next.build names) (next.unplaced.build names')
  | .same, _, _, _, _ => .done fun _ => .map _ (.leaf fun _ => rfl)
  | .close, _, _, _, _ =>
    .done fun v => (Piece.closeElement (String.ofList v.chars)).grammar_untraced.sameShape
  | .keep, _, _, _, _ => .done fun _ => .map _ (.leaf fun _ => rfl)
  | .count body, hr, _, _, hnames => by
    refine .next (body.build_unplaced hr hnames) fun b b' hb => ?_
    exact .done fun _ => .map _ (.repeated _ hb)
  | .always body, hr, _, _, hnames => by
    refine .next (body.build_unplaced hr hnames) fun b b' hb => ?_
    exact .done fun _ => hb
  | .cases table otherwise, hr, _, _, hnames => by
    refine .next (Recipe.buildTable_unplaced table hr.1 hnames) fun cases cases' hcases => ?_
    refine .next (otherwise.build_unplaced hr.2 hnames) fun b b' hb => ?_
    exact .done fun v => hcases.getD hb (String.ofList v.chars)

theorem Recipe.buildTable_unplaced : (table : List (String × Recipe)) →
    Recipe.UntracedTable table → ∀ {names names' : Names}, names.Paired Built.SameShape names' →
    Build.SameShape (Names.Paired Built.SameShape) (Recipe.buildTable names table)
      (Recipe.buildTable names' (Recipe.unplacedTable table))
  | [], _, _, _, _ => .done Names.paired_nil
  | (key, body) :: table, hr, _, _, hnames => by
    refine .next (body.build_unplaced hr.1 hnames) fun b b' hb => ?_
    refine .next (Recipe.buildTable_unplaced table hr.2 hnames) fun cases cases' hcases => ?_
    exact .done (hcases.cons key hb)

end

-- ============================================================================
-- Running
-- ============================================================================

/-- Rules are built in step with what is left of them without places. -/
theorem Rules.Untraced.paired {rules : Rules} (hrules : rules.Untraced) :
    rules.Paired Built.SameShape rules.unplaced :=
  Rules.paired_map fun rule hrule => rule.2.build_unplaced (hrules rule hrule) Names.paired_nil

/-- Whatever a symbol stands for under rules, it stands for something of the same shape under the
    rules without places. -/
theorem Rules.Untraced.rulebook {rules : Rules} (hrules : rules.Untraced) :
    rules.rulebook.SameShape rules.unplaced.rulebook (Store.Paired Built.SameShape) := by
  intro α store store' n hstore
  refine (hrules.paired.resolve hstore n).imp_right ?_
  rintro ⟨g, after, g', after', hg, hg', hn, hafter⟩
  refine ⟨g, after, g', after', hg, hg', ?_, hafter⟩
  cases hn with
  | element =>
    have helement : (Markup.element Symbol.element).Untraced Symbol.IsElement :=
      Markup.element_untraced trivial
    exact helement.sameShape
  | rule x hb | cell r hb => exact hb

/-- The answer without the place of a failure. -/
def Answer.unplaced : Answer → Answer
  | .ran report => .ran { report with reply := report.reply.unplaced }
  | answer => answer

/-- What a start answers, without the place of a failure and what was recorded. -/
theorem Answer.unplaced_ofReply (reply : Reply Value) :
    (Answer.ofReply reply).unplaced = Answer.ofReply reply.unplaced := by
  cases reply with
  | matched rest v | failed e | aborted m => rfl

namespace Recipe

/-- Rulebooks with symbols of the same shape answer each input alike.  Each start leaves nobody
    listening on both sides or on neither, so the next one is heard on both sides or on neither. -/
theorem runAll_go_sameShape {N : Type → Type} {σ τ : Type 1} {book : Rulebook N σ}
    {book' : Rulebook N τ} {Beside : σ → τ → Prop} (hbook : book.SameShape book' Beside)
    (limits : Limits) {s : σ} {t : τ} (hst : Beside s t) {g h : Grammar N Value}
    (hgh : g.SameShape h) (mode : Mode) (inputs : List Input) {scopes scopes' : Scopes}
    (hopen : scopes = [] ↔ scopes' = []) :
    (runAll.go mode (book.parser limits s g) inputs scopes).map
        (List.map fun answer => answer.bare.unplaced) =
      (runAll.go mode (book'.parser limits t h) inputs scopes').map
        (List.map fun answer => answer.bare.unplaced) := by
  induction inputs generalizing scopes scopes' with
  | nil => rfl
  | cons inp inputs ih =>
    have hreply := hbook.startReply limits hst hgh inp (Mode.listens_congr hopen mode)
    rw [Parser.startReply, Parser.startReply] at hreply
    cases hx : (book.parser limits s g).start mode inp scopes with
    | none =>
      rw [hx] at hreply
      have hy : (book'.parser limits t h).start mode inp scopes' = none :=
        Option.map_eq_none_iff.1 (Option.map_eq_none_iff.1 hreply.symm)
      rw [runAll.go, hx, runAll.go, hy]
    | some x =>
      cases hy : (book'.parser limits t h).start mode inp scopes' with
      | none =>
        rw [hx, hy] at hreply
        cases hreply
      | some y =>
        rw [hx, hy] at hreply
        have hsame : x.1.reply.unplaced = y.1.reply.unplaced := Option.some.inj hreply
        have hafter : x.2 = [] ↔ y.2 = [] := by
          rw [hbook.untraced.1.start_scopes_eq_nil_iff ⟨t, hst⟩ hgh.untraced.1 hx,
            hbook.untraced.2.start_scopes_eq_nil_iff ⟨s, hst⟩ hgh.untraced.2 hy, hopen,
            ← Reply.givenUp_unplaced x.1.reply, hsame, Reply.givenUp_unplaced]
        rw [runAll_go_cons Answer.unplaced hx, runAll_go_cons Answer.unplaced hy, ih hafter,
          Answer.unplaced_ofReply, Answer.unplaced_ofReply, hsame]

/-- A description answers as it does with its own failures at the end. -/
theorem runAll_unplaced {recipe : Recipe} (hrecipe : recipe.Untraced) {rules : Rules}
    (hrules : rules.Untraced) (limits : Limits) (mode : Mode) (inputs : List Input) :
    (recipe.runAll limits rules mode inputs).map (List.map fun answer => answer.bare.unplaced) =
      (recipe.unplaced.runAll limits rules.unplaced mode inputs).map
        (List.map fun answer => answer.bare.unplaced) := by
  rw [runAll, runAll]
  rcases recipe.build_unplaced hrecipe Names.paired_nil .empty .empty .empty with
    ⟨m, hm, hm'⟩ | ⟨b, store, b', store', hb, hb', hshape, hstore⟩
  · simp only [hm, hm']
  · simp only [hb, hb']
    exact runAll_go_sameShape hrules.rulebook limits hstore hshape mode inputs Iff.rfl

end Recipe

/-- Positions of errors never influence what is parsed.  Grammars of the same shape, whose steps
    succeed alike and fail with whatever positions, give the same rest and the same value, or both
    fail, or neither comes to an end, in two runs that are both heard or both not; the symbols in
    them may stand for anything of the same shape, such as the grammars themselves.  So do
    descriptions and their rules that are the same but for where the pieces that always fail place
    their failures, in every mode and for each input of a run.  No trace is collected to be a
    value. -/
theorem positions_never_steer :
    (∀ {N : Type → Type} {σ τ : Type 1} (book : Rulebook N σ) (book' : Rulebook N τ)
      (Beside : σ → τ → Prop) (s : σ) (t : τ) {α : Type} (g h : Grammar N α) (limits : Limits)
      (mode : Mode) (inp : Input) (scopes scopes' : Scopes), book.SameShape book' Beside →
      Beside s t → g.SameShape h → mode.listens scopes = mode.listens scopes' →
      ((book.parser limits s g).startReply mode inp scopes).map Reply.unplaced =
        ((book'.parser limits t h).startReply mode inp scopes').map Reply.unplaced) ∧
    (∀ (limits : Limits) (rules rules' : Rules) (mode : Mode) (recipe recipe' : Recipe)
      (inputs : List Input), rules.unplaced = rules'.unplaced →
      recipe.unplaced = recipe'.unplaced → rules.Untraced → rules'.Untraced → recipe.Untraced →
      recipe'.Untraced →
      (recipe.runAll limits rules mode inputs).map (List.map fun answer => answer.bare.unplaced) =
        (recipe'.runAll limits rules' mode inputs).map
          (List.map fun answer => answer.bare.unplaced)) := by
  refine ⟨?_, ?_⟩
  · intro N σ τ book book' Beside s t α g h limits mode inp scopes scopes' hbook hst hgh hlistens
    exact hbook.startReply limits hst hgh inp hlistens
  · intro limits rules rules' mode recipe recipe' inputs hrules hrecipe hurules hurules' hurecipe
      hurecipe'
    rw [Recipe.runAll_unplaced hurecipe hurules, hrules, hrecipe,
      ← Recipe.runAll_unplaced hurecipe' hurules']

/-- An `a`; where there is none, the failure is placed as given. -/
def letterPlaced (place : Input → Input) (inp : Input) : Except Failure (Input × Char) :=
  match inp.next? with
  | some ('a', rest) => .ok (rest, 'a')
  | _ => .error ⟨place inp⟩

theorem letterPlaced_toOption (place place' : Input → Input) (inp : Input) :
    (letterPlaced place inp).toOption = (letterPlaced place' inp).toOption := by
  rw [letterPlaced, letterPlaced]
  split <;> rfl

/-- Any number of letters, and then one more or a `b`. -/
def lettersPlaced (place : Input → Input) : Grammar Markup.Symbol (List Char × Char) :=
  (Grammar.repeated Bounds.free (.leaf (letterPlaced place))).both
    (.or (.leaf (letterPlaced place)) (.char 'b'))

theorem lettersPlaced_sameShape (place place' : Input → Input) :
    (lettersPlaced place).SameShape (lettersPlaced place') := by
  have hletter : (Grammar.leaf (letterPlaced place) : Grammar Markup.Symbol Char).SameShape
      (.leaf (letterPlaced place')) := .leaf (letterPlaced_toOption place place')
  have hchar : (Grammar.char 'b' : Grammar Markup.Symbol Char).SameShape (.char 'b') :=
    .map _ (.leaf fun _ => rfl)
  exact .andThen (.repeated _ hletter) fun _ => .map _ (.or hletter hchar)

/-- Brackets around brackets, and an `x` in the innermost ones or else whatever the rule says. -/
def bracketsAround : Recipe :=
  .recursive "h" (.joined .or
    (.between (.named "h") (.piece (.char '[')) (.piece (.char ']')))
    (.joined .or (.piece (.char 'x')) (.rule "stop")))

/-- A rule that always fails with the given rest. -/
def stopAt (rest : String) : Rules := [("stop", .piece (.failing (.ofString rest)))]

/-- A letter that places its failures elsewhere, which ends a repetition and the first branch of a
    choice; and brackets whose innermost failure is placed where the input would go on well. -/
theorem positions_never_steer_in_brackets :
    ((Markup.rulebook.parser ⟨9, 9⟩ ⟨⟩ (lettersPlaced fun _ => .ofString "aaaa")).startReply
        .verbose (.ofString "aab!") []).map Reply.unplaced =
      some (.matched (.ofString "!") (['a', 'a'], 'b')) ∧
    (bracketsAround.runAll ⟨9, 9⟩ (stopAt "x]]") .parse [.ofString "[[x]]!", .ofString "[[y]]"]).map
        (List.map fun answer => answer.bare.unplaced) =
      some [.ran ⟨.matched (.ofString "!") (.ofChar 'x'), none, ""⟩,
        .ran ⟨.failed ⟨.ofChars []⟩, none, ""⟩] := by
  obtain ⟨hgrammar, hrecipe⟩ := positions_never_steer
  refine ⟨?_, ?_⟩
  · have hbook : Markup.rulebook.SameShape Markup.rulebook fun _ _ => True := by
      intro α s t n _
      cases n
      have helement : (Markup.element Markup.Symbol.element).Untraced fun _ => True :=
        Markup.element_untraced trivial
      exact .inr ⟨_, _, _, _, rfl, rfl, helement.sameShape, trivial⟩
    have hrun : ((Markup.rulebook.parser ⟨9, 9⟩ ⟨⟩ (lettersPlaced id)).startReply .verbose
        (.ofString "aab!") []).map Reply.unplaced =
          some (.matched (.ofString "!") (['a', 'a'], 'b')) := rfl
    rw [← hrun]
    exact hgrammar _ _ _ _ _ _ _ _ _ _ _ _ hbook trivial (lettersPlaced_sameShape _ _) rfl
  · have hrules (rest : String) : (stopAt rest).Untraced := List.forall_mem_singleton.2 trivial
    have hbrackets : bracketsAround.Untraced := ⟨⟨trivial, trivial, trivial⟩, trivial, trivial⟩
    have hrun : (bracketsAround.runAll ⟨9, 9⟩ (stopAt "") .parse
        [.ofString "[[x]]!", .ofString "[[y]]"]).map
          (List.map fun answer => answer.bare.unplaced) =
        some [.ran ⟨.matched (.ofString "!") (.ofChar 'x'), none, ""⟩,
          .ran ⟨.failed ⟨.ofChars []⟩, none, ""⟩] := rfl
    rw [← hrun]
    exact hrecipe _ _ _ _ _ _ _ rfl rfl (hrules _) (hrules _) hbrackets hbrackets

end Descent
