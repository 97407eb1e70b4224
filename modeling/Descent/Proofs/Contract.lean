/-
  Descent.Proofs.Contract

  The contract of parsers in full: no run of any parser reports a rest that is not how its input
  ends.  It holds for grammars with any functions, continuations and symbols, for described grammars
  with rules, and along a session for whatever its names and cells have come to stand for.
-/
import Descent.Proofs.Faithful

namespace Descent

-- ============================================================================
-- Rules
-- ============================================================================

/-- All rules are made of honest pieces. -/
def Rules.Honest (rules : Rules) : Prop := ∀ rule ∈ rules, rule.2.Honest

theorem Rules.honest_nil : Rules.Honest [] := List.forall_mem_nil _

/-- As long as the definitions of cells are over honest steps, so is whatever a symbol stands
    for. -/
theorem Rules.Honest.rulebook {rules : Rules} (h : rules.Honest) :
    rules.rulebook.Honest (Store.All Kind.honest) := by
  intro α store store' n g hstore hresolve
  have hrules : ∀ rule ∈ rules, rule.2.Builds Kind.honest := fun rule hrule =>
    rule.2.build_honest (h rule hrule)
  cases Rules.finds hrules hstore hresolve with
  | element => exact ⟨Markup.element_over trivial, hstore⟩
  | value hb hstore' => exact ⟨hb, hstore'⟩

theorem Built.parser_faithful {b : Built} (hb : Kind.honest b) {rules : Rules}
    (hrules : rules.Honest) (limits : Limits) {store : Store} (hstore : store.All Kind.honest) :
    (b.parser rules limits store).Faithful :=
  Rulebook.parser_faithful hrules.rulebook limits hstore hb

-- ============================================================================
-- Sessions
-- ============================================================================

/-- The recipe of a step is made of honest pieces. -/
def Step.Honest : Step → Prop
  | .declare _ => True
  | .define _ recipe => recipe.Honest
  | .bind _ recipe => recipe.Honest
  | .recursive _ _ recipe => recipe.Honest
  | .copy _ _ => True
  | .drop _ => True
  | .run _ recipe _ => recipe.Honest

theorem Step.Honest.builds {step : Step} (h : step.Honest) : step.Builds Kind.honest := by
  cases step with
  | define x recipe | bind x recipe | recursive x handle recipe | run mode recipe inp =>
    exact recipe.build_honest h
  | declare | copy | drop => trivial

-- ============================================================================
-- The contract
-- ============================================================================

/-- No parser makes up input: whatever is started, in whatever mode, a match leaves an end of the
    input and a failure is placed at one, with the offset to show for it.  First for grammars with
    symbols of any kind, then for described grammars with rules, then for the runs of a session. -/
theorem replies_within_input :
    (∀ {N : Type → Type} {σ : Type 1} (book : Rulebook N σ) (Allowed : σ → Prop) (state : σ)
      {α : Type} (g : Grammar N α) (limits : Limits) (mode : Mode) (inp : Input)
      (scopes scopes' : Scopes) (report : Report α),
      book.Honest Allowed → Allowed state → g.Honest →
      (book.parser limits state g).start mode inp scopes = some (report, scopes') →
      report.reply.Within inp) ∧
    (∀ (limits : Limits) (rules : Rules) (mode : Mode) (recipe : Recipe) (inputs : List Input)
      (answers : List Answer) (i : Nat) (inp : Input) (report : Report Value),
      rules.Honest → recipe.Honest → recipe.runAll limits rules mode inputs = some answers →
      inputs[i]? = some inp → answers[i]? = some (.ran report) → report.reply.Within inp) ∧
    (∀ (limits : Limits) (steps : List Step) (answers : List Answer) (i : Nat) (mode : Mode)
      (recipe : Recipe) (inp : Input) (report : Report Value),
      (∀ step ∈ steps, step.Honest) → Session.empty.answers limits steps = some answers →
      steps[i]? = some (.run mode recipe inp) → answers[i]? = some (.ran report) →
      report.reply.Within inp) := by
  refine ⟨?_, ?_, ?_⟩
  · intro N σ book Allowed state α g limits mode inp scopes scopes' report hbook hstate hg hrun
    exact (Rulebook.parser_faithful hbook limits hstate hg).start hrun
  · intro limits rules mode recipe inputs answers i inp report hrules hrecipe hrun hinp hreport
    obtain ⟨b, store, before, after, hb, hstore, hstart⟩ :=
      (recipe.build_honest hrecipe).runAll hrun hinp hreport
    exact (Built.parser_faithful hb hrules limits hstore).start hstart
  · intro limits steps answers i mode recipe inp report hsteps hrun hstep hreport
    obtain ⟨b, store, before, after, hb, hstore, hstart⟩ :=
      Session.all_empty.answers Kind.honest_cell (fun step hmem => (hsteps step hmem).builds) hrun
        hstep hreport
    exact (Built.parser_faithful hb Rules.honest_nil limits hstore).start hstart

/-- A grammar whose second step depends on the first, a rule that uses itself and a recursive
    parser, each over characters of two bytes. -/
theorem within_input_of_repeated_accents :
    (Reply.matched (.ofString "!") 'é').Within (.ofString "éé!") ∧
    (Reply.failed ⟨.ofString "é!"⟩ : Reply Value).Within (.ofString "éé!") ∧
    (Reply.failed ⟨.ofString "!"⟩ : Reply Value).Within (.ofString "ééy!") := by
  obtain ⟨hgrammar, hrules, hsession⟩ := replies_within_input
  have hbook : Markup.rulebook.Honest fun _ => True := by
    intro α state state' n g _ hresolve
    cases n
    cases hresolve
    exact ⟨Markup.element_over trivial, trivial⟩
  have hrun : (Markup.rulebook.parser ⟨9, 9⟩ ⟨⟩ (Grammar.any.andThen Grammar.char)).start .parse
      (.ofString "éé!") [] = some (⟨.matched (.ofString "!") 'é', none, ""⟩, []) := rfl
  have hrule : Recipe.runAll ⟨9, 9⟩ [("p", .joined .skipThen (.piece (.char 'é'))
      (.joined .or (.rule "p") (.piece (.char 'y'))))] .parse (.rule "p") [.ofString "éé!"] =
      some [.ran ⟨.failed ⟨.ofString "é!"⟩, none, ""⟩] := rfl
  have hanswers : Session.empty.answers ⟨9, 9⟩ [.recursive "x" "h" (.joined .skipThen
      (.piece (.char 'é')) (.joined .or (.named "h") (.piece (.char 'y')))),
      .run .complete (.named "x") (.ofString "ééy!")] =
      some [.done, .ran ⟨.failed ⟨.ofString "!"⟩, none, ""⟩] := rfl
  refine ⟨?_, ?_, ?_⟩
  · have hg : (Grammar.any.andThen Grammar.char : Grammar Markup.Symbol Char).Honest :=
      ⟨Grammar.any_over, fun c => Grammar.chars_over [c]⟩
    exact hgrammar _ _ _ _ _ _ _ _ _ _ hbook trivial hg hrun
  · refine hrules _ _ .parse (.rule "p") _ _ 0 _ _ (fun rule hmem => ?_) trivial hrule rfl rfl
    cases List.mem_singleton.1 hmem
    exact ⟨trivial, trivial, trivial⟩
  · refine hsession _ _ _ 1 .complete (.named "x") _ _ (fun step hmem => ?_) hanswers rfl rfl
    rcases List.mem_cons.1 hmem with rfl | hmem
    · exact ⟨trivial, trivial, trivial⟩
    · cases List.mem_singleton.1 hmem
      trivial

end Descent
