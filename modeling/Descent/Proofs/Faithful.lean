/-
  Descent.Proofs.Faithful

  Every parser that a grammar describes is faithful, provided that its single steps are honest and
  that the symbols it uses stand for grammars of the same kind.  The grammar itself is done by
  induction on its structure, recursion through symbols by induction on how deep they are nested.

  Described grammars are a case of this.  Whatever is built from honest pieces is over honest steps,
  and so is every definition that a cell ever gets, in one build and in a whole session: rules built
  anew, recursive parsers and cells declared and defined in any order keep to their input.
-/
import Descent.Proofs.Kinds
import Descent.Proofs.Over

namespace Descent

-- ============================================================================
-- Grammars and rulebooks
-- ============================================================================

section Grammars

variable {N : Type → Type} {α : Type}

/-- A grammar over honest steps, whatever its symbols are. -/
abbrev Grammar.Honest (g : Grammar N α) : Prop := g.Over Descent.Honest fun _ => True

/-- Over honest steps and symbols that are run by faithful parsers, a grammar describes a faithful
    parser. -/
theorem Grammar.eval_faithful {S : {α : Type} → N α → Prop} {attempts : Nat}
    {call : {α : Type} → N α → Parser α}
    (hcall : ∀ {α : Type} (n : N α), S n → Parser.Faithful (call n)) {g : Grammar N α}
    (h : g.Over Descent.Honest S) : Parser.Faithful (g.eval attempts call) := by
  induction g with
  | leaf step => exact Parser.read_faithful h
  | map f g ih => exact Parser.map_faithful f (ih h)
  | filter keep g ih => exact Parser.filter_faithful keep (ih h)
  | andThen g next ihg ihnext =>
    exact Parser.andThen_faithful (ihg h.1) fun value => ihnext value (h.2 value)
  | or g h' ihg ihh => exact Parser.or_faithful (ihg h.1) (ihh h.2)
  | repeated b g ih => exact Parser.repeated_faithful attempts b (ih h)
  | marked label g ih => exact Parser.marked_faithful label (ih h)
  | wrapped w g ih => exact ih h
  | traced g ih => exact Parser.traced_faithful (ih h)
  | symbol n => exact hcall n h

variable {σ : Type 1}

/-- In every state that is allowed, looking up a symbol gives a grammar over honest steps and
    another such state. -/
def Rulebook.Honest (book : Rulebook N σ) (Allowed : σ → Prop) : Prop :=
  ∀ {α : Type} (state state' : σ) (n : N α) (g : Grammar N α), Allowed state →
    book.resolve state n = .ok (g, state') → g.Honest ∧ Allowed state'

variable {book : Rulebook N σ} {Allowed : σ → Prop}

theorem Rulebook.call_faithful (hbook : book.Honest Allowed) (attempts nesting : Nat) {state : σ}
    (hstate : Allowed state) (n : N α) :
    Parser.Faithful (book.call attempts nesting state n) := by
  induction nesting generalizing state α with
  | zero =>
    intro inp scopes reply scopes' hrun
    exact nomatch hrun
  | succ nesting ih =>
    intro inp scopes reply scopes' hrun
    rw [Rulebook.call] at hrun
    split at hrun
    · next m hresolve => exact Parser.abort_faithful m inp scopes reply scopes' hrun
    · next g state' hresolve =>
      obtain ⟨hg, hstate'⟩ := hbook state state' n g hstate hresolve
      have hfaithful : Parser.Faithful
          (g.eval attempts fun n => book.call attempts nesting state' n) :=
        Grammar.eval_faithful (fun n _ => ih hstate' n) hg
      exact hfaithful inp scopes reply scopes' hrun

theorem Rulebook.parser_faithful (hbook : book.Honest Allowed) (limits : Limits) {state : σ}
    (hstate : Allowed state) {g : Grammar N α} (hg : g.Honest) :
    (book.parser limits state g).Faithful :=
  Grammar.eval_faithful
    (fun n _ => call_faithful hbook limits.attempts limits.nesting hstate n) hg

/-- The symbol of the markup language stands for a grammar over honest steps. -/
theorem Markup.rulebook_honest : Markup.rulebook.Honest fun _ => True := by
  intro α state state' n g _ hresolve
  cases n with
  | element =>
    cases hresolve
    exact ⟨Markup.element_over trivial, trivial⟩

end Grammars

-- ============================================================================
-- Building
-- ============================================================================

-- A description is honest if all pieces in it are.

mutual

def Recipe.Honest : Recipe → Prop
  | .piece p => p.Honest
  | .modified _ body => body.Honest
  | .joined _ first second => first.Honest ∧ second.Honest
  | .between body start finish => body.Honest ∧ start.Honest ∧ finish.Honest
  | .andThen body next => body.Honest ∧ next.Honest
  | .chained body next => body.Honest ∧ next.Honest
  | .rule _ => True
  | .recursive _ body => body.Honest
  | .named _ => True

def Continuation.Honest : Continuation → Prop
  | .same => True
  | .close => True
  | .keep => True
  | .count body => body.Honest
  | .always body => body.Honest
  | .cases table otherwise => Recipe.HonestTable table ∧ otherwise.Honest

def Recipe.HonestTable : List (String × Recipe) → Prop
  | [] => True
  | (_, body) :: table => body.Honest ∧ Recipe.HonestTable table

end

/-- What is built over honest steps. -/
def Kind.honest : Kind := fun b => b.grammar.Honest

theorem Kind.honest_cell (r : Reference) : Kind.honest r.built := trivial

theorem chooseCase_honest {cases : List (String × Built)} (hcases : Names.All Kind.honest cases)
    {b : Built} (hb : Kind.honest b) (v : Value) : (chooseCase cases b v).Honest := by
  rw [chooseCase]
  cases hlookup : cases.lookup (String.ofList v.chars) with
  | none => exact hb
  | some a => exact hcases.lookup hlookup

-- Along the description.

mutual

/-- What is built from honest pieces is over honest steps, and so are the cells it defines. -/
theorem Recipe.build_honest : (recipe : Recipe) → recipe.Honest → recipe.Builds Kind.honest
  | .piece p, hp, _, _ => by
    exact .done (p.grammar_over.mono (fun _ hstep => hstep hp) fun _ _ => trivial)
  | .modified m body, hr, names, hnames => by
    refine .next (body.build_honest hr names hnames) fun a ha => ?_
    exact .done (m.apply_over (Grammar.pure_over none) ha)
  | .joined j first second, hr, names, hnames => by
    refine .next (first.build_honest hr.1 names hnames) fun a ha => ?_
    refine .next (second.build_honest hr.2 names hnames) fun b hb => ?_
    exact .done (j.apply_over ha hb)
  | .between body start finish, hr, names, hnames => by
    refine .next (body.build_honest hr.1 names hnames) fun a ha => ?_
    refine .next (start.build_honest hr.2.1 names hnames) fun b hb => ?_
    refine .next (finish.build_honest hr.2.2 names hnames) fun d hd => ?_
    exact .done ⟨hb, fun _ => ⟨ha, fun _ => hd⟩⟩
  | .andThen body next, hr, names, hnames | .chained body next, hr, names, hnames => by
    refine .next (body.build_honest hr.1 names hnames) fun a ha => ?_
    refine .next (next.build_honest hr.2 names hnames) fun k hk => ?_
    exact .done ⟨ha, hk⟩
  | .rule name, _, _, _ => .done trivial
  | .recursive _ body, hr, _, hnames =>
    .recursive Kind.honest_cell hnames (body.build_honest hr)
  | .named name, _, _, hnames => .named hnames name

theorem Continuation.build_honest : (next : Continuation) → next.Honest → (names : Names) →
    names.All Kind.honest →
    Build.Gives Kind.honest (fun k => ∀ v, (k.next v).Honest) (next.build names)
  | .same, _, _, _ => .done fun v => Grammar.chars_over v.chars
  | .close, _, _, _ => .done fun v => Markup.closeElement_over (String.ofList v.chars)
  | .keep, _, _, _ => .done fun _ => Grammar.pure_over ()
  | .count body, hr, names, hnames | .always body, hr, names, hnames => by
    refine .next (body.build_honest hr names hnames) fun b hb => ?_
    exact .done fun _ => hb
  | .cases table otherwise, hr, names, hnames => by
    refine .next (Recipe.buildTable_honest table hr.1 names hnames) fun cases hcases => ?_
    refine .next (otherwise.build_honest hr.2 names hnames) fun b hb => ?_
    exact .done (chooseCase_honest hcases hb)

theorem Recipe.buildTable_honest : (table : List (String × Recipe)) →
    Recipe.HonestTable table → (names : Names) → names.All Kind.honest →
    Build.Gives Kind.honest (Names.All Kind.honest) (Recipe.buildTable names table)
  | [], _, _, _ => .done (List.forall_mem_nil _)
  | (_, body) :: table, hr, names, hnames => by
    refine .next (body.build_honest hr.1 names hnames) fun b hb => ?_
    refine .next (Recipe.buildTable_honest table hr.2 names hnames) fun cases hcases => ?_
    exact .done (List.forall_mem_cons.2 ⟨hb, hcases⟩)

end

end Descent
