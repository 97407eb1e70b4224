/-
  Descent.Proofs.Covered

  Owners stand where their cells are owned.  What was built comes with the cells that it owns, and
  no owner of another cell stands anywhere in its grammar, in what its continuations give, or in the
  definition of a cell.
-/
import Descent.Proofs.Kinds
import Descent.Proofs.Over

namespace Descent

/-- The symbol keeps no cells alive but the given ones. -/
def Symbol.CoveredBy (owned : List CellId) {α : Type} : Symbol α → Prop
  | .element => True
  | .rule _ => True
  | .cell r => r.owned ⊆ owned

/-- No symbol of the grammar keeps other cells alive. -/
abbrev Grammar.CoveredBy {α : Type} (g : Grammar Symbol α) (owned : List CellId) : Prop :=
  g.Over (fun _ => True) (Symbol.CoveredBy owned)

/-- What keeps no cells alive but those that it owns. -/
def Kind.covered : Kind := fun b => b.grammar.CoveredBy b.owned

variable {owned more : List CellId}

theorem Symbol.CoveredBy.mono {α : Type} {n : Symbol α} (h : n.CoveredBy owned)
    (hsub : owned ⊆ more) : n.CoveredBy more := by
  cases n with
  | element | rule name => trivial
  | cell r => exact List.Subset.trans h hsub

theorem Symbol.IsElement.coveredBy {α : Type} {n : Symbol α} (h : n.IsElement) :
    n.CoveredBy owned := by
  cases n with
  | element => trivial
  | rule name | cell r => exact h.elim

theorem Grammar.CoveredBy.mono {α : Type} {g : Grammar Symbol α} (h : g.CoveredBy owned)
    (hsub : owned ⊆ more) : g.CoveredBy more :=
  Grammar.Over.mono (fun _ _ => trivial) (fun _ hn => hn.mono hsub) h

theorem Piece.grammar_coveredBy (p : Piece) : p.grammar.CoveredBy owned :=
  p.grammar_over.mono (fun _ _ => trivial) fun _ hn => hn.coveredBy

theorem Kind.covered_cell (r : Reference) : Kind.covered r.built := List.Subset.refl r.owned

/-- Whichever case is chosen, its cells are among those of all cases. -/
theorem chooseCase_coveredBy {cases : List (String × Built)}
    (hcases : ∀ entry ∈ cases, Kind.covered entry.2) {b : Built} (hb : Kind.covered b) (v : Value) :
    (chooseCase cases b v).CoveredBy
      (cases.foldr (fun entry owned => joinCells entry.2.owned owned) b.owned) := by
  rw [chooseCase]
  cases hlookup : cases.lookup (String.ofList v.chars) with
  | none => exact Grammar.CoveredBy.mono hb fun c hc => mem_foldr_joinCells.2 (.inr hc)
  | some a =>
    have hentry := mem_of_lookup_eq_some hlookup
    refine Grammar.CoveredBy.mono (hcases _ hentry) fun c hc => mem_foldr_joinCells.2 (.inl ?_)
    exact List.mem_flatMap.2 ⟨_, hentry, hc⟩

-- Along the description; what is put together owns the cells of all its parts.

mutual

/-- What is built keeps no cells alive but those that it owns, and neither does what is defined. -/
theorem Recipe.build_covered : (recipe : Recipe) → recipe.Builds Kind.covered
  | .piece p, _, _ => .done p.grammar_coveredBy
  | .modified m body, names, hnames => by
    refine .next (body.build_covered names hnames) fun b hb => ?_
    exact .done (m.apply_over trivial hb)
  | .joined j first second, names, hnames => by
    refine .next (first.build_covered names hnames) fun a ha => ?_
    refine .next (second.build_covered names hnames) fun b hb => ?_
    refine .done (j.apply_over ?_ ?_)
    · exact Grammar.CoveredBy.mono ha (joinCells_left _ _)
    · exact Grammar.CoveredBy.mono hb (joinCells_right _ _)
  | .between body start finish, names, hnames => by
    refine .next (body.build_covered names hnames) fun b hb => ?_
    refine .next (start.build_covered names hnames) fun s hs => ?_
    refine .next (finish.build_covered names hnames) fun f hf => ?_
    have hleft := joinCells_left (joinCells b.owned s.owned) f.owned
    refine .done ⟨?_, fun _ => ⟨?_, fun _ => ?_⟩⟩
    · exact Grammar.CoveredBy.mono hs fun c hc => hleft (joinCells_right _ _ hc)
    · exact Grammar.CoveredBy.mono hb fun c hc => hleft (joinCells_left _ _ hc)
    · exact Grammar.CoveredBy.mono hf (joinCells_right _ _)
  | .andThen body next, names, hnames | .chained body next, names, hnames => by
    refine .next (body.build_covered names hnames) fun b hb => ?_
    refine .next (next.build_covered names hnames) fun k hk => ?_
    refine .done ⟨Grammar.CoveredBy.mono hb (joinCells_left _ _), fun v => ?_⟩
    exact Grammar.CoveredBy.mono (hk v) (joinCells_right _ _)
  | .rule _, _, _ => .done trivial
  | .recursive _ body, _, hnames => .recursive Kind.covered_cell hnames body.build_covered
  | .named x, _, hnames => .named hnames x

theorem Continuation.build_covered : (next : Continuation) → (names : Names) →
    names.All Kind.covered →
    Build.Gives Kind.covered (fun k => ∀ v, (k.next v).CoveredBy k.owned) (next.build names)
  | .same, _, _ | .keep, _, _ => .done fun _ => trivial
  | .close, _, _ => .done fun v => (Piece.closeElement (String.ofList v.chars)).grammar_coveredBy
  | .count body, names, hnames | .always body, names, hnames =>
    .next (body.build_covered names hnames) fun _ hb => .done fun _ => hb
  | .cases table otherwise, names, hnames => by
    refine .next (Recipe.buildTable_covered table names hnames) fun cases hcases => ?_
    refine .next (otherwise.build_covered names hnames) fun b hb => ?_
    exact .done (chooseCase_coveredBy hcases hb)

theorem Recipe.buildTable_covered : (table : List (String × Recipe)) → (names : Names) →
    names.All Kind.covered →
    Build.Gives Kind.covered (fun cases => ∀ entry ∈ cases, Kind.covered entry.2)
      (Recipe.buildTable names table)
  | [], _, _ => .done (List.forall_mem_nil _)
  | (_, body) :: table, names, hnames => by
    refine .next (body.build_covered names hnames) fun b hb => ?_
    refine .next (Recipe.buildTable_covered table names hnames) fun cases hcases => ?_
    exact .done (List.forall_mem_cons.2 ⟨hb, hcases⟩)

end

theorem Step.builds_covered (step : Step) : step.Builds Kind.covered := by
  cases step with
  | define x recipe | bind x recipe | recursive x handle recipe | run mode recipe inp =>
    exact recipe.build_covered
  | declare | copy | drop => trivial

end Descent
