/-
  Descent.Recipe.Build

  From a description to a grammar.  Building looks up the names that a description uses, so what a
  name stands for later has no influence, and declares and defines a cell for each recursive
  parser in it.  The cell is owned where the recursive parser stands; inside its body the name is
  a handle.  What a grammar owns is what its parts own, the grammars kept for continuations
  included.
-/
import Descent.Recipe.Piece

namespace Descent

/-- A step of building: it may declare and define cells, and it may meet a name that stands for
    nothing. -/
abbrev Build (α : Type 1) : Type 1 := Store → Except Misuse (α × Store)

namespace Build

variable {α β : Type 1}

/-- Build nothing new. -/
def done (a : α) : Build α := fun store => .ok (a, store)

/-- Build one thing, then another from it. -/
def next (build : Build α) (f : α → Build β) : Build β := fun store =>
  match build store with
  | .error m => .error m
  | .ok (a, store) => f a store

end Build

/-! ## Values and functions named by descriptions -/

/-- Collect the parts of a value. -/
def Collection.apply : Collection → Value → Value
  | .list, v => .list v.items
  | .text, v => .text (String.ofList (Value.charsList v.items))

/-- Change a grammar as a modifier says. -/
def Modifier.apply {N : Type → Type} : Modifier → Grammar N Value → Grammar N Value
  | .map f, g => g.map f.apply
  | .constant v, g => g.constant v
  | .ignored, g => g.ignored.map fun _ => .unit
  | .collect c, g => g.map c.apply
  | .filter c, g => g.filter c.holds
  | .optional, g => g.optional.map .ofOption
  | .repeated b, g => (g.repeated b).map .list
  | .wrapped w, g => g.wrapped w
  | .marked label, g => g.marked label
  | .traced, g => g.traced.map fun (v, trace) => .list [v, .trace trace]
  | .mapped f, g => g.mapped f.apply
  | .accepted c, g => g.accepted c.holds
  | .zeroOrMore, g => g.zeroOrMore.map .list
  | .oneOrMore, g => g.oneOrMore.map .list

/-- Put two values together. -/
def Value.ofPair (p : Value × Value) : Value := .pair p.1 p.2

/-- Combine two grammars as a joint says. -/
def Joint.apply {N : Type → Type} : Joint → Grammar N Value → Grammar N Value → Grammar N Value
  | .both, g, h => (g.both h).map .ofPair
  | .skipThen, g, h => g.skipThen h
  | .thenSkip, g, h => g.thenSkip h
  | .or, g, h => g.or h
  | .pair, g, h => (Grammar.pair g h).map .ofPair
  | .right, g, h => Grammar.right g h
  | .left, g, h => Grammar.left g h
  | .either, g, h => Grammar.either g h

/-- The number that the text of a value stands for; zero if it is no number. -/
def Value.count (v : Value) : Nat := (Value.digits? v.chars).getD 0

/-! ## Building -/

/-- What names stand for. -/
abbrev Names := List (String × Built)

/-- A continuation that is ready to run, with the cells that the grammars kept for it own. -/
structure BuiltContinuation where
  next : Value → Grammar Symbol Value
  owned : List CellId

/-- The grammar of the first case for a text, or the one for all other texts. -/
def chooseCase (table : List (String × Built)) (otherwise : Built) (v : Value) :
    Grammar Symbol Value :=
  ((table.lookup (String.ofList v.chars)).getD otherwise).grammar

mutual

/-- Build a described grammar. -/
def Recipe.build (names : Names) : Recipe → Build Built
  | .piece p => .done ⟨p.grammar, []⟩
  | .modified m body => (body.build names).next fun b =>
    .done ⟨m.apply b.grammar, b.owned⟩
  | .joined j first second => (first.build names).next fun a => (second.build names).next fun b =>
    .done ⟨j.apply a.grammar b.grammar, joinCells a.owned b.owned⟩
  | .between body start finish => (body.build names).next fun b =>
    (start.build names).next fun s => (finish.build names).next fun f =>
      .done ⟨b.grammar.between s.grammar f.grammar,
        joinCells (joinCells b.owned s.owned) f.owned⟩
  | .andThen body next => (body.build names).next fun b => (next.build names).next fun k =>
    .done ⟨b.grammar.andThen k.next, joinCells b.owned k.owned⟩
  | .chained body next => (body.build names).next fun b => (next.build names).next fun k =>
    .done ⟨b.grammar.chained k.next, joinCells b.owned k.owned⟩
  | .rule name => .done ⟨.symbol (.rule name), []⟩
  | .recursive name body => fun store =>
    let c := store.next
    -- Inside the body the name is a handle, whatever it stood for outside.
    (body.build ((name, (Reference.handle c).built) :: names)).next
      (fun b store => .ok ((Reference.owner c).built, store.write c b)) store.declare
  | .named name => fun store =>
    match names.lookup name with
    | some b => .ok (b, store)
    | none => .error (.unbound name)

/-- Build what follows a value. -/
def Continuation.build (names : Names) : Continuation → Build BuiltContinuation
  | .same => .done ⟨fun v => (Grammar.chars v.chars).map fun cs => .text (String.ofList cs), []⟩
  | .close =>
    .done ⟨fun v => (Markup.closeElement (String.ofList v.chars)).map .text, []⟩
  | .keep => .done ⟨fun v => Grammar.empty.constant v, []⟩
  | .count body => (body.build names).next fun b =>
    .done ⟨fun v => (b.grammar.repeated (Bounds.free.exactly v.count)).map .list, b.owned⟩
  | .always body => (body.build names).next fun b => .done ⟨fun _ => b.grammar, b.owned⟩
  | .cases table otherwise => (Recipe.buildTable names table).next fun cases =>
    (otherwise.build names).next fun b =>
      .done ⟨chooseCase cases b,
        cases.foldr (fun entry owned => joinCells entry.2.owned owned) b.owned⟩

/-- Build the recipes of a table. -/
def Recipe.buildTable (names : Names) : List (String × Recipe) → Build (List (String × Built))
  | [] => .done []
  | (key, body) :: table => (body.build names).next fun b =>
    (Recipe.buildTable names table).next fun cases => .done ((key, b) :: cases)

end

/-! ## Running -/

/-- Named rules. -/
abbrev Rules := List (String × Recipe)

/-- What the symbols of built grammars stand for.  A rule sees no names but other rules, and the
    cells declared when it is built exist for this one run of it. -/
def Rules.rulebook (rules : Rules) : Rulebook Symbol Store where
  resolve := fun
    | store, .element => .ok (Markup.element .element, store)
    | store, .rule name =>
      match rules.lookup name with
      | none => .error (.unbound name)
      | some recipe =>
        match recipe.build [] store with
        | .error m => .error m
        | .ok (b, store) => .ok (b.grammar, store)
    | store, .cell r =>
      match store.resolve r with
      | .error m => .error m
      | .ok b => .ok (b.grammar, store)

/-- The parser that a built grammar describes, within limits. -/
def Built.parser (b : Built) (rules : Rules) (limits : Limits) (store : Store) : Parser Value :=
  rules.rulebook.parser limits store b.grammar

end Descent
