/-
  Descent.Grammar

  Grammars as data, and the parsers they describe.  A grammar for values of type `α` is built from
  single steps by mapping, filtering, sequencing, choice and repetition.  Where a grammar refers to
  another one, or to itself, it holds a symbol, and a rulebook says what symbols stand for.  So a
  grammar is always a finite tree, and recursion happens only when a symbol is looked up while a
  parser runs.

  The names that carry a value onwards, such as `both` and `between`, are in `Grammar.Forms`.
-/
import Descent.Parser.Repetition

namespace Descent

/-- Ways of holding a parser that do not change what it does. -/
inductive Wrapper where
  /-- Behind one type for all parsers of its kind of value. -/
  | boxed
  /-- Referred to where it is. -/
  | referred
  /-- Held by its only user. -/
  | held
  /-- Held by several users. -/
  | shared
  /-- The first of two kinds of parser. -/
  | inLeft
  /-- The second of two kinds of parser. -/
  | inRight
deriving DecidableEq

/-- A grammar for values, with symbols from the family `N`. -/
inductive Grammar (N : Type → Type) : Type → Type 1 where
  /-- A single step that looks at the input alone. -/
  | leaf {α : Type} (step : Input → Except Failure (Input × α)) : Grammar N α
  /-- Change the value. -/
  | map {α β : Type} (f : α → β) (g : Grammar N α) : Grammar N β
  /-- Refuse a value. -/
  | filter {α : Type} (keep : α → Bool) (g : Grammar N α) : Grammar N α
  /-- Go on as the value says. -/
  | andThen {α β : Type} (g : Grammar N α) (next : α → Grammar N β) : Grammar N β
  /-- The first, and where it fails the second on the same input. -/
  | or {α : Type} (g h : Grammar N α) : Grammar N α
  /-- Again and again. -/
  | repeated {α : Type} (b : Bounds) (g : Grammar N α) : Grammar N (List α)
  /-- Report an event. -/
  | marked {α : Type} (label : String) (g : Grammar N α) : Grammar N α
  /-- Held in some way. -/
  | wrapped {α : Type} (w : Wrapper) (g : Grammar N α) : Grammar N α
  /-- Collect a trace and give it with the value. -/
  | traced {α : Type} (g : Grammar N α) : Grammar N (α × Trace)
  /-- What the rulebook says. -/
  | symbol {α : Type} (n : N α) : Grammar N α

/-- What symbols stand for.  Looking one up may change what later symbols stand for inside the
    grammar that was found, but nowhere else; it may also be a misuse. -/
structure Rulebook (N : Type → Type) (σ : Type 1) where
  resolve : {α : Type} → σ → N α → Except Misuse (Grammar N α × σ)

/-- How far a run may go before it ends without an answer. -/
structure Limits where
  /-- The attempts that each repetition may make. -/
  attempts : Nat
  /-- How deep symbols may be nested. -/
  nesting : Nat

/-- The parser that a grammar describes, where `call` runs the symbols and each repetition makes
    at most the given number of attempts. -/
def Grammar.eval {N : Type → Type} (attempts : Nat) (call : {α : Type} → N α → Parser α) :
    {α : Type} → Grammar N α → Parser α
  | _, .leaf step, inp, scopes => Parser.read step inp scopes
  | _, .map f g, inp, scopes => Parser.map f (g.eval attempts call) inp scopes
  | _, .filter keep g, inp, scopes => Parser.filter keep (g.eval attempts call) inp scopes
  | _, .andThen g next, inp, scopes =>
    Parser.andThen (g.eval attempts call) (fun value => (next value).eval attempts call) inp scopes
  | _, .or g h, inp, scopes => Parser.or (g.eval attempts call) (h.eval attempts call) inp scopes
  | _, .repeated b g, inp, scopes => Parser.repeated attempts b (g.eval attempts call) inp scopes
  | _, .marked label g, inp, scopes => Parser.marked label (g.eval attempts call) inp scopes
  | _, .wrapped _ g, inp, scopes => g.eval attempts call inp scopes
  | _, .traced g, inp, scopes => Parser.traced (g.eval attempts call) inp scopes
  | _, .symbol n, inp, scopes => call n inp scopes

namespace Rulebook

variable {N : Type → Type} {σ : Type 1}

/-- Run a symbol: look it up and run the grammar found, which may nest symbols one level less
    deep. -/
def call (book : Rulebook N σ) (attempts : Nat) : Nat → σ → {α : Type} → N α → Parser α
  | 0, _, _, _, _, _ => none
  | nesting + 1, state, _, n, inp, scopes =>
    match book.resolve state n with
    | .error m => Parser.abort m inp scopes
    | .ok (g, state) =>
      g.eval attempts (fun n => book.call attempts nesting state n) inp scopes

/-- The parser that a grammar describes under a rulebook, within limits. -/
def parser (book : Rulebook N σ) (limits : Limits) (state : σ) {α : Type} (g : Grammar N α) :
    Parser α :=
  g.eval limits.attempts fun n => book.call limits.attempts limits.nesting state n

end Rulebook

end Descent
