/-
  Descent.Markup.Language

  The grammar of the markup language.

    element  ::=  '<' name attribute* '/>'  |  '<' name attribute* '>' element* '</' name '>'
    attribute ::=  blank+ key '=' '"' value '"'
    document ::=  blank* (element blank*)*

  A closing tag has to repeat the name of the tag it closes.  Blanks are free between the elements
  of a document but not between the children of an element.  Elements contain elements, so the
  grammar of an element refers to itself through a symbol, `self`; whoever runs it says what the
  symbol stands for.
-/
import Descent.Lexical
import Descent.Markup.Element

namespace Descent.Markup

variable {N : Type → Type}

/-! ## Tags -/

/-- A key and a value in double quotes. -/
def attributePair : Grammar N (String × String) :=
  (Lexical.identifier.thenSkip (.char '=')).both Lexical.quotedText

/-- Attributes, each with blanks in front. -/
def attributes : Grammar N (List (String × String)) :=
  (Lexical.someBlanks.skipThen attributePair).repeated Bounds.free

/-- What every opening tag begins with: a name and attributes. -/
def elementStart : Grammar N (String × List (String × String)) :=
  (Grammar.char '<').skipThen (Lexical.identifier.both attributes)

/-- A tag that closes itself, which is a whole element. -/
def singleElement : Grammar N Element :=
  (elementStart.thenSkip (.literal "/>")).map fun (name, attributes) => ⟨name, attributes, []⟩

/-- A tag that opens an element. -/
def openElement : Grammar N (String × List (String × String)) :=
  elementStart.thenSkip (.char '>')

/-- The tag that closes an element of the given name.  One with another name fails at its own
    beginning. -/
def closeElement (name : String) : Grammar N String :=
  (((Grammar.literal "</").skipThen Lexical.identifier).thenSkip (.char '>')).filter (· = name)

/-! ## Elements -/

/-- An element with separate opening and closing tags. -/
def parentElement (self : N Element) : Grammar N Element :=
  openElement.andThen fun (name, attributes) =>
    (((Grammar.symbol self).repeated Bounds.free).both
      ((closeElement name).marked "close_element")).map fun (children, name) =>
        ⟨name, attributes, children⟩

/-- An element of either form. -/
def element (self : N Element) : Grammar N Element :=
  ((singleElement.or (parentElement self)).marked "element").wrapped .boxed

/-- Elements up to the end of the input. -/
def document (self : N Element) : Grammar N (List Element) :=
  (((element self).thenSkip Lexical.blanks).repeated Bounds.free).between Lexical.blanks .atEnd

/-! ## Running

Each attempt of a repetition but the last consumes something, and an element inside another is at
least three bytes shorter than it, so the length of the input limits both. -/

/-- The one symbol of the language by itself. -/
inductive Symbol : Type → Type where
  | element : Symbol Element

/-- Its symbol stands for an element. -/
def rulebook : Rulebook Symbol PUnit.{2} where
  resolve := fun
    | state, .element => .ok (Markup.element .element, state)

/-- All the attempts and nesting that an input of the given length can need. -/
def limitsFor (size : Nat) : Limits := ⟨size + 1, size / 3 + 1⟩

/-- The parser that a grammar of the language describes. -/
def parser {α : Type} (g : Grammar Symbol α) : Parser α := fun inp =>
  rulebook.parser (limitsFor inp.size) ⟨⟩ g inp

end Descent.Markup
