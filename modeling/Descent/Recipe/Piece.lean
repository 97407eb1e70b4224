/-
  Descent.Recipe.Piece

  The grammars behind the ready-made pieces, with their values turned into values of the one type
  that described grammars have.
-/
import Descent.Markup.Language
import Descent.Recipe
import Descent.Store

namespace Descent

/-! ## Single steps on the input as a whole -/

/-- Exactly the given number of bytes.  Fails where the input is shorter or the cut would be
    inside a character. -/
def takeBytes (n : Nat) (inp : Input) : Except Failure (Input × Value) :=
  match inp.split? n with
  | some (front, rest) => .ok (rest, .text (String.ofList front))
  | none => .error ⟨inp⟩

/-- An ASCII digit, with its value. -/
def takeDigit (inp : Input) : Except Failure (Input × Value) :=
  match inp.next? with
  | some (c, rest) =>
    if c.isDigit then .ok (rest, .int (Int64.ofNat (c.toNat - '0'.toNat))) else .error ⟨inp⟩
  | none => .error ⟨inp⟩

/-- All that is left. -/
def takeAll (inp : Input) : Except Failure (Input × Value) :=
  .ok (.ofChars [], .text inp.toString)

/-- All that is left, without consuming it. -/
def lookAtAll (inp : Input) : Except Failure (Input × Value) :=
  .ok (inp, .text inp.toString)

/-! ## Pieces -/

/-- The grammar behind a piece. -/
def Piece.grammar : Piece → Grammar Symbol Value
  | .literal s => (Grammar.literal s).map .text
  | .char c => (Grammar.char c).map .ofChar
  | .any => Grammar.any.map .ofChar
  | .atEnd => Grammar.atEnd.map fun _ => .unit
  | .empty => Grammar.empty.map fun _ => .unit
  | .bytes n => .leaf (takeBytes n)
  | .digit => .leaf takeDigit
  | .everything => .leaf takeAll
  | .preview => .leaf lookAtAll
  | .failing rest => .leaf fun _ => .error ⟨rest⟩
  | .leaving rest => .leaf fun _ => .ok (rest, .unit)
  | .blank => Lexical.blank.map .ofChar
  | .blanks => Lexical.blanks.map .ofChars
  | .someBlanks => Lexical.someBlanks.map .ofChars
  | .identifier => Lexical.identifier.map .text
  | .quotedText => Lexical.quotedText.map .text
  | .textBetween start finish => (Lexical.textBetween start finish).map .text
  | .attributePair => Markup.attributePair.map .ofAttribute
  | .attributes => Markup.attributes.map .ofAttributes
  | .elementStart => Markup.elementStart.map .ofTag
  | .openElement => Markup.openElement.map .ofTag
  | .singleElement => Markup.singleElement.map .element
  | .parentElement => (Markup.parentElement Symbol.element).map .element
  | .element => (Markup.element Symbol.element).map .element
  | .closeElement name => (Markup.closeElement name).map .text
  | .document => (Markup.document Symbol.element).map .ofElements

end Descent
