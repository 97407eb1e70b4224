/-
  Descent.Lexical

  Grammars for the small pieces of text that most languages share: blanks, identifiers, and text
  between two delimiters.
-/
import Descent.Grammar.Forms
import Descent.Text.Blank

namespace Descent.Lexical

variable {N : Type → Type}

/-- One blank character. -/
def blank : Grammar N Char := .satisfying Text.isBlank

/-- Any number of blanks. -/
def blanks : Grammar N (List Char) := blank.repeated Bounds.free

/-- At least one blank. -/
def someBlanks : Grammar N (List Char) := blank.repeated (Bounds.free.atLeast 1)

/-- At least one ASCII letter or digit. -/
def identifier : Grammar N String :=
  ((Grammar.satisfying Char.isAlphanum).repeated (Bounds.free.atLeast 1)).text

/-- The text between an opening and a closing delimiter.  Neither of them may occur inside. -/
def textBetween (start finish : Char) : Grammar N String :=
  (((Grammar.satisfying (· = start)).skipThen
    ((Grammar.satisfying fun c => c ≠ start && c ≠ finish).repeated Bounds.free).text).thenSkip
      (Grammar.satisfying (· = finish)))

/-- Text in double quotes. -/
def quotedText : Grammar N String := textBetween '"' '"'

end Descent.Lexical
