/-
  Descent.Failure

  How a parse can end without a value.  A failure is an ordinary outcome and names the rest of the
  input at which parsing gave up; choice and repetition take it up.  Misuse is no outcome of a
  grammar: a recursive parser was used or defined against its rules, or the bytes that a parser
  took were to be counted and it left more than it was given.  Then the whole run is given up.
-/
import Descent.Input
import Descent.Text.Quoted

namespace Descent

/-- Parsing gave up with this much of the input left. -/
@[ext] structure Failure where
  rest : Input
deriving DecidableEq

namespace Failure

/-- The input was used up when parsing gave up. -/
def isAtEnd (e : Failure) : Bool := e.rest.isEmpty

/-- The offset in bytes of the failure in a source that ends with its rest. -/
def offsetIn (e : Failure) (source : Input) : Option Nat := e.rest.offsetIn source

/-- The most characters of the rest that a message shows. -/
def shownLength : Nat := 24

/-- The message as characters: it quotes the rest, cut in front of the first character that is too
    many, and dots behind the closing quote tell that it was cut. -/
def messageChars (e : Failure) : List Char :=
  if e.isAtEnd then
    "parse failed at end of input".toList
  else
    match e.rest.splitBefore? shownLength with
    | some (shown, _) => "parse failed at ".toList ++ Text.quote shown ++ "...".toList
    | none => "parse failed at ".toList ++ Text.quote e.rest.chars

/-- What a failure says of itself. -/
def message (e : Failure) : String := String.ofList e.messageChars

-- Twenty-four characters are shown as they are; of twenty-five the last is cut off.
example : messageChars ⟨.ofString "</b>"⟩ = "parse failed at \"</b>\"".toList := by decide
example : messageChars ⟨.ofString "abcdefghijklmnopqrstuvwx"⟩ =
    "parse failed at \"abcdefghijklmnopqrstuvwx\"".toList := by decide
example : messageChars ⟨.ofString "abcdefghijklmnopqrstuvwxy"⟩ =
    "parse failed at \"abcdefghijklmnopqrstuvwx\"...".toList := by decide

end Failure

/-- The reasons for which a run is given up. -/
inductive Misuse where
  /-- A recursive parser was run before it had a definition. -/
  | undefined
  /-- A recursive parser was given a second definition. -/
  | redefined
  /-- A recursive parser was used through a handle when nothing that owns it was left. -/
  | orphaned
  /-- There is no parser of this name. -/
  | unbound (name : String)
  /-- A parser left more than it was given, where the bytes that it took were to be counted. -/
  | overrun
deriving DecidableEq

/-- What a misuse says of itself. -/
def Misuse.message : Misuse → String
  | .undefined => "recursive parser used before being defined"
  | .redefined => "recursive parser already defined"
  | .orphaned => "recursive parser used after its owner was dropped"
  | .unbound name => "no parser is named " ++ name
  | .overrun => "attempt to subtract with overflow"

end Descent
