/-
  Descent.Recipe

  Grammars described as data: what to build, in terms of ready-made pieces, the combinations of
  `Grammar.Forms` under their names, rules to be looked up while a parser runs, and recursive
  parsers.  Functions are named instead of given, and what follows a value is a continuation of
  one of a few kinds.
-/
import Descent.Grammar.Forms
import Descent.Value.Function

namespace Descent

/-- A ready-made grammar. -/
inductive Piece where
  | literal (s : String)
  | char (c : Char)
  | any
  | atEnd
  | empty
  /-- Exactly this many bytes, as text. -/
  | bytes (n : Nat)
  /-- An ASCII digit, as an integer. -/
  | digit
  /-- Everything that is left, as text. -/
  | everything
  /-- Everything that is left, as text, without consuming it. -/
  | preview
  /-- Always fail, with this rest whatever the input is. -/
  | failing (rest : Input)
  /-- Always succeed and leave this rest whatever the input is. -/
  | leaving (rest : Input)
  | blank
  | blanks
  | someBlanks
  | identifier
  | quotedText
  | textBetween (start finish : Char)
  | attributePair
  | attributes
  | elementStart
  | openElement
  | singleElement
  | parentElement
  | element
  | closeElement (name : String)
  | document

/-- What the parts of a value are collected into. -/
inductive Collection where
  /-- A list of the parts. -/
  | list
  /-- The texts of the parts, one behind the other. -/
  | text
deriving DecidableEq

/-- A change to one grammar. -/
inductive Modifier where
  | map (f : Value.Function)
  | constant (v : Value)
  | ignored
  | collect (c : Collection)
  | filter (c : Value.Condition)
  | optional
  | repeated (b : Bounds)
  | wrapped (w : Wrapper)
  | marked (label : String)
  | traced
  | mapped (f : Value.Function)
  | accepted (c : Value.Condition)
  | zeroOrMore
  | oneOrMore

/-- A combination of two grammars. -/
inductive Joint where
  | both
  | skipThen
  | thenSkip
  | or
  | pair
  | right
  | left
  | either
deriving DecidableEq

mutual

/-- A described grammar. -/
inductive Recipe where
  | piece (p : Piece)
  | modified (m : Modifier) (body : Recipe)
  | joined (j : Joint) (first second : Recipe)
  | between (body start finish : Recipe)
  | andThen (body : Recipe) (next : Continuation)
  | chained (body : Recipe) (next : Continuation)
  /-- The rule of this name, built anew whenever it is run. -/
  | rule (name : String)
  /-- A recursive parser, which the body can use under the name. -/
  | recursive (name : String) (body : Recipe)
  /-- What the name stands for where the recipe is built. -/
  | named (name : String)

/-- What follows a value. -/
inductive Continuation where
  /-- The text of the value once more. -/
  | same
  /-- The closing tag for the text of the value. -/
  | close
  /-- Nothing; the value stays. -/
  | keep
  /-- As often as the text of the value says. -/
  | count (body : Recipe)
  /-- The same whatever the value is. -/
  | always (body : Recipe)
  /-- The first case for the text of the value, or the last recipe if there is none. -/
  | cases (table : List (String × Recipe)) (otherwise : Recipe)

end

end Descent
