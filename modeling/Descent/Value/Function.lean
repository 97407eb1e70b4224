/-
  Descent.Value.Function

  The functions and conditions on values that a described grammar can name.  A function that is
  given a value of a kind it has nothing to do with gives the value back unchanged.
-/
import Descent.Value

namespace Descent.Value

/-! ## Digits -/

/-- The number that a text of ASCII digits stands for, if it is one and not empty. -/
def digits? (cs : List Char) : Option Nat :=
  if !cs.isEmpty && cs.all Char.isDigit then
    some (cs.foldl (fun n c => 10 * n + (c.toNat - '0'.toNat)) 0)
  else
    none

/-- The greatest integer of 64 bits. -/
def greatestInt : Nat := 9223372036854775807

/-- The integer that a text of ASCII digits stands for, if it fits. -/
def int? (cs : List Char) : Option Int64 :=
  (digits? cs).bind fun n => if n ≤ greatestInt then some (Int64.ofNat n) else none

/-! ## Functions -/

/-- A function on values. -/
inductive Function where
  | identity
  /-- Raise the ASCII letters of a text. -/
  | upper
  /-- The bytes of a text, the items of a list. -/
  | length
  /-- The text of a value. -/
  | concat
  /-- The integer that the text of a value is. -/
  | int
  /-- One more than an integer. -/
  | succ
  | sum
  | product
  | swap
  | first
  | second
  /-- The first of a pair in front of the list that is the second. -/
  | cons
  /-- A list of only this value. -/
  | wrap
  /-- What is present, or the unit. -/
  | unwrap
  | depth
  /-- The first attribute of an element with this key. -/
  | attribute (key : String)
deriving DecidableEq

/-- Apply a function to a value. -/
def Function.apply : Function → Value → Value
  | .identity, v => v
  | .upper, .text s => .text (String.ofList (s.toList.map Char.toUpper))
  | .upper, v => v
  | .length, .text s => .int (Int64.ofNat s.utf8ByteSize)
  | .length, .list items => .int (Int64.ofNat items.length)
  | .length, v => v
  | .concat, v => .text (String.ofList v.chars)
  | .int, v => ((int? v.chars).map Value.int).getD v
  | .succ, .int n => .int (n + 1)
  | .succ, v => v
  | .sum, v => .int (v.integers.foldl (· + ·) 0)
  | .product, v => .int (v.integers.foldl (· * ·) 1)
  | .swap, .pair a b => .pair b a
  | .swap, v => v
  | .first, .pair a _ => a
  | .first, v => v
  | .second, .pair _ b => b
  | .second, v => v
  | .cons, .pair a (.list items) => .list (a :: items)
  | .cons, v => v
  | .wrap, v => .list [v]
  | .unwrap, .present v => v
  | .unwrap, .absent => .unit
  | .unwrap, v => v
  | .depth, v => .int (Int64.ofNat v.depth)
  | .attribute key, .element e => .ofOption ((e.attribute? key).map Value.text)
  | .attribute _, v => v

/-! ## Conditions -/

/-- A condition on values.  All but the last one look at the text of the value. -/
inductive Condition where
  | always
  | never
  /-- Nothing but ASCII digits, and not empty. -/
  | digit
  /-- Nothing but ASCII letters, and not empty. -/
  | alpha
  /-- Nothing but lower-case ASCII letters, and not empty. -/
  | lower
  | equal (s : String)
  | unequal (s : String)
  /-- Nothing but characters of the given text, and not empty. -/
  | among (s : String)
  /-- No character of the given text, and not empty. -/
  | outside (s : String)
  /-- At least this many characters. -/
  | longerOrEqual (n : Nat)
  /-- An integer divisible by two. -/
  | even
deriving DecidableEq

/-- Not empty, and every character satisfies the condition. -/
def all (keep : Char → Bool) (v : Value) : Bool :=
  let cs := v.chars
  !cs.isEmpty && cs.all keep

/-- Whether a value satisfies a condition. -/
def Condition.holds : Condition → Value → Bool
  | .always, _ => true
  | .never, _ => false
  | .digit, v => v.all Char.isDigit
  | .alpha, v => v.all Char.isAlpha
  | .lower, v => v.all Char.isLower
  | .equal s, v => v.chars = s.toList
  | .unequal s, v => v.chars ≠ s.toList
  | .among s, v => v.all s.toList.contains
  | .outside s, v => v.all fun c => !s.toList.contains c
  | .longerOrEqual n, v => n ≤ v.chars.length
  | .even, .int n => n.toInt % 2 = 0
  | .even, _ => false

end Descent.Value
