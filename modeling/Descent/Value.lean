/-
  Descent.Value

  Values of many kinds in one type, for grammars that are described as data and so cannot have a
  type each.  A character is a text of one character.  Integers are 64 bits wide and wrap around.

  What a value contains, be it text or integers, is put in front of what follows the value, so
  that collecting it takes no longer for values that are nested.
-/
import Descent.Input
import Descent.Markup.Element
import Descent.Trace

namespace Descent

/-- A value of any kind. -/
inductive Value where
  | unit
  | bool (b : Bool)
  | int (n : Int64)
  | text (s : String)
  | list (items : List Value)
  | pair (first second : Value)
  | absent
  | present (v : Value)
  | element (e : Markup.Element)
  | trace (t : Trace)

namespace Value

/-! ## Text -/

/-- An integer in decimal, with a minus sign in front of a negative one. -/
def decimal (n : Int) : List Char :=
  if n < 0 then '-' :: Nat.toDigits 10 n.natAbs else Nat.toDigits 10 n.natAbs

mutual

/-- The text of a value, with other characters behind it: texts, integers and elements as they are
    written, and the parts of lists, pairs and present values one behind the other.  Everything
    else has no text. -/
def prependChars : Value → List Char → List Char
  | .text s, after => s.toList ++ after
  | .int n, after => decimal n.toInt ++ after
  | .element e, after => e.prependChars after
  | .list items, after => prependCharsList items after
  | .pair first second, after => first.prependChars (second.prependChars after)
  | .present v, after => v.prependChars after
  | .unit, after | .bool _, after | .absent, after | .trace _, after => after

/-- The texts of values one behind the other, with other characters behind them. -/
def prependCharsList : List Value → List Char → List Char
  | [], after => after
  | v :: vs, after => v.prependChars (prependCharsList vs after)

end

/-- The text of a value. -/
def chars (v : Value) : List Char := v.prependChars []

/-- The texts of values one behind the other. -/
def charsList (vs : List Value) : List Char := prependCharsList vs []

mutual

theorem prependChars_append : (v : Value) → (cs after : List Char) →
    v.prependChars (cs ++ after) = v.prependChars cs ++ after
  | .text s, cs, after => by simp only [prependChars, List.append_assoc]
  | .int n, cs, after => by simp only [prependChars, List.append_assoc]
  | .element e, cs, after => e.prependChars_append cs after
  | .list items, cs, after => prependCharsList_append items cs after
  | .pair first second, cs, after => by
    simp only [prependChars, prependChars_append second, prependChars_append first]
  | .present v, cs, after => prependChars_append v cs after
  | .unit, _, _ | .bool _, _, _ | .absent, _, _ | .trace _, _, _ => rfl

theorem prependCharsList_append : (vs : List Value) → (cs after : List Char) →
    prependCharsList vs (cs ++ after) = prependCharsList vs cs ++ after
  | [], _, _ => rfl
  | v :: vs, cs, after => by
    simp only [prependCharsList, prependCharsList_append vs, prependChars_append v]

end

@[simp] theorem chars_text (s : String) : (Value.text s).chars = s.toList := by
  simp only [chars, prependChars, List.append_nil]

@[simp] theorem chars_int (n : Int64) : (Value.int n).chars = decimal n.toInt := by
  simp only [chars, prependChars, List.append_nil]

@[simp] theorem chars_element (e : Markup.Element) : (Value.element e).chars = e.chars := rfl

@[simp] theorem chars_list (items : List Value) : (Value.list items).chars = charsList items := rfl

@[simp] theorem chars_pair (first second : Value) :
    (Value.pair first second).chars = first.chars ++ second.chars :=
  prependChars_append first [] second.chars

@[simp] theorem chars_present (v : Value) : (Value.present v).chars = v.chars := rfl

@[simp] theorem charsList_nil : charsList [] = [] := rfl

@[simp] theorem charsList_cons (v : Value) (vs : List Value) :
    charsList (v :: vs) = v.chars ++ charsList vs :=
  prependChars_append v [] (charsList vs)

/-! ## Extent -/

mutual

/-- The bytes of the text of a value. -/
def textSize : Value → Nat
  | .text s => s.utf8ByteSize
  | .int n => utf8Length (decimal n.toInt)
  | .element e => utf8Length e.chars
  | .list items => textSizeList items
  | .pair first second => first.textSize + second.textSize
  | .present v => v.textSize
  | .unit | .bool _ | .absent | .trace _ => 0

def textSizeList : List Value → Nat
  | [] => 0
  | v :: vs => v.textSize + textSizeList vs

end

mutual

theorem textSize_eq : (v : Value) → v.textSize = utf8Length v.chars
  | .text s => by simp only [textSize, chars_text, utf8ByteSize_eq]
  | .int n => by simp only [textSize, chars_int]
  | .element _ => rfl
  | .list items => textSizeList_eq items
  | .pair first second => by
    simp only [textSize, chars_pair, utf8Length_append, textSize_eq first, textSize_eq second]
  | .present v => textSize_eq v
  | .unit | .bool _ | .absent | .trace _ => rfl

theorem textSizeList_eq : (vs : List Value) → textSizeList vs = utf8Length (charsList vs)
  | [] => rfl
  | v :: vs => by
    simp only [textSizeList, charsList_cons, utf8Length_append, textSize_eq v, textSizeList_eq vs]

end

mutual

/-- The number of nodes of a value: itself and those of its parts.  The parts of an element are
    its children. -/
def nodes : Value → Nat
  | .list items => 1 + nodesList items
  | .pair first second => 1 + first.nodes + second.nodes
  | .present v => 1 + v.nodes
  | .element e => e.count
  | .unit | .bool _ | .int _ | .text _ | .absent | .trace _ => 1

def nodesList : List Value → Nat
  | [] => 0
  | v :: vs => v.nodes + nodesList vs

end

mutual

/-- How deep the parts of a value are nested; a value without parts has depth one. -/
def depth : Value → Nat
  | .list items => 1 + depthList items
  | .pair first second => 1 + max first.depth second.depth
  | .present v => 1 + v.depth
  | .element e => e.depth
  | .unit | .bool _ | .int _ | .text _ | .absent | .trace _ => 1

def depthList : List Value → Nat
  | [] => 0
  | v :: vs => max v.depth (depthList vs)

end

/-! ## Parts -/

/-- The items of a list, none or one for an option, and for any other value itself. -/
def items : Value → List Value
  | .list vs => vs
  | .absent => []
  | .present v => [v]
  | v => [v]

mutual

/-- The integers inside lists, pairs and present values, or a value that is one, in order, with
    other integers behind them. -/
def prependIntegers : Value → List Int64 → List Int64
  | .int n, after => n :: after
  | .list items, after => prependIntegersList items after
  | .pair first second, after => first.prependIntegers (second.prependIntegers after)
  | .present v, after => v.prependIntegers after
  | .unit, after | .bool _, after | .text _, after | .absent, after | .element _, after
  | .trace _, after => after

def prependIntegersList : List Value → List Int64 → List Int64
  | [], after => after
  | v :: vs, after => v.prependIntegers (prependIntegersList vs after)

end

/-- The integers in a value, in order. -/
def integers (v : Value) : List Int64 := v.prependIntegers []

/-! ## Making values -/

def ofChar (c : Char) : Value := .text (String.singleton c)

def ofChars (cs : List Char) : Value := .list (cs.map ofChar)

def ofOption : Option Value → Value
  | none => .absent
  | some v => .present v

def ofAttribute (a : String × String) : Value := .pair (.text a.1) (.text a.2)

def ofAttributes (as : List (String × String)) : Value := .list (as.map ofAttribute)

def ofTag (tag : String × List (String × String)) : Value :=
  .pair (.text tag.1) (ofAttributes tag.2)

def ofElements (es : List Markup.Element) : Value := .list (es.map .element)

end Value

end Descent
