/-
  Descent.Markup.Element

  Elements of the markup language: a name, attributes in the order in which they were given, and
  the elements inside.  An element without children is written in one tag that closes itself.
  Nothing is escaped when an element is written, so only one whose name, keys and values fit the
  grammar reads back.
-/

namespace Descent.Markup

/-- A named node with attributes and child elements. -/
structure Element where
  name : String
  attributes : List (String × String)
  children : List Element

/-! ## Equality -/

mutual

/-- Elements are compared part by part all the way down. -/
def Element.decEq : (a b : Element) → Decidable (a = b)
  | ⟨n, as, cs⟩, ⟨n', as', cs'⟩ =>
    if h : n = n' ∧ as = as' then
      match Element.decEqList cs cs' with
      | .isTrue hc => .isTrue (by rw [h.1, h.2, hc])
      | .isFalse hc => .isFalse (by simp [hc])
    else
      .isFalse (by simp only [Element.mk.injEq]; exact fun k => h ⟨k.1, k.2.1⟩)

def Element.decEqList : (as bs : List Element) → Decidable (as = bs)
  | [], [] => .isTrue rfl
  | [], _ :: _ => .isFalse (by simp)
  | _ :: _, [] => .isFalse (by simp)
  | a :: as, b :: bs =>
    match Element.decEq a b, Element.decEqList as bs with
    | .isTrue h, .isTrue hs => .isTrue (by rw [h, hs])
    | .isFalse h, _ => .isFalse (by simp [h])
    | _, .isFalse hs => .isFalse (by simp [hs])

end

instance : DecidableEq Element := Element.decEq

namespace Element

/-! ## Building -/

/-- An element that has nothing but a name. -/
def named (name : String) : Element := ⟨name, [], []⟩

/-- Add an attribute behind the others.  A key may occur more than once. -/
def withAttribute (e : Element) (key value : String) : Element :=
  { e with attributes := e.attributes ++ [(key, value)] }

/-- Add a child behind the others. -/
def withChild (e child : Element) : Element :=
  { e with children := e.children ++ [child] }

/-- The value of the first attribute with the given key. -/
def attribute? (e : Element) (key : String) : Option String := e.attributes.lookup key

end Element

/-! ## Extent -/

mutual

/-- The number of elements in an element, itself included. -/
def Element.count : Element → Nat
  | ⟨_, _, children⟩ => 1 + Element.countList children

def Element.countList : List Element → Nat
  | [] => 0
  | e :: es => e.count + Element.countList es

end

mutual

/-- How deep an element is nested, itself included. -/
def Element.depth : Element → Nat
  | ⟨_, _, children⟩ => 1 + Element.depthList children

def Element.depthList : List Element → Nat
  | [] => 0
  | e :: es => max e.depth (Element.depthList es)

end

/-! ## Writing

An element is written in front of the text that follows it, so writing one takes no longer for
being nested. -/

/-- An attribute inside a tag, with the space in front of it. -/
def attributeChars : String × String → List Char
  | (key, value) => [' '] ++ key.toList ++ ['=', '"'] ++ value.toList ++ ['"']

/-- What the tags of an element begin with: its name and attributes. -/
def tagChars (name : String) (attributes : List (String × String)) : List Char :=
  ['<'] ++ name.toList ++ attributes.flatMap attributeChars

mutual

/-- An element as characters, with others behind it. -/
def Element.prependChars : Element → List Char → List Char
  | ⟨name, attributes, []⟩, after => tagChars name attributes ++ '/' :: '>' :: after
  | ⟨name, attributes, child :: children⟩, after =>
    tagChars name attributes ++ '>' :: child.prependChars
      (Element.prependCharsList children ('<' :: '/' :: (name.toList ++ '>' :: after)))

/-- Elements one behind the other as characters, with others behind them. -/
def Element.prependCharsList : List Element → List Char → List Char
  | [], after => after
  | e :: es, after => e.prependChars (Element.prependCharsList es after)

end

/-- An element as characters. -/
def Element.chars (e : Element) : List Char := e.prependChars []

/-- Elements one behind the other as characters. -/
def Element.charsList (es : List Element) : List Char := Element.prependCharsList es []

/-- An element as text. -/
def Element.render (e : Element) : String := String.ofList e.chars

/-! ## What is written

With nothing behind it, an element is its tags around what it contains. -/

mutual

theorem Element.prependChars_append : (e : Element) → (cs after : List Char) →
    e.prependChars (cs ++ after) = e.prependChars cs ++ after
  | ⟨name, attributes, []⟩, cs, after => by simp [Element.prependChars]
  | ⟨name, attributes, child :: children⟩, cs, after => by
    simp only [Element.prependChars, ← List.cons_append, ← List.append_assoc,
      Element.prependChars_append child, Element.prependCharsList_append children]

theorem Element.prependCharsList_append : (es : List Element) → (cs after : List Char) →
    Element.prependCharsList es (cs ++ after) = Element.prependCharsList es cs ++ after
  | [], _, _ => rfl
  | e :: es, cs, after => by
    simp only [Element.prependCharsList, Element.prependCharsList_append es,
      Element.prependChars_append e]

end

theorem Element.prependChars_eq (e : Element) (after : List Char) :
    e.prependChars after = e.chars ++ after :=
  Element.prependChars_append e [] after

theorem Element.prependCharsList_eq (es : List Element) (after : List Char) :
    Element.prependCharsList es after = Element.charsList es ++ after :=
  Element.prependCharsList_append es [] after

@[simp] theorem Element.charsList_nil : Element.charsList [] = [] := rfl

@[simp] theorem Element.charsList_cons (e : Element) (es : List Element) :
    Element.charsList (e :: es) = e.chars ++ Element.charsList es :=
  Element.prependChars_eq e _

/-- Without children an element is one tag. -/
@[simp] theorem Element.chars_single (name : String) (attributes : List (String × String)) :
    Element.chars ⟨name, attributes, []⟩ = tagChars name attributes ++ ['/', '>'] := rfl

/-- With children it is two tags and the children between them. -/
@[simp] theorem Element.chars_parent (name : String) (attributes : List (String × String))
    (child : Element) (children : List Element) :
    Element.chars ⟨name, attributes, child :: children⟩ =
      tagChars name attributes ++ ['>'] ++ Element.charsList (child :: children) ++
        ['<', '/'] ++ name.toList ++ ['>'] := by
  rw [Element.chars, Element.prependChars, Element.prependChars_eq, Element.prependCharsList_eq]
  simp

@[simp] theorem Element.charsList_append (es fs : List Element) :
    Element.charsList (es ++ fs) = Element.charsList es ++ Element.charsList fs := by
  induction es with
  | nil => rfl
  | cons e es ih => simp [ih]

end Descent.Markup
