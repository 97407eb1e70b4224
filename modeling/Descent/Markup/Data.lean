/-
  Descent.Markup.Data

  Elements as JSON data.  An element is written as an object with its three fields.  It is read
  from an object that has these fields, in whatever order and among whatever others, and also from
  an array of just the three values in order; each element inside may have either shape.
-/
import Descent.Json
import Descent.Markup.Element

namespace Descent.Markup

/-! ## Writing -/

/-- An attribute as an array of key and value. -/
def attributeJson : String × String → Json
  | (key, value) => .array [.string key, .string value]

mutual

/-- An element as an object. -/
def Element.toJson : Element → Json
  | ⟨name, attributes, children⟩ =>
    .object [("name", .string name), ("attributes", .array (attributes.map attributeJson)),
      ("children", .array (Element.toJsonList children))]

def Element.toJsonList : List Element → List Json
  | [] => []
  | e :: es => e.toJson :: Element.toJsonList es

end

/-! ## Reading -/

/-- A name, key or value. -/
def stringOf? : Json → Option String
  | .string s => some s
  | _ => none

/-- An array of exactly two strings. -/
def attributeOf? : Json → Option (String × String)
  | .array [.string key, .string value] => some (key, value)
  | _ => none

/-- An array of attributes. -/
def attributesOf? : Json → Option (List (String × String))
  | .array items => items.mapM attributeOf?
  | _ => none

mutual

/-- The element that a value stands for. -/
def Element.ofJson? : Json → Option Element
  | .object members => do
    let name ← (members.lookup "name").bind stringOf?
    let attributes ← (members.lookup "attributes").bind attributesOf?
    let children ← Element.childrenMember? members
    pure ⟨name, attributes, children⟩
  | .array [name, attributes, children] => do
    let name ← stringOf? name
    let attributes ← attributesOf? attributes
    let children ← Element.childrenOf? children
    pure ⟨name, attributes, children⟩
  | _ => none

/-- The children in the first member of that name. -/
def Element.childrenMember? : List (String × Json) → Option (List Element)
  | [] => none
  | (key, value) :: members =>
    if key = "children" then Element.childrenOf? value else Element.childrenMember? members

/-- An array of elements. -/
def Element.childrenOf? : Json → Option (List Element)
  | .array items => Element.ofJsonList? items
  | _ => none

def Element.ofJsonList? : List Json → Option (List Element)
  | [] => some []
  | item :: items => do
    let e ← Element.ofJson? item
    let es ← Element.ofJsonList? items
    pure (e :: es)

end

end Descent.Markup
