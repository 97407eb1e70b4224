/-
  Descent.Proofs.Markup.Represents

  Which data represent which elements, said without a reader.  An element is represented by an
  object that has its three fields among its members, wherever they stand, or by an array of just
  the three values; the elements inside are represented in either way, each on its own.

  What a node says of its element is read off the node, apart from the children, which are given by
  the values for them.  So a reader and a representation that agree on the children agree on the
  node, and they are compared along the element.
-/
import Descent.Markup.Data
import Descent.Proofs.Lookup
import Mathlib.Data.List.Forall2

namespace Descent

/-- No object has two members of one name, neither the value itself nor any inside it. -/
inductive Json.Distinct : Json → Prop
  | null : Json.Distinct .null
  | bool (b : Bool) : Json.Distinct (.bool b)
  | number (digits : Int) (places : Nat) : Json.Distinct (.number digits places)
  | string (s : String) : Json.Distinct (.string s)
  | array {items : List Json} (hitems : ∀ item ∈ items, Json.Distinct item) :
      Json.Distinct (.array items)
  | object {members : List (String × Json)} (hnames : (members.map Prod.fst).Nodup)
      (hmembers : ∀ m ∈ members, Json.Distinct m.2) : Json.Distinct (.object members)

theorem Json.Distinct.items {items : List Json} (h : (Json.array items).Distinct) :
    ∀ item ∈ items, item.Distinct := by
  cases h with
  | array hitems => exact hitems

namespace Markup

/-- An attribute is represented by an array of its key and its value. -/
inductive RepresentsAttribute : Json → String × String → Prop
  | mk (key value : String) : RepresentsAttribute (.array [.string key, .string value]) (key, value)

/-- The value is one of those that represent the element. -/
inductive Represents : Json → Element → Prop
  | object {members : List (String × Json)} {name : String} {attributes : List (String × String)}
      {children : List Element} {as cs : List Json} (hname : ("name", .string name) ∈ members)
      (hattributes : ("attributes", .array as) ∈ members)
      (has : List.Forall₂ RepresentsAttribute as attributes)
      (hchildren : ("children", .array cs) ∈ members) (hcs : List.Forall₂ Represents cs children) :
      Represents (.object members) ⟨name, attributes, children⟩
  | array {name : String} {attributes : List (String × String)} {children : List Element}
      {as cs : List Json} (has : List.Forall₂ RepresentsAttribute as attributes)
      (hcs : List.Forall₂ Represents cs children) :
      Represents (.array [.string name, .array as, .array cs]) ⟨name, attributes, children⟩

-- ============================================================================
-- What is written
-- ============================================================================

theorem representsAttribute_json (a : String × String) : RepresentsAttribute (attributeJson a) a :=
  .mk a.1 a.2

theorem forall₂_attributeJson (attributes : List (String × String)) :
    List.Forall₂ RepresentsAttribute (attributes.map attributeJson) attributes := by
  rw [List.forall₂_map_left_iff, List.forall₂_same]
  exact fun a _ => representsAttribute_json a

mutual

theorem Element.represents_toJson : (e : Element) → Represents e.toJson e
  | ⟨_, attributes, children⟩ =>
    .object (.head _) (.tail _ (.head _)) (forall₂_attributeJson attributes)
      (.tail _ (.tail _ (.head _))) (Element.forall₂_toJsonList children)

theorem Element.forall₂_toJsonList : (es : List Element) →
    List.Forall₂ Represents (Element.toJsonList es) es
  | [] => .nil
  | e :: es => .cons e.represents_toJson (Element.forall₂_toJsonList es)

end

theorem distinct_attributeJson (a : String × String) : (attributeJson a).Distinct := by
  refine .array fun item hitem => ?_
  obtain rfl | rfl : item = .string a.1 ∨ item = .string a.2 := by simpa using hitem
  · exact .string a.1
  · exact .string a.2

theorem distinct_attributesJson (attributes : List (String × String)) :
    (Json.array (attributes.map attributeJson)).Distinct := by
  refine .array fun item hitem => ?_
  obtain ⟨a, -, rfl⟩ := List.mem_map.1 hitem
  exact distinct_attributeJson a

mutual

theorem Element.distinct_toJson : (e : Element) → e.toJson.Distinct
  | ⟨name, attributes, children⟩ => by
    have hnames : ["name", "attributes", "children"].Nodup := by decide
    refine .object hnames ?_
    rw [List.forall_mem_cons, List.forall_mem_cons, List.forall_mem_singleton]
    exact ⟨.string name, distinct_attributesJson attributes,
      .array (Element.distinct_toJsonList children)⟩

theorem Element.distinct_toJsonList : (es : List Element) →
    ∀ item ∈ Element.toJsonList es, item.Distinct
  | [] => List.forall_mem_nil _
  | e :: es => List.forall_mem_cons.2 ⟨e.distinct_toJson, Element.distinct_toJsonList es⟩

end

-- ============================================================================
-- What is read
-- ============================================================================

/-! ### Values -/

theorem stringOf?_eq_some_iff {j : Json} {s : String} : stringOf? j = some s ↔ j = .string s := by
  cases j with
  | string s' => simp [stringOf?]
  | null | bool | number | array | object => simp [stringOf?]

theorem attributeOf?_eq_some_iff {j : Json} {a : String × String} :
    attributeOf? j = some a ↔ RepresentsAttribute j a := by
  constructor
  · intro h
    unfold attributeOf? at h
    split at h
    · rename_i key value
      obtain rfl := Option.some.inj h
      exact .mk key value
    · cases h
  · rintro ⟨key, value⟩
    rfl

/-- All of a list is read if each item is. -/
theorem mapM_eq_some_iff {α β : Type} {read : α → Option β} {as : List α} {bs : List β} :
    as.mapM read = some bs ↔ List.Forall₂ (read · = some ·) as bs := by
  induction as generalizing bs with
  | nil => simp [eq_comm]
  | cons a as ih =>
    rw [List.mapM_cons, List.forall₂_cons_left_iff]
    simp only [bind, Option.bind_eq_some_iff, ih, pure, Option.some.injEq]
    constructor
    · rintro ⟨b, hb, bs', hbs, rfl⟩
      exact ⟨b, bs', hb, hbs, rfl⟩
    · rintro ⟨b, bs', hb, hbs, rfl⟩
      exact ⟨b, hb, bs', hbs, rfl⟩

theorem attributesOf?_eq_some_iff {j : Json} {attributes : List (String × String)} :
    attributesOf? j = some attributes ↔
      ∃ as, j = .array as ∧ List.Forall₂ RepresentsAttribute as attributes := by
  have hread : (attributeOf? · = some ·) = RepresentsAttribute :=
    funext₂ fun _ _ => propext attributeOf?_eq_some_iff
  cases j with
  | array as => simp [attributesOf?, mapM_eq_some_iff, hread]
  | null | bool | number | string | object => simp [attributesOf?]

theorem ofJsonList?_eq_mapM (items : List Json) :
    Element.ofJsonList? items = items.mapM Element.ofJson? := by
  induction items with
  | nil => rfl
  | cons item items ih => rw [Element.ofJsonList?, List.mapM_cons, ih]

theorem childrenOf?_eq_some_iff {j : Json} {children : List Element} :
    Element.childrenOf? j = some children ↔
      ∃ cs, j = .array cs ∧ List.Forall₂ (Element.ofJson? · = some ·) cs children := by
  cases j with
  | array cs => simp [Element.childrenOf?, ofJsonList?_eq_mapM, mapM_eq_some_iff]
  | null | bool | number | string | object => simp [Element.childrenOf?]

/-! ### Members -/

theorem childrenMember?_eq (members : List (String × Json)) :
    Element.childrenMember? members = (members.lookup "children").bind Element.childrenOf? := by
  induction members with
  | nil => rfl
  | cons m members ih =>
    obtain ⟨key, value⟩ := m
    rw [Element.childrenMember?]
    split
    · rename_i hkey
      rw [hkey, List.lookup_cons_self, Option.bind_some]
    · rename_i hkey
      rw [List.lookup_cons, beq_false_of_ne (Ne.symm hkey), ih]

/-- A member is read wherever it stands. -/
theorem member_eq_some_iff {members : List (String × Json)} (h : (members.map Prod.fst).Nodup)
    {α : Type} {read : Json → Option α} {key : String} {a : α} :
    (members.lookup key).bind read = some a ↔
      ∃ value, (key, value) ∈ members ∧ read value = some a := by
  simp only [Option.bind_eq_some_iff, lookup_eq_some_iff_mem h]

/-! ### Nodes -/

/-- A node is read if each of its three values is. -/
theorem parts_eq_some_iff {name? : Option String} {attributes? : Option (List (String × String))}
    {children? : Option (List Element)} {name : String} {attributes : List (String × String)}
    {children : List Element} :
    (do
      let name ← name?
      let attributes ← attributes?
      let children ← children?
      pure (Element.mk name attributes children)) = some ⟨name, attributes, children⟩ ↔
      name? = some name ∧ attributes? = some attributes ∧ children? = some children := by
  cases name? <;> cases attributes? <;> cases children? <;> simp

/-- What an object with distinct names is read as, given what the values for its children are. -/
theorem ofJson?_object_eq_some_iff {members : List (String × Json)}
    (h : (members.map Prod.fst).Nodup) {name : String} {attributes : List (String × String)}
    {children : List Element} :
    Element.ofJson? (.object members) = some ⟨name, attributes, children⟩ ↔
      ("name", .string name) ∈ members ∧
      (∃ as, ("attributes", .array as) ∈ members ∧
        List.Forall₂ RepresentsAttribute as attributes) ∧
      ∃ cs, ("children", .array cs) ∈ members ∧
        List.Forall₂ (Element.ofJson? · = some ·) cs children := by
  rw [Element.ofJson?, parts_eq_some_iff, childrenMember?_eq, member_eq_some_iff h,
    member_eq_some_iff h, member_eq_some_iff h]
  simp only [stringOf?_eq_some_iff, attributesOf?_eq_some_iff, childrenOf?_eq_some_iff]
  constructor
  · rintro ⟨⟨_, hname, rfl⟩, ⟨_, hattributes, as, rfl, has⟩, _, hchildren, cs, rfl, hcs⟩
    exact ⟨hname, ⟨as, hattributes, has⟩, cs, hchildren, hcs⟩
  · rintro ⟨hname, ⟨as, hattributes, has⟩, cs, hchildren, hcs⟩
    exact ⟨⟨_, hname, rfl⟩, ⟨_, hattributes, as, rfl, has⟩, _, hchildren, cs, rfl, hcs⟩

/-- What an array is read as, given what the values for the children are. -/
theorem ofJson?_array_eq_some_iff {items : List Json} {name : String}
    {attributes : List (String × String)} {children : List Element} :
    Element.ofJson? (.array items) = some ⟨name, attributes, children⟩ ↔
      ∃ as cs, items = [.string name, .array as, .array cs] ∧
        List.Forall₂ RepresentsAttribute as attributes ∧
        List.Forall₂ (Element.ofJson? · = some ·) cs children := by
  constructor
  · intro h
    match items, h with
    | [first, second, third], h =>
      rw [Element.ofJson?, parts_eq_some_iff, stringOf?_eq_some_iff, attributesOf?_eq_some_iff,
        childrenOf?_eq_some_iff] at h
      obtain ⟨rfl, ⟨as, rfl, has⟩, cs, rfl, hcs⟩ := h
      exact ⟨as, cs, rfl, has, hcs⟩
  · rintro ⟨as, cs, rfl, has, hcs⟩
    rw [Element.ofJson?, parts_eq_some_iff, attributesOf?_eq_some_iff, childrenOf?_eq_some_iff]
    exact ⟨rfl, ⟨as, rfl, has⟩, cs, rfl, hcs⟩

mutual

/-- Of values with distinct names those are read as an element that represent it. -/
theorem Element.ofJson?_eq_some_iff : (e : Element) → (j : Json) → j.Distinct →
    (Element.ofJson? j = some e ↔ Represents j e)
  | ⟨name, attributes, children⟩, j, hj => by
    cases hj with
    | null | bool | number | string =>
      constructor
      · intro h
        cases h
      · intro h
        cases h
    | array hitems =>
      rw [ofJson?_array_eq_some_iff]
      constructor
      · rintro ⟨as, cs, rfl, has, hcs⟩
        have hdistinct := (hitems (.array cs) (by simp)).items
        exact .array has ((Element.forall₂_ofJson?_iff children cs hdistinct).1 hcs)
      · intro h
        cases h with
        | @array _ _ _ as cs has hcs =>
          have hdistinct := (hitems (.array cs) (by simp)).items
          exact ⟨as, cs, rfl, has, (Element.forall₂_ofJson?_iff children cs hdistinct).2 hcs⟩
    | object hnames hmembers =>
      rw [ofJson?_object_eq_some_iff hnames]
      constructor
      · rintro ⟨hname, ⟨as, hattributes, has⟩, cs, hchildren, hcs⟩
        have hdistinct := (hmembers _ hchildren).items
        exact .object hname hattributes has hchildren
          ((Element.forall₂_ofJson?_iff children cs hdistinct).1 hcs)
      · intro h
        cases h with
        | @object _ _ _ _ as cs hname hattributes has hchildren hcs =>
          have hdistinct := (hmembers _ hchildren).items
          exact ⟨hname, ⟨as, hattributes, has⟩, cs, hchildren,
            (Element.forall₂_ofJson?_iff children cs hdistinct).2 hcs⟩

theorem Element.forall₂_ofJson?_iff : (es : List Element) → (items : List Json) →
    (∀ item ∈ items, item.Distinct) →
    (List.Forall₂ (Element.ofJson? · = some ·) items es ↔ List.Forall₂ Represents items es)
  | [], items, _ => by rw [List.forall₂_nil_right_iff, List.forall₂_nil_right_iff]
  | e :: es, items, h => by
    cases items with
    | nil => rw [List.forall₂_nil_left_iff, List.forall₂_nil_left_iff]
    | cons item items =>
      obtain ⟨hitem, hitems⟩ := List.forall_mem_cons.1 h
      rw [List.forall₂_cons, List.forall₂_cons, Element.ofJson?_eq_some_iff e item hitem,
        Element.forall₂_ofJson?_iff es items hitems]

end

/-- An element is written as a value that represents it, and the values that are read as an element
    are those that represent it: an object with its fields in any order and among any others, or an
    array of just their values, at every node on its own.  So an element that is written reads
    back. -/
theorem ofJson_eq_some_iff_represents (e : Element) :
    (e.toJson.Distinct ∧ Represents e.toJson e) ∧
    (∀ j : Json, j.Distinct → (Element.ofJson? j = some e ↔ Represents j e)) ∧
    Element.ofJson? e.toJson = some e := by
  refine ⟨⟨e.distinct_toJson, e.represents_toJson⟩, e.ofJson?_eq_some_iff, ?_⟩
  exact (e.ofJson?_eq_some_iff e.toJson e.distinct_toJson).2 e.represents_toJson

/-- An object whose fields stand in another order among others, with an array inside it. -/
theorem mixed_shapes_read :
    let child : Json := .array [.string "b", .array [], .array []]
    let j : Json := .object [("children", .array [child]), ("id", .number 15 1),
      ("attributes", .array [.array [.string "k", .string "v"]]), ("name", .string "a")]
    j.Distinct ∧ Element.ofJson? j = some ⟨"a", [("k", "v")], [⟨"b", [], []⟩]⟩ := by
  intro child j
  have hempty : (Json.array []).Distinct := .array (List.forall_mem_nil _)
  have hchild : child.Distinct := by
    refine .array ?_
    rw [List.forall_mem_cons, List.forall_mem_cons, List.forall_mem_singleton]
    exact ⟨.string "b", hempty, hempty⟩
  have hj : j.Distinct := by
    have hnames : ["children", "id", "attributes", "name"].Nodup := by decide
    refine .object hnames ?_
    rw [List.forall_mem_cons, List.forall_mem_cons, List.forall_mem_cons,
      List.forall_mem_singleton]
    exact ⟨.array (List.forall_mem_singleton.2 hchild), .number 15 1,
      distinct_attributesJson [("k", "v")], .string "a"⟩
  have hrepresents : Represents j ⟨"a", [("k", "v")], [⟨"b", [], []⟩]⟩ :=
    .object (.tail _ (.tail _ (.tail _ (.head _)))) (.tail _ (.tail _ (.head _)))
      (forall₂_attributeJson [("k", "v")]) (.head _) (.cons (.array .nil .nil) .nil)
  exact ⟨hj, ((ofJson_eq_some_iff_represents _).2.1 j hj).2 hrepresents⟩

end Markup

end Descent
