/-
  Descent.Proofs.Markup.Sources

  How an element is written, and what is left of it when the element is written again.

  A source keeps everything that a text says and its element does not: the blanks in front of each
  attribute, and whether an element without children is one tag or two.  The texts that denote an
  element are those of its sources.  Writing the element again changes just these two things, and
  both get shorter or stay as they are, since one space is the least that can stand in front of an
  attribute and one tag is shorter than two.  So the whole stays as it is only if each part does:
  the text in front of a part cannot make up for one that has become shorter.
-/
import Descent.Proofs.Markup.Accepts

namespace Descent.Markup

open Lexical (IsName)

/-- An attribute as it stands in a tag. -/
structure WrittenAttribute where
  blanks : List Char
  key : String
  value : String
  hne : blanks ≠ []
  hblanks : ∀ c ∈ blanks, Text.isBlank c = true
  hkey : IsName key
  hvalue : '"' ∉ value.toList

/-- An element as it is written: in one tag that closes itself, or in two with others between. -/
inductive Source where
  | single (name : String) (hname : IsName name) (attributes : List WrittenAttribute)
  | parent (name : String) (hname : IsName name) (attributes : List WrittenAttribute)
      (children : List Source)

namespace WrittenAttribute

def chars (a : WrittenAttribute) : List Char :=
  a.blanks ++ a.key.toList ++ ['=', '"'] ++ a.value.toList ++ ['"']

/-- What is read: the key and the value. -/
def pair (a : WrittenAttribute) : String × String := (a.key, a.value)

end WrittenAttribute

/-- What the tags of an element begin with, as written. -/
def writtenTag (name : String) (attributes : List WrittenAttribute) : List Char :=
  ['<'] ++ name.toList ++ attributes.flatMap WrittenAttribute.chars

-- ============================================================================
-- The text, the element, and all that is inside
-- ============================================================================

mutual

/-- The text of a source. -/
def Source.chars : Source → List Char
  | .single name _ attributes => writtenTag name attributes ++ ['/', '>']
  | .parent name _ attributes children =>
    writtenTag name attributes ++ ['>'] ++ Source.charsList children ++ ['<', '/'] ++
      name.toList ++ ['>']

def Source.charsList : List Source → List Char
  | [] => []
  | src :: srcs => src.chars ++ Source.charsList srcs

end

mutual

/-- The element that is written. -/
def Source.element : Source → Element
  | .single name _ attributes => ⟨name, attributes.map WrittenAttribute.pair, []⟩
  | .parent name _ attributes children =>
    ⟨name, attributes.map WrittenAttribute.pair, Source.elementList children⟩

def Source.elementList : List Source → List Element
  | [] => []
  | src :: srcs => src.element :: Source.elementList srcs

end

mutual

/-- The source and all those inside it, at every depth. -/
def Source.nodes : Source → List Source
  | .single name hname attributes => [.single name hname attributes]
  | .parent name hname attributes children =>
    .parent name hname attributes children :: Source.nodesList children

def Source.nodesList : List Source → List Source
  | [] => []
  | src :: srcs => src.nodes ++ Source.nodesList srcs

end

/-- The attributes in the tag of the element itself. -/
def Source.attributes : Source → List WrittenAttribute
  | .single _ _ attributes => attributes
  | .parent _ _ attributes _ => attributes

/-- An opening tag, and the tag that closes it immediately behind. -/
def Source.Hollow : Source → Prop
  | .single _ _ _ => False
  | .parent _ _ _ children => children = []

/-- The element itself is written as it is written again, whatever is inside. -/
def Source.Plain (src : Source) : Prop :=
  (∀ a ∈ src.attributes, a.blanks = [' ']) ∧ ¬ src.Hollow

-- ============================================================================
-- The texts of sources
-- ============================================================================

theorem texts_writtenAttributes (attributes : List WrittenAttribute) :
    Texts AttributeText (attributes.flatMap WrittenAttribute.chars)
      (attributes.map WrittenAttribute.pair) := by
  induction attributes with
  | nil => exact .nil
  | cons a as ih =>
    rw [List.flatMap_cons, List.map_cons]
    exact .cons (.mk a.hne a.hblanks a.hkey a.hvalue) ih

theorem exists_writtenAttributes {w : List Char} {attributes : List (String × String)}
    (h : Texts AttributeText w attributes) :
    ∃ written : List WrittenAttribute, written.flatMap WrittenAttribute.chars = w ∧
      written.map WrittenAttribute.pair = attributes := by
  induction h with
  | nil => exact ⟨[], rfl, rfl⟩
  | cons hv _ ih =>
    obtain ⟨written, rfl, rfl⟩ := ih
    cases hv with
    | @mk blanks key value hne hblanks hkey hvalue =>
      exact ⟨⟨blanks, key, value, hne, hblanks, hkey, hvalue⟩ :: written, rfl, rfl⟩

theorem tagText_writtenTag {name : String} (hname : IsName name)
    (attributes : List WrittenAttribute) :
    TagText (writtenTag name attributes) (name, attributes.map WrittenAttribute.pair) :=
  .mk hname (texts_writtenAttributes attributes)

-- Along the source, and along the element that is denoted.

mutual

theorem Source.denotes : (src : Source) → Denotes src.chars src.element
  | .single _ hname attributes => .single (tagText_writtenTag hname attributes)
  | .parent _ hname attributes children =>
    .parent (tagText_writtenTag hname attributes) (Source.texts children)

theorem Source.texts : (srcs : List Source) →
    Texts Denotes (Source.charsList srcs) (Source.elementList srcs)
  | [] => .nil
  | src :: srcs => .cons src.denotes (Source.texts srcs)

end

mutual

theorem Denotes.exists_source : {e : Element} → {w : List Char} → Denotes w e →
    ∃ src : Source, src.chars = w ∧ src.element = e
  | ⟨name, _, _⟩, _, h => by
    cases h with
    | single ht =>
      cases ht with
      | mk hname hattributes =>
        obtain ⟨written, rfl, rfl⟩ := exists_writtenAttributes hattributes
        exact ⟨.single name hname written, rfl, rfl⟩
    | parent ht hw =>
      cases ht with
      | mk hname hattributes =>
        obtain ⟨written, rfl, rfl⟩ := exists_writtenAttributes hattributes
        obtain ⟨children, rfl, rfl⟩ := texts_exists_sources hw
        exact ⟨.parent name hname written children, rfl, rfl⟩

theorem texts_exists_sources : {es : List Element} → {w : List Char} → Texts Denotes w es →
    ∃ srcs : List Source, Source.charsList srcs = w ∧ Source.elementList srcs = es
  | [], _, .nil => ⟨[], rfl, rfl⟩
  | _ :: _, _, .cons he hes => by
    obtain ⟨src, rfl, rfl⟩ := he.exists_source
    obtain ⟨srcs, rfl, rfl⟩ := texts_exists_sources hes
    exact ⟨src :: srcs, rfl, rfl⟩

end

-- ============================================================================
-- Writing again
-- ============================================================================

/-- One text is no longer than another in bytes, and is the same exactly if `kept` holds. -/
structure Tidies (a w : List Char) (kept : Prop) : Prop where
  le : utf8Length a ≤ utf8Length w
  eq_iff : a = w ↔ kept

/-- Equal texts are equal part by part if the parts in front have equally many bytes. -/
theorem append_inj_of_utf8Length {a b w v : List Char} (h : a ++ b = w ++ v)
    (hlength : utf8Length a = utf8Length w) : a = w ∧ b = v := by
  have hnil {c : List Char} (hc : utf8Length c = 0) : c = [] := by
    cases c with
    | nil => rfl
    | cons d ds =>
      have hpos := utf8Length_pos (List.cons_ne_nil d ds)
      omega
  rcases List.append_eq_append_iff.1 h with ⟨c, rfl, rfl⟩ | ⟨c, rfl, rfl⟩
  all_goals
    rw [utf8Length_append] at hlength
    obtain rfl : c = [] := hnil (by omega)
    exact ⟨by simp, by simp⟩

namespace Tidies

variable {a b w v : List Char} {P Q : Prop}

theorem congr (h : Tidies a w P) (hPQ : P ↔ Q) : Tidies a w Q := ⟨h.le, h.eq_iff.trans hPQ⟩

theorem append (h : Tidies a w P) (h' : Tidies b v Q) : Tidies (a ++ b) (w ++ v) (P ∧ Q) := by
  have hle := h.le
  have hle' := h'.le
  refine ⟨by rw [utf8Length_append, utf8Length_append]; omega, fun heq => ?_, fun hkept => ?_⟩
  · -- Neither part is longer, so both are as long as before.
    have hlength := congrArg utf8Length heq
    rw [utf8Length_append, utf8Length_append] at hlength
    obtain ⟨ha, hb⟩ := append_inj_of_utf8Length heq (by omega)
    exact ⟨h.eq_iff.1 ha, h'.eq_iff.1 hb⟩
  · rw [h.eq_iff.2 hkept.1, h'.eq_iff.2 hkept.2]

theorem append_same (h : Tidies a w P) (b : List Char) : Tidies (a ++ b) (w ++ b) P :=
  (h.append ⟨Nat.le_refl _, Iff.rfl⟩).congr (and_iff_left rfl)

end Tidies

/-- One space stands in place of all the blanks. -/
theorem WrittenAttribute.tidies (a : WrittenAttribute) :
    Tidies (attributeChars a.pair) a.chars (a.blanks = [' ']) := by
  have hblanks : Tidies [' '] a.blanks (a.blanks = [' ']) :=
    ⟨utf8Length_pos a.hne, eq_comm⟩
  exact (((hblanks.append_same _).append_same _).append_same _).append_same _

theorem writtenAttributes_tidies (attributes : List WrittenAttribute) :
    Tidies ((attributes.map WrittenAttribute.pair).flatMap attributeChars)
      (attributes.flatMap WrittenAttribute.chars) (∀ a ∈ attributes, a.blanks = [' ']) := by
  induction attributes with
  | nil => exact ⟨Nat.le_refl _, iff_of_true rfl (List.forall_mem_nil _)⟩
  | cons a as ih =>
    rw [List.map_cons, List.flatMap_cons, List.flatMap_cons]
    exact (a.tidies.append ih).congr (by rw [List.forall_mem_cons])

theorem writtenTag_tidies (name : String) (attributes : List WrittenAttribute) :
    Tidies (tagChars name (attributes.map WrittenAttribute.pair)) (writtenTag name attributes)
      (∀ a ∈ attributes, a.blanks = [' ']) := by
  have hstart : Tidies (['<'] ++ name.toList) (['<'] ++ name.toList) True :=
    ⟨Nat.le_refl _, iff_of_true rfl trivial⟩
  exact (hstart.append (writtenAttributes_tidies attributes)).congr (and_iff_right trivial)

/-- One tag is shorter than two. -/
theorem hollow_tidies (name : String) :
    Tidies ['/', '>'] (['>'] ++ ['<', '/'] ++ name.toList ++ ['>']) False := by
  have hone : utf8Length ['/', '>'] = 2 := rfl
  have htwo : utf8Length (['>'] ++ ['<', '/'] ++ name.toList ++ ['>']) =
      4 + utf8Length name.toList := by
    have hopen : utf8Length (['>'] ++ ['<', '/']) = 3 := rfl
    have hclose : utf8Length ['>'] = 1 := rfl
    rw [utf8Length_append, utf8Length_append, hopen, hclose]
    omega
  refine ⟨by omega, iff_of_false (fun heq => ?_) id⟩
  rw [← heq] at htwo
  omega

-- Along the source.

mutual

theorem Source.tidies : (src : Source) →
    Tidies src.element.chars src.chars (∀ node ∈ src.nodes, node.Plain)
  | .single name hname attributes => by
    refine ((writtenTag_tidies name attributes).append_same ['/', '>']).congr ?_
    simp [Source.nodes, Source.Plain, Source.attributes, Source.Hollow]
  | .parent name hname attributes [] => by
    have h := (writtenTag_tidies name attributes).append (hollow_tidies name)
    rw [Source.element, Source.elementList, Element.chars_single, Source.chars, Source.charsList]
    simp only [List.append_nil, List.append_assoc] at h ⊢
    refine h.congr ?_
    simp [Source.nodes, Source.Plain, Source.Hollow]
  | .parent name hname attributes (child :: children) => by
    have hinside := Source.tidiesList (child :: children)
    have h := ((((((writtenTag_tidies name attributes).append_same ['>']).append
      hinside).append_same ['<', '/']).append_same name.toList).append_same ['>'])
    rw [Source.element, Source.elementList, Element.chars_parent, Source.chars]
    refine h.congr ?_
    simp [Source.nodes, Source.Plain, Source.attributes, Source.Hollow]

theorem Source.tidiesList : (srcs : List Source) →
    Tidies (Element.charsList (Source.elementList srcs)) (Source.charsList srcs)
      (∀ node ∈ Source.nodesList srcs, node.Plain)
  | [] => ⟨Nat.le_refl _, iff_of_true rfl (List.forall_mem_nil _)⟩
  | src :: srcs => by
    rw [Source.elementList, Element.charsList_cons, Source.charsList, Source.nodesList]
    exact (src.tidies.append (Source.tidiesList srcs)).congr List.forall_mem_append.symm

end

/-- An element that is read is written again in no more bytes than it was read from, and in the same
    characters exactly if one space stood in front of each attribute and no opening tag was
    immediately followed by the tag that closes it, at any depth.  What was read is the text of a
    source, and this may be told from any source that has this text: all of them are for the element
    that was read. -/
theorem render_le_and_eq_iff_plain {inp rest : Input} {e : Element} {scopes scopes' : Scopes}
    (h : parser (element .element) inp scopes = some (.matched rest e, scopes')) :
    ∃ w, inp.chars = w ++ rest.chars ∧ e.render.utf8ByteSize ≤ utf8Length w ∧
      (∃ src : Source, src.chars = w) ∧ ∀ src : Source, src.chars = w → src.element = e ∧
        (e.render = String.ofList w ↔
          (∀ node ∈ src.nodes, ∀ a ∈ node.attributes, a.blanks = [' ']) ∧
            ∀ node ∈ src.nodes, ¬ node.Hollow) := by
  obtain ⟨w, hw, hinp⟩ := (element_matched_iff inp rest e scopes).1 ⟨scopes', h⟩
  have hread (src : Source) (hsrc : src.chars = w) : src.element = e := by
    have hbegins : Begins Denotes inp.chars src.element rest.chars :=
      ⟨w, hsrc ▸ src.denotes, hinp⟩
    exact ((parser_element_decides inp).unique hbegins ⟨w, hw, hinp⟩).1
  obtain ⟨src, hsrc, rfl⟩ := hw.exists_source
  refine ⟨w, hinp, ?_, ⟨src, hsrc⟩, fun src' hsrc' => ⟨hread src' hsrc', ?_⟩⟩
  · have hle := src.tidies.le
    rw [utf8ByteSize_eq, Element.render, String.toList_ofList]
    rw [hsrc] at hle
    exact hle
  · have heq := src'.tidies.eq_iff
    rw [hread src' hsrc', hsrc'] at heq
    rw [Element.render, String.ofList_inj, heq]
    exact ⟨fun hplain => ⟨fun node hnode => (hplain node hnode).1,
      fun node hnode => (hplain node hnode).2⟩, fun hplain node hnode =>
      ⟨hplain.1 node hnode, hplain.2 node hnode⟩⟩

/-- Two blanks in front of an attribute, of which one has three bytes, and an element inside that
    has two tags and nothing between them: both are read, and neither is written again. -/
theorem render_le_and_eq_iff_plain_of_hollow :
    parser (element .element) (.ofString "<a \u2003k=\"v\"><b></b></a>!") [] =
      some (.matched (.ofString "!") ⟨"a", [("k", "v")], [⟨"b", [], []⟩]⟩, []) ∧
    ∃ w, "<a \u2003k=\"v\"><b></b></a>!".toList = w ++ ['!'] ∧
      "<a k=\"v\"><b/></a>".utf8ByteSize ≤ utf8Length w ∧
      ∃ src : Source, src.chars = w ∧
        ¬ ((∀ node ∈ src.nodes, ∀ a ∈ node.attributes, a.blanks = [' ']) ∧
          ∀ node ∈ src.nodes, ¬ node.Hollow) := by
  have hrun : parser (element .element) (.ofString "<a \u2003k=\"v\"><b></b></a>!") [] =
      some (.matched (.ofString "!") ⟨"a", [("k", "v")], [⟨"b", [], []⟩]⟩, []) := by
    decide +kernel
  have hrender : Element.render ⟨"a", [("k", "v")], [⟨"b", [], []⟩]⟩ = "<a k=\"v\"><b/></a>" := by
    decide +kernel
  obtain ⟨w, hinp, hle, ⟨src, hsrc⟩, hall⟩ := render_le_and_eq_iff_plain hrun
  have hother : "<a \u2003k=\"v\"><b></b></a>!".toList ≠ "<a k=\"v\"><b/></a>".toList ++ ['!'] := by
    decide +kernel
  refine ⟨hrun, w, hinp, hrender ▸ hle, src, hsrc, fun hplain => hother ?_⟩
  have heq := (hall src hsrc).2.2 hplain
  have hw : w = "<a k=\"v\"><b/></a>".toList := by
    rw [← hrender, heq, String.toList_ofList]
  rw [← hw]
  exact hinp

end Descent.Markup
