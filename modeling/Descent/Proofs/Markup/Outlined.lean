/-
  Descent.Proofs.Markup.Outlined

  An outline tells which document it is of.  The line of an element begins with two spaces for each
  element around it and then with its name, and in a line a key ends at its equals sign and a value
  at its closing quote, whatever the value holds.  So the line tells the name and the attributes.
  What is inside an element ends where a line is indented no further than that of the element, so
  the lines tell what is inside which element.

  Elements are read off the front of lines, with whatever stands below them, along the first of the
  two documents that are compared.
-/
import Descent.Markup.Outline
import Descent.Proofs.Markup.Documents
import Descent.Proofs.Markup.Rendering
import Descent.Proofs.Quoted

namespace Descent.Markup

open Lexical (IsName)

-- ============================================================================
-- The line of an element
-- ============================================================================

/-! ### Where its parts end -/

theorem stopsAt_outlineAttributes (as : List (String × String)) :
    StopsAt Char.isAlphanum (as.flatMap outlineAttribute) := by
  cases as with
  | nil => exact stopsAt_nil _
  | cons a as => exact stopsAt_cons.2 (by decide)

/-- The attributes in a line are those of no other line. -/
theorem outlineAttributes_inj {as bs : List (String × String)} (has : ∀ a ∈ as, IsName a.1)
    (hbs : ∀ b ∈ bs, IsName b.1) (h : as.flatMap outlineAttribute = bs.flatMap outlineAttribute) :
    as = bs := by
  induction as generalizing bs with
  | nil =>
    cases bs with
    | nil => rfl
    | cons b bs => exact absurd h.symm (List.cons_ne_nil _ _)
  | cons a as ih =>
    cases bs with
    | nil => exact absurd h (List.cons_ne_nil _ _)
    | cons b bs =>
      obtain ⟨key, value⟩ := a
      obtain ⟨key', value'⟩ := b
      obtain ⟨hkey, hrest⟩ := List.forall_mem_cons.1 has
      obtain ⟨hkey', hrest'⟩ := List.forall_mem_cons.1 hbs
      simp only [List.flatMap_cons, outlineAttribute, List.append_assoc, List.cons_append,
        List.nil_append] at h
      obtain ⟨hkeys, hvalues⟩ := run_append_inj hkey.2 hkey'.2 (stopsAt_cons.2 (by decide))
        (stopsAt_cons.2 (by decide)) (List.cons.inj h).2
      obtain ⟨hquoted, hbehind⟩ := Text.quote_append_inj (List.cons.inj hvalues).2
      obtain rfl : key = key' := String.toList_injective hkeys
      obtain rfl : value = value' := String.toList_injective hquoted
      rw [ih hrest hrest' hbehind]

/-- Among lines that are indented alike, one tells the name and the attributes. -/
theorem outlineLine_inj {depth : Nat} {name name' : String}
    {attributes attributes' : List (String × String)} (hname : IsName name)
    (hname' : IsName name') (has : ∀ a ∈ attributes, IsName a.1)
    (has' : ∀ a ∈ attributes', IsName a.1)
    (h : outlineLine depth name attributes = outlineLine depth name' attributes') :
    name = name' ∧ attributes = attributes' := by
  rw [outlineLine, outlineLine, List.append_assoc, List.append_assoc] at h
  obtain ⟨hnames, hattributes⟩ := run_append_inj hname.2 hname'.2
    (stopsAt_outlineAttributes _) (stopsAt_outlineAttributes _) (List.append_cancel_left h)
  exact ⟨String.toList_injective hnames, outlineAttributes_inj has has' hattributes⟩

/-! ### Where it stands -/

theorem indentation_outlineLine (depth : Nat) {name : String} (hname : IsName name)
    (attributes : List (String × String)) :
    indentation (outlineLine depth name attributes) = 2 * depth := by
  obtain ⟨hne, hall⟩ := hname
  obtain ⟨c, cs, hcs⟩ := List.exists_cons_of_ne_nil hne
  have hc : c ≠ ' ' := by
    intro hspace
    have halnum := hall c (by rw [hcs]; exact List.mem_cons_self)
    rw [hspace] at halnum
    exact absurd halnum (by decide)
  rw [outlineLine, hcs, List.append_assoc, List.cons_append]
  exact indentation_replicate_append (2 * depth) hc _

theorem outlineAttribute_unbroken {a : String × String} (h : IsName a.1) :
    '\n' ∉ outlineAttribute a := by
  obtain ⟨key, value⟩ := a
  have hkey : '\n' ∉ key.toList := fun hmem => absurd (h.2 _ hmem) (by decide)
  simp [outlineAttribute, hkey, Text.quote_unbroken]

theorem outlineLine_unbroken (depth : Nat) {name : String} (hname : IsName name)
    {attributes : List (String × String)} (has : ∀ a ∈ attributes, IsName a.1) :
    '\n' ∉ outlineLine depth name attributes := by
  have hname : '\n' ∉ name.toList := fun hmem => absurd (hname.2 _ hmem) (by decide)
  have hattributes : '\n' ∉ attributes.flatMap outlineAttribute := by
    intro hmem
    obtain ⟨a, ha, hmem⟩ := List.mem_flatMap.1 hmem
    exact outlineAttribute_unbroken (has a ha) hmem
  simp [outlineLine, List.mem_replicate, hname, hattributes]

-- ============================================================================
-- The lines of a document
-- ============================================================================

mutual

theorem Element.WellFormed.outline_unbroken (depth : Nat) : {e : Element} → e.WellFormed →
    ∀ line ∈ e.outline depth, '\n' ∉ line
  | ⟨name, attributes, children⟩, .mk hname hattributes hchildren => by
    have hline : '\n' ∉ outlineLine depth name attributes :=
      outlineLine_unbroken depth hname fun a ha => (hattributes a ha).1
    rw [Element.outline_mk]
    exact List.forall_mem_cons.2 ⟨hline, outlineList_unbroken (depth + 1) hchildren⟩

/-- Each line of an outline is one line of text. -/
theorem outlineList_unbroken (depth : Nat) : {es : List Element} → (∀ e ∈ es, e.WellFormed) →
    ∀ line ∈ Element.outlineList depth es, '\n' ∉ line
  | [], _ => List.forall_mem_nil _
  | e :: es, h => by
    obtain ⟨he, hes⟩ := List.forall_mem_cons.1 h
    rw [Element.outlineList_cons]
    exact List.forall_mem_append.2 ⟨he.outline_unbroken depth, outlineList_unbroken depth hes⟩

end

/-- The first of these lines, if there is one, is not indented far enough to stand for an element
    inside `depth` others. -/
def BeginsAbove (depth : Nat) (lines : List (List Char)) : Prop :=
  ∀ line ∈ lines.head?, indentation line < 2 * depth

theorem not_beginsAbove_outline {depth : Nat} {e : Element} (he : e.WellFormed)
    (below : List (List Char)) : ¬ BeginsAbove depth (e.outline depth ++ below) := by
  obtain ⟨hname, -, -⟩ := he
  intro h
  have hlt := h _ rfl
  rw [indentation_outlineLine depth hname] at hlt
  exact Nat.lt_irrefl _ hlt

/-- What is inside an element ends at the next one beside it. -/
theorem beginsAbove_succ_outlineList {depth : Nat} {es : List Element}
    (hes : ∀ e ∈ es, e.WellFormed) {below : List (List Char)} (h : BeginsAbove depth below) :
    BeginsAbove (depth + 1) (Element.outlineList depth es ++ below) := by
  cases es with
  | nil =>
    intro line hline
    have hlt := h line hline
    omega
  | cons e es =>
    obtain ⟨hname, -, -⟩ := hes e List.mem_cons_self
    intro line hline
    obtain rfl := Option.some.inj hline
    rw [indentation_outlineLine depth hname]
    omega

mutual

/-- The lines of an element with others below them, that do not go on with what is inside it, are
    those of no other element. -/
theorem Element.outline_append_inj (depth : Nat) : (e e' : Element) →
    (below below' : List (List Char)) → e.WellFormed → e'.WellFormed →
    BeginsAbove (depth + 1) below → BeginsAbove (depth + 1) below' →
    e.outline depth ++ below = e'.outline depth ++ below' → e = e' ∧ below = below'
  | ⟨name, attributes, children⟩, ⟨name', attributes', children'⟩, below, below',
      .mk hname has hchildren, .mk hname' has' hchildren', habove, habove', h => by
    simp only [Element.outline_mk, List.cons_append] at h
    obtain ⟨hline, hinside⟩ := List.cons.inj h
    obtain ⟨rfl, rfl⟩ := outlineLine_inj hname hname' (fun a ha => (has a ha).1)
      (fun a ha => (has' a ha).1) hline
    obtain ⟨rfl, rfl⟩ := Element.outlineList_append_inj (depth + 1) children children' below below'
      hchildren hchildren' habove habove' hinside
    exact ⟨rfl, rfl⟩

/-- The lines of elements inside `depth` others, with lines below that go on with what is around
    them, are those of no other elements. -/
theorem Element.outlineList_append_inj (depth : Nat) : (es es' : List Element) →
    (below below' : List (List Char)) → (∀ e ∈ es, e.WellFormed) → (∀ e ∈ es', e.WellFormed) →
    BeginsAbove depth below → BeginsAbove depth below' →
    Element.outlineList depth es ++ below = Element.outlineList depth es' ++ below' →
    es = es' ∧ below = below'
  | [], [], _, _, _, _, _, _, h => ⟨rfl, h⟩
  | [], e' :: es', below, below', _, hes', habove, _, h => by
    rw [Element.outlineList_cons, List.append_assoc] at h
    obtain rfl : below = _ := h
    exact absurd habove (not_beginsAbove_outline (hes' e' List.mem_cons_self) _)
  | e :: es, [], below, below', hes, _, _, habove', h => by
    rw [Element.outlineList_cons, List.append_assoc] at h
    obtain rfl : _ = below' := h
    exact absurd habove' (not_beginsAbove_outline (hes e List.mem_cons_self) _)
  | e :: es, e' :: es', below, below', hes, hes', habove, habove', h => by
    obtain ⟨he, hrest⟩ := List.forall_mem_cons.1 hes
    obtain ⟨he', hrest'⟩ := List.forall_mem_cons.1 hes'
    simp only [Element.outlineList_cons, List.append_assoc] at h
    obtain ⟨rfl, hbeside⟩ := Element.outline_append_inj depth e e' _ _ he he'
      (beginsAbove_succ_outlineList hrest habove) (beginsAbove_succ_outlineList hrest' habove') h
    obtain ⟨rfl, rfl⟩ := Element.outlineList_append_inj depth es es' below below' hrest hrest'
      habove habove' hbeside
    exact ⟨rfl, rfl⟩

end

-- ============================================================================
-- Documents
-- ============================================================================

/-- The text of an outline has the lines of the outline and no others. -/
theorem outlineText_lines {es : List Element} (h : ∀ e ∈ es, e.WellFormed) :
    (outlineText es).toList.splitOn '\n' = Element.outlineList 0 es ++ [[]] := by
  rw [outlineText, String.toList_ofList]
  exact Text.splitOn_endLines (outlineList_unbroken 0 h)

/-- Well-formed elements with the same outline are the same. -/
theorem outlineText_inj {es es' : List Element} (h : ∀ e ∈ es, e.WellFormed)
    (h' : ∀ e ∈ es', e.WellFormed) (hsame : outlineText es = outlineText es') : es = es' := by
  have hlines : Element.outlineList 0 es ++ [[]] = Element.outlineList 0 es' ++ [[]] := by
    rw [← outlineText_lines h, ← outlineText_lines h', hsame]
  have hnone : BeginsAbove 0 [] := by simp [BeginsAbove]
  have hsame := List.append_cancel_right hlines
  rw [← List.append_nil (Element.outlineList 0 es),
    ← List.append_nil (Element.outlineList 0 es')] at hsame
  exact (Element.outlineList_append_inj 0 es es' [] [] h h' hnone hnone hsame).1

theorem DocumentText.wellFormed {w : List Char} {es : List Element} (h : DocumentText w es) :
    ∀ e ∈ es, e.WellFormed := by
  induction h with
  | blanks => exact List.forall_mem_nil _
  | element _ hw _ ih => exact List.forall_mem_cons.2 ⟨hw.wellFormed, ih⟩

/-- Whatever is read as a document has well-formed elements. -/
theorem document_matched_wellFormed {inp rest : Input} {es : List Element}
    {scopes scopes' : Scopes} (h : parser (document .element) inp scopes =
      some (.matched rest es, scopes')) : ∀ e ∈ es, e.WellFormed :=
  (((parser_document_decides inp).matched_iff scopes es rest).1 ⟨scopes', h⟩).2.wellFormed

/-- Two texts that are read as documents and have the same outline hold the same elements. -/
theorem outline_determines_document {inp inp' rest rest' : Input} {es es' : List Element}
    {scopes scopes' after after' : Scopes}
    (h : parser (document .element) inp scopes = some (.matched rest es, after))
    (h' : parser (document .element) inp' scopes' = some (.matched rest' es', after'))
    (hsame : outlineText es = outlineText es') : es = es' :=
  outlineText_inj (document_matched_wellFormed h) (document_matched_wellFormed h') hsame

/-- A document and another way to write it, with a value that holds what looks like the line of
    another element. -/
theorem determined_of_line_inside :
    parser (document .element) (.ofString "<a k=\"v\\\n  b x=\"><b/></a>") [] =
      some (.matched (.ofChars []) [⟨"a", [("k", "v\\\n  b x=")], [⟨"b", [], []⟩]⟩], []) ∧
    parser (document .element) (.ofString "\n<a\tk=\"v\\\n  b x=\"><b></b></a> ") [] =
      some (.matched (.ofChars []) [((Element.named "a").withAttribute "k" "v\\\n  b x=").withChild
        (.named "b")], []) ∧
    [⟨"a", [("k", "v\\\n  b x=")], [⟨"b", [], []⟩]⟩] =
      [((Element.named "a").withAttribute "k" "v\\\n  b x=").withChild (.named "b")] := by
  have h : parser (document .element) (.ofString "<a k=\"v\\\n  b x=\"><b/></a>") [] =
      some (.matched (.ofChars []) [⟨"a", [("k", "v\\\n  b x=")], [⟨"b", [], []⟩]⟩], []) := by
    decide +kernel
  have h' : parser (document .element) (.ofString "\n<a\tk=\"v\\\n  b x=\"><b></b></a> ") [] =
      some (.matched (.ofChars []) [((Element.named "a").withAttribute "k" "v\\\n  b x=").withChild
        (.named "b")], []) := by
    decide +kernel
  exact ⟨h, h', outline_determines_document h h' (by decide +kernel)⟩

end Descent.Markup
