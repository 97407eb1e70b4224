/-
  Descent.Proofs.Markup.Rendering

  Writing an element and reading it again.  Nothing is escaped, so a written element is read back
  exactly if its names and keys are names and no value holds a double quote, all the way down.
  Such an element is written as one of the texts that denote it, whatever else its values hold.
  Conversely every text that denotes an element denotes a well-formed one, so nothing else is ever
  read.
-/
import Descent.Parser.Mode
import Descent.Proofs.Markup.Accepts

namespace Descent.Markup

open Lexical (IsName)

/-- The names and keys of an element are names, and its values hold no double quote. -/
inductive Element.WellFormed : Element → Prop
  | mk {name : String} {attributes : List (String × String)} {children : List Element}
      (hname : IsName name) (hattributes : ∀ a ∈ attributes, IsName a.1 ∧ '"' ∉ a.2.toList)
      (hchildren : ∀ c ∈ children, c.WellFormed) : WellFormed ⟨name, attributes, children⟩

theorem Element.wellFormed_iff {name : String} {attributes : List (String × String)}
    {children : List Element} :
    Element.WellFormed ⟨name, attributes, children⟩ ↔
      IsName name ∧ (∀ a ∈ attributes, IsName a.1 ∧ '"' ∉ a.2.toList) ∧
        ∀ c ∈ children, c.WellFormed := by
  refine ⟨fun h => ?_, fun h => ?_⟩
  · obtain ⟨hname, hattributes, hchildren⟩ := h
    exact ⟨hname, hattributes, hchildren⟩
  · obtain ⟨hname, hattributes, hchildren⟩ := h
    exact .mk hname hattributes hchildren

mutual

def Element.decWellFormed : (e : Element) → Decidable e.WellFormed
  | ⟨_, _, children⟩ =>
    have := Element.decWellFormedList children
    decidable_of_iff _ Element.wellFormed_iff.symm

def Element.decWellFormedList : (es : List Element) → Decidable (∀ e ∈ es, e.WellFormed)
  | [] => .isTrue (List.forall_mem_nil _)
  | e :: es =>
    have := Element.decWellFormed e
    have := Element.decWellFormedList es
    decidable_of_iff _ List.forall_mem_cons.symm

end

instance (e : Element) : Decidable e.WellFormed := e.decWellFormed

/-! ## Written elements denote themselves -/

theorem texts_attributeChars {attributes : List (String × String)}
    (h : ∀ a ∈ attributes, IsName a.1 ∧ '"' ∉ a.2.toList) :
    Texts AttributeText (attributes.flatMap attributeChars) attributes := by
  induction attributes with
  | nil => exact .nil
  | cons a as ih =>
    obtain ⟨key, value⟩ := a
    obtain ⟨hkey, hvalue⟩ := h (key, value) List.mem_cons_self
    have hblank : ∀ c ∈ [' '], Text.isBlank c = true := List.forall_mem_singleton.2 rfl
    rw [List.flatMap_cons]
    exact .cons (.mk (List.cons_ne_nil _ _) hblank hkey hvalue)
      (ih fun a ha => h a (List.mem_cons_of_mem _ ha))

theorem tagText_tagChars {name : String} {attributes : List (String × String)}
    (hname : IsName name) (h : ∀ a ∈ attributes, IsName a.1 ∧ '"' ∉ a.2.toList) :
    TagText (tagChars name attributes) (name, attributes) :=
  .mk hname (texts_attributeChars h)

-- Along the element and its children.

mutual

theorem Element.WellFormed.denotes : {e : Element} → e.WellFormed → Denotes e.chars e
  | ⟨name, attributes, []⟩, .mk hname hattributes _ => by
    rw [Element.chars_single]
    exact .single (tagText_tagChars hname hattributes)
  | ⟨name, attributes, child :: children⟩, .mk hname hattributes hchildren => by
    rw [Element.chars_parent]
    have hw : Texts Denotes (Element.charsList (child :: children)) (child :: children) :=
      texts_charsList hchildren
    exact .parent (tagText_tagChars hname hattributes) hw

theorem texts_charsList : {es : List Element} → (∀ e ∈ es, e.WellFormed) →
    Texts Denotes (Element.charsList es) es
  | [], _ => .nil
  | e :: es, h => by
    have he : Denotes e.chars e := (h e List.mem_cons_self).denotes
    have hes : Texts Denotes (Element.charsList es) es :=
      texts_charsList fun e' he' => h e' (List.mem_cons_of_mem _ he')
    rw [Element.charsList_cons]
    exact .cons he hes

end

/-! ## Denoted elements are well-formed -/

theorem texts_attributes_wellFormed {w : List Char} {attributes : List (String × String)}
    (h : Texts AttributeText w attributes) :
    ∀ a ∈ attributes, IsName a.1 ∧ '"' ∉ a.2.toList := by
  induction h with
  | nil => exact List.forall_mem_nil _
  | cons hv _ ih =>
    cases hv with
    | mk hne hblanks hkey hvalue => exact List.forall_mem_cons.2 ⟨⟨hkey, hvalue⟩, ih⟩

theorem TagText.wellFormed {t : List Char} {name : String} {attributes : List (String × String)}
    {children : List Element} (h : TagText t (name, attributes))
    (hchildren : ∀ c ∈ children, c.WellFormed) :
    Element.WellFormed ⟨name, attributes, children⟩ := by
  cases h with
  | mk hname hattributes =>
    exact .mk hname (texts_attributes_wellFormed hattributes) hchildren

mutual

theorem Denotes.wellFormed : {e : Element} → {w : List Char} → Denotes w e → e.WellFormed
  | ⟨name, attributes, children⟩, _, h => by
    cases h with
    | single ht => exact ht.wellFormed (List.forall_mem_nil _)
    | parent ht hw => exact ht.wellFormed (texts_denotes_wellFormed hw)

theorem texts_denotes_wellFormed : {es : List Element} → {w : List Char} → Texts Denotes w es →
    ∀ e ∈ es, e.WellFormed
  | [], _, _ => List.forall_mem_nil _
  | _ :: _, _, .cons he hes => List.forall_mem_cons.2 ⟨he.wellFormed, texts_denotes_wellFormed hes⟩

end

/-! ## Reading back -/

/-- A complete start gives a value exactly if the parser matches with it and nothing is left. -/
theorem start_complete_matched_iff {α : Type} {p : Parser α} {inp : Input} {scopes : Scopes}
    {value : α} :
    (∃ rest report scopes', p.start .complete inp scopes = some (report, scopes') ∧
      report.reply = .matched rest value) ↔
      ∃ scopes', p inp scopes = some (.matched (.ofChars []) value, scopes') := by
  refine ⟨fun h => ?_, fun h => ?_⟩
  · obtain ⟨rest, report, scopes', hrun, hreply⟩ := h
    obtain ⟨⟨reply, scopes''⟩, hp, hreport⟩ := Option.map_eq_some_iff.1 hrun
    obtain ⟨rfl, rfl⟩ := Prod.mk.inj hreport
    have hcomplete : reply.complete = .matched rest value := hreply
    cases reply with
    | matched rest' value' =>
      rw [Reply.complete] at hcomplete
      split at hcomplete
      · next hempty =>
        have hrest : rest' = .ofChars [] := Input.ext (List.isEmpty_iff.1 hempty)
        obtain ⟨-, rfl⟩ := Reply.matched.inj hcomplete
        exact ⟨scopes'', by rw [hp, hrest]⟩
      · cases hcomplete
    | failed e | aborted m => cases hcomplete
  · obtain ⟨scopes', hp⟩ := h
    exact ⟨.ofChars [], ⟨.matched (.ofChars []) value, none, ""⟩, scopes',
      by rw [Parser.start, hp]; rfl, rfl⟩

/-- Reading the whole of a text gives an element exactly if the text denotes it. -/
theorem complete_matched_iff (inp : Input) (e : Element) (scopes : Scopes) :
    (∃ rest report scopes', (parser (element .element)).start .complete inp scopes =
      some (report, scopes') ∧ report.reply = .matched rest e) ↔ Denotes inp.chars e := by
  rw [start_complete_matched_iff, (parser_element_decides inp).matched_iff]
  refine ⟨fun h => ?_, fun h => ?_⟩
  · obtain ⟨w, hw, hinp⟩ := h
    rw [hinp, Input.chars_ofChars, List.append_nil]
    exact hw
  · exact ⟨inp.chars, h, (List.append_nil _).symm⟩

/-- A well-formed element is read back from what is written for it, whatever follows; reading the
    whole of a written element gives the element if and only if it is well-formed; and no other
    elements are read from anything. -/
theorem wellFormed_iff_reads_back (e : Element) :
    (e.WellFormed → ∀ (tail : String) (scopes : Scopes), ∃ scopes',
      parser (element .element) (.ofString (e.render ++ tail)) scopes =
        some (.matched (.ofString tail) e, scopes')) ∧
    (∀ scopes : Scopes, (∃ rest report scopes',
      (parser (element .element)).start .complete (.ofString e.render) scopes =
        some (report, scopes') ∧ report.reply = .matched rest e) ↔ e.WellFormed) ∧
    (∀ inp rest scopes scopes', parser (element .element) inp scopes =
      some (.matched rest e, scopes') → e.WellFormed) := by
  refine ⟨fun he tail scopes => ?_, fun scopes => ⟨fun h => ?_, fun he => ?_⟩,
    fun inp rest scopes scopes' h => ?_⟩
  · have hchars : (Input.ofString (e.render ++ tail)).chars = e.chars ++ tail.toList := by
      simp [Input.ofString, Element.render]
    exact ((parser_element_decides _).matched_iff scopes e (.ofString tail)).2
      ⟨e.chars, he.denotes, hchars⟩
  · exact ((complete_matched_iff _ e scopes).1 h).wellFormed
  · have hchars : (Input.ofString e.render).chars = e.chars := by
      simp [Input.ofString, Element.render]
    exact (complete_matched_iff _ e scopes).2 (hchars ▸ he.denotes)
  · obtain ⟨w, hw, -⟩ := ((parser_element_decides inp).matched_iff scopes e rest).1 ⟨scopes', h⟩
    exact hw.wellFormed

/-- An element whose values hold markup is read back with text behind it, and what is read from
    another way of writing it is well-formed too. -/
theorem reads_back_of_markup_inside :
    Element.WellFormed ⟨"a", [("k", "</a>"), ("k", "/>\n")], [⟨"b1", [], []⟩]⟩ ∧
    (∃ scopes', parser (element .element)
      (.ofString (Element.render ⟨"a", [("k", "</a>"), ("k", "/>\n")], [⟨"b1", [], []⟩]⟩ ++ "</a>"))
        [] = some (.matched (.ofString "</a>")
          ⟨"a", [("k", "</a>"), ("k", "/>\n")], [⟨"b1", [], []⟩]⟩, scopes')) ∧
    Element.WellFormed ⟨"a", [("k", ">")], [⟨"b", [], []⟩]⟩ := by
  have he : Element.WellFormed ⟨"a", [("k", "</a>"), ("k", "/>\n")], [⟨"b1", [], []⟩]⟩ := by
    decide +kernel
  have hrun : parser (element .element) (.ofString "<a \n k=\">\"><b></b></a>/") [] =
      some (.matched (.ofString "/") ⟨"a", [("k", ">")], [⟨"b", [], []⟩]⟩, []) := by
    decide +kernel
  exact ⟨he, (wellFormed_iff_reads_back _).1 he "</a>" [],
    (wellFormed_iff_reads_back _).2.2 _ _ [] [] hrun⟩

end Descent.Markup
