/-
  Descent.Proofs.Markup.Accepts

  The parser of elements accepts the texts that denote elements, whatever follows them, and nothing
  else.

  The induction is on how deep the symbol of the language may still be nested.  An element inside
  another one begins at least three bytes further on, behind `<`, a letter or digit of the name and
  `>`, so inputs shorter than three bytes for each level are all that can be met.  One level is
  an ordered choice: the parser looks for an opening tag only where no tag closes itself, and a tag
  ends in one way only, so the order does not matter.
-/
import Descent.Proofs.Markup.Tags

namespace Descent.Markup

open Lexical (IsName)

variable {N : Type → Type} {attempts : Nat} {inp : Input}

-- ============================================================================
-- One level
-- ============================================================================

section Level

variable {call : {α : Type} → N α → Parser α} {self : N Element}

/-- Behind an opening tag the input is at least three bytes shorter. -/
theorem openTag_size {mid : Input} {tag : String × List (String × String)}
    (h : Begins TagText inp.chars tag ('>' :: mid.chars)) : mid.size + 3 ≤ inp.size := by
  obtain ⟨t, ht, hinp⟩ := h
  obtain ⟨c, cs, rfl, -⟩ := ht.head
  have hsize : inp.size = utf8Length ('<' :: c :: cs ++ ['>']) + mid.size :=
    Input.size_eq_add (by rw [hinp, List.append_assoc]; rfl)
  have hlength := length_le_utf8Length ('<' :: c :: cs ++ ['>'])
  simp only [List.length_append, List.length_cons, List.length_nil] at hlength
  omega

/-- Children are taken until no element follows. -/
theorem children_decides (ha : inp.size < attempts)
    (hcall : ∀ inp' : Input, inp'.size ≤ inp.size →
      (call self).Decides inp' (Begins Denotes inp'.chars) fun _ => True) :
    (((Grammar.symbol self).repeated Bounds.free).eval attempts call).Decides inp
      (fun es cs => Begins (Texts Denotes) inp.chars es cs ∧ ∀ e ds, ¬ Begins Denotes cs e ds)
      fun _ => True := by
  have hconsuming : Consuming (Begins Denotes) := consuming_begins fun w e hw => hw.ne_nil
  refine (Grammar.repeated_decides (g := .symbol self) (b := Bounds.free) (G := fun _ _ => True)
    hconsuming ha hcall trivial fun _ _ => trivial).congr ?_ fun _ h => h
  intro es cs
  rw [gathered_begins_iff (b := Bounds.free) rfl]
  exact ⟨fun h => ⟨h, Nat.zero_le _⟩, fun h => h.1⟩

/-- What is inside an element and the tag that closes it.  The children end there, since a closing
    tag is no element. -/
theorem content_decides (name : String) (ha : inp.size < attempts)
    (hcall : ∀ inp' : Input, inp'.size ≤ inp.size →
      (call self).Decides inp' (Begins Denotes inp'.chars) fun _ => True) :
    ((((Grammar.symbol self).repeated Bounds.free).both
      ((closeElement name).marked "close_element")).eval attempts call).Decides inp
      (fun c cs => c.2 = name ∧ IsName name ∧ ∃ w, Texts Denotes w c.1 ∧
        inp.chars = w ++ ['<', '/'] ++ name.toList ++ '>' :: cs) fun _ => True := by
  refine (Grammar.both_decides
    (U := fun ds s cs => s = name ∧ IsName name ∧ ds = ['<', '/'] ++ name.toList ++ '>' :: cs)
    (children_decides ha hcall) fun es mid hes => ?_).congr ?_ fun _ h => h
  · obtain ⟨⟨w, -, hinp⟩, -⟩ := hes
    have hsize : mid.size ≤ inp.size := Input.size_le_of_append hinp
    exact Grammar.marked_decides _ (closeElement_decides name (by omega))
      fun s cs hclose => closeTag_suffix hclose.2.2
  intro c cs
  refine ⟨fun h => ?_, fun h => ?_⟩
  · obtain ⟨hc, hname, w, hw, hinp⟩ := h
    exact ⟨['<', '/'] ++ name.toList ++ '>' :: cs,
      ⟨⟨w, hw, by rw [hinp]; simp only [List.append_assoc]⟩, not_begins_close⟩, hc, hname, rfl⟩
  · obtain ⟨mid, ⟨⟨w, hw, hinp⟩, -⟩, hc, hname, rfl⟩ := h
    exact ⟨hc, hname, w, hw, by rw [hinp]; simp only [List.append_assoc]⟩

theorem parentElement_decides (ha : inp.size < attempts)
    (hcall : ∀ inp' : Input, inp'.size + 3 ≤ inp.size →
      (call self).Decides inp' (Begins Denotes inp'.chars) fun _ => True) :
    ((parentElement self).eval attempts call).Decides inp
      (fun e cs => ∃ w, Texts Denotes w e.children ∧
        Begins TagText inp.chars (e.name, e.attributes)
          ('>' :: (w ++ ['<', '/'] ++ e.name.toList ++ '>' :: cs))) fun _ => True := by
  refine (Grammar.andThen_decides
    (U := fun tag ds (e : Element) cs => e.name = tag.1 ∧ e.attributes = tag.2 ∧ IsName tag.1 ∧
      ∃ w, Texts Denotes w e.children ∧ ds = w ++ ['<', '/'] ++ tag.1.toList ++ '>' :: cs)
    (openElement_decides ha) fun tag mid htag => ?_).congr ?_ fun _ h => h
  · have hsize := openTag_size htag
    obtain ⟨name, attributes⟩ := tag
    refine (Grammar.map_decides _ (content_decides name (by omega)
      fun inp' hinp' => hcall inp' (by omega))).congr ?_ fun _ h => h
    intro e cs
    refine ⟨fun h => ?_, fun h => ?_⟩
    · obtain ⟨rfl, rfl, hname, w, hw, hmid⟩ := h
      exact ⟨(e.children, e.name), ⟨rfl, hname, w, hw, hmid⟩, by cases e; rfl⟩
    · obtain ⟨⟨children, closing⟩, ⟨hclosing, hname, w, hw, hmid⟩, rfl⟩ := h
      obtain rfl : closing = name := hclosing
      exact ⟨rfl, rfl, hname, w, hw, hmid⟩
  intro e cs
  refine ⟨fun h => ?_, fun h => ?_⟩
  · obtain ⟨w, hw, t, ht, hinp⟩ := h
    have hname : IsName e.name := by
      cases ht with
      | mk hname _ => exact hname
    exact ⟨(e.name, e.attributes), _, ⟨t, ht, hinp⟩, rfl, rfl, hname, w, hw, rfl⟩
  · obtain ⟨⟨name, attributes⟩, mid, htag, rfl, rfl, -, w, hw, rfl⟩ := h
    exact ⟨w, hw, htag⟩

/-- An element begins where a tag that closes itself begins, or an opening tag with what belongs
    to it. -/
theorem begins_denotes_iff {cs rest : List Char} {e : Element} :
    Begins Denotes cs e rest ↔
      (∃ tag, e = ⟨tag.1, tag.2, []⟩ ∧ Begins TagText cs tag ('/' :: '>' :: rest)) ∨
      ∃ w, Texts Denotes w e.children ∧ Begins TagText cs (e.name, e.attributes)
        ('>' :: (w ++ ['<', '/'] ++ e.name.toList ++ '>' :: rest)) := by
  refine ⟨fun h => ?_, fun h => ?_⟩
  · obtain ⟨w, hw, rfl⟩ := h
    cases hw with
    | @single t name attributes ht =>
      exact .inl ⟨(name, attributes), rfl, t, ht, by simp only [List.append_assoc]; rfl⟩
    | @parent t w name attributes children ht hw =>
      exact .inr ⟨w, hw, t, ht, by simp⟩
  · rcases h with ⟨tag, rfl, t, ht, rfl⟩ | ⟨w, hw, t, ht, rfl⟩
    · exact ⟨_, .single ht, by simp⟩
    · obtain ⟨name, attributes, children⟩ := e
      exact ⟨_, .parent ht hw, by simp⟩

/-- One level of the language inside its mark: if the symbol stands for elements further on, then
    the choice between the two kinds of elements is one of elements here. -/
theorem singleOrParent_decides (ha : inp.size < attempts)
    (hcall : ∀ inp' : Input, inp'.size + 3 ≤ inp.size →
      (call self).Decides inp' (Begins Denotes inp'.chars) fun _ => True) :
    ((singleElement.or (parentElement self)).eval attempts call).Decides inp
      (Begins Denotes inp.chars) fun _ => True := by
  have hchoice := Grammar.or_decides (singleElement_decides ha)
    fun _ => parentElement_decides ha hcall
  refine Parser.Decides.congr hchoice (fun e cs => ?_) fun _ h => h
  rw [begins_denotes_iff]
  refine or_congr_right ⟨fun h => ⟨?_, h⟩, fun h => h.2⟩
  -- The second alternative holds only where the first one allows nothing.
  rintro e' ds ⟨tag, rfl, hsingle⟩
  obtain ⟨w, hw, hopen⟩ := h
  exact tag_end_unique hsingle hopen

theorem element_decides (ha : inp.size < attempts)
    (hcall : ∀ inp' : Input, inp'.size + 3 ≤ inp.size →
      (call self).Decides inp' (Begins Denotes inp'.chars) fun _ => True) :
    ((element self).eval attempts call).Decides inp (Begins Denotes inp.chars) fun _ => True :=
  Grammar.marked_decides "element" (singleOrParent_decides ha hcall) fun _ _ => Begins.suffix

end Level

-- ============================================================================
-- All levels
-- ============================================================================

/-- Where a symbol stands for the grammar of elements, running it decides which elements there are,
    as long as it may be nested once for every three bytes. -/
theorem call_decides {σ : Type 1} {book : Rulebook N σ} {self : N Element}
    (hself : ∀ state, book.resolve state self = .ok (element self, state)) (nesting : Nat)
    (state : σ) (ha : inp.size < attempts) (hn : inp.size < 3 * nesting) :
    Parser.Decides (book.call attempts nesting state self) inp (Begins Denotes inp.chars)
      fun _ => True := by
  induction nesting generalizing inp with
  | zero => omega
  | succ nesting ih =>
    have h : ((element self).eval attempts fun n => book.call attempts nesting state n).Decides inp
        (Begins Denotes inp.chars) fun _ => True :=
      element_decides ha fun inp' hinp' => ih (by omega) (by omega)
    intro scopes
    obtain ⟨reply, scopes', hrun, hr⟩ := h scopes
    exact ⟨reply, scopes', by rw [Rulebook.call, hself]; exact hrun, hr⟩

/-- The parser of elements always answers, and decides which elements an input begins with. -/
theorem parser_element_decides (inp : Input) :
    (parser (element .element)).Decides inp (Begins Denotes inp.chars) fun _ => True := by
  have h : ((element Symbol.element).eval (inp.size + 1) fun n =>
      rulebook.call (inp.size + 1) (inp.size / 3 + 1) ⟨⟩ n).Decides inp
      (Begins Denotes inp.chars) fun _ => True :=
    element_decides (Nat.lt_succ_self _) fun inp' hinp' =>
      call_decides (fun _ => rfl) (inp.size / 3 + 1) _ (by omega) (by omega)
  intro scopes
  obtain ⟨reply, scopes', hrun, hr⟩ := h scopes
  exact ⟨reply, scopes', hrun, hr⟩

/-- The parser of elements accepts exactly its language: it matches with an element and a rest if
    and only if the input is a text that denotes the element with this rest behind it. -/
theorem element_matched_iff (inp rest : Input) (e : Element) (scopes : Scopes) :
    (∃ scopes', parser (element .element) inp scopes = some (.matched rest e, scopes')) ↔
      ∃ w, Denotes w e ∧ inp.chars = w ++ rest.chars :=
  (parser_element_decides inp).matched_iff scopes e rest

end Descent.Markup
