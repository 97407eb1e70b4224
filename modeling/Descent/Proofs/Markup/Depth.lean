/-
  Descent.Proofs.Markup.Depth

  How deep the parser of elements runs itself.  Every grammar of the language returns on every text,
  and the bytes of the text say within which limits.  What carries this is where a run gets to an
  element inside another one: a self-closing tag has no elements inside, so the only way leads
  behind an opening tag, which takes three bytes, and from there a repetition only moves forward.
  Nothing is said of what comes of the run, so a malformed text takes no more than any other.
-/
import Descent.Proofs.Attempts
import Descent.Proofs.Markup.Documents
import Descent.Proofs.Places

namespace Descent

/-- A run that decides returns. -/
theorem Parser.Decides.returns {α : Type} {p : Parser α} {inp : Input}
    {T : α → List Char → Prop} {F : List Char → Prop} (h : p.Decides inp T F) : p.Returns inp := by
  intro scopes
  obtain ⟨reply, scopes', hrun, hr⟩ := h scopes
  refine ⟨reply, scopes', hrun, fun m hm => ?_⟩
  rw [hm] at hr
  exact hr

namespace Markup

/-- The grammars of the language. -/
inductive IsPart : {α : Type} → Grammar Symbol α → Prop
  | attributePair : IsPart attributePair
  | attributes : IsPart attributes
  | elementStart : IsPart elementStart
  | singleElement : IsPart singleElement
  | openElement : IsPart openElement
  | closeElement (name : String) : IsPart (closeElement name)
  | parentElement : IsPart (parentElement .element)
  | element : IsPart (element .element)
  | document : IsPart (document .element)

/-- The run of a grammar on the input, be it heard or not, runs the symbol of the language at the
    given place, in so far as limits let it get there. -/
def Invokes {α : Type} (g : Grammar Symbol α) (inp place : Input) : Prop :=
  ∃ attempts nesting traces heard loud, Grammar.Runs attempts
    (rulebook.recordCall attempts nesting ⟨⟩) (.symbol Symbol.element) loud place traces heard g inp

/-- Runs inside a run of the grammar: its own is the outermost one, at depth 1, and each run of an
    element that it invokes is one deeper, with all runs inside. -/
inductive Invoked : {α : Type} → Grammar Symbol α → Input → Nat → Input → Prop
  | outermost {α : Type} {g : Grammar Symbol α} {inp : Input} : Invoked g inp 1 inp
  | inside {α : Type} {g : Grammar Symbol α} {inp mid place : Input} {depth : Nat}
      (hmid : Invokes g inp mid) (h : Invoked (Markup.element .element) mid depth place) :
      Invoked g inp (depth + 1) place

section Runs

variable {α : Type} {g : Grammar Symbol α} {inp place : Input}

-- ============================================================================
-- Runs return
-- ============================================================================

/-- Each grammar of the language returns within limits that the length of the input gives. -/
theorem IsPart.returns (hg : IsPart g) (inp : Input) :
    (rulebook.parser ⟨inp.size + 1, inp.size / 3⟩ ⟨⟩ g).Returns inp := by
  have hattempts : inp.size < inp.size + 1 := Nat.lt_succ_self _
  have hcall (inp' : Input) (hinp' : inp'.size + 3 ≤ inp.size) :
      (rulebook.call (inp.size + 1) (inp.size / 3) ⟨⟩ Symbol.element).Decides inp'
        (Begins Denotes inp'.chars) fun _ => True :=
    call_decides (fun _ => rfl) _ _ (by omega) (by omega)
  cases hg with
  | attributePair => exact (attributePair_decides hattempts).returns
  | attributes => exact (attributes_decides hattempts).returns
  | elementStart => exact (elementStart_decides hattempts).returns
  | singleElement => exact (singleElement_decides hattempts).returns
  | openElement => exact (openElement_decides hattempts).returns
  | closeElement name => exact (closeElement_decides name hattempts).returns
  | parentElement => exact (parentElement_decides hattempts hcall).returns
  | element => exact (element_decides hattempts hcall).returns
  | document => exact (document_decides hattempts hcall).returns

-- ============================================================================
-- Where elements are run
-- ============================================================================

section Guarded

variable {attempts nesting : Nat}

/-- An opening tag takes three bytes. -/
theorem openElement_takes (heard : Bool) :
    ((openElement : Grammar Symbol _).record attempts
      (rulebook.recordCall attempts nesting ⟨⟩) heard).Takes 3 := by
  intro inp mid tag w hrecord
  -- What is recorded within few attempts is recorded within many.
  have hmany : (openElement : Grammar Symbol _).record (attempts + (inp.size + 1))
      (rulebook.recordCall attempts nesting ⟨⟩) heard inp = some (.matched mid tag, w) :=
    Grammar.record_below (Nat.le_add_right _ _) (fun n heard => .refl _) openElement heard inp _
      hrecord
  obtain ⟨scopes, scopes', hrun⟩ := (Grammar.eval_records
    (fun n => rulebook.call_records attempts nesting ⟨⟩ n) openElement).exists_run hmany
  have htag := ((openElement_decides (by omega)).matched_iff scopes tag mid).1 ⟨scopes', hrun⟩
  exact openTag_size htag

theorem parentElement_guarded :
    (parentElement Symbol.element).Guarded attempts (rulebook.recordCall attempts nesting ⟨⟩) 3 :=
  ⟨openElement_over.guarded 3, .inl openElement_takes⟩

theorem element_guarded :
    (element Symbol.element).Guarded attempts (rulebook.recordCall attempts nesting ⟨⟩) 3 :=
  ⟨singleElement_over.guarded 3, parentElement_guarded⟩

theorem document_guarded :
    (document Symbol.element).Guarded attempts (rulebook.recordCall attempts nesting ⟨⟩) 3 :=
  ⟨trivial, .inr fun _ => ⟨⟨element_guarded, .inr fun _ => trivial⟩, .inr fun _ => trivial⟩⟩

/-- In every grammar of the language three bytes at least are in front of an element that is run by
    its symbol. -/
theorem IsPart.guarded (hg : IsPart g) :
    g.Guarded attempts (rulebook.recordCall attempts nesting ⟨⟩) 3 := by
  cases hg with
  | attributePair => exact attributePair_over.guarded 3
  | attributes => exact attributes_over.guarded 3
  | elementStart => exact elementStart_over.guarded 3
  | singleElement => exact singleElement_over.guarded 3
  | openElement => exact openElement_over.guarded 3
  | closeElement name => exact (closeElement_over name).guarded 3
  | parentElement => exact parentElement_guarded
  | element => exact element_guarded
  | document => exact document_guarded

theorem IsPart.honest (hg : IsPart g) : g.Honest := by
  cases hg with
  | attributePair => exact attributePair_over
  | attributes => exact attributes_over
  | elementStart => exact elementStart_over
  | singleElement => exact singleElement_over
  | openElement => exact openElement_over
  | closeElement name => exact closeElement_over name
  | parentElement => exact parentElement_over trivial
  | element => exact element_over trivial
  | document => exact document_over trivial

end Guarded

/-- Whatever comes of the run of a grammar, it runs elements on ends of the input that are at least
    three bytes shorter. -/
theorem IsPart.invokes (hg : IsPart g) (h : Invokes g inp place) :
    place.chars <:+ inp.chars ∧ place.size + 3 ≤ inp.size := by
  obtain ⟨attempts, nesting, traces, heard, loud, hruns⟩ := h
  have hcall : Grammar.FaithfulCalls (fun n => rulebook.call attempts nesting ⟨⟩ n)
      fun n => rulebook.recordCall attempts nesting ⟨⟩ n :=
    Rulebook.faithfulCalls rulebook_honest attempts nesting trivial
  exact ⟨hruns.within hcall hg.honest, hruns.size_add_le hcall hg.honest hg.guarded⟩

/-- Runs are on ends of the input, and each level takes three bytes. -/
theorem Invoked.within {depth : Nat} (h : Invoked g inp depth place) (hg : IsPart g) :
    place.chars <:+ inp.chars ∧ place.size + 3 * depth ≤ inp.size + 3 := by
  induction h with
  | outermost => exact ⟨List.suffix_refl _, by omega⟩
  | inside hmid _ ih =>
    obtain ⟨hsuffix, hsize⟩ := hg.invokes hmid
    obtain ⟨hplace, hinside⟩ := ih .element
    exact ⟨hplace.trans hsuffix, by omega⟩

end Runs

/-- Every grammar of the language gives one reply on every input, with all attempts and nesting that
    an input of this length can need and with more, whatever scopes are open, and is not given up.
    In the run, be it one that fails, an element inside another one is run on an end of what the
    other one is run on, at least three bytes shorter.  So it is no deeper than one level for every
    three bytes and the outermost one. -/
theorem markup_returns_at_bounded_depth {α : Type} (g : Grammar Symbol α) (inp : Input)
    (hg : IsPart g) :
    (∃ reply, (∀ m, reply ≠ .aborted m) ∧ ∀ limits : Limits, inp.size < limits.attempts →
      inp.size / 3 ≤ limits.nesting → ∀ scopes, ∃ scopes',
        rulebook.parser limits ⟨⟩ g inp scopes = some (reply, scopes')) ∧
    (∀ place, Invokes g inp place → place.chars <:+ inp.chars ∧ place.size + 3 ≤ inp.size) ∧
    ∀ depth mid, Invoked g inp depth mid → mid.chars <:+ inp.chars ∧ depth ≤ inp.size / 3 + 1 ∧
      ∀ place, Invokes (element .element) mid place →
        place.chars <:+ mid.chars ∧ place.size + 3 ≤ mid.size := by
  refine ⟨?_, fun place h => hg.invokes h, fun depth mid hmid => ?_⟩
  · obtain ⟨reply, hreply, hrun⟩ := Rulebook.exists_reply (hg.returns inp)
    refine ⟨reply, hreply, fun limits hattempts hnesting scopes => ?_⟩
    exact hrun limits hattempts hnesting scopes
  · obtain ⟨hsuffix, hsize⟩ := hmid.within hg
    exact ⟨hsuffix, by omega, fun place h => IsPart.element.invokes h⟩

/-- An opening tag alone: nothing follows it, and yet an element is looked for there, at the
    greatest depth that three bytes allow. -/
theorem markup_returns_at_bounded_depth_of_tag :
    Invoked (element .element) (.ofString "<a>") 2 (.ofString "") ∧ 2 ≤ 3 / 3 + 1 ∧
      ∃ reply, (∀ m, reply ≠ .aborted m) ∧ ∀ scopes, ∃ scopes',
        rulebook.parser ⟨4, 1⟩ ⟨⟩ (element .element) (.ofString "<a>") scopes =
          some (reply, scopes') := by
  have hsingle : (singleElement : Grammar Symbol Element).record 4 (rulebook.recordCall 4 1 ⟨⟩)
      false (.ofString "<a>") = some (.failed ⟨.ofString ">"⟩, []) := by decide +kernel
  have hopen : (openElement : Grammar Symbol _).record 4 (rulebook.recordCall 4 1 ⟨⟩)
      false (.ofString "<a>") = some (.matched (.ofString "") ("a", []), []) := by decide +kernel
  have hinvokes : Invokes (element .element) (.ofString "<a>") (.ofString "") :=
    ⟨4, 1, 0, false, false, .wrapped _ (.marked _ (.orRight hsingle (.next hopen (.map _ (.first
      (.repeated (.now rfl) .here))))))⟩
  have hinvoked : Invoked (element .element) (.ofString "<a>") 2 (.ofString "") :=
    .inside hinvokes .outermost
  obtain ⟨⟨reply, hreply, hrun⟩, -, hdepth⟩ :=
    markup_returns_at_bounded_depth (element .element) (.ofString "<a>") .element
  exact ⟨hinvoked, (hdepth 2 _ hinvoked).2.1, reply, hreply,
    hrun ⟨4, 1⟩ (by decide +kernel) (by decide +kernel)⟩

end Markup

end Descent
