/-
  Descent.Proofs.Markup.Greedy

  Repetition in the ready-made grammars.  Six parsers are repeated in them: a blank, a letter or
  digit, a character between two delimiters, an attribute with the blanks in front, an element, and
  an element with the blanks behind it.  Each consumes on every match.  A character is consumed by
  the step that reads it, an attribute by its blanks, and an element by the first character of its
  tag, whatever comes of the elements inside.  So the check for progress never stops a run of these
  grammars, and without it they describe the same parsers.
-/
import Descent.Proofs.Markup.Depth
import Descent.Proofs.Progress

namespace Descent

-- ============================================================================
-- Grammars that consume
-- ============================================================================

section Consuming

variable {N : Type → Type} {attempts : Nat} {call : {α : Type} → N α → Parser α}

/-- The grammar describes a parser that consumes, if these parsers run its symbols. -/
abbrev Grammar.Consumes (attempts : Nat) (call : {α : Type} → N α → Parser α) {α : Type}
    (g : Grammar N α) : Prop :=
  (g.eval attempts call).Consumes

namespace Grammar

theorem any_consumes : any.Consumes attempts call := by
  refine Parser.read_consumes fun inp rest c h => ?_
  split at h
  · next hnext =>
    cases h
    exact ⟨[c], List.cons_ne_nil c [], Input.next?_eq_some_iff.1 hnext⟩
  · cases h

theorem satisfying_consumes (keep : Char → Bool) : (satisfying keep).Consumes attempts call :=
  Parser.filter_consumes keep any_consumes

theorem chars_consumes {literal : List Char} (hne : literal ≠ []) :
    (chars literal).Consumes attempts call := by
  refine Parser.read_consumes fun inp rest cs h => ?_
  split at h
  · next hstrip =>
    cases h
    exact ⟨literal, hne, Input.strip?_eq_some_iff.1 hstrip⟩
  · cases h

theorem char_consumes (c : Char) : (char c).Consumes attempts call :=
  Parser.map_consumes _ (chars_consumes (List.cons_ne_nil c []))

/-- A sequence of honest steps consumes if its first stage does. -/
theorem andThen_consumes (hcall : ∀ {α : Type} (n : N α), Parser.Faithful (call n)) {α β : Type}
    {g : Grammar N α} {next : α → Grammar N β} (h : (g.andThen next).Honest)
    (hg : g.Consumes attempts call) : (g.andThen next).Consumes attempts call := by
  refine Parser.andThen_consumes hg fun value => ?_
  have hnext : ((next value).eval attempts call).Faithful :=
    eval_faithful (fun n _ => hcall n) (h.2 value)
  exact hnext.leavesEnds

end Grammar

theorem Lexical.someBlanks_consumes : someBlanks.Consumes attempts call :=
  Parser.repeated_consumes attempts Nat.one_pos
    (Grammar.satisfying_consumes Text.isBlank).leavesEnds

namespace Markup

open Grammar (andThen_consumes)

variable (hcall : ∀ {α : Type} (n : N α), Parser.Faithful (call n))
include hcall

theorem blanksAttribute_consumes :
    (Lexical.someBlanks.skipThen attributePair).Consumes attempts call :=
  andThen_consumes hcall ⟨Grammar.any_over, fun _ => attributePair_over⟩
    Lexical.someBlanks_consumes

theorem elementStart_consumes : elementStart.Consumes attempts call :=
  andThen_consumes hcall elementStart_over (Grammar.char_consumes '<')

theorem singleElement_consumes : singleElement.Consumes attempts call :=
  Parser.map_consumes _ (andThen_consumes hcall
    ⟨elementStart_over, fun _ => Grammar.chars_over _⟩ (elementStart_consumes hcall))

theorem openElement_consumes : openElement.Consumes attempts call :=
  andThen_consumes hcall openElement_over (elementStart_consumes hcall)

variable {self : N Element}

theorem parentElement_consumes : (parentElement self).Consumes attempts call :=
  andThen_consumes hcall (parentElement_over trivial) (openElement_consumes hcall)

/-- Whatever comes of the elements inside, an element consumes the first character of its tag. -/
theorem element_consumes : (element self).Consumes attempts call :=
  Parser.marked_consumes "element"
    (Parser.or_consumes (singleElement_consumes hcall) (parentElement_consumes hcall))

theorem elementBlanks_consumes :
    ((element self).thenSkip Lexical.blanks).Consumes attempts call :=
  andThen_consumes hcall ⟨element_over trivial, fun _ => Grammar.any_over⟩ (element_consumes hcall)

end Markup

end Consuming

-- ============================================================================
-- What is repeated
-- ============================================================================

namespace Markup

/-- The grammars that are repeated in the ready-made ones. -/
inductive IsRepeated : {α : Type} → Grammar Symbol α → Prop
  | blank : IsRepeated Lexical.blank
  | nameCharacter : IsRepeated (.satisfying Char.isAlphanum)
  | innerCharacter (start finish : Char) :
      IsRepeated (.satisfying fun c => c ≠ start && c ≠ finish)
  | spacedAttribute : IsRepeated (Lexical.someBlanks.skipThen attributePair)
  | child : IsRepeated (.symbol .element)
  | spacedElement : IsRepeated ((element .element).thenSkip Lexical.blanks)

/-- The ready-made grammars: those of small pieces of text and those of the language. -/
inductive IsReady : {α : Type} → Grammar Symbol α → Prop
  | blank : IsReady Lexical.blank
  | blanks : IsReady Lexical.blanks
  | someBlanks : IsReady Lexical.someBlanks
  | identifier : IsReady Lexical.identifier
  | textBetween (start finish : Char) : IsReady (Lexical.textBetween start finish)
  | part {α : Type} {g : Grammar Symbol α} (h : IsPart g) : IsReady g

/-- Within any limits, what is repeated consumes. -/
theorem IsRepeated.consumes {α : Type} {body : Grammar Symbol α} (h : IsRepeated body)
    (limits : Limits) : (rulebook.parser limits ⟨⟩ body).Consumes := by
  have hcall (nesting : Nat) {β : Type} (n : Symbol β) :
      Parser.Faithful (rulebook.call limits.attempts nesting ⟨⟩ n) :=
    Rulebook.call_faithful rulebook_honest limits.attempts nesting trivial n
  cases h with
  | blank => exact Grammar.satisfying_consumes Text.isBlank
  | nameCharacter => exact Grammar.satisfying_consumes Char.isAlphanum
  | innerCharacter start finish => exact Grammar.satisfying_consumes _
  | spacedAttribute => exact blanksAttribute_consumes (hcall limits.nesting)
  | child =>
    -- The symbol is run as the grammar it stands for, one level further inside.
    obtain ⟨attempts, nesting⟩ := limits
    cases nesting with
    | zero => exact fun inp scopes rest value scopes' hrun => nomatch hrun
    | succ nesting => exact element_consumes (hcall nesting)
  | spacedElement => exact elementBlanks_consumes (hcall limits.nesting)

section Repeating

theorem identifier_repeating : Grammar.Repeating IsRepeated Lexical.identifier :=
  ⟨.nameCharacter, trivial⟩

theorem textBetween_repeating (start finish : Char) :
    Grammar.Repeating IsRepeated (Lexical.textBetween start finish) :=
  ⟨⟨trivial, fun _ => ⟨.innerCharacter start finish, trivial⟩⟩, fun _ => trivial⟩

theorem attributePair_repeating : Grammar.Repeating IsRepeated attributePair :=
  ⟨⟨identifier_repeating, fun _ => trivial⟩, fun _ => textBetween_repeating _ _⟩

theorem attributes_repeating : Grammar.Repeating IsRepeated attributes :=
  ⟨.spacedAttribute, ⟨.blank, trivial⟩, fun _ => attributePair_repeating⟩

theorem elementStart_repeating : Grammar.Repeating IsRepeated elementStart :=
  ⟨trivial, fun _ => ⟨identifier_repeating, fun _ => attributes_repeating⟩⟩

theorem singleElement_repeating : Grammar.Repeating IsRepeated singleElement :=
  ⟨elementStart_repeating, fun _ => trivial⟩

theorem openElement_repeating : Grammar.Repeating IsRepeated openElement :=
  ⟨elementStart_repeating, fun _ => trivial⟩

theorem closeElement_repeating (name : String) :
    Grammar.Repeating IsRepeated (closeElement name) :=
  ⟨⟨trivial, fun _ => identifier_repeating⟩, fun _ => trivial⟩

theorem parentElement_repeating : Grammar.Repeating IsRepeated (parentElement .element) :=
  ⟨openElement_repeating, fun tag => ⟨⟨.child, trivial⟩, fun _ => closeElement_repeating tag.1⟩⟩

theorem element_repeating : Grammar.Repeating IsRepeated (element .element) :=
  ⟨singleElement_repeating, parentElement_repeating⟩

theorem document_repeating : Grammar.Repeating IsRepeated (document .element) :=
  ⟨⟨.blank, trivial⟩, fun _ =>
    ⟨⟨.spacedElement, element_repeating, fun _ => ⟨.blank, trivial⟩⟩, fun _ => trivial⟩⟩

theorem IsReady.repeating {α : Type} {g : Grammar Symbol α} (hg : IsReady g) :
    g.Repeating IsRepeated := by
  cases hg with
  | blank => trivial
  | blanks => exact ⟨.blank, trivial⟩
  | someBlanks => exact ⟨.blank, trivial⟩
  | identifier => exact identifier_repeating
  | textBetween start finish => exact textBetween_repeating start finish
  | part h =>
    cases h with
    | attributePair => exact attributePair_repeating
    | attributes => exact attributes_repeating
    | elementStart => exact elementStart_repeating
    | singleElement => exact singleElement_repeating
    | openElement => exact openElement_repeating
    | closeElement name => exact closeElement_repeating name
    | parentElement => exact parentElement_repeating
    | element => exact element_repeating
    | document => exact document_repeating

end Repeating

theorem IsReady.drives {α : Type} {g : Grammar Symbol α} (hg : IsReady g) :
    rulebook.Drives ⟨⟩ g :=
  hg.repeating.mono fun _ h => h.consumes

/-- The symbol of the language stands for a ready-made grammar. -/
theorem rulebook_driven : rulebook.Driven := by
  intro α state state' n g hresolve
  cases n with
  | element =>
    cases hresolve
    exact (IsReady.part .element).drives

/-- A parser that consumes on every match is repeated in the same way with the check for progress
    and by the greedy loop, whatever the bounds and the input.  Whatever is repeated in a ready-made
    grammar is one of six parsers, and each of these consumes on every match.  So no attempt in a
    run of such a grammar matches without consuming, whether somebody listens or not and also inside
    the elements that it runs, and with greedy loops everywhere the grammar describes the same
    parser. -/
theorem greedy_repetition_agrees :
    (∀ {α : Type} (p : Parser α) (b : Bounds) (limit : Nat) (inp : Input) (scopes : Scopes),
      p.Consumes → Parser.greedy limit b p inp scopes = Parser.repeated limit b p inp scopes) ∧
    (∀ {α : Type} (body : Grammar Symbol α), IsRepeated body →
      ∀ limits, (rulebook.parser limits ⟨⟩ body).Consumes) ∧
    ∀ {α : Type} (g : Grammar Symbol α), IsReady g →
      g.Repeating IsRepeated ∧
      ∀ limits, (∀ heard inp, ¬ rulebook.Idles limits ⟨⟩ g heard inp) ∧
        rulebook.greedyParser limits ⟨⟩ g = rulebook.parser limits ⟨⟩ g := by
  refine ⟨fun p b limit inp scopes hp => ?_, fun body h limits => h.consumes limits,
    fun g hg => ⟨hg.repeating, fun limits => ⟨fun heard inp => ?_, ?_⟩⟩⟩
  · rw [hp.greedy_eq]
  · exact hg.drives.not_idles rulebook_driven limits heard inp
  · exact hg.drives.greedyParser_eq rulebook_driven limits

/-- A document with an element inside another one, and text at its end that is no element: the
    greedy loops stop where the others do.  A repetition of nothing shows what the check is for, as
    there an attempt idles and the greedy loop does not end. -/
theorem greedy_repetition_agrees_on_document :
    let text := Input.ofString "<a k=\"v\"><b/></a> <c"
    (∀ heard inp, ¬ rulebook.Idles ⟨22, 8⟩ ⟨⟩ (document .element) heard inp) ∧
    rulebook.greedyParser ⟨22, 8⟩ ⟨⟩ (document .element) text [] =
      some (.failed ⟨.ofString "<c"⟩, []) ∧
    rulebook.Idles ⟨22, 8⟩ ⟨⟩ (Grammar.empty.repeated Bounds.free) true text ∧
    rulebook.greedyParser ⟨22, 8⟩ ⟨⟩ (Grammar.empty.repeated Bounds.free) text [] = none := by
  intro text
  obtain ⟨-, -, hready⟩ := greedy_repetition_agrees
  obtain ⟨-, hlimits⟩ := hready (document .element) (.part .document)
  obtain ⟨hidles, hgreedy⟩ := hlimits ⟨22, 8⟩
  refine ⟨hidles, ?_, ⟨text, .now rfl, .inr ⟨text, (), [], rfl, rfl⟩⟩, ?_⟩
  · rw [hgreedy]
    decide +kernel
  · exact Parser.greedy_eq_none () (b := Bounds.free) rfl 22 text []

end Markup

end Descent
