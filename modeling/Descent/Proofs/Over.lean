/-
  Descent.Proofs.Over

  What a grammar is made of.  A grammar is over some kinds of single steps and symbols if all its
  steps and symbols are of these kinds, those of the grammars that its continuations give included.
  The combinations of `Grammar.Forms` add no steps but `pure`, so a combination is over whatever its
  parts are over.

  Over honest steps, and symbols that stand for faithful parsers, a grammar describes a faithful
  parser.  Whether symbols do is settled by an induction on how deep they may be nested, for any
  rulebook that keeps giving grammars over honest steps.
-/
import Descent.Recipe.Build
import Descent.Proofs.Within

namespace Descent

/-- A kind of single steps. -/
abbrev Steps := {α : Type} → (Input → Except Failure (Input × α)) → Prop

/-- Every single step and every symbol of a grammar is of the given kinds. -/
def Grammar.Over {N : Type → Type} (L : Steps) (S : {α : Type} → N α → Prop) :
    {α : Type} → Grammar N α → Prop
  | _, .leaf step => L step
  | _, .map _ g => g.Over L S
  | _, .filter _ g => g.Over L S
  | _, .andThen g next => g.Over L S ∧ ∀ value, (next value).Over L S
  | _, .or g h => g.Over L S ∧ h.Over L S
  | _, .repeated _ g => g.Over L S
  | _, .marked _ g => g.Over L S
  | _, .wrapped _ g => g.Over L S
  | _, .traced g => g.Over L S
  | _, .symbol n => S n

section Kinds

variable {N : Type → Type} {L K : Steps} {S T : {α : Type} → N α → Prop} {α β : Type}

theorem Grammar.Over.mono (hL : ∀ {α : Type} (step : Input → Except Failure (Input × α)),
    L step → K step) (hS : ∀ {α : Type} (n : N α), S n → T n) {g : Grammar N α}
    (h : g.Over L S) : g.Over K T := by
  induction g with
  | leaf step => exact hL step h
  | map _ _ ih | filter _ _ ih | repeated _ _ ih | marked _ _ ih | wrapped _ _ ih
  | traced _ ih => exact ih h
  | andThen _ _ ihg ihnext => exact ⟨ihg h.1, fun value => ihnext value (h.2 value)⟩
  | or _ _ ihg ihh => exact ⟨ihg h.1, ihh h.2⟩
  | symbol n => exact hS n h

/-! ## Where symbols stand -/

/-- The symbol stands somewhere in the grammar, or in what one of its continuations gives. -/
inductive Grammar.Has (n : N β) : {α : Type} → Grammar N α → Prop
  | symbol : Has n (.symbol n)
  | map {α γ : Type} (f : α → γ) {g : Grammar N α} (h : Has n g) : Has n (.map f g)
  | filter {α : Type} (keep : α → Bool) {g : Grammar N α} (h : Has n g) : Has n (.filter keep g)
  | first {α γ : Type} {g : Grammar N α} {next : α → Grammar N γ} (h : Has n g) :
      Has n (.andThen g next)
  | next {α γ : Type} {g : Grammar N α} {next : α → Grammar N γ} (value : α)
      (h : Has n (next value)) : Has n (.andThen g next)
  | orLeft {α : Type} {g g' : Grammar N α} (h : Has n g) : Has n (.or g g')
  | orRight {α : Type} {g g' : Grammar N α} (h : Has n g') : Has n (.or g g')
  | repeated {α : Type} (b : Bounds) {g : Grammar N α} (h : Has n g) : Has n (.repeated b g)
  | marked {α : Type} (label : String) {g : Grammar N α} (h : Has n g) : Has n (.marked label g)
  | wrapped {α : Type} (w : Wrapper) {g : Grammar N α} (h : Has n g) : Has n (.wrapped w g)
  | traced {α : Type} {g : Grammar N α} (h : Has n g) : Has n (.traced g)

/-- A grammar is over the symbols that stand in it. -/
theorem Grammar.over_of_has {g : Grammar N α} (h : ∀ {β : Type} (n : N β), g.Has n → S n) :
    g.Over (fun _ => True) S := by
  induction g with
  | leaf step => trivial
  | map f _ ih => exact ih fun n hn => h n (.map f hn)
  | filter keep _ ih => exact ih fun n hn => h n (.filter keep hn)
  | andThen _ _ ih ihnext =>
    exact ⟨ih fun n hn => h n (.first hn), fun value => ihnext value fun n hn =>
      h n (.next value hn)⟩
  | or _ _ ih ih' => exact ⟨ih fun n hn => h n (.orLeft hn), ih' fun n hn => h n (.orRight hn)⟩
  | repeated b _ ih => exact ih fun n hn => h n (.repeated b hn)
  | marked label _ ih => exact ih fun n hn => h n (.marked label hn)
  | wrapped w _ ih => exact ih fun n hn => h n (.wrapped w hn)
  | traced _ ih => exact ih fun n hn => h n (.traced hn)
  | symbol n => exact h n .symbol

theorem Grammar.Over.of_has {g : Grammar N α} (h : g.Over L S) {n : N β} (hn : g.Has n) : S n := by
  induction hn with
  | symbol => exact h
  | map _ _ ih | filter _ _ ih | repeated _ _ ih | marked _ _ ih | wrapped _ _ ih
  | traced _ ih => exact ih h
  | first _ ih | orLeft _ ih => exact ih h.1
  | next value _ ih => exact ih (h.2 value)
  | orRight _ ih => exact ih h.2

end Kinds

-- ============================================================================
-- Steps of the ready-made grammars
-- ============================================================================

section Ready

variable {N : Type → Type} {S : {α : Type} → N α → Prop} {α : Type}

theorem honest_of_keep {step : Input → Except Failure (Input × α)}
    (hok : ∀ inp rest value, step inp = .ok (rest, value) → rest.chars <:+ inp.chars)
    (herror : ∀ inp e, step inp = .error e → e = ⟨inp⟩) : Honest step := by
  refine ⟨hok, fun inp e he => ?_⟩
  obtain rfl := herror inp e he
  exact List.suffix_refl _

namespace Grammar

theorem pure_over (value : α) : (pure value : Grammar N α).Over Honest S := by
  refine honest_of_keep (fun inp rest value' h => ?_) fun inp e h => nomatch h
  cases h
  exact List.suffix_refl _

theorem atEnd_over : (atEnd : Grammar N Unit).Over Honest S := by
  refine honest_of_keep (fun inp rest value h => ?_) fun inp e h => ?_
  · split at h
    · cases h
      exact List.suffix_refl _
    · exact nomatch h
  · split at h
    · exact nomatch h
    · cases h
      rfl

theorem any_over : (any : Grammar N Char).Over Honest S := by
  refine honest_of_keep (fun inp rest c h => ?_) fun inp e h => ?_
  · split at h
    · next hnext =>
      cases h
      rw [Input.next?_eq_some_iff.1 hnext]
      exact List.suffix_cons _ _
    · exact nomatch h
  · split at h
    · exact nomatch h
    · cases h
      rfl

theorem chars_over (literal : List Char) : (chars literal : Grammar N _).Over Honest S := by
  refine honest_of_keep (fun inp rest cs h => ?_) fun inp e h => ?_
  · split at h
    · next hstrip =>
      cases h
      rw [Input.strip?_eq_some_iff.1 hstrip]
      exact List.suffix_append _ _
    · exact nomatch h
  · split at h
    · exact nomatch h
    · cases h
      rfl

end Grammar

theorem takeDigit_honest : Honest takeDigit := by
  refine honest_of_keep (fun inp rest value h => ?_) fun inp e h => ?_
  · rw [takeDigit] at h
    split at h
    · next hnext =>
      split at h
      · cases h
        rw [Input.next?_eq_some_iff.1 hnext]
        exact List.suffix_cons _ _
      · exact nomatch h
    · exact nomatch h
  · rw [takeDigit] at h
    split at h
    · split at h
      · exact nomatch h
      · cases h
        rfl
    · cases h
      rfl

theorem takeBytes_honest (n : Nat) : Honest (takeBytes n) := by
  refine honest_of_keep (fun inp rest value h => ?_) fun inp e h => ?_
  · rw [takeBytes] at h
    split at h
    · next hsplit =>
      cases h
      exact ⟨_, Input.split_go_append hsplit⟩
    · exact nomatch h
  · rw [takeBytes] at h
    split at h
    · exact nomatch h
    · cases h
      rfl

theorem takeAll_honest : Honest takeAll := by
  refine honest_of_keep (fun inp rest value h => ?_) fun inp e h => nomatch h
  cases h
  exact List.nil_suffix

theorem lookAtAll_honest : Honest lookAtAll := by
  refine honest_of_keep (fun inp rest value h => ?_) fun inp e h => nomatch h
  cases h
  exact List.suffix_refl _

/-! ## Lexical grammars -/

namespace Lexical

open Grammar (any_over)

theorem identifier_over : (identifier : Grammar N String).Over Honest S := any_over

theorem textBetween_over (start finish : Char) :
    (textBetween start finish : Grammar N String).Over Honest S :=
  ⟨⟨any_over, fun _ => any_over⟩, fun _ => any_over⟩

end Lexical

/-! ## The markup language -/

namespace Markup

open Grammar (any_over chars_over)
open Lexical (identifier_over textBetween_over)

theorem attributePair_over : (attributePair : Grammar N _).Over Honest S :=
  ⟨⟨identifier_over, fun _ => chars_over _⟩, fun _ => textBetween_over _ _⟩

theorem attributes_over : (attributes : Grammar N _).Over Honest S :=
  ⟨any_over, fun _ => attributePair_over⟩

theorem elementStart_over : (elementStart : Grammar N _).Over Honest S :=
  ⟨chars_over _, fun _ => ⟨identifier_over, fun _ => attributes_over⟩⟩

theorem singleElement_over : (singleElement : Grammar N _).Over Honest S :=
  ⟨elementStart_over, fun _ => chars_over _⟩

theorem openElement_over : (openElement : Grammar N _).Over Honest S :=
  ⟨elementStart_over, fun _ => chars_over _⟩

theorem closeElement_over (name : String) : (closeElement name : Grammar N _).Over Honest S :=
  ⟨⟨chars_over _, fun _ => identifier_over⟩, fun _ => chars_over _⟩

variable {self : N Element}

theorem parentElement_over (hself : S self) : (parentElement self).Over Honest S :=
  ⟨openElement_over, fun _ => ⟨hself, fun _ => closeElement_over _⟩⟩

theorem element_over (hself : S self) : (element self).Over Honest S :=
  ⟨singleElement_over, parentElement_over hself⟩

theorem document_over (hself : S self) : (document self).Over Honest S :=
  ⟨any_over, fun _ => ⟨⟨element_over hself, fun _ => any_over⟩, fun _ => Grammar.atEnd_over⟩⟩

end Markup

end Ready

-- ============================================================================
-- Pieces and combinations
-- ============================================================================

/-- The pieces that keep to their input.  The two that give a rest of their own do so only where
    this rest is empty, which is an end of every input. -/
def Piece.Honest : Piece → Prop
  | .failing rest => rest.chars = []
  | .leaving rest => rest.chars = []
  | _ => True

/-- The element of the markup language. -/
def Symbol.IsElement {α : Type} : Symbol α → Prop
  | .element => True
  | .rule _ => False
  | .cell _ => False

/-- A piece that keeps to its input is made of honest steps, and no piece has any other symbol than
    the element of the markup language. -/
theorem Piece.grammar_over (p : Piece) :
    p.grammar.Over (fun step => p.Honest → Descent.Honest step) Symbol.IsElement := by
  have hhonest {g : Grammar Symbol Value} (h : g.Over Descent.Honest Symbol.IsElement) :
      g.Over (fun step => p.Honest → Descent.Honest step) Symbol.IsElement :=
    h.mono (fun _ hstep _ => hstep) fun _ hn => hn
  cases p with
  | literal s => exact hhonest (Grammar.chars_over _)
  | char c => exact hhonest (Grammar.chars_over _)
  | any => exact hhonest Grammar.any_over
  | atEnd => exact hhonest Grammar.atEnd_over
  | empty => exact hhonest (Grammar.pure_over ())
  | bytes n => exact hhonest (takeBytes_honest n)
  | digit => exact hhonest takeDigit_honest
  | everything => exact hhonest takeAll_honest
  | preview => exact hhonest lookAtAll_honest
  | failing rest =>
    intro hrest
    refine ⟨fun inp rest' value h => (nomatch h), fun inp e h => ?_⟩
    cases h
    show rest.chars <:+ inp.chars
    rw [show rest.chars = [] from hrest]
    exact List.nil_suffix
  | leaving rest =>
    intro hrest
    refine ⟨fun inp rest' value h => ?_, fun inp e h => nomatch h⟩
    cases h
    rw [show rest.chars = [] from hrest]
    exact List.nil_suffix
  | blank | blanks | someBlanks => exact hhonest Grammar.any_over
  | identifier => exact hhonest Lexical.identifier_over
  | quotedText => exact hhonest (Lexical.textBetween_over _ _)
  | textBetween start finish => exact hhonest (Lexical.textBetween_over start finish)
  | attributePair => exact hhonest Markup.attributePair_over
  | attributes => exact hhonest Markup.attributes_over
  | elementStart => exact hhonest Markup.elementStart_over
  | openElement => exact hhonest Markup.openElement_over
  | singleElement => exact hhonest Markup.singleElement_over
  | parentElement => exact hhonest (Markup.parentElement_over trivial)
  | element => exact hhonest (Markup.element_over trivial)
  | closeElement name => exact hhonest (Markup.closeElement_over name)
  | document => exact hhonest (Markup.document_over trivial)

section Combinations

variable {L : Steps} {S : {α : Type} → Symbol α → Prop} {g h : Grammar Symbol Value}

/-- A modifier adds no step but that of an option. -/
theorem Modifier.apply_over (m : Modifier)
    (hnone : (Grammar.pure none : Grammar Symbol (Option Value)).Over L S) (hg : g.Over L S) :
    (m.apply g).Over L S := by
  cases m with
  | optional => exact ⟨hg, hnone⟩
  | map | constant | ignored | collect | filter | repeated | wrapped | marked | traced | mapped
  | accepted | zeroOrMore | oneOrMore => exact hg

theorem Joint.apply_over (j : Joint) (hg : g.Over L S) (hh : h.Over L S) :
    (j.apply g h).Over L S := by
  cases j with
  | both | skipThen | thenSkip | pair | right | left => exact ⟨hg, fun _ => hh⟩
  | or | either => exact ⟨hg, hh⟩

end Combinations

end Descent
