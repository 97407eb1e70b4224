/-
  Descent.Proofs.Markup.Refused

  Where the parser of elements fails.  There are four places: the input itself where no tag begins,
  the end of `<` where no name follows, the end of the name and the complete attributes of a tag
  that ends in neither way, and, behind an opening tag and the longest run of complete elements,
  where the tag is not the one that closes the element.  Only there the failure is inside the tag,
  or at its beginning if it is the wrong one.  A child that is not complete ends the run of
  children, so it is reported where it begins.
-/
import Descent.Proofs.Markup.Accepts
import Descent.Proofs.Refuses

namespace Descent.Markup

open Lexical (IsName)

-- ============================================================================
-- The places
-- ============================================================================

/-- The beginning of a tag and what it leaves: `<`, a whole name, and all complete attributes. -/
def TagRun (cs : List Char) (tag : String × List (String × String)) (rest : List Char) : Prop :=
  ∃ w, IsName tag.1 ∧ Texts AttributeText w tag.2 ∧ cs = ['<'] ++ tag.1.toList ++ w ++ rest ∧
    StopsAt Char.isAlphanum (w ++ rest) ∧ ∀ a ds, ¬ Begins AttributeText rest a ds

/-- The rest at which the tag fails that should close an element of the given name. -/
inductive CloseFailsAt (name : String) : List Char → List Char → Prop
  /-- There is no closing tag. -/
  | missing {u : List Char} (h : ∀ t, u ≠ '<' :: '/' :: t) : CloseFailsAt name u u
  /-- It has no name. -/
  | nameless {t : List Char} (h : StopsAt Char.isAlphanum t) :
      CloseFailsAt name ('<' :: '/' :: t) t
  /-- It does not end behind its name, whichever that is. -/
  | unfinished {m : String} {t : List Char} (hm : IsName m) (hstop : StopsAt Char.isAlphanum t)
      (h : ∀ ds, t ≠ '>' :: ds) : CloseFailsAt name ('<' :: '/' :: (m.toList ++ t)) t
  /-- It closes something else. -/
  | other {m : String} {t : List Char} (hm : IsName m) (hne : m ≠ name) :
      CloseFailsAt name ('<' :: '/' :: (m.toList ++ '>' :: t))
        ('<' :: '/' :: (m.toList ++ '>' :: t))

/-- The rest at which the beginning of a tag fails: there is no tag, or it has no name. -/
def StartFailsAt (s r : List Char) : Prop :=
  ((∀ t, s ≠ '<' :: t) ∧ r = s) ∨ ∃ t, s = '<' :: t ∧ StopsAt Char.isAlphanum t ∧ r = t

/-- The rest at which a tag fails that should open an element. -/
def OpenFailsAt (s r : List Char) : Prop :=
  StartFailsAt s r ∨ ∃ tag u, TagRun s tag u ∧ (∀ ds, u ≠ '>' :: ds) ∧ r = u

/-- The rest at which fails what is inside an element of the given name. -/
def ContentFailsAt (name : String) (s r : List Char) : Prop :=
  ∃ children w u, s = w ++ u ∧ Texts Denotes w children ∧ (∀ e ds, ¬ Begins Denotes u e ds) ∧
    CloseFailsAt name u r

/-- The rest at which the parser of elements fails. -/
inductive FailsAt : List Char → List Char → Prop
  /-- No tag begins. -/
  | noTag {s : List Char} (h : ∀ t, s ≠ '<' :: t) : FailsAt s s
  /-- The tag has no name. -/
  | noName {t : List Char} (h : StopsAt Char.isAlphanum t) : FailsAt ('<' :: t) t
  /-- The tag ends in neither way. -/
  | tag {s u : List Char} {tag : String × List (String × String)} (htag : TagRun s tag u)
      (hsingle : ∀ ds, u ≠ '/' :: '>' :: ds) (hopen : ∀ ds, u ≠ '>' :: ds) : FailsAt s u
  /-- Behind all complete children the element is not closed. -/
  | close {s w u r : List Char} {tag : String × List (String × String)} {children : List Element}
      (htag : TagRun s tag ('>' :: (w ++ u))) (hchildren : Texts Denotes w children)
      (hlongest : ∀ e ds, ¬ Begins Denotes u e ds) (hclose : CloseFailsAt tag.1 u r) : FailsAt s r

/-- A tag that ends in the one or the other way is the run up to its end. -/
theorem tagRun_iff {cs ds : List Char} {c : Char} (hc : c = '/' ∨ c = '>')
    (tag : String × List (String × String)) :
    TagRun cs tag (c :: ds) ↔ Begins TagText cs tag (c :: ds) := by
  rcases hc with rfl | rfl <;> exact elementStart_iff (by decide) (by decide) tag

-- ============================================================================
-- Tags
-- ============================================================================

section Level

variable {N : Type → Type} {attempts : Nat} {call : {α : Type} → N α → Parser α} {inp : Input}
  {self : N Element}

/-- A pair that is not complete is left where it is. -/
theorem attributes_refuses (ha : inp.size < attempts) :
    ((attributes : Grammar N (List (String × String))).eval attempts call).Refuses inp
      fun _ => False :=
  Grammar.repeated_refuses rfl (attributes_decides ha)

theorem elementStart_refuses (ha : inp.size < attempts) :
    ((elementStart : Grammar N (String × List (String × String))).eval attempts call).Refuses inp
      (StartFailsAt inp.chars) := by
  have htag (mid : Input) (hmid : mid.size < attempts) :
      ((Lexical.identifier.both attributes : Grammar N (String × List (String × String))).eval
        attempts call).Refuses mid
        fun r => StopsAt Char.isAlphanum mid.chars ∧ r = mid.chars := by
    refine (Grammar.both_refuses (H := fun _ _ => False) (Lexical.identifier_decides hmid)
      (Lexical.identifier_refuses hmid) fun name mid' hname => ?_).congr fun r => ?_
    · have hsize : mid'.size ≤ mid.size := Input.size_le_of_append hname.2.1
      exact attributes_refuses (by omega)
    · exact ⟨fun h => .inl h, fun h => h.resolve_right fun ⟨_, _, _, h⟩ => h⟩
  refine (Grammar.skipThen_refuses
    (H := fun cs r => StopsAt Char.isAlphanum cs ∧ r = cs) (Grammar.char_decides '<')
    (Grammar.char_refuses '<') fun c mid hc => htag mid ?_).congr fun r => or_congr_right ?_
  · have hsize : mid.size ≤ inp.size := Input.size_le_of_append (w := ['<']) hc.2
    omega
  · refine ⟨fun h => ?_, fun h => ?_⟩
    · obtain ⟨t, ht, hstop, hr⟩ := h
      exact ⟨'<', t, ⟨rfl, ht⟩, hstop, hr⟩
    · obtain ⟨_, t, ⟨-, ht⟩, hstop, hr⟩ := h
      exact ⟨t, ht, hstop, hr⟩

theorem openElement_refuses (ha : inp.size < attempts) :
    ((openElement : Grammar N (String × List (String × String))).eval attempts call).Refuses inp
      (OpenFailsAt inp.chars) :=
  Grammar.thenSkip_refuses (elementStart_decides ha) (elementStart_refuses ha)
    fun _ _ _ => Grammar.char_refuses '>'

/-- The tag that closes an element fails where its parts do, and at its own beginning if its name
    is another one. -/
theorem closeElement_refuses (name : String) (ha : inp.size < attempts) :
    ((closeElement name : Grammar N String).eval attempts call).Refuses inp
      (CloseFailsAt name inp.chars) := by
  have hidentifier (l : String) (mid : Input)
      (hl : l = "</" ∧ inp.chars = "</".toList ++ mid.chars) : mid.size < attempts := by
    have hsize : mid.size ≤ inp.size := Input.size_le_of_append hl.2
    omega
  have hslash : ((Grammar.literal "</" : Grammar N String).eval attempts call).Decides inp
      (fun l ds => l = "</" ∧ inp.chars = "</".toList ++ ds) (· = inp.chars) :=
    Grammar.literal_decides "</"
  have hname := Grammar.skipThen_decides (F := fun _ => True)
    (U := fun ds s cs => IsName s ∧ ds = s.toList ++ cs ∧ StopsAt Char.isAlphanum cs)
    hslash.weaken fun l mid hl => (Lexical.identifier_decides (hidentifier l mid hl)).weaken
  have hnameless := Grammar.skipThen_refuses
    (H := fun ds r => StopsAt Char.isAlphanum ds ∧ r = ds) hslash (Grammar.literal_refuses "</")
    fun l mid hl => Lexical.identifier_refuses (hidentifier l mid hl)
  have htag := Grammar.thenSkip_decides (U := fun ds c cs => c = '>' ∧ ds = '>' :: cs) hname
    fun s mid _ => (Grammar.char_decides '>').weaken
  have hunfinished := Grammar.thenSkip_refuses
    (H := fun ds r => (∀ cs, ds ≠ '>' :: cs) ∧ r = ds) hname hnameless
    fun s mid _ => Grammar.char_refuses '>'
  refine (Parser.filter_refuses (· = name) htag hunfinished).congr fun r => ?_
  refine ⟨fun h => ?_, fun h => ?_⟩
  · generalize hinp : inp.chars = s at h
    cases h with
    | missing hmissing => exact .inl (.inl (.inl ⟨hmissing, rfl⟩))
    | nameless hstop => exact .inl (.inl (.inr ⟨"</", r, ⟨rfl, rfl⟩, hstop, rfl⟩))
    | @unfinished m _ hm hstop hunfinished =>
      exact .inl (.inr ⟨m, r, ⟨"</", m.toList ++ r, ⟨rfl, rfl⟩, hm, rfl, hstop⟩, hunfinished, rfl⟩)
    | @other m t hm hne =>
      have hend : StopsAt Char.isAlphanum ('>' :: t) := stopsAt_cons.2 (by decide)
      exact .inr ⟨⟨m, t, ⟨'>', '>' :: t, ⟨"</", m.toList ++ '>' :: t, ⟨rfl, rfl⟩, hm, rfl, hend⟩,
        rfl, rfl⟩, decide_eq_false hne⟩, rfl⟩
  · rcases h with ((⟨hmissing, rfl⟩ | ⟨l, t, ⟨-, hinp⟩, hstop, rfl⟩) |
      ⟨m, t, ⟨l, mid, ⟨-, hinp⟩, hm, rfl, hstop⟩, hunfinished, rfl⟩) |
      ⟨⟨m, t, ⟨c, mid, ⟨l, mid', ⟨-, hinp⟩, hm, rfl, -⟩, -, rfl⟩, hne⟩, rfl⟩
    · exact .missing hmissing
    · rw [hinp]
      exact .nameless hstop
    · rw [hinp]
      exact .unfinished hm hstop hunfinished
    · rw [hinp]
      exact .other hm (of_decide_eq_false hne)

-- ============================================================================
-- Elements
-- ============================================================================

/-- Children do not fail, whatever stands in the place of the next one.  What is inside an element
    fails where the tag behind all complete children does. -/
theorem content_refuses (name : String) (ha : inp.size < attempts)
    (hcall : ∀ inp' : Input, inp'.size ≤ inp.size →
      (call self).Decides inp' (Begins Denotes inp'.chars) fun _ => True) :
    ((((Grammar.symbol self).repeated Bounds.free).both
      ((closeElement name).marked "close_element")).eval attempts call).Refuses inp
      (ContentFailsAt name inp.chars) := by
  have hchildren := children_decides ha hcall
  refine (Grammar.both_refuses (H := CloseFailsAt name) hchildren
    (Grammar.repeated_refuses rfl hchildren) fun children mid hmid => ?_).congr fun r => ?_
  · obtain ⟨⟨w, -, hinp⟩, -⟩ := hmid
    have hsize : mid.size ≤ inp.size := Input.size_le_of_append hinp
    exact Parser.marked_refuses _ (closeElement_decides name (by omega))
      (closeElement_refuses name (by omega)) fun s cs hclose => closeTag_suffix hclose.2.2
  · refine ⟨fun h => ?_, fun h => ?_⟩
    · obtain ⟨children, w, u, hinp, hw, hlongest, hclose⟩ := h
      exact .inr ⟨children, u, ⟨⟨w, hw, hinp⟩, hlongest⟩, hclose⟩
    · obtain ⟨children, u, ⟨⟨w, hw, hinp⟩, hlongest⟩, hclose⟩ := h.resolve_left id
      exact ⟨children, w, u, hinp, hw, hlongest, hclose⟩

theorem parentElement_refuses (ha : inp.size < attempts)
    (hcall : ∀ inp' : Input, inp'.size + 3 ≤ inp.size →
      (call self).Decides inp' (Begins Denotes inp'.chars) fun _ => True) :
    ((parentElement self).eval attempts call).Refuses inp
      fun r => OpenFailsAt inp.chars r ∨
        ∃ tag mid, Begins TagText inp.chars tag ('>' :: mid) ∧ ContentFailsAt tag.1 mid r := by
  refine Parser.andThen_refuses (H := fun tag => ContentFailsAt tag.1) (openElement_decides ha)
    (openElement_refuses ha) fun tag mid htag => ?_
  have hsize := openTag_size htag
  exact Parser.map_refuses _
    (content_refuses tag.1 (by omega) fun inp' hle => hcall inp' (by omega))

/-- No tag that closes itself begins where the parser of elements fails. -/
theorem FailsAt.not_single {s r : List Char} (h : FailsAt s r)
    (tag : String × List (String × String)) (ds : List Char) :
    ¬ Begins TagText s tag ('/' :: '>' :: ds) := by
  intro hsingle
  have hname : ∃ c cs, s = '<' :: c :: cs ∧ c.isAlphanum = true := by
    obtain ⟨t, ht, rfl⟩ := hsingle
    obtain ⟨c, cs, rfl, hc⟩ := ht.head
    exact ⟨c, cs ++ '/' :: '>' :: ds, rfl, hc⟩
  obtain ⟨c, cs, rfl, hc⟩ := hname
  cases h with
  | noTag hno => exact hno _ rfl
  | noName hstop =>
    rw [stopsAt_cons, hc] at hstop
    exact Bool.noConfusion hstop
  | tag htag hno _ =>
    -- Both runs end where the parser finds the beginning of the tag to end.
    have hstart : ((elementStart : Grammar (fun _ => Empty) _).eval _ fun n => n.elim).Decides
        (.ofChars ('<' :: c :: cs)) _ _ := elementStart_decides (Nat.lt_succ_self _)
    have hend := hstart.unique htag ((tagRun_iff (.inl rfl) tag).2 hsingle)
    exact hno ds hend.2
  | close htag _ _ _ => exact tag_end_unique hsingle ((tagRun_iff (.inr rfl) _).1 htag)

/-- Where no tag closes itself, the places are those at which an opening tag fails, and those behind
    one. -/
theorem failsAt_iff {s r : List Char} :
    FailsAt s r ↔ (∀ e : Element, ∀ ds, ¬ ∃ tag : String × List (String × String),
        e = ⟨tag.1, tag.2, []⟩ ∧ Begins TagText s tag ('/' :: '>' :: ds)) ∧
      (OpenFailsAt s r ∨
        ∃ tag mid, Begins TagText s tag ('>' :: mid) ∧ ContentFailsAt tag.1 mid r) := by
  refine ⟨fun h => ⟨?_, ?_⟩, fun h => ?_⟩
  · rintro e ds ⟨tag, rfl, hsingle⟩
    exact h.not_single tag ds hsingle
  · cases h with
    | noTag hno => exact .inl (.inl (.inl ⟨hno, rfl⟩))
    | noName hstop => exact .inl (.inl (.inr ⟨_, rfl, hstop, rfl⟩))
    | tag htag _ hopen => exact .inl (.inr ⟨_, _, htag, hopen, rfl⟩)
    | close htag hw hlongest hclose =>
      exact .inr ⟨_, _, (tagRun_iff (.inr rfl) _).1 htag, _, _, _, rfl, hw, hlongest, hclose⟩
  · obtain ⟨hsingle, h⟩ := h
    rcases h with ((⟨hno, rfl⟩ | ⟨t, rfl, hstop, rfl⟩) | ⟨tag, u, htag, hopen, rfl⟩) |
      ⟨tag, mid, htag, children, w, u, rfl, hw, hlongest, hclose⟩
    · exact .noTag hno
    · exact .noName hstop
    · refine .tag htag (fun ds hds => ?_) hopen
      rw [hds] at htag
      exact hsingle ⟨tag.1, tag.2, []⟩ ds ⟨tag, rfl, (tagRun_iff (.inl rfl) tag).1 htag⟩
    · exact .close ((tagRun_iff (.inr rfl) tag).2 htag) hw hlongest hclose

/-- One level of the language fails at these places, if the symbol stands for elements further
    on. -/
theorem element_refuses (ha : inp.size < attempts)
    (hcall : ∀ inp' : Input, inp'.size + 3 ≤ inp.size →
      (call self).Decides inp' (Begins Denotes inp'.chars) fun _ => True) :
    ((element self).eval attempts call).Refuses inp (FailsAt inp.chars) := by
  have hparent := parentElement_refuses ha hcall
  refine Parser.marked_refuses "element" (singleOrParent_decides ha hcall)
    (Parser.Refuses.congr ?_ fun r => failsAt_iff) fun _ _ => Begins.suffix
  exact Parser.or_refuses (singleElement_decides ha) hparent

end Level

theorem parser_element_refuses (inp : Input) :
    (parser (element .element)).Refuses inp (FailsAt inp.chars) := by
  have h : ((element Symbol.element).eval (inp.size + 1) fun n =>
      rulebook.call (inp.size + 1) (inp.size / 3 + 1) ⟨⟩ n).Refuses inp (FailsAt inp.chars) :=
    element_refuses (Nat.lt_succ_self _) fun inp' hinp' =>
      call_decides (fun _ => rfl) (inp.size / 3 + 1) _ (by omega) (by omega)
  intro scopes
  obtain ⟨reply, scopes', hrun, hr⟩ := h scopes
  exact ⟨reply, scopes', hrun, hr⟩

/-- The place of a failure is exactly determined: the parser of elements fails with a rest if and
    only if this is what the input has left there.  So a child that is not complete is reported
    where it begins, never inside it. -/
theorem element_failed_iff (inp : Input) (scopes : Scopes) :
    (∀ rest : Input,
      (∃ scopes', parser (element .element) inp scopes = some (.failed ⟨rest⟩, scopes')) ↔
        FailsAt inp.chars rest.chars) ∧
    (∀ (tag : String × List (String × String)) (w v : List Char) (children : List Element),
      TagRun inp.chars tag ('>' :: (w ++ '<' :: v)) → Texts Denotes w children →
      (∀ e ds, ¬ Begins Denotes ('<' :: v) e ds) → (∀ t, v ≠ '/' :: t) →
      ∃ scopes', parser (element .element) inp scopes =
        some (.failed ⟨.ofChars ('<' :: v)⟩, scopes')) := by
  have hiff := (parser_element_refuses inp).failed_iff scopes
  refine ⟨hiff, fun tag w v children htag hw hbroken hslash => ?_⟩
  have hmissing : CloseFailsAt tag.1 ('<' :: v) ('<' :: v) :=
    .missing fun t ht => hslash t (List.cons.inj ht).2
  exact (hiff (.ofChars ('<' :: v))).2 (.close htag hw hbroken hmissing)

/-- Behind a complete child one whose tag does not end: the failure is at its beginning. -/
theorem element_failed_at_child :
    ∃ scopes, parser (element .element) (.ofString "<a><b/><c x</a>") [] =
      some (.failed ⟨.ofString "<c x</a>"⟩, scopes) := by
  have hname (c : Char) (hc : c.isAlphanum = true) : IsName (String.ofList [c]) := by
    simp [IsName, hc]
  have htag : TagRun "<a><b/><c x</a>".toList ("a", [])
      ('>' :: ("<b/>".toList ++ "<c x</a>".toList)) :=
    (tagRun_iff (.inr rfl) _).2 ⟨_, .mk (hname 'a' (by decide)) .nil, rfl⟩
  have hb : Denotes "<b/>".toList ⟨"b", [], []⟩ := .single (.mk (hname 'b' (by decide)) .nil)
  have hchild : Texts Denotes "<b/>".toList [⟨"b", [], []⟩] := .cons hb .nil
  have hbroken : ∀ e ds, ¬ Begins Denotes "<c x</a>".toList e ds := by
    intro e ds hbegins
    have hrun := ((parser_element_decides (.ofString "<c x</a>")).matched_iff [] e (.ofChars ds)).2
      hbegins
    have hfailed : parser (element .element) (.ofString "<c x</a>") [] =
        some (.failed ⟨.ofString " x</a>"⟩, []) := by decide +kernel
    rw [hfailed] at hrun
    obtain ⟨_, hrun⟩ := hrun
    cases hrun
  obtain ⟨-, hreported⟩ := element_failed_iff (.ofString "<a><b/><c x</a>") []
  exact hreported ("a", []) "<b/>".toList "c x</a>".toList [⟨"b", [], []⟩] htag hchild hbroken
    (by intro t; simp)

end Descent.Markup
