/-
  Descent.Proofs.Markup.Mirrored

  The trace of a parsed element has the form of the document.  An attempt leaves an event even if it
  came to nothing, so a trace could hold more than the elements that are there.  Where the parse
  succeeds there is one such attempt for each pair of tags: behind the last child the parser tries
  one child more, and fails behind the first character of the closing tag, before anything could be
  recorded inside.  The tags themselves record nothing but that they close an element.

  What is recorded is compared with the text, not with the parser: a text mirrors an element and
  its event as it denotes the element, and the induction on how deep the symbol of the language may
  be nested is that of the language.
-/
import Descent.Proofs.Markup.Refused
import Descent.Proofs.Silent

namespace Descent.Markup

/-- The event of an attempt at a child where the closing tag is. -/
def missedChild : Event := ⟨"element", .failed 1, []⟩

/-- The event of the tag that closes an element of the given name. -/
def closeEvent (name : String) : Event :=
  ⟨"close_element", .matched (utf8Length name.toList + 3), []⟩

/-- The text denotes the element, and the event has its length.  Inside are the events of the
    children, each for its own text, and behind them those of the missed child and of the closing
    tag. -/
inductive Mirrors : List Char → Element × Event → Prop
  | single {t : List Char} {name : String} {attributes : List (String × String)}
      (ht : TagText t (name, attributes)) :
      Mirrors (t ++ ['/', '>'])
        (⟨name, attributes, []⟩, ⟨"element", .matched (utf8Length (t ++ ['/', '>'])), []⟩)
  | parent {t w : List Char} {name : String} {attributes : List (String × String)}
      {children : List (Element × Event)} (ht : TagText t (name, attributes))
      (hw : Texts Mirrors w children) :
      Mirrors (t ++ ['>'] ++ w ++ ['<', '/'] ++ name.toList ++ ['>'])
        (⟨name, attributes, children.map Prod.fst⟩,
          ⟨"element",
            .matched (utf8Length (t ++ ['>'] ++ w ++ ['<', '/'] ++ name.toList ++ ['>'])),
            children.map Prod.snd ++ [missedChild, closeEvent name]⟩)

/-- What is recorded where an element or a closing tag begins. -/
structure Mirroring (r : Recorder Element) (inp : Input) : Prop where
  matched : ∀ (e : Element) (rest : Input), Begins Denotes inp.chars e rest.chars →
    ∃ w event, inp.chars = w ++ rest.chars ∧ Mirrors w (e, event) ∧
      r inp = some (.matched rest e, [event])
  missed : ∀ t, inp.chars = '<' :: '/' :: t →
    r inp = some (.failed ⟨.ofChars ('/' :: t)⟩, [missedChild])

-- ============================================================================
-- Children
-- ============================================================================

/-- One event for each child, and one for the attempt that is made at the closing tag. -/
theorem gather_children {r : Recorder Element} {w t : List Char} {es : List Element}
    (hw : Texts Denotes w es) {inp rest : Input} (hinp : inp.chars = w ++ rest.chars)
    (hclose : rest.chars = '<' :: '/' :: t) {limit : Nat} (hlimit : inp.size < limit) (count : Nat)
    (hr : ∀ inp' : Input, inp'.size ≤ inp.size → Mirroring r inp') :
    ∃ children, Texts Mirrors w children ∧ children.map Prod.fst = es ∧
      Recorder.gather Bounds.free r limit count inp =
        some (.ok ⟨es, rest, .refused ⟨.ofChars ('/' :: t)⟩⟩,
          children.map Prod.snd ++ [missedChild]) := by
  -- Along the texts of the children.
  induction hw generalizing inp limit count with
  | nil =>
    obtain rfl : inp = rest := Input.ext hinp
    obtain ⟨limit, rfl⟩ : ∃ n, limit = n + 1 := ⟨limit - 1, by omega⟩
    have hmissed := (hr inp (Nat.le_refl _)).missed t hclose
    refine ⟨[], .nil, rfl, ?_⟩
    rw [Recorder.gather, Bounds.isFull_free, hmissed]
    rfl
  | @cons v ws e es hv hws ih =>
    obtain ⟨limit, rfl⟩ : ∃ n, limit = n + 1 := ⟨limit - 1, by omega⟩
    have hmid : inp.chars = v ++ (Input.ofChars (ws ++ rest.chars)).chars := by
      rw [hinp, List.append_assoc]
      rfl
    have hlt := Input.size_lt_of_consumed hv.ne_nil hmid
    obtain ⟨v', event, hinp', hmirrors, hrun⟩ := (hr inp (Nat.le_refl _)).matched e _ ⟨v, hv, hmid⟩
    obtain rfl : v = v' := List.append_cancel_right (hmid.symm.trans hinp')
    obtain ⟨children, hchildren, hfst, hgather⟩ := @ih (.ofChars (ws ++ rest.chars)) rfl limit
      (by omega) (count + 1) fun inp' hle => hr inp' (by omega)
    refine ⟨(e, event) :: children, .cons hmirrors hchildren, by simp [hfst], ?_⟩
    rw [Recorder.gather, Bounds.isFull_free, hrun]
    simp only [Bool.false_eq_true, if_false, Nat.ne_of_lt hlt, hgather]
    rfl

-- ============================================================================
-- One level
-- ============================================================================

section Level

variable {N : Type → Type} {attempts : Nat} {call : {α : Type} → N α → Parser α}
  {call' : {α : Type} → N α → Bool → Recorder α} {self : N Element} {inp : Input}

/-- What is inside an element: events for the children, for the missed one, and for the closing
    tag. -/
theorem content_record (hcall : ∀ {α : Type} (n : N α), Parser.Records (call n) (call' n))
    (ha : inp.size < attempts)
    (hr : ∀ inp' : Input, inp'.size ≤ inp.size → Mirroring (call' self true) inp')
    {name : String} (hname : Lexical.IsName name) {w : List Char} {es : List Element}
    (hw : Texts Denotes w es) {rest : Input}
    (hinp : inp.chars = w ++ (['<', '/'] ++ name.toList ++ '>' :: rest.chars)) :
    ∃ children, Texts Mirrors w children ∧ children.map Prod.fst = es ∧
      (((Grammar.symbol self).repeated Bounds.free).both
        ((closeElement name).marked "close_element")).record attempts call' true inp =
          some (.matched rest (es, name),
            children.map Prod.snd ++ [missedChild, closeEvent name]) := by
  -- Where the closing tag begins.
  let mid := Input.ofChars (['<', '/'] ++ name.toList ++ '>' :: rest.chars)
  have hbehind : inp.chars = w ++ mid.chars := hinp
  have htag : mid.chars = '<' :: '/' :: (name.toList ++ '>' :: rest.chars) := rfl
  have hmid : mid.size ≤ inp.size := Input.size_le_of_append hbehind
  obtain ⟨children, hchildren, hfst, hgather⟩ := gather_children hw hbehind htag ha 0 hr
  have hrepeated : Recorder.repeated attempts Bounds.free (call' self true) inp =
      some (.matched mid es, children.map Prod.snd ++ [missedChild]) := by
    rw [Recorder.repeated, hgather]
    rfl
  have hclose : (closeElement name : Grammar N String).record attempts call' true mid =
      some (.matched rest name, []) :=
    (closeElement_silent name).record_matched hcall (closeElement_decides name (by omega))
      ⟨rfl, hname, rfl⟩
  have hlength : mid.size - rest.size = utf8Length name.toList + 3 := by
    have hsize : mid.size = utf8Length (['<', '/'] ++ name.toList ++ ['>']) + rest.size :=
      Input.size_eq_add (by simp [mid])
    have hbrackets : utf8Length (['<', '/'] ++ name.toList ++ ['>']) =
        utf8Length name.toList + 3 := by
      simp only [utf8Length_append]
      show 2 + utf8Length name.toList + 1 = _
      omega
    omega
  refine ⟨children, hchildren, hfst, ?_⟩
  show Recorder.andThen (Recorder.repeated attempts Bounds.free (call' self true)) (fun es =>
    Recorder.map (fun s => (es, s)) (Recorder.marked "close_element"
      ((closeElement name).record attempts call' true))) inp = _
  have hle : rest.size ≤ mid.size := by omega
  rw [Recorder.andThen, hrepeated]
  simp only [Recorder.map, Recorder.marked_eq_of_le hclose hle, Option.map_some, hlength,
    List.append_assoc]
  rfl

/-- An element in one tag records one event that holds no others. -/
theorem element_record_single (hcall : ∀ {α : Type} (n : N α), Parser.Records (call n) (call' n))
    (ha : inp.size < attempts) {t : List Char} {tag : String × List (String × String)}
    (ht : TagText t tag) {rest : Input} (hinp : inp.chars = t ++ '/' :: '>' :: rest.chars) :
    (element self).record attempts call' true inp = some (.matched rest ⟨tag.1, tag.2, []⟩,
      [⟨"element", .matched (utf8Length (t ++ ['/', '>'])), []⟩]) := by
  have hsingle : (singleElement : Grammar N Element).record attempts call' true inp =
      some (.matched rest ⟨tag.1, tag.2, []⟩, []) :=
    singleElement_silent.record_matched hcall (singleElement_decides ha) ⟨tag, rfl, t, ht, hinp⟩
  have hsize : inp.size = utf8Length (t ++ ['/', '>']) + rest.size :=
    Input.size_eq_add (by rw [hinp, List.append_assoc]; rfl)
  have hlength : inp.size - rest.size = utf8Length (t ++ ['/', '>']) := by omega
  have hle : rest.size ≤ inp.size := by omega
  have hchoice : Recorder.or (singleElement.record attempts call' true)
      ((parentElement self).record attempts call' true) inp =
        some (.matched rest ⟨tag.1, tag.2, []⟩, []) := by
    rw [Recorder.or, hsingle]
  show Recorder.marked "element" (Recorder.or (singleElement.record attempts call' true)
    ((parentElement self).record attempts call' true)) inp = _
  rw [Recorder.marked_eq_of_le hchoice hle, hlength]

/-- An element in two tags records one event that holds those of what is inside. -/
theorem element_record_parent (hcall : ∀ {α : Type} (n : N α), Parser.Records (call n) (call' n))
    (ha : inp.size < attempts)
    (hr : ∀ inp' : Input, inp'.size + 3 ≤ inp.size → Mirroring (call' self true) inp')
    {t w : List Char} {name : String} {attributes : List (String × String)}
    (ht : TagText t (name, attributes)) {es : List Element} (hw : Texts Denotes w es) {rest : Input}
    (hinp : inp.chars = t ++ '>' :: (w ++ (['<', '/'] ++ name.toList ++ '>' :: rest.chars))) :
    ∃ children, Texts Mirrors w children ∧ children.map Prod.fst = es ∧
      (element self).record attempts call' true inp = some (.matched rest ⟨name, attributes, es⟩,
        [⟨"element", .matched (inp.size - rest.size),
          children.map Prod.snd ++ [missedChild, closeEvent name]⟩]) := by
  -- Behind the opening tag.
  let mid := Input.ofChars (w ++ (['<', '/'] ++ name.toList ++ '>' :: rest.chars))
  have hopen : Begins TagText inp.chars (name, attributes) ('>' :: mid.chars) := ⟨t, ht, hinp⟩
  have hname : Lexical.IsName name := by
    cases ht with
    | mk hname _ => exact hname
  have hsize : mid.size + 3 ≤ inp.size := openTag_size hopen
  obtain ⟨e, hsingle⟩ := singleElement_silent.exists_record_failed hcall (singleElement_decides ha)
    (by
      rintro _ ds ⟨tag', rfl, hsingle⟩
      exact tag_end_unique hsingle hopen)
  have htag : openElement.record attempts call' true inp =
      some (.matched mid (name, attributes), []) :=
    openElement_silent.record_matched hcall (openElement_decides ha) hopen
  have hmid : mid.size < attempts := by omega
  have hbelow (inp' : Input) (hle : inp'.size ≤ mid.size) : Mirroring (call' self true) inp' :=
    hr inp' (by omega)
  have hinside : mid.chars = w ++ (['<', '/'] ++ name.toList ++ '>' :: rest.chars) := rfl
  obtain ⟨children, hchildren, hfst, hcontent⟩ := content_record hcall hmid hbelow hname hw hinside
  refine ⟨children, hchildren, hfst, ?_⟩
  have hparent : (parentElement self).record attempts call' true inp = some (.matched rest
      ⟨name, attributes, es⟩, children.map Prod.snd ++ [missedChild, closeEvent name]) := by
    show Recorder.andThen (openElement.record attempts call' true) _ inp = _
    rw [Recorder.andThen, htag]
    show (Recorder.map _ ((((Grammar.symbol self).repeated Bounds.free).both
      ((closeElement name).marked "close_element")).record attempts call' true) mid).map _ = _
    rw [Recorder.map, hcontent]
    rfl
  have hchoice : Recorder.or (singleElement.record attempts call' true)
      ((parentElement self).record attempts call' true) inp = some (.matched rest
        ⟨name, attributes, es⟩, children.map Prod.snd ++ [missedChild, closeEvent name]) := by
    rw [Recorder.or, hsingle]
    simp only [hparent, Option.map_some, List.nil_append]
  have hle : rest.size ≤ inp.size :=
    Input.size_le_of_suffix
      ⟨t ++ '>' :: (w ++ (['<', '/'] ++ name.toList ++ ['>'])), by simp [hinp]⟩
  exact Recorder.marked_eq_of_le hchoice hle

/-- At a closing tag the parser of elements fails one byte in, and records nothing inside. -/
theorem element_record_missed (hcall : ∀ {α : Type} (n : N α), Parser.Records (call n) (call' n))
    (ha : inp.size < attempts) {t : List Char} (hinp : inp.chars = '<' :: '/' :: t) :
    (element self).record attempts call' true inp =
      some (.failed ⟨.ofChars ('/' :: t)⟩, [missedChild]) := by
  have hstop : StopsAt Char.isAlphanum ('/' :: t) := stopsAt_cons.2 (by decide)
  have hnone : FailsAt inp.chars ('/' :: t) := by
    rw [hinp]
    exact .noName hstop
  obtain ⟨e, hsingle⟩ := singleElement_silent.exists_record_failed hcall (singleElement_decides ha)
    (by
      rintro _ ds ⟨tag, rfl, hsingle⟩
      exact hnone.not_single tag ds hsingle)
  have hopen : openElement.record attempts call' true inp =
      some (.failed ⟨.ofChars ('/' :: t)⟩, []) :=
    openElement_silent.record_failed hcall (openElement_refuses ha)
      (.inl (.inr ⟨'/' :: t, hinp, hstop, rfl⟩))
  have hsize : inp.size - (Input.ofChars ('/' :: t)).size = 1 := by
    have hlength : inp.size = utf8Length ['<'] + (Input.ofChars ('/' :: t)).size :=
      Input.size_eq_add hinp
    have hbracket : utf8Length ['<'] = 1 := by decide
    omega
  show Recorder.marked "element" (Recorder.or (singleElement.record attempts call' true)
    (Recorder.andThen (openElement.record attempts call' true) _)) inp = _
  simp only [Recorder.marked, Recorder.or, hsingle, Recorder.andThen, hopen, Option.map_some,
    List.nil_append, Parser.outcome, hsize]
  rfl

/-- One level of the language mirrors what it parses, if the symbol does further on. -/
theorem element_mirroring (hcall : ∀ {α : Type} (n : N α), Parser.Records (call n) (call' n))
    (ha : inp.size < attempts)
    (hr : ∀ inp' : Input, inp'.size + 3 ≤ inp.size → Mirroring (call' self true) inp') :
    Mirroring ((element self).record attempts call' true) inp := by
  refine ⟨fun e rest hbegins => ?_, fun t hinp => element_record_missed hcall ha hinp⟩
  obtain ⟨w, hw, hinp⟩ := hbegins
  have hlength : inp.size - rest.size = utf8Length w := by
    have hsize := Input.size_eq_add hinp
    omega
  cases hw with
  | @single t name attributes ht =>
    have htag : inp.chars = t ++ '/' :: '>' :: rest.chars := by
      rw [hinp, List.append_assoc]
      rfl
    exact ⟨_, _, hinp, .single ht, element_record_single hcall ha ht htag⟩
  | @parent t w name attributes es ht hw =>
    have htags : inp.chars =
        t ++ '>' :: (w ++ (['<', '/'] ++ name.toList ++ '>' :: rest.chars)) := by
      rw [hinp]
      simp
    obtain ⟨children, hchildren, rfl, hrecord⟩ := element_record_parent hcall ha hr ht hw htags
    rw [hlength] at hrecord
    exact ⟨_, _, hinp, .parent ht hchildren, hrecord⟩

end Level

-- ============================================================================
-- All levels
-- ============================================================================

/-- Where a symbol stands for the grammar of elements, its record mirrors what it parses, as long as
    it may be nested once for every three bytes. -/
theorem call_mirroring {N : Type → Type} {σ : Type 1} {book : Rulebook N σ} {self : N Element}
    (hself : ∀ state, book.resolve state self = .ok (element self, state)) {attempts : Nat}
    (nesting : Nat) (state : σ) {inp : Input} (ha : inp.size < attempts)
    (hn : inp.size < 3 * nesting) :
    Mirroring (book.recordCall attempts nesting state self true) inp := by
  induction nesting generalizing inp with
  | zero => omega
  | succ nesting ih =>
    have h : Mirroring ((element self).record attempts
        (fun n => book.recordCall attempts nesting state n) true) inp :=
      element_mirroring (fun n => book.call_records attempts nesting state n) ha
        fun inp' hinp' => ih (by omega) (by omega)
    have hcall : book.recordCall attempts (nesting + 1) state self true inp =
        (element self).record attempts (fun n => book.recordCall attempts nesting state n) true
          inp := by
      rw [Rulebook.recordCall, hself]
    refine ⟨fun e rest hbegins => ?_, fun t hinp => hcall.trans (h.missed t hinp)⟩
    obtain ⟨w, event, hinp, hmirrors, hrecord⟩ := h.matched e rest hbegins
    exact ⟨w, event, hinp, hmirrors, hcall.trans hrecord⟩

theorem recorder_mirroring (inp : Input) :
    Mirroring (rulebook.recorder (limitsFor inp.size) ⟨⟩ (element .element) true) inp := by
  have hcall (inp' : Input) (hinp' : inp'.size + 3 ≤ inp.size) :
      Mirroring (rulebook.recordCall (inp.size + 1) (inp.size / 3 + 1) ⟨⟩ .element true) inp' :=
    call_mirroring (fun _ => rfl) (inp.size / 3 + 1) _ (by omega) (by omega)
  rw [Rulebook.recorder, limitsFor]
  exact element_mirroring (fun n => rulebook.call_records (inp.size + 1) (inp.size / 3 + 1) _ n)
    (Nat.lt_succ_self _) hcall

/-- The trace of a parsed element mirrors the document: it has one event on top, labelled as an
    element, of the length of the text, and inside, unless the text is a tag that closes itself, one
    such event for each child and its own text, then the attempt at a child that fails one byte
    into the closing tag, then the closing tag. -/
theorem element_trace_mirrors {inp rest : Input} {e : Element} {scopes scopes' : Scopes}
    (h : parser (element .element) inp scopes = some (.matched rest e, scopes')) :
    ∃ w event, inp.chars = w ++ rest.chars ∧ Mirrors w (e, event) ∧
      ∀ stack, (parser (element .element)).start .traced inp stack =
        some (⟨.matched rest e, some [event], ""⟩, stack) := by
  have hbegins := ((parser_element_decides inp).matched_iff scopes e rest).1 ⟨scopes', h⟩
  obtain ⟨w, event, hinp, hmirrors, hrecord⟩ := (recorder_mirroring inp).matched e rest hbegins
  refine ⟨w, event, hinp, hmirrors, fun stack => ?_⟩
  have hrecords := rulebook.parser_records (limitsFor inp.size) ⟨⟩ (element .element)
  have hcollect := (Parser.collect_records hrecords inp stack).answer_eq hrecord nofun
  rw [Parser.start, Parser.collect, parser]
  rw [Parser.collect] at hcollect
  rw [hcollect]
  rfl

/-- Two children, the second one in two tags, and text behind the element. -/
theorem element_trace_mirrors_two_children :
    ∃ w event, "<a><b/><c></c></a>!".toList = w ++ "!".toList ∧
      Mirrors w (⟨"a", [], [⟨"b", [], []⟩, ⟨"c", [], []⟩]⟩, event) ∧
      ∀ stack, (parser (element .element)).start .traced (.ofString "<a><b/><c></c></a>!") stack =
        some (⟨.matched (.ofString "!") ⟨"a", [], [⟨"b", [], []⟩, ⟨"c", [], []⟩]⟩, some [event],
          ""⟩, stack) := by
  have hrun : parser (element .element) (.ofString "<a><b/><c></c></a>!") [] =
      some (.matched (.ofString "!") ⟨"a", [], [⟨"b", [], []⟩, ⟨"c", [], []⟩]⟩, []) := by
    decide +kernel
  exact element_trace_mirrors hrun

end Descent.Markup
