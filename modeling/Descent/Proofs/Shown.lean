/-
  Descent.Proofs.Shown

  A trace can be told from what it shows.  Text made of lines without line breaks inside gives the
  lines back, so what has to be seen is that lines give back the events.  A line for an event that
  is nested in others begins with four spaces for each of these and then with a letter that says
  whether the event is entered or how it comes out, whatever its label is.  So the lines of the
  scope of an event end where the event comes out: at this place no event is entered.

  An event is read off the front of lines, with whatever stands below it.  Events and scopes are
  done together, along the first of the two traces that are compared.
-/
import Descent.Trace
import Descent.Proofs.Runs

namespace Descent

-- ============================================================================
-- Indented lines
-- ============================================================================

theorem indentation_append (depth : Nat) {c : Char} (hc : c ≠ ' ') (cs : List Char) :
    indentation (indent depth ++ c :: cs) = 4 * depth :=
  indentation_replicate_append (4 * depth) hc cs

/-- Lines that begin with different letters behind their indentation are different, however far
    they are indented. -/
theorem indent_append_ne {depth depth' : Nat} {c c' : Char} {cs cs' : List Char} (hc : c ≠ ' ')
    (hc' : c' ≠ ' ') (h : c ≠ c') : indent depth ++ c :: cs ≠ indent depth' ++ c' :: cs' := by
  intro heq
  have hdepth := congrArg indentation heq
  rw [indentation_append depth hc, indentation_append depth' hc'] at hdepth
  obtain rfl : depth = depth' := by omega
  exact h (List.cons.inj (List.append_cancel_left heq)).1

-- ============================================================================
-- The lines of an event
-- ============================================================================

/-! ### What they begin with -/

theorem Event.entryLine_head (label : String) :
    ∃ cs, Event.entryLine label = 'E' :: cs :=
  ⟨"ntered ".toList ++ label.toList, rfl⟩

theorem Outcome.line_head (o : Outcome) : ∃ c cs, o.line = c :: cs ∧ c ≠ ' ' ∧ c ≠ 'E' := by
  cases o with
  | matched bytes => exact ⟨'M', _, rfl, by decide, by decide⟩
  | failed bytes => exact ⟨'F', _, rfl, by decide, by decide⟩

/-- An event is entered in no line in which one comes out. -/
theorem indent_entryLine_ne (depth depth' : Nat) (label : String) (o : Outcome) :
    indent depth ++ Event.entryLine label ≠ indent depth' ++ o.line := by
  obtain ⟨cs, hentry⟩ := Event.entryLine_head label
  obtain ⟨c, cs', hline, hspace, hE⟩ := o.line_head
  rw [hentry, hline]
  exact indent_append_ne (by decide) hspace (Ne.symm hE)

/-! ### What they say -/

theorem Event.entryLine_inj {label label' : String}
    (h : Event.entryLine label = Event.entryLine label') : label = label' :=
  String.toList_injective (List.append_cancel_left h)

theorem decimal_inj {m n : Nat} (h : Nat.toDigits 10 m = Nat.toDigits 10 n) : m = n :=
  toDigits_inj (by omega) (by omega) h

theorem Outcome.line_inj {o o' : Outcome} (h : o.line = o'.line) : o = o' := by
  cases o with
  | matched m =>
    cases o' with
    | matched n =>
      rw [decimal_inj (List.append_cancel_left (List.append_cancel_right h))]
    | failed n => exact absurd (List.cons.inj h).1 (by decide)
  | failed m =>
    cases o' with
    | matched n => exact absurd (List.cons.inj h).1 (by decide)
    | failed n =>
      rw [decimal_inj (List.append_cancel_left (List.append_cancel_right h))]

-- ============================================================================
-- Reading events back
-- ============================================================================

/-- No event is entered in the first of these lines. -/
def EntersNone (lines : List (List Char)) : Prop :=
  ∀ depth label below, lines ≠ (indent depth ++ Event.entryLine label) :: below

theorem entersNone_nil : EntersNone [] := fun _ _ _ => (List.cons_ne_nil _ _).symm

theorem entersNone_outcome (depth : Nat) (o : Outcome) (below : List (List Char)) :
    EntersNone ((indent depth ++ o.line) :: below) := fun depth' label _ h =>
  indent_entryLine_ne depth' depth label o (List.cons.inj h).1.symm

/-- The first line of an event is one in which it is entered. -/
theorem Event.lines_head (depth : Nat) (e : Event) (below : List (List Char)) :
    ∃ below', e.lines depth ++ below = (indent depth ++ Event.entryLine e.label) :: below' := by
  obtain ⟨label, outcome, scope⟩ := e
  exact ⟨_, by rw [Event.lines_mk, List.cons_append]⟩

mutual

/-- The lines of an event with others below them are those of no other event. -/
theorem Event.lines_append_inj (depth : Nat) : (e e' : Event) → (below below' : List (List Char)) →
    e.lines depth ++ below = e'.lines depth ++ below' → e = e' ∧ below = below'
  | ⟨label, outcome, scope⟩, ⟨label', outcome', scope'⟩, below, below', h => by
    simp only [Event.lines_mk, List.cons_append, List.append_assoc, List.nil_append] at h
    obtain ⟨hentry, hrest⟩ := List.cons.inj h
    obtain ⟨rfl, hline⟩ := Trace.lines_append_inj (depth + 1) scope scope' _ _
      (entersNone_outcome depth outcome below) (entersNone_outcome depth outcome' below') hrest
    obtain ⟨houtcome, rfl⟩ := List.cons.inj hline
    obtain rfl := Event.entryLine_inj (List.append_cancel_left hentry)
    obtain rfl := Outcome.line_inj (List.append_cancel_left houtcome)
    exact ⟨rfl, rfl⟩

/-- The lines of events, with others below in the first of which none is entered, are those of no
    other events. -/
theorem Trace.lines_append_inj (depth : Nat) : (t t' : Trace) → (below below' : List (List Char)) →
    EntersNone below → EntersNone below' →
    Trace.lines depth t ++ below = Trace.lines depth t' ++ below' → t = t' ∧ below = below'
  | [], [], _, _, _, _, h => ⟨rfl, h⟩
  | [], e' :: t', below, below', hnone, _, h => by
    rw [Trace.lines_cons, List.append_assoc] at h
    obtain ⟨below'', hhead⟩ := e'.lines_head depth (Trace.lines depth t' ++ below')
    exact absurd (h.trans hhead) (hnone _ _ _)
  | e :: t, [], below, below', _, hnone', h => by
    rw [Trace.lines_cons, List.append_assoc] at h
    obtain ⟨below'', hhead⟩ := e.lines_head depth (Trace.lines depth t ++ below)
    exact absurd (h.symm.trans hhead) (hnone' _ _ _)
  | e :: t, e' :: t', below, below', hnone, hnone', h => by
    simp only [Trace.lines_cons, List.append_assoc] at h
    obtain ⟨rfl, hrest⟩ := Event.lines_append_inj depth e e' _ _ h
    obtain ⟨rfl, hbelow⟩ := Trace.lines_append_inj depth t t' below below' hnone hnone' hrest
    exact ⟨rfl, hbelow⟩

end

-- ============================================================================
-- Labels in one line
-- ============================================================================

mutual

/-- No label has a line break in it, neither that of the event nor those in its scope. -/
def Event.Unbroken : Event → Prop
  | ⟨label, _, scope⟩ => '\n' ∉ label.toList ∧ Trace.Unbroken scope

def Trace.Unbroken : List Event → Prop
  | [] => True
  | e :: es => e.Unbroken ∧ Trace.Unbroken es

end

theorem not_mem_indent_append {c : Char} (hc : c ≠ ' ') (depth : Nat) {cs : List Char}
    (h : c ∉ cs) : c ∉ indent depth ++ cs :=
  List.not_mem_append (fun hmem => hc (List.eq_of_mem_replicate hmem)) h

theorem decimal_unbroken (n : Nat) : '\n' ∉ Nat.toDigits 10 n :=
  not_mem_toDigits (by omega) (fun _ => Nat.digitChar_ne '\n' (by decide)) n

theorem Event.entryLine_unbroken {label : String} (h : '\n' ∉ label.toList) :
    '\n' ∉ Event.entryLine label := by
  have hentered : '\n' ∉ "Entered ".toList := by decide
  exact List.not_mem_append hentered h

theorem Outcome.line_unbroken (o : Outcome) : '\n' ∉ o.line := by
  cases o with
  | matched n =>
    have hmatched : '\n' ∉ "Matched ".toList := by decide
    have hbytes : '\n' ∉ " bytes".toList := by decide
    exact List.not_mem_append (List.not_mem_append hmatched (decimal_unbroken n)) hbytes
  | failed n =>
    have hfailed : '\n' ∉ "Failed ".toList := by decide
    have hbytes : '\n' ∉ " bytes in".toList := by decide
    exact List.not_mem_append (List.not_mem_append hfailed (decimal_unbroken n)) hbytes

mutual

theorem Event.lines_unbroken (depth : Nat) : (e : Event) → e.Unbroken →
    ∀ line ∈ e.lines depth, '\n' ∉ line
  | ⟨label, outcome, scope⟩, h => by
    obtain ⟨hlabel, hscope⟩ := h
    have hspace : '\n' ≠ ' ' := by decide
    rw [Event.lines_mk, List.forall_mem_cons, List.forall_mem_append, List.forall_mem_singleton]
    exact ⟨not_mem_indent_append hspace depth (Event.entryLine_unbroken hlabel),
      Trace.lines_unbroken (depth + 1) scope hscope,
      not_mem_indent_append hspace depth outcome.line_unbroken⟩

theorem Trace.lines_unbroken (depth : Nat) : (t : Trace) → Trace.Unbroken t →
    ∀ line ∈ Trace.lines depth t, '\n' ∉ line
  | [], _ => List.forall_mem_nil _
  | e :: es, h => by
    rw [Trace.lines_cons, List.forall_mem_append]
    exact ⟨Event.lines_unbroken depth e h.1, Trace.lines_unbroken depth es h.2⟩

end

-- ============================================================================
-- How lines are indented
-- ============================================================================

mutual

/-- For each line of an event that `around` others enclose, the number of events that enclose the
    event it belongs to: the event itself where it is entered, those in its scope, and the event
    itself where it comes out. -/
def Event.enclosures (around : Nat) : Event → List Nat
  | ⟨_, _, scope⟩ => around :: (Trace.enclosures (around + 1) scope ++ [around])

def Trace.enclosures (around : Nat) : List Event → List Nat
  | [] => []
  | e :: es => e.enclosures around ++ Trace.enclosures around es

end

mutual

theorem Event.length_enclosures (around : Nat) : (e : Event) →
    (e.enclosures around).length = 2 * e.count
  | ⟨_, _, scope⟩ => by
    simp only [Event.enclosures, Event.count, List.length_cons, List.length_append,
      Trace.length_enclosures (around + 1) scope, List.length_nil]
    omega

theorem Trace.length_enclosures (around : Nat) : (t : Trace) →
    (Trace.enclosures around t).length = 2 * Trace.count t
  | [] => rfl
  | e :: es => by
    simp only [Trace.enclosures, Trace.count, List.length_append,
      Event.length_enclosures around e, Trace.length_enclosures around es]
    omega

end

mutual

theorem Event.indentation_lines (depth : Nat) : (e : Event) →
    (e.lines depth).map indentation = (e.enclosures depth).map (4 * ·)
  | ⟨label, outcome, scope⟩ => by
    obtain ⟨cs, hentry⟩ := Event.entryLine_head label
    obtain ⟨c, cs', hline, hspace, -⟩ := outcome.line_head
    simp only [Event.lines_mk, Event.enclosures, List.map_cons, List.map_append, List.map_nil,
      Trace.indentation_lines (depth + 1) scope, hentry, hline]
    rw [indentation_append depth (by decide), indentation_append depth hspace]

/-- Lines are indented by four spaces for each event around. -/
theorem Trace.indentation_lines (depth : Nat) : (t : Trace) →
    (Trace.lines depth t).map indentation = (Trace.enclosures depth t).map (4 * ·)
  | [] => rfl
  | e :: es => by
    simp only [Trace.lines_cons, Trace.enclosures, List.map_append,
      Event.indentation_lines depth e, Trace.indentation_lines depth es]

end

/-- What a trace without line breaks in its labels shows is what no other such trace shows, be its
    labels like lines of a trace or not.  Split at its line breaks it has exactly two lines for each
    event at every depth, and nothing behind the last one.  Each line is indented by exactly four
    spaces for each event that encloses the one it belongs to. -/
theorem shown_determines_trace (t : Trace) (ht : Trace.Unbroken t) :
    (∀ t' : Trace, Trace.Unbroken t' → Trace.shown t = Trace.shown t' → t = t') ∧
    ∃ lines, (Trace.shown t).toList.splitOn '\n' = lines ++ [[]] ∧
      lines.length = 2 * Trace.count t ∧
      lines.map indentation = (Trace.enclosures 0 t).map (4 * ·) := by
  have hsplit (t : Trace) (ht : Trace.Unbroken t) :
      (Trace.shown t).toList.splitOn '\n' = Trace.lines 0 t ++ [[]] := by
    rw [Trace.shown, String.toList_ofList, Trace.shownChars]
    exact Text.splitOn_endLines (Trace.lines_unbroken 0 t ht)
  refine ⟨fun t' ht' hshown => ?_, Trace.lines 0 t, hsplit t ht, ?_, Trace.indentation_lines 0 t⟩
  · have hlines : Trace.lines 0 t ++ [[]] = Trace.lines 0 t' ++ [[]] := by
      rw [← hsplit t ht, hshown, hsplit t' ht']
    have hends : Trace.lines 0 t ++ [] = Trace.lines 0 t' ++ [] := by
      rw [List.append_cancel_right hlines]
    exact (Trace.lines_append_inj 0 t t' [] [] entersNone_nil entersNone_nil hends).1
  · have hlength := congrArg List.length (Trace.indentation_lines 0 t)
    simpa only [List.length_map, Trace.length_enclosures] using hlength

/-- Labels that are like indented lines of a trace mislead nobody. -/
theorem shown_determines_lookalike :
    let t : Trace := [⟨"a", .matched 1, [⟨"    Matched 1 bytes", .failed 2, []⟩]⟩,
      ⟨"Entered a", .failed 0, []⟩]
    Trace.Unbroken t ∧
      (∀ t' : Trace, Trace.Unbroken t' → Trace.shown t = Trace.shown t' → t = t') ∧
      ∃ lines, (Trace.shown t).toList.splitOn '\n' = lines ++ [[]] ∧ lines.length = 6 ∧
        lines.map indentation = [0, 4, 4, 0, 0, 0] := by
  intro t
  have ht : Trace.Unbroken t :=
    ⟨⟨by decide, ⟨by decide, trivial⟩, trivial⟩, ⟨by decide, trivial⟩, trivial⟩
  exact ⟨ht, shown_determines_trace t ht⟩

-- With a line break in a label, one event shows what two events show.
example : Trace.shownChars [⟨"a\nMatched 1 bytes\nEntered b", .matched 1, []⟩] =
    Trace.shownChars [⟨"a", .matched 1, []⟩, ⟨"b", .matched 1, []⟩] := by decide

end Descent
