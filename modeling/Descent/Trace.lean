/-
  Descent.Trace

  What a run of marked parsers leaves behind.  Each marked parser that is entered makes one event:
  its label, how it came out, and the events made while it was running.  Where in a program the
  mark stands is left out, since no input has a part in it.  A trace is the list of the outermost
  events, in the order in which they were entered.
-/
import Descent.Input
import Descent.Text.Lines

namespace Descent

/-- How a marked parser came out. -/
inductive Outcome where
  /-- It succeeded and consumed this many bytes. -/
  | matched (bytes : Nat)
  /-- It failed this many bytes behind the point at which it was entered. -/
  | failed (bytes : Nat)
deriving DecidableEq

/-- One run of a marked parser, with the marked parsers entered while it was running. -/
structure Event where
  label : String
  outcome : Outcome
  scope : List Event

/-- The outermost events of a run, in the order in which they were entered. -/
abbrev Trace := List Event

/-! ## Equality -/

mutual

/-- Events are compared label by label all the way down. -/
def Event.decEq : (a b : Event) → Decidable (a = b)
  | ⟨l, o, s⟩, ⟨l', o', s'⟩ =>
    if h : l = l' ∧ o = o' then
      match Trace.decEq s s' with
      | .isTrue hs => .isTrue (by rw [h.1, h.2, hs])
      | .isFalse hs => .isFalse (by simp [hs])
    else
      .isFalse (by simp only [Event.mk.injEq]; exact fun k => h ⟨k.1, k.2.1⟩)

def Trace.decEq : (a b : List Event) → Decidable (a = b)
  | [], [] => .isTrue rfl
  | [], _ :: _ => .isFalse (by simp)
  | _ :: _, [] => .isFalse (by simp)
  | a :: as, b :: bs =>
    match Event.decEq a b, Trace.decEq as bs with
    | .isTrue h, .isTrue hs => .isTrue (by rw [h, hs])
    | .isFalse h, _ => .isFalse (by simp [h])
    | _, .isFalse hs => .isFalse (by simp [hs])

end

instance : DecidableEq Event := Event.decEq

/-! ## Extent -/

mutual

/-- The number of events in an event, itself included. -/
def Event.count : Event → Nat
  | ⟨_, _, scope⟩ => 1 + Trace.count scope

/-- The number of events in a trace, at every depth. -/
def Trace.count : List Event → Nat
  | [] => 0
  | e :: es => e.count + Trace.count es

end

mutual

/-- How deep the events in an event are nested, itself included. -/
def Event.depth : Event → Nat
  | ⟨_, _, scope⟩ => 1 + Trace.depth scope

/-- How deep the events of a trace are nested. -/
def Trace.depth : List Event → Nat
  | [] => 0
  | e :: es => max e.depth (Trace.depth es)

end

@[simp] theorem Trace.count_append (s t : Trace) :
    Trace.count (s ++ t) = Trace.count s + Trace.count t := by
  induction s with
  | nil => simp [Trace.count]
  | cons e es ih => simp only [List.cons_append, Trace.count, ih]; omega

@[simp] theorem Trace.depth_append (s t : Trace) :
    Trace.depth (s ++ t) = max (Trace.depth s) (Trace.depth t) := by
  induction s with
  | nil => simp [Trace.depth]
  | cons e es ih => simp only [List.cons_append, Trace.depth, ih]; omega

/-! ## Showing

An event takes a line when it is entered and a line when it comes out, and the events in its scope
stand between the two, four spaces further in.  Lines are put in front of those that stand below
them, so showing a trace takes no longer for being nested. -/

/-- The line for a parser that was entered, as far as the label. -/
def Event.entryLine (label : String) : List Char := "Entered ".toList ++ label.toList

/-- The line for the way a parser came out. -/
def Outcome.line : Outcome → List Char
  | .matched bytes => "Matched ".toList ++ Nat.toDigits 10 bytes ++ " bytes".toList
  | .failed bytes => "Failed ".toList ++ Nat.toDigits 10 bytes ++ " bytes in".toList

/-- The spaces in front of a line at this depth. -/
def indent (depth : Nat) : List Char := List.replicate (4 * depth) ' '

mutual

/-- The lines of an event that is nested in `depth` others, with other lines below. -/
def Event.prependLines (depth : Nat) : Event → List (List Char) → List (List Char)
  | ⟨label, outcome, scope⟩, below =>
    (indent depth ++ Event.entryLine label) ::
      Trace.prependLines (depth + 1) scope ((indent depth ++ outcome.line) :: below)

/-- The lines of events that are nested in `depth` others, with other lines below. -/
def Trace.prependLines (depth : Nat) : List Event → List (List Char) → List (List Char)
  | [], below => below
  | e :: es, below => e.prependLines depth (Trace.prependLines depth es below)

end

/-- The lines of an event that is nested in `depth` others. -/
def Event.lines (depth : Nat) (e : Event) : List (List Char) := e.prependLines depth []

/-- The lines of events that are nested in `depth` others. -/
def Trace.lines (depth : Nat) (t : Trace) : List (List Char) := Trace.prependLines depth t []

mutual

theorem Event.prependLines_append (depth : Nat) : (e : Event) → (above below : List (List Char)) →
    e.prependLines depth (above ++ below) = e.prependLines depth above ++ below
  | ⟨label, outcome, scope⟩, above, below => by
    simp only [Event.prependLines, ← List.cons_append, Trace.prependLines_append]

theorem Trace.prependLines_append (depth : Nat) : (t : Trace) → (above below : List (List Char)) →
    Trace.prependLines depth t (above ++ below) = Trace.prependLines depth t above ++ below
  | [], _, _ => rfl
  | e :: es, above, below => by
    simp only [Trace.prependLines, Trace.prependLines_append, Event.prependLines_append]

end

theorem Event.prependLines_eq (depth : Nat) (e : Event) (below : List (List Char)) :
    e.prependLines depth below = e.lines depth ++ below :=
  Event.prependLines_append depth e [] below

theorem Trace.prependLines_eq (depth : Nat) (t : Trace) (below : List (List Char)) :
    Trace.prependLines depth t below = Trace.lines depth t ++ below :=
  Trace.prependLines_append depth t [] below

@[simp] theorem Event.lines_mk (depth : Nat) (label : String) (outcome : Outcome) (scope : Trace) :
    Event.lines depth ⟨label, outcome, scope⟩ =
      (indent depth ++ Event.entryLine label) ::
        (Trace.lines (depth + 1) scope ++ [indent depth ++ outcome.line]) := by
  simp only [Event.lines, Event.prependLines, Trace.prependLines_eq]

@[simp] theorem Trace.lines_nil (depth : Nat) : Trace.lines depth [] = [] := rfl

@[simp] theorem Trace.lines_cons (depth : Nat) (e : Event) (es : Trace) :
    Trace.lines depth (e :: es) = e.lines depth ++ Trace.lines depth es :=
  Event.prependLines_eq depth e _

@[simp] theorem Trace.lines_append (depth : Nat) (s t : Trace) :
    Trace.lines depth (s ++ t) = Trace.lines depth s ++ Trace.lines depth t := by
  induction s with
  | nil => rfl
  | cons e es ih => simp [ih]

/-- A trace as characters. -/
def Trace.shownChars (t : Trace) : List Char := Text.endLines (Trace.lines 0 t)

/-- A trace as text. -/
def Trace.shown (t : Trace) : String := String.ofList (Trace.shownChars t)

-- A scope is shown between the two lines of its event.
example : Trace.lines 0 [⟨"a", .failed 2, [⟨"b", .matched 10, []⟩]⟩] =
    ["Entered a".toList, "    Entered b".toList, "    Matched 10 bytes".toList,
      "Failed 2 bytes in".toList] := by decide

/-! ## The size of what is shown

How long a trace is when it is shown can be told without showing it. -/

mutual

/-- The bytes of the lines of an event that is nested in `depth` others. -/
def Event.shownSize (depth : Nat) : Event → Nat
  | ⟨label, outcome, scope⟩ =>
    (4 * depth + utf8Length (Event.entryLine label) + 1) + Trace.shownSize (depth + 1) scope +
      (4 * depth + utf8Length outcome.line + 1)

/-- The bytes of the lines of events that are nested in `depth` others. -/
def Trace.shownSize (depth : Nat) : List Event → Nat
  | [] => 0
  | e :: es => e.shownSize depth + Trace.shownSize depth es

end

theorem utf8Length_indent (depth : Nat) : utf8Length (indent depth) = 4 * depth := by
  unfold indent
  generalize 4 * depth = n
  induction n with
  | zero => rfl
  | succ n ih =>
    rw [List.replicate_succ, utf8Length_cons, ih, show (' ').utf8Size = 1 from rfl, Nat.add_comm]

mutual

theorem Event.shownSize_eq (depth : Nat) : (e : Event) →
    e.shownSize depth = utf8Length (Text.endLines (e.lines depth))
  | ⟨label, outcome, scope⟩ => by
    simp only [Event.shownSize, Trace.shownSize_eq (depth + 1) scope, Event.lines_mk,
      Text.endLines_cons, Text.endLines_append, Text.endLines_nil, utf8Length_append,
      utf8Length_cons, utf8Length_nil, utf8Length_indent, show ('\n').utf8Size = 1 from rfl]
    omega

theorem Trace.shownSize_eq (depth : Nat) : (t : Trace) →
    Trace.shownSize depth t = utf8Length (Text.endLines (Trace.lines depth t))
  | [] => rfl
  | e :: es => by
    simp only [Trace.shownSize, Event.shownSize_eq depth e, Trace.shownSize_eq depth es,
      Trace.lines_cons, Text.endLines_append, utf8Length_append]

end

end Descent
