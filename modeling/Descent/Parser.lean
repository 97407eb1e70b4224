/-
  Descent.Parser

  Parsers as functions.  A parser is given the input and the scopes that are open for marked
  parsers to report to, and answers with a reply and the scopes it leaves.  It may also give no
  answer: a repetition or a recursion that has not come to its end within the limit set for the
  run.  No answer is not a failure, and no combinator turns it into one.

  Scopes are a stack.  Collecting a trace opens a scope, runs a parser and closes the scope again;
  a marked parser does the same and then reports what happened to the scope around it.  When no
  scope is open there is nobody to report to and a mark does nothing.  A run that is given up
  because of a misuse leaves its scopes as they are at that moment.

  What a mark reports of a match is the number of bytes it took.  A step may leave more than it was
  given; then there is no such number, and a mark around it gives the run up, though only where
  there is somebody to report to.
-/
import Descent.Failure
import Descent.Trace

namespace Descent

/-! ## Replies -/

/-- What a parser answers. -/
inductive Reply (α : Type) where
  /-- The input began with what the parser looks for. -/
  | matched (rest : Input) (value : α)
  /-- It did not. -/
  | failed (failure : Failure)
  /-- The run was given up. -/
  | aborted (misuse : Misuse)
deriving DecidableEq

/-! ## Open scopes -/

/-- The events reported to the open scopes, innermost scope first, each with its newest event
    first. -/
abbrev Scopes := List (List Event)

namespace Scopes

/-- Open a scope inside the others. -/
def enter (scopes : Scopes) : Scopes := [] :: scopes

/-- Close the innermost scope: its events in the order they were reported, and the scopes around
    it.  With no scope open there is nothing to close and nothing was reported. -/
def leave : Scopes → Trace × Scopes
  | [] => ([], [])
  | frame :: outer => (frame.reverse, outer)

/-- Report an event to the innermost scope, if there is one. -/
def report (e : Event) : Scopes → Scopes
  | [] => []
  | frame :: outer => (e :: frame) :: outer

@[simp] theorem leave_enter (scopes : Scopes) : scopes.enter.leave = ([], scopes) := rfl

/-- What was reported last stands last in the trace. -/
@[simp] theorem leave_report_cons (e : Event) (frame : List Event) (outer : Scopes) :
    leave (report e (frame :: outer)) = ((leave (frame :: outer)).1 ++ [e], outer) := by
  simp [leave, report]

end Scopes

/-! ## Parsers and their combinators -/

/-- A function from an input and the open scopes to a reply and the scopes it leaves. -/
abbrev Parser (α : Type) : Type := Input → Scopes → Option (Reply α × Scopes)

namespace Parser

variable {α β : Type}

/-- A single step that looks at the input alone. -/
@[inline] def read (step : Input → Except Failure (Input × α)) : Parser α := fun inp scopes =>
  match step inp with
  | .ok (rest, value) => some (.matched rest value, scopes)
  | .error e => some (.failed e, scopes)

/-- Give up the run. -/
@[inline] def abort (m : Misuse) : Parser α := fun _ scopes => some (.aborted m, scopes)

/-- Change the value; failures stay as they are. -/
@[inline] def map (f : α → β) (p : Parser α) : Parser β := fun inp scopes =>
  match p inp scopes with
  | none => none
  | some (.matched rest value, scopes) => some (.matched rest (f value), scopes)
  | some (.failed e, scopes) => some (.failed e, scopes)
  | some (.aborted m, scopes) => some (.aborted m, scopes)

/-- Refuse a value that does not satisfy a condition.  The refusal is placed at the input given to
    the parser, whatever it consumed. -/
@[inline] def filter (keep : α → Bool) (p : Parser α) : Parser α := fun inp scopes =>
  match p inp scopes with
  | none => none
  | some (.matched rest value, scopes) =>
    if keep value then some (.matched rest value, scopes) else some (.failed ⟨inp⟩, scopes)
  | some (.failed e, scopes) => some (.failed e, scopes)
  | some (.aborted m, scopes) => some (.aborted m, scopes)

/-- Run a parser, then the one its value asks for on what is left.  A failure of either is handed
    on as it is. -/
@[inline] def andThen (p : Parser α) (next : α → Parser β) : Parser β := fun inp scopes =>
  match p inp scopes with
  | none => none
  | some (.matched rest value, scopes) => next value rest scopes
  | some (.failed e, scopes) => some (.failed e, scopes)
  | some (.aborted m, scopes) => some (.aborted m, scopes)

/-- Run a parser and, when it fails, another one on the same input. -/
@[inline] def or (p q : Parser α) : Parser α := fun inp scopes =>
  match p inp scopes with
  | none => none
  | some (.matched rest value, scopes) => some (.matched rest value, scopes)
  | some (.failed _, scopes) => q inp scopes
  | some (.aborted m, scopes) => some (.aborted m, scopes)

/-! ## Traces -/

/-- Run a parser in a scope of its own and close the scope again: what it answered, what was
    reported meanwhile, and the scopes around.  A run that is given up leaves its scope open. -/
@[inline] def collect (p : Parser α) (inp : Input) (scopes : Scopes) :
    Option (Reply α × Trace × Scopes) :=
  match p inp scopes.enter with
  | none => none
  | some (.aborted m, scopes) => some (.aborted m, [], scopes)
  | some (reply, scopes) => some (reply, scopes.leave)

/-- How a parser came out that was entered with `inp`, unless its run was given up or is now: a
    match that left more than it was given took no number of bytes.  A failure with more left than
    was given counts as one at the start. -/
def outcome (inp : Input) : Reply α → Except Misuse Outcome
  | .matched rest _ =>
    if rest.size ≤ inp.size then .ok (.matched (inp.size - rest.size)) else .error .overrun
  | .failed e => .ok (.failed (inp.size - e.rest.size))
  | .aborted m => .error m

/-- Report how a parser came out, and what was reported while it was running, to the scope around
    it. -/
@[inline] def marked (label : String) (p : Parser α) : Parser α := fun inp scopes =>
  -- Nobody listens.
  if scopes.isEmpty then
    p inp scopes
  else
    match collect p inp scopes with
    | none => none
    | some (reply, scope, outer) =>
      match outcome inp reply with
      | .error m => some (.aborted m, outer)
      | .ok outcome => some (reply, outer.report ⟨label, outcome, scope⟩)

/-- Pair the value with the trace of the run that made it. -/
@[inline] def traced (p : Parser α) : Parser (α × Trace) := fun inp scopes =>
  match collect p inp scopes with
  | none => none
  | some (.matched rest value, trace, scopes) => some (.matched rest (value, trace), scopes)
  | some (.failed e, _, scopes) => some (.failed e, scopes)
  | some (.aborted m, _, scopes) => some (.aborted m, scopes)

end Parser

end Descent
