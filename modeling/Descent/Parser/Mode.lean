/-
  Descent.Parser.Mode

  The ways in which a parser is started from outside.  A plain start gives the reply as it is.  A
  complete one accepts nothing left over.  A traced one also gives the trace, whether the parse
  succeeds or fails, and a verbose one prints it.
-/
import Descent.Parser

namespace Descent

/-- How a parser is started. -/
inductive Mode where
  | parse
  /-- As `parse`, with the parser handed over. -/
  | run
  | complete
  | traced
  | verbose
deriving DecidableEq

/-- What a start gives back: the reply, the trace if one was asked for, and what was printed. -/
structure Report (α : Type) where
  reply : Reply α
  trace : Option Trace
  printed : String

/-- Insist that nothing is left.  What is left otherwise is where the parse failed. -/
def Reply.complete {α : Type} : Reply α → Reply α
  | .matched rest value => if rest.isEmpty then .matched rest value else .failed ⟨rest⟩
  | reply => reply

/-- Insisting that nothing is left does not give a run up. -/
theorem Reply.complete_eq_aborted_iff {α : Type} {reply : Reply α} {m : Misuse} :
    reply.complete = .aborted m ↔ reply = .aborted m := by
  cases reply with
  | matched rest value =>
    have hcomplete : (Reply.matched rest value).complete ≠ .aborted m := by
      intro h
      rw [Reply.complete] at h
      split at h <;> cases h
    exact iff_of_false hcomplete fun h => by cases h
  | failed e | aborted m' => exact Iff.rfl

namespace Parser

variable {α : Type}

/-- Start a parser in a given mode. -/
def start (p : Parser α) (mode : Mode) (inp : Input) (scopes : Scopes) :
    Option (Report α × Scopes) :=
  match mode with
  | .parse | .run => (p inp scopes).map fun (reply, scopes) => (⟨reply, none, ""⟩, scopes)
  | .complete => (p inp scopes).map fun (reply, scopes) => (⟨reply.complete, none, ""⟩, scopes)
  | .traced =>
    (collect p inp scopes).map fun (reply, trace, scopes) => (⟨reply, some trace, ""⟩, scopes)
  | .verbose =>
    (collect p inp scopes).map fun (reply, trace, scopes) => (⟨reply, none, trace.shown⟩, scopes)

end Parser

end Descent
