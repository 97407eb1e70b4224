/-
  Descent.Grammar.Forms

  The vocabulary for writing grammars: single steps, and the combinations that `Grammar` does not
  have as constructors of their own.  A combination of two grammars comes in two spellings, one to
  be written behind the first grammar and one to be written in front of both; they are the same.
-/
import Descent.Grammar

namespace Descent.Grammar

variable {N : Type → Type} {α β γ : Type}

/-! ## Single steps -/

/-- Succeed with a value and consume nothing. -/
def pure (value : α) : Grammar N α := .leaf fun inp => .ok (inp, value)

/-- Succeed and consume nothing. -/
def empty : Grammar N Unit := pure ()

/-- Succeed only where nothing is left. -/
def atEnd : Grammar N Unit := .leaf fun inp =>
  if inp.isEmpty then .ok (inp, ()) else .error ⟨inp⟩

/-- One character, whichever it is. -/
def any : Grammar N Char := .leaf fun inp =>
  match inp.next? with
  | some (c, rest) => .ok (rest, c)
  | none => .error ⟨inp⟩

/-- Exactly these characters. -/
def chars (literal : List Char) : Grammar N (List Char) := .leaf fun inp =>
  match inp.strip? literal with
  | some rest => .ok (rest, literal)
  | none => .error ⟨inp⟩

/-- Exactly this text. -/
def literal (s : String) : Grammar N String := (chars s.toList).map fun _ => s

/-- Exactly this character. -/
def char (c : Char) : Grammar N Char := (chars [c]).map fun _ => c

/-- One character that satisfies a condition. -/
def satisfying (keep : Char → Bool) : Grammar N Char := any.filter keep

/-! ## Values -/

/-- Replace the value. -/
def constant (value : β) (g : Grammar N α) : Grammar N β := g.map fun _ => value

/-- Forget the value. -/
def ignored (g : Grammar N α) : Grammar N Unit := g.map fun _ => ()

/-- Join the characters of a list into a text. -/
def text (g : Grammar N (List Char)) : Grammar N String := g.map String.ofList

/-! ## Sequences -/

/-- One after the other, with both values. -/
def both (g : Grammar N α) (h : Grammar N β) : Grammar N (α × β) :=
  g.andThen fun a => h.map fun b => (a, b)

/-- One after the other, with the second value. -/
def skipThen (g : Grammar N α) (h : Grammar N β) : Grammar N β := g.andThen fun _ => h

/-- One after the other, with the first value. -/
def thenSkip (g : Grammar N α) (h : Grammar N β) : Grammar N α :=
  g.andThen fun a => h.map fun _ => a

/-- Surrounded by two others, whose values are dropped. -/
def between (g : Grammar N α) (start : Grammar N β) (finish : Grammar N γ) : Grammar N α :=
  start.andThen fun _ => g.andThen fun a => finish.map fun _ => a

/-! ## Choice and repetition -/

/-- Take it if it is there. -/
def optional (g : Grammar N α) : Grammar N (Option α) := (g.map some).or (pure none)

/-! ## Spellings to be written in front -/

/-- As `map`. -/
def mapped (g : Grammar N α) (f : α → β) : Grammar N β := g.map f

/-- As `filter`. -/
def accepted (g : Grammar N α) (keep : α → Bool) : Grammar N α := g.filter keep

/-- As `andThen`. -/
def chained (g : Grammar N α) (next : α → Grammar N β) : Grammar N β := g.andThen next

/-- As `both`. -/
def pair (g : Grammar N α) (h : Grammar N β) : Grammar N (α × β) := g.both h

/-- As `thenSkip`. -/
def left (g : Grammar N α) (h : Grammar N β) : Grammar N α := g.thenSkip h

/-- As `skipThen`. -/
def right (g : Grammar N α) (h : Grammar N β) : Grammar N β := g.skipThen h

/-- As `or`. -/
def either (g h : Grammar N α) : Grammar N α := g.or h

/-- Any number of times. -/
def zeroOrMore (g : Grammar N α) : Grammar N (List α) := g.repeated Bounds.free

/-- At least once. -/
def oneOrMore (g : Grammar N α) : Grammar N (List α) := g.repeated (Bounds.free.atLeast 1)

end Descent.Grammar
