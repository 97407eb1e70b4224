/-
  Descent.Text.Ranges

  Sets of characters as ascending lists of inclusive ranges of code points, the form in which the
  character database gives its properties.  The tables beside this module follow its version 17.
-/

namespace Descent.Text

/-- Inclusive ranges of code points, ascending and apart from each other. -/
abbrev Ranges := List (Nat × Nat)

namespace Ranges

/-- Whether a code point lies in one of the ranges.  The ranges ascend, so the search ends at the
    first that begins beyond it. -/
def covers : Ranges → Nat → Bool
  | [], _ => false
  | (first, last) :: more, n => if n < first then false else n ≤ last || covers more n

end Ranges

end Descent.Text
