/-
  Descent.Results

  Collecting sequences of results.  Each function also tells how much of the sequence it looked
  at, since some of them stop early.
-/

namespace Descent.Results

variable {ε α β γ : Type}

/-- All values, or the first error.  Nothing behind the first error is looked at. -/
def all : List (Except ε α) → Except ε (List α) × Nat
  | [] => (.ok [], 0)
  | .error e :: _ => (.error e, 1)
  | .ok a :: rs =>
    match all rs with
    | (.ok as, n) => (.ok (a :: as), n + 1)
    | (.error e, n) => (.error e, n + 1)

/-- The values, without the errors. -/
def any (rs : List (Except ε α)) : List α × Nat :=
  (rs.filterMap Except.toOption, rs.length)

/-- The first value, or else the last error.  The result in hand is judged only after the next
    one has been taken, so one result more than needed is looked at if there is one.  The count
    is of those taken from the tail. -/
def first (head : Except ε α) : List (Except ε α) → Except ε α × Nat
  | [] => (head, 0)
  | next :: rs =>
    match head with
    | .ok a => (.ok a, 1)
    | .error _ =>
      let (result, n) := first next rs
      (result, n + 1)

/-- The errors and the values, each in order. -/
def split : List (Except ε α) → (List ε × List α) × Nat
  | [] => (([], []), 0)
  | .error e :: rs =>
    let ((errs, oks), n) := split rs
    ((e :: errs, oks), n + 1)
  | .ok a :: rs =>
    let ((errs, oks), n) := split rs
    ((errs, a :: oks), n + 1)

/-- Both values put together, or the first error.  The count is how often `f` was applied. -/
def combine (f : α → β → γ) : Except ε α → Except ε β → Except ε γ × Nat
  | .ok a, .ok b => (.ok (f a b), 1)
  | .error e, _ => (.error e, 0)
  | _, .error e => (.error e, 0)

end Descent.Results
