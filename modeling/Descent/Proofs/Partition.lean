/-
  Descent.Proofs.Partition

  What the functions on sequences of results have in common.  A sequence of results is errors and
  values merged in one way only, so splitting it says everything there is to say about it.  The
  other functions give the values, the first error, the first value or the last error of this one
  partition, and how far they look is told by where the first error or the first value stands.
-/
import Descent.Results

namespace Descent.Results

variable {ε α : Type} {errs : List ε} {oks : List α} {rs : List (Except ε α)}

-- ============================================================================
-- The partition
-- ============================================================================

/-- Errors and values merged into one sequence, in which each kind keeps its order. -/
inductive Merge : List ε → List α → List (Except ε α) → Prop
  | nil : Merge [] [] []
  | error {e : ε} {errs : List ε} {oks : List α} {rs : List (Except ε α)} (h : Merge errs oks rs) :
      Merge (e :: errs) oks (.error e :: rs)
  | ok {a : α} {errs : List ε} {oks : List α} {rs : List (Except ε α)} (h : Merge errs oks rs) :
      Merge errs (a :: oks) (.ok a :: rs)

theorem split_error (e : ε) (rs : List (Except ε α)) :
    split (.error e :: rs) = ((e :: (split rs).1.1, (split rs).1.2), (split rs).2 + 1) := rfl

theorem split_ok (a : α) (rs : List (Except ε α)) :
    split (.ok a :: rs) = (((split rs).1.1, a :: (split rs).1.2), (split rs).2 + 1) := rfl

/-- Splitting undoes a merge, and looks at everything. -/
theorem Merge.split_eq (h : Merge errs oks rs) : split rs = ((errs, oks), rs.length) := by
  induction h with
  | nil => rfl
  | error _ ih => rw [split_error, ih, List.length_cons]
  | ok _ ih => rw [split_ok, ih, List.length_cons]

/-- What splitting gives is merged into the sequence again. -/
theorem merge_split (rs : List (Except ε α)) : Merge (split rs).1.1 (split rs).1.2 rs := by
  induction rs with
  | nil => exact .nil
  | cons r rs ih =>
    cases r with
    | error e => exact .error ih
    | ok a => exact .ok ih

-- ============================================================================
-- Where the first error or value stands
-- ============================================================================

/-- In front of the first error there are values only. -/
theorem Merge.of_cons_error {e : ε} {es : List ε} (h : Merge (e :: es) oks rs) :
    ∃ before after, rs = List.map Except.ok before ++ .error e :: after := by
  generalize herrs : e :: es = errs at h
  induction h with
  | nil => exact absurd herrs (List.cons_ne_nil e es)
  | error _ _ =>
    obtain ⟨rfl, -⟩ := List.cons.inj herrs
    exact ⟨[], _, rfl⟩
  | @ok a _ _ _ _ ih =>
    obtain ⟨before, after, rfl⟩ := ih herrs
    exact ⟨a :: before, after, rfl⟩

/-- In front of the first value there are errors only. -/
theorem Merge.of_cons_ok {a : α} {as : List α} (h : Merge errs (a :: as) rs) :
    ∃ before after, rs = List.map Except.error before ++ .ok a :: after := by
  generalize hoks : a :: as = oks at h
  induction h with
  | nil => exact absurd hoks (List.cons_ne_nil a as)
  | @error e _ _ _ _ ih =>
    obtain ⟨before, after, rfl⟩ := ih hoks
    exact ⟨e :: before, after, rfl⟩
  | ok _ _ =>
    obtain ⟨rfl, -⟩ := List.cons.inj hoks
    exact ⟨[], _, rfl⟩

theorem Merge.of_no_error (h : Merge ([] : List ε) oks rs) : rs = oks.map .ok := by
  generalize herrs : ([] : List ε) = errs at h
  induction h with
  | nil => rfl
  | error _ _ => exact absurd herrs.symm (List.cons_ne_nil _ _)
  | ok _ ih => rw [ih herrs, List.map_cons]

theorem Merge.of_no_ok (h : Merge errs ([] : List α) rs) : rs = errs.map .error := by
  generalize hoks : ([] : List α) = oks at h
  induction h with
  | nil => rfl
  | error _ ih => rw [ih hoks, List.map_cons]
  | ok _ _ => exact absurd hoks.symm (List.cons_ne_nil _ _)

-- ============================================================================
-- The functions
-- ============================================================================

theorem Merge.any_eq (h : Merge errs oks rs) : any rs = (oks, rs.length) := by
  have hvalues : rs.filterMap Except.toOption = oks := by
    induction h with
    | nil => rfl
    | error _ ih => exact ih
    | ok _ ih => exact congrArg _ ih
  rw [any, hvalues]

theorem all_map_ok (oks : List α) :
    all (oks.map (Except.ok (ε := ε))) = (.ok oks, oks.length) := by
  induction oks with
  | nil => rfl
  | cons a oks ih => rw [List.map_cons, all, ih, List.length_cons]

/-- Values in front of an error are looked at, and nothing behind it is. -/
theorem all_error (before : List α) (e : ε) (after : List (Except ε α)) :
    all (before.map .ok ++ .error e :: after) = (.error e, before.length + 1) := by
  induction before with
  | nil => rfl
  | cons a before ih => rw [List.map_cons, List.cons_append, all, ih, List.length_cons]

/-- Errors in front of a value are looked at, and of what is behind the value one more result if
    there is one. -/
theorem first_ok {before : List ε} {a : α} {head : Except ε α} {after tail : List (Except ε α)}
    (h : head :: tail = before.map .error ++ .ok a :: after) :
    first head tail = (.ok a, min (before.length + 1) tail.length) := by
  induction before generalizing head tail with
  | nil =>
    obtain ⟨rfl, rfl⟩ := List.cons.inj h
    cases tail with
    | nil => rfl
    | cons next tail => simp [first]
  | cons e before ih =>
    obtain ⟨rfl, hbehind⟩ := List.cons.inj h
    cases tail with
    | nil => simp at hbehind
    | cons next tail =>
      rw [first, ih hbehind, List.length_cons, List.length_cons]
      simp only [Prod.mk.injEq, true_and]
      omega

/-- Without a value everything is looked at. -/
theorem first_error {es : List ε} {e : ε} {head : Except ε α} {tail : List (Except ε α)}
    (h : head :: tail = (es ++ [e]).map .error) : first head tail = (.error e, tail.length) := by
  induction es generalizing head tail with
  | nil =>
    obtain ⟨rfl, rfl⟩ := List.cons.inj h
    rfl
  | cons e' es ih =>
    obtain ⟨rfl, hbehind⟩ := List.cons.inj h
    cases tail with
    | nil => simp at hbehind
    | cons next tail => rw [first, ih hbehind, List.length_cons]

-- ============================================================================
-- All of them on one sequence
-- ============================================================================

/-- Splitting a sequence looks at all of it and gives the errors and values of which it is a merge.
    The values are what `any` gives.  Without an error they are also what `all` gives, and otherwise
    `all` gives the first error and looks at nothing behind it.  With a value `first` gives the
    first one, and takes as many results from the tail as stand in front of that value and one more,
    if there are so many; without a value it takes the whole tail and gives the last error. -/
theorem collections_of_split {n : Nat} (h : split rs = ((errs, oks), n)) :
    n = rs.length ∧ Merge errs oks rs ∧ any rs = (oks, rs.length) ∧
    (errs = [] → all rs = (.ok oks, rs.length)) ∧
    (∀ e es, errs = e :: es → ∃ before after, rs = List.map Except.ok before ++ .error e :: after ∧
      all rs = (.error e, before.length + 1)) ∧
    ∀ head tail, rs = head :: tail →
      (∀ a as, oks = a :: as → ∃ before after,
        rs = List.map Except.error before ++ .ok a :: after ∧
          first head tail = (.ok a, min (before.length + 1) tail.length)) ∧
      (oks = [] → ∃ es e, errs = es ++ [e] ∧ first head tail = (.error e, tail.length)) := by
  have hmerge : Merge errs oks rs := by
    have hparts := merge_split rs
    rw [h] at hparts
    exact hparts
  have hlength : n = rs.length := (Prod.mk.inj (h.symm.trans hmerge.split_eq)).2
  refine ⟨hlength, hmerge, hmerge.any_eq, fun hnone => ?_, fun e es herrs => ?_,
    fun head tail hrs => ⟨fun a as hoks => ?_, fun hnone => ?_⟩⟩
  · subst hnone
    rw [hmerge.of_no_error, all_map_ok, List.length_map]
  · subst herrs
    obtain ⟨before, after, hbefore⟩ := hmerge.of_cons_error
    exact ⟨before, after, hbefore, by rw [hbefore, all_error]⟩
  · subst hoks
    obtain ⟨before, after, hbefore⟩ := hmerge.of_cons_ok
    exact ⟨before, after, hbefore, first_ok (hrs.symm.trans hbefore)⟩
  · subst hnone
    have herrors : head :: tail = errs.map .error := hrs.symm.trans hmerge.of_no_ok
    have hne : errs ≠ [] := by
      rintro rfl
      exact List.cons_ne_nil _ _ herrors
    have hlast : errs = errs.dropLast ++ [errs.getLast hne] :=
      (List.dropLast_concat_getLast hne).symm
    rw [hlast] at herrors
    exact ⟨_, _, hlast, first_error herrors⟩

/-- A value between two errors: `all` stops at the first error, and `first` takes the last result
    too, which it does not need. -/
theorem collections_of_value_between_errors :
    split [.error 'a', .ok 1, .error 'b'] = ((['a', 'b'], [1]), 3) ∧
    (∃ before after, [.error 'a', .ok 1, .error 'b'] = List.map Except.ok before ++
      .error 'a' :: after ∧ all [.error 'a', .ok 1, .error 'b'] = (.error 'a', before.length + 1)) ∧
    ∃ before after, [.error 'a', .ok 1, .error 'b'] = List.map Except.error before ++
      .ok 1 :: after ∧ first (.error 'a') [.ok 1, .error 'b'] =
        (.ok 1, min (before.length + 1) 2) := by
  have h : split [.error 'a', .ok 1, .error 'b'] = ((['a', 'b'], [1]), 3) := rfl
  obtain ⟨-, -, -, -, herror, hfirst⟩ := collections_of_split h
  exact ⟨h, herror 'a' ['b'] rfl, (hfirst _ _ rfl).1 1 [] rfl⟩

end Descent.Results
