/-
  Descent.Proofs.Courses

  Repetition against its definition.  A repetition is at a point: what is left of the input and the
  scopes that are open there.  It advances from a point to the next one by a value, as long as its
  bounds allow one more and the parser succeeds there and leaves another length of text.  A course
  is a sequence of such steps, and a full course is one that cannot be continued.  There is one full
  course from every point at most, and a repetition takes it, whatever the parser does with input
  and scopes; what it answers depends on the values of the course, on the bounds, and on how the
  very first attempt came out.

  Bounds are made by a chain of calls, each of which sets one limit or both.  The last call that
  sets a limit counts.
-/
import Mathlib.Data.List.Induction
import Descent.Grammar.Forms
import Descent.Proofs.Consumed

namespace Descent

-- ============================================================================
-- Chains of bounds
-- ============================================================================

/-- A call that limits the number of values of a repetition. -/
inductive Limitation where
  | atLeast (n : Nat)
  | atMost (n : Nat)
  | exactly (n : Nat)
deriving DecidableEq

namespace Limitation

/-- What the call makes of the bounds so far. -/
def apply : Limitation → Bounds → Bounds
  | .atLeast n, b => b.atLeast n
  | .atMost n, b => b.atMost n
  | .exactly n, b => b.exactly n

/-- The lower bound that the call sets. -/
def least? : Limitation → Option Nat
  | .atLeast n | .exactly n => some n
  | .atMost _ => none

/-- The upper bound that the call sets. -/
def most? : Limitation → Option Nat
  | .atMost n | .exactly n => some n
  | .atLeast _ => none

end Limitation

namespace Bounds

/-- The bounds of a repetition on which these calls are made, one after the other. -/
def chain (calls : List Limitation) : Bounds := calls.foldl (fun b call => call.apply b) free

/-- The lower bound written last; without one, none is asked for. -/
def lastLeast (calls : List Limitation) : Nat :=
  (calls.filterMap Limitation.least?).getLast?.getD 0

/-- The upper bound written last. -/
def lastMost (calls : List Limitation) : Option Nat :=
  (calls.filterMap Limitation.most?).getLast?

theorem chain_append (calls : List Limitation) (call : Limitation) :
    chain (calls ++ [call]) = call.apply (chain calls) := by
  rw [chain, List.foldl_append]
  rfl

/-- A chain of calls leaves the bounds written last. -/
theorem chain_eq (calls : List Limitation) : chain calls = ⟨lastLeast calls, lastMost calls⟩ := by
  -- A call is made on what the calls in front of it left.
  induction calls using List.reverseRecOn with
  | nil => rfl
  | append_singleton calls call ih =>
    rw [chain_append, ih]
    cases call <;>
      simp [Limitation.apply, atLeast, atMost, exactly, lastLeast, lastMost, Limitation.least?,
        Limitation.most?, List.filterMap_append]

end Bounds

-- ============================================================================
-- Courses
-- ============================================================================

/-- What is left to read and the scopes that are open. -/
abbrev Point := Input × Scopes

section Courses

variable {α : Type} {p : Parser α} {b : Bounds} {n : Nat} {x y z : Point} {v : α} {vs : List α}

/-- With `n` values gathered, the parser adds one more on the way from `x` to `y`. -/
structure Parser.Advances (p : Parser α) (most : Option Nat) (n : Nat) (x : Point) (v : α)
    (y : Point) : Prop where
  allowed : ∀ hi ∈ most, n < hi
  run : p x.1 x.2 = some (.matched y.1 v, y.2)
  progress : y.1.size ≠ x.1.size

/-- With `n` values gathered, the parser adds these on the way from `x` to `z`. -/
inductive Parser.Course (p : Parser α) (most : Option Nat) : Nat → Point → List α → Point → Prop
  | stay {n : Nat} {x : Point} : Course p most n x [] x
  | step {n : Nat} {x y z : Point} {v : α} {vs : List α} (hv : p.Advances most n x v y)
      (hvs : Course p most (n + 1) y vs z) : Course p most n x (v :: vs) z

/-- A course that cannot be continued. -/
structure Parser.FullCourse (p : Parser α) (most : Option Nat) (n : Nat) (x : Point) (vs : List α)
    (z : Point) : Prop where
  course : p.Course most n x vs z
  ends : ∀ v y, ¬ p.Advances most (n + vs.length) z v y

/-- How the next attempt stops a repetition that has gathered `n` values, and the scopes it leaves;
    a misuse stops it for good. -/
inductive Parser.Halts (p : Parser α) (most : Option Nat) (n : Nat) (x : Point) :
    Except Misuse Stop → Scopes → Prop
  | full {hi : Nat} (hmost : hi ∈ most) (hle : hi ≤ n) : Halts p most n x (.ok .full) x.2
  | idle {rest : Input} {v : α} {scopes : Scopes} (hopen : ∀ hi ∈ most, n < hi)
      (hrun : p x.1 x.2 = some (.matched rest v, scopes)) (hsize : rest.size = x.1.size) :
      Halts p most n x (.ok .idle) scopes
  | refused {e : Failure} {scopes : Scopes} (hopen : ∀ hi ∈ most, n < hi)
      (hrun : p x.1 x.2 = some (.failed e, scopes)) : Halts p most n x (.ok (.refused e)) scopes
  | aborted {m : Misuse} {scopes : Scopes} (hopen : ∀ hi ∈ most, n < hi)
      (hrun : p x.1 x.2 = some (.aborted m, scopes)) : Halts p most n x (.error m) scopes

namespace Parser

/-- From one point a parser advances to one other and by one value at most. -/
theorem Advances.unique {most : Option Nat} {v' : α} {y' : Point} (h : p.Advances most n x v y)
    (h' : p.Advances most n x v' y') : v = v' ∧ y = y' := by
  have hrun : (Reply.matched y.1 v, y.2) = (.matched y'.1 v', y'.2) :=
    Option.some.inj (h.run.symm.trans h'.run)
  obtain ⟨hreply, hscopes⟩ := Prod.mk.inj hrun
  obtain ⟨hrest, hvalue⟩ := Reply.matched.inj hreply
  exact ⟨hvalue, Prod.ext hrest hscopes⟩

/-- There is one full course from a point at most. -/
theorem FullCourse.unique {most : Option Nat} {vs' : List α} {z' : Point}
    (h : p.FullCourse most n x vs z) (h' : p.FullCourse most n x vs' z') : vs = vs' ∧ z = z' := by
  obtain ⟨hcourse, hends⟩ := h
  -- Along the first course, which the second one has to follow step by step.
  induction hcourse generalizing vs' with
  | stay =>
    cases h'.course with
    | stay => exact ⟨rfl, rfl⟩
    | step hv' _ => exact absurd hv' (hends _ _)
  | @step n x y z v vs hv hvs ih =>
    obtain ⟨hcourse', hends'⟩ := h'
    cases hcourse' with
    | stay => exact absurd hv (hends' _ _)
    | @step _ _ y' _ v' vs' hv' hvs' =>
      obtain ⟨rfl, rfl⟩ := hv.unique hv'
      have hcount (ws : List α) : n + (v :: ws).length = n + 1 + ws.length := by
        rw [List.length_cons]
        omega
      rw [hcount] at hends hends'
      obtain ⟨rfl, rfl⟩ := ih ⟨hvs', hends'⟩ hends
      exact ⟨rfl, rfl⟩

/-- A course gathers no more than is allowed. -/
theorem Course.length_le {most : Option Nat} (h : p.Course most n x vs z) {hi : Nat}
    (hmost : hi ∈ most) (hn : n ≤ hi) : n + vs.length ≤ hi := by
  induction h with
  | stay => exact hn
  | step hv _ ih =>
    have hlt := hv.allowed hi hmost
    have hle := ih hlt
    rw [List.length_cons]
    omega

/-- Where the next attempt stops a repetition it does not go on. -/
theorem Halts.not_advances {most : Option Nat} {stop : Except Misuse Stop} {scopes : Scopes}
    (h : p.Halts most n x stop scopes) : ¬ p.Advances most n x v y := by
  intro hv
  have hrun := hv.run
  cases h with
  | full hmost hle =>
    have hlt := hv.allowed _ hmost
    omega
  | idle _ hrun' hsize =>
    rw [hrun'] at hrun
    simp only [Option.some.injEq, Prod.mk.injEq, Reply.matched.injEq] at hrun
    exact hv.progress (hrun.1.1 ▸ hsize)
  | refused _ hrun' | aborted _ hrun' =>
    rw [hrun'] at hrun
    simp at hrun

/-- At a point where a parser does not advance it stops, if it answers there at all. -/
theorem halts_of_not_advances {most : Option Nat} (h : ∀ v y, ¬ p.Advances most n x v y)
    (hanswer : (∃ hi ∈ most, hi ≤ n) ∨ ∃ answer, p x.1 x.2 = some answer) :
    ∃ stop scopes, p.Halts most n x stop scopes := by
  by_cases hfull : ∃ hi ∈ most, hi ≤ n
  · obtain ⟨hi, hmost, hle⟩ := hfull
    exact ⟨_, _, .full hmost hle⟩
  · have hopen : ∀ hi ∈ most, n < hi := fun hi hmost => by
      by_contra hle
      exact hfull ⟨hi, hmost, Nat.le_of_not_lt hle⟩
    obtain ⟨⟨reply, scopes⟩, hrun⟩ := hanswer.resolve_left hfull
    cases reply with
    | matched rest v =>
      have hsize : rest.size = x.1.size := by
        by_contra hprogress
        exact h v (rest, scopes) ⟨hopen, hrun, hprogress⟩
      exact ⟨_, _, .idle hopen hrun hsize⟩
    | failed e => exact ⟨_, _, .refused hopen hrun⟩
    | aborted m => exact ⟨_, _, .aborted hopen hrun⟩

-- ============================================================================
-- The loop takes its course
-- ============================================================================

/-- The loop goes along a course, an attempt for each value. -/
theorem Course.gather_eq (h : p.Course b.most n x vs z) (limit : Nat) (newestFirst : List α) :
    gather b p (limit + vs.length) x.1 n newestFirst x.2 =
      gather b p limit z.1 (n + vs.length) (vs.reverse ++ newestFirst) z.2 := by
  induction h generalizing newestFirst with
  | stay => rfl
  | @step n x y z v vs hv hvs ih =>
    have hopen : b.isFull n = false := Bounds.isFull_eq_false_iff.2 hv.allowed
    have hstep : gather b p (limit + (v :: vs).length) x.1 n newestFirst x.2 =
        gather b p (limit + vs.length) y.1 (n + 1) (v :: newestFirst) y.2 := by
      rw [List.length_cons, ← Nat.add_assoc, gather, hopen, hv.run]
      simp [hv.progress]
    have hcount : n + 1 + vs.length = n + (v :: vs).length := by
      rw [List.length_cons]
      omega
    rw [hstep, ih, hcount, List.reverse_cons, List.append_assoc]
    rfl

/-- The loop stops where the next attempt stops it. -/
theorem Halts.gather_eq {stop : Except Misuse Stop} {scopes : Scopes}
    (h : p.Halts b.most n x stop scopes) (limit : Nat) (newestFirst : List α) :
    gather b p (limit + 1) x.1 n newestFirst x.2 =
      some (stop.map fun stop => ⟨newestFirst.reverse, x.1, stop⟩, scopes) := by
  rw [gather]
  cases h with
  | full hmost hle =>
    have hfull : b.isFull n = true := (Bounds.isFull_iff b n).2 ⟨_, hmost, hle⟩
    rw [if_pos hfull]
    rfl
  | idle hopen hrun hsize =>
    rw [Bounds.isFull_eq_false_iff.2 hopen, hrun]
    simp only [Bool.false_eq_true, if_false, if_pos hsize]
    rfl
  | refused hopen hrun | aborted hopen hrun =>
    rw [Bounds.isFull_eq_false_iff.2 hopen, hrun]
    rfl

/-- Where the loop ends it has taken a course and was stopped behind it. -/
theorem exists_course_of_gather {limit : Nat} {newestFirst : List α}
    {haul : Except Misuse (Haul α)} {scopes : Scopes}
    (h : gather b p limit x.1 n newestFirst x.2 = some (haul, scopes)) :
    ∃ vs z stop, p.Course b.most n x vs z ∧ vs.length < limit ∧
      p.Halts b.most (n + vs.length) z stop scopes := by
  -- Along the attempts that are left: one that advances is the first step of a course.
  induction limit generalizing x n newestFirst with
  | zero => exact absurd h (by simp [gather])
  | succ limit ih =>
    have hanswer : (∃ hi ∈ b.most, hi ≤ n) ∨ ∃ answer, p x.1 x.2 = some answer := by
      cases hfull : b.isFull n with
      | true => exact .inl ((Bounds.isFull_iff b n).1 hfull)
      | false =>
        cases hrun : p x.1 x.2 with
        | some answer => exact .inr ⟨answer, rfl⟩
        | none => simp [gather, hfull, hrun] at h
    by_cases hnext : ∃ v y, p.Advances b.most n x v y
    · obtain ⟨v, y, hv⟩ := hnext
      have hstep : p.Course b.most n x [v] y := .step hv .stay
      have hrest := hstep.gather_eq limit newestFirst
      rw [List.length_singleton, h] at hrest
      obtain ⟨vs, z, stop, hcourse, hlength, hstop⟩ := ih hrest.symm
      refine ⟨v :: vs, z, stop, .step hv hcourse, ?_, ?_⟩
      · rw [List.length_cons]
        omega
      · have hcount : n + (v :: vs).length = n + 1 + vs.length := by
          rw [List.length_cons]
          omega
        rw [hcount]
        exact hstop
    · have hends : ∀ v y, ¬ p.Advances b.most n x v y := fun v y hv => hnext ⟨v, y, hv⟩
      obtain ⟨stop, scopes', hstop⟩ := halts_of_not_advances hends hanswer
      have hgather := hstop.gather_eq limit newestFirst
      rw [h] at hgather
      obtain ⟨-, rfl⟩ := Prod.mk.inj (Option.some.inj hgather)
      exact ⟨[], x, stop, .stay, Nat.succ_pos limit, hstop⟩

-- ============================================================================
-- What a repetition answers
-- ============================================================================

/-- The failure of the very first attempt, if one is allowed and fails. -/
def firstFailure? (p : Parser α) (most : Option Nat) (x : Point) : Option Failure :=
  if most = some 0 then none
  else
    match p x.1 x.2 with
    | some (.failed e, _) => some e
    | _ => none

/-- The answer of a repetition that was given `x`, gathered these values and left `rest`.  Without
    a single value the failure of the first attempt is handed on. -/
def verdict (p : Parser α) (least : Nat) (most : Option Nat) (x : Point) (vs : List α)
    (rest : Input) : Reply (List α) :=
  if least ≤ vs.length then .matched rest vs
  else if vs.isEmpty then .failed ((p.firstFailure? most x).getD ⟨x.1⟩)
  else .failed ⟨x.1⟩

/-- Too few values, and no failure of a first attempt: the repetition fails where it began. -/
theorem verdict_of_no_failure {least : Nat} {most : Option Nat} {rest : Input}
    (hlt : vs.length < least) (hnone : ¬ (vs.length = 0 ∧ most ≠ some 0 ∧
      ∃ e scopes, p x.1 x.2 = some (.failed e, scopes))) :
    p.verdict least most x vs rest = .failed ⟨x.1⟩ := by
  rw [verdict, if_neg (Nat.not_le_of_lt hlt)]
  cases vs with
  | cons v vs => rfl
  | nil =>
    have hfirst : p.firstFailure? most x = none := by
      rw [firstFailure?]
      split
      · rfl
      · next hopen =>
        split
        · next e scopes hrun => exact absurd ⟨rfl, hopen, e, scopes, hrun⟩ hnone
        · rfl
    rw [hfirst]
    rfl

/-- The answer of a repetition that was stopped in this way. -/
def settled (b : Bounds) (inp : Input) (vs : List α) (rest : Input) :
    Except Misuse Stop → Reply (List α)
  | .ok stop => judge b inp ⟨vs, rest, stop⟩
  | .error m => .aborted m

/-- What stops a repetition at its first point is the first failure, if there is one. -/
theorem Halts.firstFailure?_eq {most : Option Nat} {stop : Stop} {scopes : Scopes}
    (h : p.Halts most 0 x (.ok stop) scopes) :
    p.firstFailure? most x = match stop with
      | .refused e => some e
      | .full | .idle => none := by
  have hfull {hi : Nat} (hmost : hi ∈ most) (hle : hi ≤ 0) : most = some 0 := by
    have hzero : hi = 0 := Nat.le_zero.1 hle
    exact hzero ▸ hmost
  have hnot (hopen : ∀ hi ∈ most, 0 < hi) : most ≠ some 0 := fun hmost =>
    absurd (hopen 0 hmost) (Nat.lt_irrefl 0)
  rw [firstFailure?]
  cases h with
  | full hmost hle => rw [if_pos (hfull hmost hle)]
  | idle hopen hrun _ => rw [if_neg (hnot hopen), hrun]
  | refused hopen hrun => rw [if_neg (hnot hopen), hrun]

/-- The verdict on a course does not depend on how it was stopped, but for its first point. -/
theorem Halts.judge_eq {stop : Stop} {scopes : Scopes} (hcourse : p.Course b.most 0 x vs z)
    (h : p.Halts b.most vs.length z (.ok stop) scopes) :
    judge b x.1 ⟨vs, z.1, stop⟩ = p.verdict b.least b.most x vs z.1 := by
  by_cases hle : b.least ≤ vs.length
  · rw [judge_of_le hle, verdict, if_pos hle]
  · rw [verdict, if_neg hle]
    cases hcourse with
    | stay =>
      have hfirst := h.firstFailure?_eq
      rw [judge, if_neg hle]
      cases stop with
      | full | idle | refused e => simp [hfirst]
    | step _ _ =>
      rw [judge_of_lt (Nat.lt_of_not_le hle) (List.cons_ne_nil _ _)]
      rfl

theorem Course.repeated_eq {limit : Nat} {stop : Except Misuse Stop} {scopes : Scopes}
    (hcourse : p.Course b.most 0 x vs z) (hlimit : vs.length < limit)
    (hstop : p.Halts b.most vs.length z stop scopes) :
    repeated limit b p x.1 x.2 = some (settled b x.1 vs z.1 stop, scopes) := by
  obtain ⟨more, rfl⟩ : ∃ more, limit = more + 1 + vs.length :=
    ⟨limit - vs.length - 1, by omega⟩
  have hhalt := hstop.gather_eq more (vs.reverse ++ [])
  rw [repeated, hcourse.gather_eq (more + 1) [], Nat.zero_add, hhalt, List.append_nil,
    List.reverse_reverse]
  cases stop with
  | ok stop | error m => rfl

/-- Where a repetition ends it has taken a full course and was stopped behind it. -/
theorem exists_course_of_repeated {limit : Nat} {reply : Reply (List α)} {scopes : Scopes}
    (h : repeated limit b p x.1 x.2 = some (reply, scopes)) :
    ∃ vs z stop, p.FullCourse b.most 0 x vs z ∧ vs.length < limit ∧
      p.Halts b.most vs.length z stop scopes ∧ reply = settled b x.1 vs z.1 stop := by
  have hgather : ∃ haul scopes', gather b p limit x.1 0 [] x.2 = some (haul, scopes') := by
    cases hg : gather b p limit x.1 0 [] x.2 with
    | none => simp [repeated, hg] at h
    | some answer => exact ⟨answer.1, answer.2, rfl⟩
  obtain ⟨haul, scopes', hgather⟩ := hgather
  obtain ⟨vs, z, stop, hcourse, hlimit, hstop⟩ := exists_course_of_gather hgather
  rw [Nat.zero_add] at hstop
  have hrun := hcourse.repeated_eq hlimit hstop
  rw [h] at hrun
  obtain ⟨rfl, rfl⟩ := Prod.mk.inj (Option.some.inj hrun)
  have hends : ∀ v y, ¬ p.Advances b.most (0 + vs.length) z v y := by
    intro v y
    rw [Nat.zero_add]
    exact hstop.not_advances
  exact ⟨vs, z, stop, ⟨hcourse, hends⟩, hlimit, hstop, rfl⟩

/-- A repetition comes to its end if the limit is not reached and the last attempt, if one is
    made, comes to its own. -/
theorem FullCourse.answers_iff (h : p.FullCourse b.most 0 x vs z) (limit : Nat) :
    (∃ answer, repeated limit b p x.1 x.2 = some answer) ↔ vs.length < limit ∧
      ((∃ hi ∈ b.most, hi ≤ vs.length) ∨ ∃ answer, p z.1 z.2 = some answer) := by
  refine ⟨fun hanswer => ?_, fun hends => ?_⟩
  · obtain ⟨⟨reply, scopes⟩, hrun⟩ := hanswer
    obtain ⟨ws, y, stop, hcourse, hlimit, hstop, -⟩ := exists_course_of_repeated hrun
    obtain ⟨rfl, rfl⟩ := h.unique hcourse
    refine ⟨hlimit, ?_⟩
    cases hstop with
    | full hmost hle => exact .inl ⟨_, hmost, hle⟩
    | idle _ hrun _ | refused _ hrun | aborted _ hrun => exact .inr ⟨_, hrun⟩
  · obtain ⟨hlimit, hanswer⟩ := hends
    have hnone : ∀ v y, ¬ p.Advances b.most vs.length z v y := by
      have hends := h.ends
      rwa [Nat.zero_add] at hends
    obtain ⟨stop, scopes, hstop⟩ := halts_of_not_advances hnone hanswer
    exact ⟨_, h.course.repeated_eq hlimit hstop⟩

/-- A repetition answers what its full course and the bounds say, unless the last attempt was
    given up. -/
theorem FullCourse.reply_eq (h : p.FullCourse b.most 0 x vs z) {limit : Nat}
    {reply : Reply (List α)} {scopes : Scopes}
    (hrun : repeated limit b p x.1 x.2 = some (reply, scopes)) :
    (∃ m, reply = .aborted m ∧ p z.1 z.2 = some (.aborted m, scopes)) ∨
      reply = p.verdict b.least b.most x vs z.1 := by
  obtain ⟨ws, y, stop, hcourse, -, hstop, rfl⟩ := exists_course_of_repeated hrun
  obtain ⟨rfl, rfl⟩ := h.unique hcourse
  cases stop with
  | ok stop => exact .inr (hstop.judge_eq h.course)
  | error m =>
    cases hstop with
    | aborted _ hrun => exact .inl ⟨m, rfl, hrun⟩

/-- Only the values of a full course, and enough of them, are a success. -/
theorem course_of_repeated_matched {limit : Nat} {rest : Input} {scopes : Scopes}
    (h : repeated limit b p x.1 x.2 = some (.matched rest vs, scopes)) :
    ∃ z, p.FullCourse b.most 0 x vs z ∧ z.1 = rest ∧ b.least ≤ vs.length := by
  obtain ⟨ws, z, stop, hcourse, -, -, -⟩ := exists_course_of_repeated h
  rcases hcourse.reply_eq h with ⟨m, hm, -⟩ | hverdict
  · cases hm
  · rw [verdict] at hverdict
    split at hverdict
    · next hle =>
      obtain ⟨rfl, rfl⟩ := Reply.matched.inj hverdict
      exact ⟨z, hcourse, rfl, hle⟩
    · split at hverdict <;> cases hverdict

/-- A failure comes of too few values. -/
theorem course_of_repeated_failed {limit : Nat} {e : Failure} {scopes : Scopes}
    (h : repeated limit b p x.1 x.2 = some (.failed e, scopes)) :
    ∃ vs z stop, p.Course b.most 0 x vs z ∧ vs.length < limit ∧ vs.length < b.least ∧
      p.Halts b.most vs.length z (.ok stop) scopes ∧ judge b x.1 ⟨vs, z.1, stop⟩ = .failed e := by
  obtain ⟨vs, z, stop, hcourse, hlimit, hstop, hreply⟩ := exists_course_of_repeated h
  cases stop with
  | error m => cases hreply
  | ok stop =>
    have hjudge : judge b x.1 ⟨vs, z.1, stop⟩ = .failed e := hreply.symm
    have hlt : vs.length < b.least := by
      by_contra hle
      rw [judge_of_le (Nat.le_of_not_lt hle)] at hjudge
      cases hjudge
    exact ⟨vs, z, stop, hcourse.course, hlimit, hlt, hstop, hjudge⟩

/-- A repetition that asks for one value fails if the first attempt fails, in the same way, or
    consumes nothing. -/
theorem repeated_once_failed_iff {limit : Nat} (hmost : b.most = none) (hleast : b.least = 1)
    (e : Failure) :
    (∃ scopes, repeated limit b p x.1 x.2 = some (.failed e, scopes)) ↔ 0 < limit ∧
      ((∃ scopes, p x.1 x.2 = some (.failed e, scopes)) ∨
        e = ⟨x.1⟩ ∧ ∃ rest v scopes, p x.1 x.2 = some (.matched rest v, scopes) ∧
          rest.size = x.1.size) := by
  have hopen : ∀ hi ∈ b.most, 0 < hi := by simp [hmost]
  have hfew : ¬ b.least ≤ ([] : List α).length := by simp [hleast]
  refine ⟨fun hfailed => ?_, fun hfirst => ?_⟩
  · obtain ⟨scopes, hrun⟩ := hfailed
    obtain ⟨vs, z, stop, hcourse, hlimit, hlt, hstop, hjudge⟩ := course_of_repeated_failed hrun
    rw [hleast, Nat.lt_one_iff, List.length_eq_zero_iff] at hlt
    subst hlt
    refine ⟨hlimit, ?_⟩
    cases hcourse
    rw [judge, if_neg hfew] at hjudge
    cases hstop with
    | full hfull _ =>
      rw [hmost] at hfull
      cases hfull
    | idle _ hrun hsize => exact .inr ⟨(Reply.failed.inj hjudge).symm, _, _, _, hrun, hsize⟩
    | refused _ hrun => exact .inl ⟨scopes, Reply.failed.inj hjudge ▸ hrun⟩
  · obtain ⟨hlimit, hfirst⟩ := hfirst
    have hanswer {stop : Stop} {scopes : Scopes} (hstop : p.Halts b.most 0 x (.ok stop) scopes) :
        repeated limit b p x.1 x.2 = some (judge b x.1 ⟨[], x.1, stop⟩, scopes) :=
      Course.stay.repeated_eq hlimit hstop
    rcases hfirst with ⟨scopes, hrun⟩ | ⟨rfl, rest, v, scopes, hrun, hsize⟩
    · refine ⟨scopes, ?_⟩
      rw [hanswer (.refused hopen hrun), judge, if_neg hfew]
    · refine ⟨scopes, ?_⟩
      rw [hanswer (.idle hopen hrun hsize), judge, if_neg hfew]

end Parser

end Courses

open Bounds (chain lastLeast lastMost) in
/-- A repetition takes its full course, by the bounds written last.  Where it ends there is one; it
    ends if the limit on attempts is not reached and the last attempt, if the bounds allow one,
    comes to an end.  Unless that attempt is given up, the answer is the values of the course and
    what it leaves if they are enough, the failure of the very first attempt if there is no value
    and this attempt is allowed and fails, and otherwise a failure at the input.  So no lower bound
    means no failure, the number of values keeps within the bounds, and at least one value is
    missed exactly if the first attempt fails or consumes nothing. -/
theorem repeated_takes_full_course {α : Type} (p : Parser α) (calls : List Limitation)
    (limit : Nat) (inp : Input) (scopes : Scopes) :
    (∀ answer, Parser.repeated limit (chain calls) p inp scopes = some answer →
      ∃ vs z, p.FullCourse (lastMost calls) 0 (inp, scopes) vs z) ∧
    (∀ vs z, p.FullCourse (lastMost calls) 0 (inp, scopes) vs z →
      ((∃ answer, Parser.repeated limit (chain calls) p inp scopes = some answer) ↔
        vs.length < limit ∧
          ((∃ hi ∈ lastMost calls, hi ≤ vs.length) ∨ ∃ answer, p z.1 z.2 = some answer)) ∧
      ∀ reply scopes', Parser.repeated limit (chain calls) p inp scopes = some (reply, scopes') →
        (∃ m, reply = .aborted m ∧ p z.1 z.2 = some (.aborted m, scopes')) ∨
          (lastLeast calls ≤ vs.length → reply = .matched z.1 vs) ∧
          (∀ e scopes'', vs.length < lastLeast calls → vs.length = 0 → lastMost calls ≠ some 0 →
            p inp scopes = some (.failed e, scopes'') → reply = .failed e) ∧
          (vs.length < lastLeast calls → ¬ (vs.length = 0 ∧ lastMost calls ≠ some 0 ∧
              ∃ e scopes'', p inp scopes = some (.failed e, scopes'')) →
            reply = .failed ⟨inp⟩)) ∧
    (lastLeast calls = 0 → ∀ e scopes',
      Parser.repeated limit (chain calls) p inp scopes ≠ some (.failed e, scopes')) ∧
    (∀ rest vs scopes',
      Parser.repeated limit (chain calls) p inp scopes = some (.matched rest vs, scopes') →
        lastLeast calls ≤ vs.length ∧ ∀ hi ∈ lastMost calls, vs.length ≤ hi) ∧
    (∀ {N : Type → Type} (call : {β : Type} → N β → Parser β) (g : Grammar N α) (e : Failure),
      (∃ scopes', g.oneOrMore.eval limit call inp scopes = some (.failed e, scopes')) ↔
        0 < limit ∧ ((∃ scopes', g.eval limit call inp scopes = some (.failed e, scopes')) ∨
          e = ⟨inp⟩ ∧ ∃ rest v scopes', g.eval limit call inp scopes =
            some (.matched rest v, scopes') ∧ rest.size = inp.size)) := by
  have hchain := Bounds.chain_eq calls
  have hleast : (chain calls).least = lastLeast calls := by rw [hchain]
  have hmost : (chain calls).most = lastMost calls := by rw [hchain]
  rw [← hleast, ← hmost]
  refine ⟨?_, ?_, ?_, ?_, ?_⟩
  · rintro ⟨reply, scopes'⟩ hrun
    obtain ⟨vs, z, -, hcourse, -⟩ := Parser.exists_course_of_repeated (x := (inp, scopes)) hrun
    exact ⟨vs, z, hcourse⟩
  · intro vs z hcourse
    refine ⟨hcourse.answers_iff limit, fun reply scopes' hrun => ?_⟩
    refine (hcourse.reply_eq hrun).imp_right fun hverdict => ?_
    subst hverdict
    refine ⟨fun hle => ?_, fun e scopes'' hlt hnil hopen hfirst => ?_, fun hlt hnone => ?_⟩
    · exact if_pos hle
    · have hempty : vs.isEmpty = true := by simpa using hnil
      simp [Parser.verdict, Nat.not_le_of_lt hlt, hempty, Parser.firstFailure?, hopen, hfirst]
    · exact Parser.verdict_of_no_failure hlt hnone
  · intro hzero e scopes' hrun
    obtain ⟨vs, z, stop, -, -, hlt, -⟩ :=
      Parser.course_of_repeated_failed (x := (inp, scopes)) hrun
    omega
  · intro rest vs scopes' hrun
    obtain ⟨z, hcourse, -, hle⟩ := Parser.course_of_repeated_matched (x := (inp, scopes)) hrun
    refine ⟨hle, fun hi hmem => ?_⟩
    have hlength := hcourse.course.length_le hmem (Nat.zero_le hi)
    omega
  · intro N call g e
    exact Parser.repeated_once_failed_iff (x := (inp, scopes)) (b := Bounds.free.atLeast 1) rfl
      rfl e

/-- An `a` and a `b`, at least twice and at most three times as the last calls have it: three of
    four are taken, one is too few, and where there is none the first attempt says why. -/
theorem repeated_takes_full_course_of_pairs :
    let calls := [.exactly 9, .atLeast 2, .atMost 3]
    let p : Parser Char := Grammar.eval 9 (fun n => n.elim)
      ((Grammar.char 'a').skipThen (Grammar.char 'b') : Grammar (fun _ => Empty) Char)
    (∃ scopes, Parser.repeated 9 (Bounds.chain calls) p (.ofString "abababab") [] =
      some (.matched (.ofString "ab") ['b', 'b', 'b'], scopes)) ∧
    (∃ scopes, Parser.repeated 9 (Bounds.chain calls) p (.ofString "abac") [] =
      some (.failed ⟨.ofString "abac"⟩, scopes)) ∧
    (∃ scopes, Parser.repeated 9 (Bounds.chain calls) p (.ofString "ac") [] =
      some (.failed ⟨.ofString "c"⟩, scopes)) := by
  intro calls p
  have hroom : ∀ n < 3, ∀ hi ∈ Bounds.lastMost calls, n < hi := by decide
  have hstep (n : Nat) (cs : List Char) (hn : n < 3) : p.Advances (Bounds.lastMost calls) n
      (.ofChars ('a' :: 'b' :: cs), []) 'b' (.ofChars cs, []) := by
    refine ⟨hroom n hn, ?_, ?_⟩
    · simp [p, Grammar.skipThen, Grammar.char, Grammar.chars, Grammar.eval, Parser.andThen,
        Parser.map, Parser.read, Input.strip?]
    · have hlt : (Input.ofChars cs).size < (Input.ofChars ('a' :: 'b' :: cs)).size :=
        Input.size_lt_of_consumed (List.cons_ne_nil 'a' ['b']) rfl
      exact Nat.ne_of_lt hlt
  refine ⟨?_, ?_, ?_⟩
  · have hcourse : p.FullCourse (Bounds.lastMost calls) 0 (.ofString "abababab", [])
        ['b', 'b', 'b'] (.ofString "ab", []) := by
      refine ⟨.step (hstep 0 _ (by decide)) (.step (hstep 1 _ (by decide))
        (.step (hstep 2 _ (by decide)) .stay)), fun v y h => ?_⟩
      exact absurd (h.allowed 3 rfl) (by decide)
    obtain ⟨-, htaken, -⟩ := repeated_takes_full_course p calls 9 (.ofString "abababab") []
    obtain ⟨hends, hreply⟩ := htaken _ _ hcourse
    obtain ⟨⟨reply, scopes⟩, hrun⟩ := hends.2 ⟨by decide, .inl ⟨3, rfl, by decide⟩⟩
    rcases hreply reply scopes hrun with ⟨m, -, hm⟩ | ⟨henough, -, -⟩
    · cases hm
    · obtain rfl := henough (by decide)
      exact ⟨scopes, hrun⟩
  · have hcourse : p.FullCourse (Bounds.lastMost calls) 0 (.ofString "abac", []) ['b']
        (.ofString "ac", []) :=
      ⟨.step (hstep 0 _ (by decide)) .stay, fun v y h => by cases h.run⟩
    obtain ⟨-, htaken, -⟩ := repeated_takes_full_course p calls 9 (.ofString "abac") []
    obtain ⟨hends, hreply⟩ := htaken _ _ hcourse
    obtain ⟨⟨reply, scopes⟩, hrun⟩ := hends.2 ⟨by decide, .inr ⟨_, rfl⟩⟩
    rcases hreply reply scopes hrun with ⟨m, -, hm⟩ | ⟨-, -, hfew⟩
    · cases hm
    · obtain rfl := hfew (by decide) fun hnone => absurd hnone.1 (by decide)
      exact ⟨scopes, hrun⟩
  · have hcourse : p.FullCourse (Bounds.lastMost calls) 0 (.ofString "ac", []) []
        (.ofString "ac", []) := ⟨.stay, fun v y h => by cases h.run⟩
    obtain ⟨-, htaken, -⟩ := repeated_takes_full_course p calls 9 (.ofString "ac") []
    obtain ⟨hends, hreply⟩ := htaken _ _ hcourse
    obtain ⟨⟨reply, scopes⟩, hrun⟩ := hends.2 ⟨by decide, .inr ⟨_, rfl⟩⟩
    rcases hreply reply scopes hrun with ⟨m, -, hm⟩ | ⟨-, hfirst, -⟩
    · cases hm
    · obtain rfl := hfirst ⟨.ofString "c"⟩ [] (by decide) rfl (by decide) rfl
      exact ⟨scopes, hrun⟩

end Descent
