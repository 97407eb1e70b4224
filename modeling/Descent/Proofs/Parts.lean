/-
  Descent.Proofs.Parts

  Repetition in two parts.  Where a course gets to with its first values another course may begin,
  and bounds matter to a course only through the number of its values.  So exactly so many values
  are gathered by gathering some of them and then the others, and at least so many by gathering
  exactly so many and then as many as there are.

  At most so many values are gathered by gathering at most some of them and then at most the others,
  whichever way the first repetition stops.  If it is full then the second one goes on as the whole
  one would.  If it is stopped by an attempt, be it refused or idle, then the second one makes the
  same attempt again.  It is made with the scopes that the first one has left, so the parser must
  give the same reply with these, which every parser does that a grammar describes: its runs leave
  scopes open just where there were some, and of the scopes no more matters to a reply.
-/
import Descent.Proofs.Attempts

namespace Descent

variable {α : Type}

/-- A run that was not given up, made again with the scopes that it has left, gives the same
    reply. -/
def Parser.AnswersAgain (p : Parser α) : Prop :=
  ∀ inp scopes reply scopes', p inp scopes = some (reply, scopes') → (∀ m, reply ≠ .aborted m) →
    ∃ scopes'', p inp scopes' = some (reply, scopes'')

/-- A parser that only writes a trace leaves scopes that are heard just where the others were, and
    nothing else about them matters to a reply. -/
theorem Parser.Records.answersAgain {p : Parser α} {r : Bool → Recorder α} (h : p.Records r) :
    p.AnswersAgain := by
  intro inp scopes reply scopes' hrun hreply
  obtain ⟨w, hrecord, rfl⟩ := ((h inp scopes).answer_eq_iff hreply).1 hrun
  rw [← Scopes.listens_reportAll scopes w] at hrecord
  exact h.exists_answer hrecord

namespace Parser

variable {p : Parser α} {b : Bounds} {most most' : Option Nat} {n k : Nat} {x y z : Point}
  {vs ws : List α} {limit : Nat}

-- ============================================================================
-- Courses in two parts
-- ============================================================================

/-- Whatever bounds allow a course, it is one without bounds. -/
theorem Course.unbounded (h : p.Course most n x vs z) (k : Nat) : p.Course none k x vs z := by
  induction h generalizing k with
  | stay => exact .stay
  | step hv _ ih => exact .step ⟨by simp, hv.run, hv.progress⟩ (ih (k + 1))

/-- Bounds allow a course if they allow the number of its values. -/
theorem Course.bounded (h : p.Course none k x vs z) (hroom : ∀ hi ∈ most, n + vs.length ≤ hi) :
    p.Course most n x vs z := by
  induction h generalizing n with
  | stay => exact .stay
  | step hv _ ih =>
    refine .step ⟨fun hi hmost => ?_, hv.run, hv.progress⟩ (ih fun hi hmost => ?_)
    all_goals
      have hle := hroom hi hmost
      rw [List.length_cons] at hle
      omega

/-- A course is two courses, one behind the other. -/
theorem course_append_iff : p.Course none 0 x (vs ++ ws) z ↔
    ∃ y, p.Course none 0 x vs y ∧ p.Course none 0 y ws z := by
  induction vs generalizing x with
  | nil =>
    constructor
    · exact fun h => ⟨x, .stay, h⟩
    · rintro ⟨y, ⟨⟩, h⟩
      exact h
  | cons v vs ih =>
    constructor
    · intro h
      obtain _ | ⟨hv, hvs⟩ := h
      obtain ⟨y, hfirst, hsecond⟩ := ih.1 (hvs.unbounded 0)
      exact ⟨y, .step hv (hfirst.unbounded 1), hsecond⟩
    · rintro ⟨y, hfirst, hsecond⟩
      obtain _ | ⟨hv, hvs⟩ := hfirst
      have hrest := ih.2 ⟨y, hvs.unbounded 0, hsecond⟩
      exact .step hv (hrest.unbounded 1)

/-- What stops a repetition stops any other one that has as much room. -/
theorem Halts.congr {stop : Except Misuse Stop} {scopes : Scopes}
    (h : p.Halts most n x stop scopes) (hroom : (∀ hi ∈ most, n < hi) ↔ ∀ hi ∈ most', k < hi) :
    p.Halts most' k x stop scopes := by
  cases h with
  | full hmost hle =>
    have hfull : ¬ ∀ hi ∈ most', k < hi := fun hopen => by
      have hlt := hroom.2 hopen _ hmost
      omega
    simp only [not_forall] at hfull
    obtain ⟨hi', hmost', hle'⟩ := hfull
    exact .full hmost' (Nat.le_of_not_lt hle')
  | idle hopen hrun hsize => exact .idle (hroom.1 hopen) hrun hsize
  | refused hopen hrun => exact .refused (hroom.1 hopen) hrun
  | aborted hopen hrun => exact .aborted (hroom.1 hopen) hrun

-- ============================================================================
-- Successes
-- ============================================================================

/-- A repetition succeeds with the values of a course, if they are enough and it stops there. -/
theorem repeated_matched_iff {rest : Input} {scopes : Scopes} :
    repeated limit b p x.1 x.2 = some (.matched rest vs, scopes) ↔
      ∃ z stop, p.Course b.most 0 x vs z ∧ p.Halts b.most vs.length z (.ok stop) scopes ∧
        vs.length < limit ∧ b.least ≤ vs.length ∧ z.1 = rest := by
  constructor
  · intro h
    obtain ⟨ws, z, stop, hcourse, hlimit, hstop, hreply⟩ := exists_course_of_repeated h
    obtain ⟨y, hfull, rfl, hle⟩ := course_of_repeated_matched h
    obtain ⟨rfl, rfl⟩ := hcourse.unique hfull
    cases stop with
    | ok stop => exact ⟨z, stop, hcourse.course, hstop, hlimit, hle, rfl⟩
    | error m => cases hreply
  · rintro ⟨z, stop, hcourse, hstop, hlimit, hle, rfl⟩
    rw [hcourse.repeated_eq hlimit hstop, settled, judge_of_le hle]

/-- Exactly so many values are the values of a course of this length. -/
theorem repeated_exactly_iff {rest : Input} {scopes : Scopes} :
    repeated limit (Bounds.free.exactly n) p x.1 x.2 = some (.matched rest vs, scopes) ↔
      p.Course none 0 x vs (rest, scopes) ∧ vs.length = n ∧ n < limit := by
  rw [repeated_matched_iff]
  constructor
  · rintro ⟨z, stop, hcourse, hstop, hlimit, hle, rfl⟩
    have hleast : n ≤ vs.length := hle
    have hmost : vs.length ≤ n := by
      have hlength : 0 + vs.length ≤ n := hcourse.length_le rfl (Nat.zero_le n)
      omega
    have hlength : vs.length = n := Nat.le_antisymm hmost hleast
    -- There is no room for another attempt.
    have hscopes : scopes = z.2 := by
      cases hstop with
      | full _ _ => rfl
      | idle hopen _ _ | refused hopen _ =>
        have hlt := hopen n rfl
        omega
    exact ⟨hscopes ▸ hcourse.unbounded 0, hlength, hlength ▸ hlimit⟩
  · rintro ⟨hcourse, rfl, hlimit⟩
    have hroom : ∀ hi ∈ some vs.length, 0 + vs.length ≤ hi := by simp
    exact ⟨(rest, scopes), .full, hcourse.bounded hroom, .full rfl (Nat.le_refl _), hlimit,
      Nat.le_refl _, rfl⟩

/-- Within a limit that is larger than the input no course is too long. -/
theorem LeavesEnds.length_lt (hp : p.LeavesEnds) (h : p.Course most n x vs z)
    (hlimit : x.1.size < limit) : vs.length < limit := by
  have hbytes := h.length_add_size_le hp
  omega

theorem LeavesEnds.repeated_exactly_add_iff (hp : p.LeavesEnds) (hlimit : x.1.size < limit)
    {m : Nat} {rest : Input} {scopes : Scopes} :
    repeated limit (Bounds.free.exactly (m + n)) p x.1 x.2 = some (.matched rest vs, scopes) ↔
      ∃ mid xs ys scopes',
        repeated limit (Bounds.free.exactly m) p x.1 x.2 = some (.matched mid xs, scopes') ∧
        repeated limit (Bounds.free.exactly n) p mid scopes' = some (.matched rest ys, scopes) ∧
        vs = xs ++ ys := by
  constructor
  · intro h
    obtain ⟨hcourse, hlength, hmax⟩ := repeated_exactly_iff.1 h
    rw [← List.take_append_drop m vs] at hcourse
    obtain ⟨y, hxs, hys⟩ := course_append_iff.1 hcourse
    refine ⟨y.1, vs.take m, vs.drop m, y.2, ?_, ?_, (List.take_append_drop m vs).symm⟩
    · exact repeated_exactly_iff.2 ⟨hxs, by rw [List.length_take]; omega, by omega⟩
    · exact repeated_exactly_iff.2 ⟨hys, by rw [List.length_drop]; omega, by omega⟩
  · rintro ⟨mid, xs, ys, scopes', hfirst, hsecond, rfl⟩
    obtain ⟨hxs, rfl, -⟩ := repeated_exactly_iff.1 hfirst
    obtain ⟨hys, rfl, -⟩ := (repeated_exactly_iff (x := (mid, scopes'))).1 hsecond
    have hcourse := course_append_iff.2 ⟨_, hxs, hys⟩
    have hlength := hp.length_lt hcourse hlimit
    rw [List.length_append] at hlength
    exact repeated_exactly_iff.2 ⟨hcourse, List.length_append, hlength⟩

theorem LeavesEnds.repeated_atLeast_iff (hp : p.LeavesEnds) (hlimit : x.1.size < limit)
    {m : Nat} {rest : Input} {scopes : Scopes} :
    repeated limit (Bounds.free.atLeast m) p x.1 x.2 = some (.matched rest vs, scopes) ↔
      ∃ mid xs ys scopes',
        repeated limit (Bounds.free.exactly m) p x.1 x.2 = some (.matched mid xs, scopes') ∧
        repeated limit Bounds.free p mid scopes' = some (.matched rest ys, scopes) ∧
        vs = xs ++ ys := by
  -- Without an upper bound it does not matter how many values there are.
  have hsame (n k : Nat) : (∀ hi ∈ (none : Option Nat), n < hi) ↔
      ∀ hi ∈ (none : Option Nat), k < hi := by simp
  constructor
  · intro h
    obtain ⟨z, stop, hcourse, hstop, hmax, hle, rfl⟩ := repeated_matched_iff.1 h
    have hleast : m ≤ vs.length := hle
    have hwhole : p.Course none 0 x (vs.take m ++ vs.drop m) z := by
      rw [List.take_append_drop]
      exact hcourse
    obtain ⟨y, hxs, hys⟩ := course_append_iff.1 hwhole
    refine ⟨y.1, vs.take m, vs.drop m, y.2, ?_, ?_, (List.take_append_drop m vs).symm⟩
    · exact repeated_exactly_iff.2 ⟨hxs, List.length_take_of_le hleast, by omega⟩
    · refine repeated_matched_iff.2 ⟨z, stop, hys, hstop.congr (hsame _ _), ?_, Nat.zero_le _, rfl⟩
      rw [List.length_drop]
      omega
  · rintro ⟨mid, xs, ys, scopes', hfirst, hsecond, rfl⟩
    obtain ⟨hxs, rfl, -⟩ := repeated_exactly_iff.1 hfirst
    obtain ⟨z, stop, hys, hstop, -, -, rfl⟩ :=
      (repeated_matched_iff (x := (mid, scopes'))).1 hsecond
    have hcourse := course_append_iff.2 ⟨_, hxs, hys⟩
    refine repeated_matched_iff.2 ⟨z, stop, hcourse, hstop.congr (hsame _ _),
      hp.length_lt hcourse hlimit, ?_, rfl⟩
    rw [List.length_append]
    exact Nat.le_add_right _ _

-- ============================================================================
-- All replies
-- ============================================================================

/-- There is a full course from every point, since every step takes a byte at least. -/
theorem LeavesEnds.exists_fullCourse (hp : p.LeavesEnds) (most : Option Nat) (n : Nat) (x : Point) :
    ∃ vs z, p.FullCourse most n x vs z := by
  induction hsize : x.1.size using Nat.strongRecOn generalizing n x with
  | ind size ih =>
    by_cases hnext : ∃ v y, p.Advances most n x v y
    · obtain ⟨v, y, hv⟩ := hnext
      have hlt := (hp.advances hv).2
      obtain ⟨vs, z, hcourse, hends⟩ := ih y.1.size (by omega) (n + 1) y rfl
      refine ⟨v :: vs, z, .step hv hcourse, ?_⟩
      rwa [List.length_cons, Nat.add_comm vs.length 1, ← Nat.add_assoc]
    · exact ⟨[], x, .stay, fun v y hv => hnext ⟨v, y, hv⟩⟩

/-- Behind a full course a repetition is stopped, or it waits for an attempt without an answer. -/
theorem FullCourse.halts_or (h : p.FullCourse most 0 x vs z) :
    (∃ stop scopes, p.Halts most vs.length z stop scopes) ∨
      (p z.1 z.2 = none ∧ ∀ hi ∈ most, vs.length < hi) := by
  have hends : ∀ v y, ¬ p.Advances most vs.length z v y := by
    have hends := h.ends
    rwa [Nat.zero_add] at hends
  by_cases hanswer : (∃ hi ∈ most, hi ≤ vs.length) ∨ ∃ answer, p z.1 z.2 = some answer
  · exact .inl (halts_of_not_advances hends hanswer)
  · obtain ⟨hopen, hnone⟩ := not_or.1 hanswer
    refine .inr ⟨?_, fun hi hmost => ?_⟩
    · exact Option.eq_none_iff_forall_ne_some.2 fun answer hrun => hnone ⟨answer, hrun⟩
    · exact Nat.lt_of_not_le fun hle => hopen ⟨hi, hmost, hle⟩

/-- A repetition that waits for an attempt without an answer gives none. -/
theorem FullCourse.repeated_eq_none (h : p.FullCourse b.most 0 x vs z) (hrun : p z.1 z.2 = none)
    (hopen : ∀ hi ∈ b.most, vs.length < hi) : repeated limit b p x.1 x.2 = none := by
  refine Option.eq_none_iff_forall_ne_some.2 fun answer hanswer => ?_
  obtain ⟨-, ⟨hi, hmost, hle⟩ | ⟨answer', hrun'⟩⟩ := (h.answers_iff limit).1 ⟨answer, hanswer⟩
  · have hlt := hopen hi hmost
    omega
  · cases hrun.symm.trans hrun'

/-! ### At most so many -/

/-- One parser and then another one, and the values of both. -/
def joined (p q : Parser (List α)) : Parser (List α) :=
  andThen p fun xs => map (xs ++ ·) q

theorem joined_of_matched {p q : Parser (List α)} {inp mid : Input} {scopes scopes' : Scopes}
    (h : p inp scopes = some (.matched mid vs, scopes')) :
    joined p q inp scopes = map (vs ++ ·) q mid scopes' := by
  rw [joined, andThen, h]

/-- How a repetition that asks for no values comes out of its course. -/
theorem Course.repeated_atMost {stop : Except Misuse Stop} {scopes : Scopes}
    (hcourse : p.Course (some n) 0 x vs z) (hlimit : vs.length < limit)
    (hstop : p.Halts (some n) vs.length z stop scopes) :
    repeated limit (Bounds.free.atMost n) p x.1 x.2 = some (match stop with
      | .ok _ => .matched z.1 vs
      | .error m => .aborted m, scopes) := by
  rw [Course.repeated_eq (b := Bounds.free.atMost n) hcourse hlimit hstop]
  cases stop with
  | ok stop => rw [settled, judge_of_le (Nat.zero_le _)]
  | error m => rfl

/-- If the course is long enough then the first repetition is full, and the second one goes on
    where it is. -/
theorem FullCourse.repeated_atMost_of_le {m : Nat} (h : p.FullCourse (some (m + n)) 0 x vs z)
    (hlimit : vs.length < limit) (hle : m ≤ vs.length) :
    repeated limit (Bounds.free.atMost (m + n)) p x.1 x.2 =
      joined (repeated limit (Bounds.free.atMost m) p) (repeated limit (Bounds.free.atMost n) p)
        x.1 x.2 := by
  obtain ⟨xs, ys, rfl, rfl⟩ : ∃ xs ys, vs = xs ++ ys ∧ m = xs.length :=
    ⟨vs.take m, vs.drop m, (List.take_append_drop m vs).symm, by simp [hle]⟩
  have hroom : xs.length + ys.length ≤ xs.length + n := by
    have hlength : 0 + (xs ++ ys).length ≤ xs.length + n := h.course.length_le rfl (Nat.zero_le _)
    simpa using hlength
  rw [List.length_append] at hlimit
  obtain ⟨y, hxs, hys⟩ := course_append_iff.1 (h.course.unbounded 0)
  have hfirst : p.Course (some xs.length) 0 x xs y := hxs.bounded (by simp)
  have hsecond : p.FullCourse (some n) 0 y ys z := by
    refine ⟨hys.bounded fun hi hmost => ?_, fun v w hv => ?_⟩
    · obtain rfl := Option.some.inj hmost
      omega
    · refine h.ends v w ⟨fun hi hmost => ?_, hv.run, hv.progress⟩
      obtain rfl := Option.some.inj hmost
      have hlt := hv.allowed n rfl
      rw [List.length_append]
      omega
  rw [joined_of_matched (hfirst.repeated_atMost (by omega) (.full rfl (Nat.le_refl _)))]
  have hsame : (∀ hi ∈ some n, ys.length < hi) ↔
      ∀ hi ∈ some (xs.length + n), (xs ++ ys).length < hi := by
    simp
  rcases hsecond.halts_or with ⟨stop, scopes, hstop⟩ | ⟨hrun, hopen⟩
  · rw [h.course.repeated_atMost (by simpa using hlimit) (hstop.congr hsame), map,
      hsecond.course.repeated_atMost (by omega) hstop]
    cases stop with
    | ok stop | error m => rfl
  · rw [FullCourse.repeated_eq_none (b := Bounds.free.atMost (xs.length + n)) h hrun
      (hsame.1 hopen), map,
      FullCourse.repeated_eq_none (b := Bounds.free.atMost n) hsecond hrun hopen]

/-- An attempt that stops a repetition would stop any other one that comes after it. -/
theorem Halts.again (hp : p.AnswersAgain) {stop : Stop} {scopes : Scopes}
    (h : p.Halts most n x (.ok stop) scopes) (hopen : ∀ hi ∈ most, n < hi) (most' : Option Nat)
    (k : Nat) : ∃ again scopes', p.Halts most' k (x.1, scopes) (.ok again) scopes' := by
  by_cases hfull : ∃ hi ∈ most', hi ≤ k
  · obtain ⟨hi, hmost, hle⟩ := hfull
    exact ⟨_, _, .full hmost hle⟩
  · have hroom : ∀ hi ∈ most', k < hi := fun hi hmost =>
      Nat.lt_of_not_le fun hle => hfull ⟨hi, hmost, hle⟩
    cases h with
    | full hmost hle =>
      have hlt := hopen _ hmost
      omega
    | idle _ hrun hsize =>
      obtain ⟨scopes', hrun'⟩ := hp x.1 x.2 _ _ hrun Reply.matched_ne_aborted
      exact ⟨_, scopes', .idle hroom hrun' hsize⟩
    | refused _ hrun =>
      obtain ⟨scopes', hrun'⟩ := hp x.1 x.2 _ _ hrun Reply.failed_ne_aborted
      exact ⟨_, scopes', .refused hroom hrun'⟩

/-- If the course ends before then the attempt that ends it is made again, and comes out as it did
    before. -/
theorem FullCourse.repeated_atMost_of_lt {m : Nat} (hp : p.AnswersAgain)
    (h : p.FullCourse (some (m + n)) 0 x vs z) (hlimit : vs.length < limit) (hlt : vs.length < m) :
    (repeated limit (Bounds.free.atMost (m + n)) p x.1 x.2).map Prod.fst =
      (joined (repeated limit (Bounds.free.atMost m) p)
        (repeated limit (Bounds.free.atMost n) p) x.1 x.2).map Prod.fst := by
  have hfirst : p.Course (some m) 0 x vs z :=
    (h.course.unbounded 0).bounded fun hi hmost => by
      obtain rfl := Option.some.inj hmost
      rw [Nat.zero_add]
      exact Nat.le_of_lt hlt
  have hopen : ∀ hi ∈ some m, vs.length < hi := by simpa using hlt
  have hsame : (∀ hi ∈ some (m + n), vs.length < hi) ↔ ∀ hi ∈ some m, vs.length < hi :=
    iff_of_true (fun hi hmost => Option.some.inj hmost ▸ Nat.lt_add_right n hlt) hopen
  rcases h.halts_or with ⟨stop, scopes, hstop⟩ | ⟨hrun, hroom⟩
  · rw [h.course.repeated_atMost hlimit hstop]
    have hmost := hfirst.repeated_atMost hlimit (hstop.congr hsame)
    cases stop with
    | error m => rw [joined, andThen, hmost]
    | ok stop =>
      -- The attempt at `z` is made again, with the scopes that it left the first time.
      obtain ⟨again, scopes', hagain⟩ := (hstop.congr hsame).again hp hopen (some n) 0
      have hsecond := Course.repeated_atMost (x := (z.1, scopes)) .stay (Nat.zero_lt_of_lt hlimit)
        hagain
      rw [joined_of_matched hmost, map, hsecond]
      exact congrArg (fun ws => some (Reply.matched z.1 ws)) (List.append_nil vs).symm
  · rw [FullCourse.repeated_eq_none (b := Bounds.free.atMost (m + n)) h hrun hroom]
    have hfull : p.FullCourse (some m) 0 x vs z :=
      ⟨hfirst, fun v y hv => by cases hrun.symm.trans hv.run⟩
    have hnone : repeated limit (Bounds.free.atMost m) p x.1 x.2 = none :=
      FullCourse.repeated_eq_none (b := Bounds.free.atMost m) hfull hrun hopen
    rw [joined, andThen, hnone]

theorem LeavesEnds.repeated_atMost_add (hp : p.LeavesEnds) (hagain : p.AnswersAgain) (m n : Nat)
    (hlimit : x.1.size < limit) :
    (repeated limit (Bounds.free.atMost (m + n)) p x.1 x.2).map Prod.fst =
      (joined (repeated limit (Bounds.free.atMost m) p)
        (repeated limit (Bounds.free.atMost n) p) x.1 x.2).map Prod.fst := by
  obtain ⟨vs, z, hcourse⟩ := hp.exists_fullCourse (some (m + n)) 0 x
  have hlength := hp.length_lt hcourse.course hlimit
  rcases Nat.lt_or_ge vs.length m with hlt | hle
  · exact hcourse.repeated_atMost_of_lt hagain hlength hlt
  · rw [hcourse.repeated_atMost_of_le hlength hle]

end Parser

/-- For a parser that leaves ends of its inputs and answers an attempt made again as it did before,
    and within limits that are larger than the input, repetitions split and join.  Exactly `m + n`
    values are gathered by gathering exactly `m` and then exactly `n` from what is left, with the
    same rest, the values one behind the other and the same scopes.  At most `m + n` values are
    gathered by gathering at most `m` and then at most `n`, with the same reply in every case, be it
    a success, a misuse or none at all.  At least `m` values are gathered by gathering exactly `m`
    and then as many as there are. -/
theorem repetition_splits {α : Type} (p : Parser α) (m n limit : Nat) (inp : Input)
    (scopes : Scopes) (hends : p.LeavesEnds) (hagain : p.AnswersAgain)
    (hlimit : inp.size < limit) :
    (∀ rest zs scopes',
      Parser.repeated limit (Bounds.free.exactly (m + n)) p inp scopes =
          some (.matched rest zs, scopes') ↔
        ∃ mid xs ys scopes'',
          Parser.repeated limit (Bounds.free.exactly m) p inp scopes =
            some (.matched mid xs, scopes'') ∧
          Parser.repeated limit (Bounds.free.exactly n) p mid scopes'' =
            some (.matched rest ys, scopes') ∧
          zs = xs ++ ys) ∧
    (Parser.repeated limit (Bounds.free.atMost (m + n)) p inp scopes).map Prod.fst =
      (Parser.joined (Parser.repeated limit (Bounds.free.atMost m) p)
        (Parser.repeated limit (Bounds.free.atMost n) p) inp scopes).map Prod.fst ∧
    ∀ rest zs scopes',
      Parser.repeated limit (Bounds.free.atLeast m) p inp scopes =
          some (.matched rest zs, scopes') ↔
        ∃ mid xs ys scopes'',
          Parser.repeated limit (Bounds.free.exactly m) p inp scopes =
            some (.matched mid xs, scopes'') ∧
          Parser.repeated limit Bounds.free p mid scopes'' = some (.matched rest ys, scopes') ∧
          zs = xs ++ ys := by
  refine ⟨fun rest zs scopes' => ?_, ?_, fun rest zs scopes' => ?_⟩
  · exact hends.repeated_exactly_add_iff (x := (inp, scopes)) hlimit
  · exact hends.repeated_atMost_add (x := (inp, scopes)) hagain m n hlimit
  · exact hends.repeated_atLeast_iff (x := (inp, scopes)) hlimit

/-- A letter that may be missing, with a mark, in a scope.  At most three and then at most two of it
    are the two that there are, although the first repetition is stopped by a match without progress
    and the second one makes this attempt again; and one and then one are exactly two, and at least
    one. -/
theorem repetition_splits_of_optional :
    let p := Markup.rulebook.parser ⟨4, 0⟩ ⟨⟩
      ((Grammar.char 'a').optional.marked "a" : Grammar Markup.Symbol (Option Char))
    let inp := Input.ofString "aab"
    let whole : Reply (List (Option Char)) := .matched (.ofString "b") [some 'a', some 'a']
    let letter : Event := ⟨"a", .matched 1, []⟩
    p.LeavesEnds ∧ p.AnswersAgain ∧ inp.size < 4 ∧
    (Parser.joined (Parser.repeated 4 (Bounds.free.atMost 3) p)
      (Parser.repeated 4 (Bounds.free.atMost 2) p) inp [[]]).map Prod.fst = some whole ∧
    Parser.repeated 4 (Bounds.free.exactly (1 + 1)) p inp [[]] = some (whole, [[letter, letter]]) ∧
    Parser.repeated 4 (Bounds.free.atLeast 1) p inp [[]] =
      some (whole, [[⟨"a", .matched 0, []⟩, letter, letter]]) := by
  intro p inp whole letter
  have hhonest : ((Grammar.char 'a').optional.marked "a" :
      Grammar Markup.Symbol (Option Char)).Honest :=
    ⟨Grammar.chars_over _, Grammar.pure_over _⟩
  have hends : p.LeavesEnds :=
    (Rulebook.parser_faithful Markup.rulebook_honest ⟨4, 0⟩ trivial hhonest).leavesEnds
  have hagain : p.AnswersAgain := (Markup.rulebook.parser_records ⟨4, 0⟩ ⟨⟩ _).answersAgain
  have hlimit : inp.size < 4 := by decide
  obtain ⟨-, hmost, -⟩ := repetition_splits p 3 2 4 inp [[]] hends hagain hlimit
  obtain ⟨hexactly, -, hleast⟩ := repetition_splits p 1 1 4 inp [[]] hends hagain hlimit
  have hfirst : Parser.repeated 4 (Bounds.free.exactly 1) p inp [[]] =
      some (.matched (.ofString "ab") [some 'a'], [[letter]]) := by decide
  refine ⟨hends, hagain, hlimit, ?_, (hexactly _ _ _).2 ⟨_, _, [some 'a'], _, hfirst, ?_, rfl⟩,
    (hleast _ _ _).2 ⟨_, _, [some 'a'], _, hfirst, ?_, rfl⟩⟩
  · rw [← hmost]
    decide
  · decide
  · decide

end Descent
