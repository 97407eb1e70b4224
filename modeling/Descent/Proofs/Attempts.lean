/-
  Descent.Proofs.Attempts

  How often a repetition runs its parser.  All the runs it makes are listed, each with the point at
  which it is made, and nothing else about the parser matters to the repetition.  If the parser
  leaves ends of its inputs then every attempt that goes on leaves less than it was given, since an
  end of another length is a shorter one.  So the runs are on shorter and shorter inputs, there is
  at most one for each byte and one more, and the repetition ends wherever these runs do, even if
  the parser may succeed without consuming anything.

  A grammar may repeat what is itself a repetition, and then no one limit on attempts does for all
  inputs of the inner one.  The inputs that can be met are ends of the outer one, so the largest of
  their limits does.
-/
import Descent.Proofs.Answers
import Descent.Proofs.Courses
import Descent.Proofs.Faithful
import Descent.Proofs.Heard
import Descent.Proofs.Steady

namespace Descent

section Attempts

variable {α : Type} {p q : Parser α} {b : Bounds} {most : Option Nat} {n : Nat} {x y z : Point}
  {v : α} {vs : List α} {tried : List Point}

/-- What a parser leaves when it succeeds is an end of its input.  It may be all of it. -/
def Parser.LeavesEnds (p : Parser α) : Prop :=
  ∀ inp scopes rest v scopes', p inp scopes = some (.matched rest v, scopes') →
    rest.chars <:+ inp.chars

/-- Whatever scopes are open, the run on the input comes to an end and is not given up. -/
def Parser.Returns (p : Parser α) (inp : Input) : Prop :=
  ∀ scopes, ∃ reply scopes', p inp scopes = some (reply, scopes') ∧ ∀ m, reply ≠ .aborted m

/-- The runs on the input and on all ends of it return. -/
def Parser.ReturnsWithin (p : Parser α) (inp : Input) : Prop :=
  ∀ inp' : Input, inp'.chars <:+ inp.chars → p.Returns inp'

/-- The points at which a repetition that has gathered `n` values runs its parser, in this order.
    The last run is the one that does not advance, unless the bounds allow no run any more. -/
inductive Parser.Tries (p : Parser α) (most : Option Nat) : Nat → Point → List Point → Prop
  | full {n : Nat} {x : Point} (hfull : ∃ hi ∈ most, hi ≤ n) : Tries p most n x []
  | last {n : Nat} {x : Point} (hopen : ∀ hi ∈ most, n < hi)
      (hends : ∀ v y, ¬ p.Advances most n x v y) : Tries p most n x [x]
  | next {n : Nat} {x y : Point} {v : α} {tried : List Point} (hv : p.Advances most n x v y)
      (htried : Tries p most (n + 1) y tried) : Tries p most n x (x :: tried)

-- ============================================================================
-- Ends of an input
-- ============================================================================

namespace Parser

theorem Faithful.leavesEnds (hp : p.Faithful) : p.LeavesEnds :=
  fun inp scopes _ _ _ hrun => hp inp scopes _ _ hrun

theorem ReturnsWithin.of_suffix {inp inp' : Input} (hp : p.ReturnsWithin inp)
    (h : inp'.chars <:+ inp.chars) : p.ReturnsWithin inp' :=
  fun inp'' h'' => hp inp'' (h''.trans h)

/-- An attempt that goes on leaves an end of its input, and a shorter one. -/
theorem LeavesEnds.advances (hp : p.LeavesEnds) (h : p.Advances most n x v y) :
    y.1.chars <:+ x.1.chars ∧ y.1.size < x.1.size := by
  have hsuffix : y.1.chars <:+ x.1.chars := hp x.1 x.2 y.1 v y.2 h.run
  have hle : y.1.size ≤ x.1.size := Input.size_le_of_suffix hsuffix
  have hne : y.1.size ≠ x.1.size := h.progress
  exact ⟨hsuffix, by omega⟩

/-- Each value of a course takes a byte at least. -/
theorem Course.length_add_size_le (hp : p.LeavesEnds) (h : p.Course most n x vs z) :
    vs.length + z.1.size ≤ x.1.size := by
  induction h with
  | stay => simp
  | step hv _ ih =>
    have hlt := (hp.advances hv).2
    rw [List.length_cons]
    omega

-- ============================================================================
-- The runs of a repetition
-- ============================================================================

/-- Nothing but the listed runs matters: a parser that comes out the same in these is repeated in
    the same way. -/
theorem Tries.gather_eq (h : p.Tries b.most n x tried) (hq : ∀ y ∈ tried, q y.1 y.2 = p y.1 y.2)
    (limit : Nat) (newestFirst : List α) :
    gather b q limit x.1 n newestFirst x.2 = gather b p limit x.1 n newestFirst x.2 := by
  -- Along the runs, an attempt for each.
  induction h generalizing limit newestFirst with
  | @full n x hfull =>
    have hisFull : b.isFull n = true := (Bounds.isFull_iff b n).2 hfull
    cases limit with
    | zero => rfl
    | succ limit => simp only [gather, hisFull, if_true]
  | @last n x hopen hends =>
    have hrun : q x.1 x.2 = p x.1 x.2 := hq x List.mem_cons_self
    cases limit with
    | zero => rfl
    | succ limit =>
      rw [gather, gather, Bounds.isFull_eq_false_iff.2 hopen, hrun]
      -- Neither goes on, since the parser does not advance here.
      cases hp : p x.1 x.2 with
      | none => rfl
      | some answer =>
        obtain ⟨reply, scopes⟩ := answer
        cases reply with
        | matched rest v =>
          have hidle : rest.size = x.1.size := by
            by_contra hprogress
            exact hends v (rest, scopes) ⟨hopen, hp, hprogress⟩
          simp only [hidle, if_true]
        | failed e | aborted m => rfl
  | @next n x y v tried hv _ ih =>
    have hrun : q x.1 x.2 = p x.1 x.2 := hq x List.mem_cons_self
    have hrest := ih fun y hy => hq y (List.mem_cons_of_mem x hy)
    cases limit with
    | zero => rfl
    | succ limit =>
      rw [gather, gather, Bounds.isFull_eq_false_iff.2 hv.allowed, hrun, hv.run]
      simp only [hv.progress, if_false, hrest]

/-- No run is on more than the first one. -/
theorem Tries.size_le (hp : p.LeavesEnds) (h : p.Tries most n x tried) :
    ∀ y ∈ tried, y.1.size ≤ x.1.size := by
  induction h with
  | full hfull => exact List.forall_mem_nil _
  | last hopen hends => exact List.forall_mem_singleton.2 (Nat.le_refl _)
  | next hv _ ih =>
    have hlt := (hp.advances hv).2
    refine List.forall_mem_cons.2 ⟨Nat.le_refl _, fun y hy => ?_⟩
    have hle := ih y hy
    omega

/-- Every run is on less than the runs before it. -/
theorem Tries.pairwise (hp : p.LeavesEnds) (h : p.Tries most n x tried) :
    tried.Pairwise fun y z => z.1.size < y.1.size := by
  induction h with
  | full hfull => exact .nil
  | last hopen hends => exact List.pairwise_singleton _ _
  | next hv htried ih =>
    have hlt := (hp.advances hv).2
    refine .cons (fun z hz => ?_) ih
    have hle := htried.size_le hp z hz
    omega

/-- There is a run for each byte at most, and one more. -/
theorem Tries.length_le (hp : p.LeavesEnds) (h : p.Tries most n x tried) :
    tried.length ≤ x.1.size + 1 := by
  induction h with
  | full hfull => exact Nat.zero_le _
  | last hopen hends => simp
  | next hv _ ih =>
    have hlt := (hp.advances hv).2
    rw [List.length_cons]
    omega

/-- Where all runs come to an end, so does the list of runs, and the repetition is stopped behind
    them. -/
theorem LeavesEnds.exists_course (hp : p.LeavesEnds) (most : Option Nat) (n : Nat) {x : Point}
    (hreturns : p.ReturnsWithin x.1) :
    ∃ vs z stop scopes tried, p.Course most n x vs z ∧
      p.Halts most (n + vs.length) z (.ok stop) scopes ∧ p.Tries most n x tried := by
  -- On the bytes that are left, of which every attempt that goes on takes some.
  induction hsize : x.1.size using Nat.strongRecOn generalizing n x with
  | ind size ih =>
    by_cases hnext : ∃ v y, p.Advances most n x v y
    · obtain ⟨v, y, hv⟩ := hnext
      obtain ⟨hsuffix, hlt⟩ := hp.advances hv
      obtain ⟨vs, z, stop, scopes, tried, hcourse, hstop, htried⟩ :=
        ih y.1.size (by omega) (n + 1) (hreturns.of_suffix hsuffix) rfl
      have hcount : n + 1 + vs.length = n + (v :: vs).length := by
        rw [List.length_cons]
        omega
      rw [hcount] at hstop
      exact ⟨v :: vs, z, stop, scopes, x :: tried, .step hv hcourse, hstop, .next hv htried⟩
    · have hends : ∀ v y, ¬ p.Advances most n x v y := fun v y hv => hnext ⟨v, y, hv⟩
      obtain ⟨reply, scopes, hrun, hreply⟩ := hreturns x.1 (List.suffix_refl _) x.2
      obtain ⟨stop, scopes', hstop⟩ := halts_of_not_advances hends (.inr ⟨_, hrun⟩)
      cases stop with
      | error m =>
        cases hstop with
        | aborted _ haborted =>
          obtain ⟨rfl, -⟩ := Prod.mk.inj (Option.some.inj (hrun.symm.trans haborted))
          exact absurd rfl (hreply m)
      | ok stop =>
        by_cases hfull : ∃ hi ∈ most, hi ≤ n
        · exact ⟨[], x, stop, scopes', [], .stay, hstop, .full hfull⟩
        · have hopen : ∀ hi ∈ most, n < hi := fun hi hmost => by
            by_contra hle
            exact hfull ⟨hi, hmost, Nat.le_of_not_lt hle⟩
          exact ⟨[], x, stop, scopes', [x], .stay, hstop, .last hopen hends⟩

/-- Within all limits that are larger than the input a repetition gives the same answer, and is not
    given up. -/
theorem LeavesEnds.repeated_returns (hp : p.LeavesEnds) (b : Bounds) {inp : Input}
    (hreturns : p.ReturnsWithin inp) (scopes : Scopes) :
    ∃ reply scopes' tried,
      (∀ limit, inp.size < limit → repeated limit b p inp scopes = some (reply, scopes')) ∧
      (∀ m, reply ≠ .aborted m) ∧ p.Tries b.most 0 (inp, scopes) tried := by
  obtain ⟨vs, z, stop, scopes', tried, hcourse, hstop, htried⟩ :=
    hp.exists_course b.most 0 (x := (inp, scopes)) hreturns
  have hbytes : vs.length + z.1.size ≤ inp.size := hcourse.length_add_size_le hp
  rw [Nat.zero_add] at hstop
  refine ⟨judge b inp ⟨vs, z.1, stop⟩, scopes', tried, fun limit hlimit => ?_, ?_, htried⟩
  · exact hcourse.repeated_eq (by omega) hstop
  · exact fun m => judge_ne_aborted b inp _ m

/-- A repetition that succeeds gathers no more values than it consumes bytes. -/
theorem LeavesEnds.length_le_of_matched (hp : p.LeavesEnds) {limit : Nat} {inp rest : Input}
    {scopes scopes' : Scopes}
    (h : repeated limit b p inp scopes = some (.matched rest vs, scopes')) :
    vs.length + rest.size ≤ inp.size := by
  obtain ⟨z, hcourse, rfl, -⟩ := course_of_repeated_matched (x := (inp, scopes)) h
  exact hcourse.course.length_add_size_le hp

end Parser

end Attempts

-- ============================================================================
-- Repeated grammars
-- ============================================================================

section Grammars

variable {N : Type → Type} {σ : Type 1} {α : Type} {book : Rulebook N σ} {state : σ}
  {g : Grammar N α}

/-- Within some limits the run of the grammar on the input returns. -/
def Rulebook.Returns (book : Rulebook N σ) (state : σ) (g : Grammar N α) (inp : Input) : Prop :=
  ∃ limits, (book.parser limits state g).Returns inp

namespace Rulebook

/-- A run that returns gives one reply, within all larger limits and whatever scopes are open. -/
theorem exists_reply {limits : Limits} {inp : Input}
    (h : (book.parser limits state g).Returns inp) :
    ∃ reply, (∀ m, reply ≠ .aborted m) ∧ ∀ limits' : Limits, limits.attempts ≤ limits'.attempts →
      limits.nesting ≤ limits'.nesting → ∀ scopes, ∃ scopes',
        book.parser limits' state g inp scopes = some (reply, scopes') := by
  obtain ⟨reply, scopes', hrun, hreply⟩ := h [[]]
  obtain ⟨w, hheard⟩ := (book.parser_records limits state g inp [[]]).exists_record hrun hreply
  -- A run that comes out where somebody listens comes out where nobody does.
  have hunheard : ∃ w', book.recorder limits state g false inp = some (reply, w') :=
    (book.recorder_agrees_unheard limits state g inp).exists_right hheard hreply
  refine ⟨reply, hreply, fun limits' hattempts hnesting scopes => ?_⟩
  have hrecord : ∃ w', book.recorder limits' state g scopes.listens inp = some (reply, w') := by
    cases scopes with
    | nil =>
      obtain ⟨w', hunheard⟩ := hunheard
      exact ⟨w', book.recorder_below hattempts hnesting state g false inp _ hunheard⟩
    | cons frame outer =>
      exact ⟨w, book.recorder_below hattempts hnesting state g true inp _ hheard⟩
  obtain ⟨w', hrecord⟩ := hrecord
  exact (book.parser_records limits' state g).exists_answer hrecord

/-- What returns within some limits returns within larger ones. -/
theorem parser_returns_mono {limits limits' : Limits}
    (hattempts : limits.attempts ≤ limits'.attempts) (hnesting : limits.nesting ≤ limits'.nesting)
    {inp : Input} (h : (book.parser limits state g).Returns inp) :
    (book.parser limits' state g).Returns inp := by
  intro scopes
  obtain ⟨reply, hreply, hlarger⟩ := exists_reply h
  obtain ⟨scopes', hrun⟩ := hlarger limits' hattempts hnesting scopes
  exact ⟨reply, scopes', hrun, hreply⟩

/-- One limit does for an input and all its ends, and it may be larger than the input. -/
theorem exists_returnsWithin (h : ∀ inp, book.Returns state g inp) (inp : Input) :
    ∃ limits, inp.size < limits.attempts ∧ (book.parser limits state g).ReturnsWithin inp := by
  have hends : ∃ limits, (book.parser limits state g).ReturnsWithin inp := by
    obtain ⟨cs, rfl⟩ : ∃ cs, inp = .ofChars cs := ⟨inp.chars, (Input.ofChars_chars inp).symm⟩
    -- The ends of a text are the text itself and the ends of what follows its first character.
    induction cs with
    | nil =>
      obtain ⟨limits, hlimits⟩ := h (.ofChars [])
      refine ⟨limits, fun inp' hinp' => ?_⟩
      obtain rfl : inp' = .ofChars [] := Input.ext (List.suffix_nil.1 hinp')
      exact hlimits
    | cons c cs ih =>
      obtain ⟨limits, hrest⟩ := ih
      obtain ⟨limits', hall⟩ := h (.ofChars (c :: cs))
      let both : Limits :=
        ⟨max limits.attempts limits'.attempts, max limits.nesting limits'.nesting⟩
      refine ⟨both, fun inp' hinp' => ?_⟩
      rcases List.suffix_cons_iff.1 hinp' with heq | hsuffix
      · obtain rfl : inp' = .ofChars (c :: cs) := Input.ext heq
        exact parser_returns_mono (Nat.le_max_right _ _) (Nat.le_max_right _ _) hall
      · have hinp := hrest inp' hsuffix
        exact parser_returns_mono (Nat.le_max_left _ _) (Nat.le_max_left _ _) hinp
  obtain ⟨limits, hlimits⟩ := hends
  let larger : Limits := ⟨max limits.attempts (inp.size + 1), limits.nesting⟩
  have hlarger : inp.size < larger.attempts := Nat.le_max_right _ _
  have hattempts : limits.attempts ≤ larger.attempts := Nat.le_max_left _ _
  have hnesting : limits.nesting ≤ larger.nesting := Nat.le_refl _
  exact ⟨larger, hlarger, fun inp' hinp' =>
    parser_returns_mono hattempts hnesting (hlimits inp' hinp')⟩

/-- The repetition of what returns on every input returns on every input. -/
theorem repeated_returns (hleaves : ∀ limits, (book.parser limits state g).LeavesEnds)
    (h : ∀ inp, book.Returns state g inp) (b : Bounds) (inp : Input) :
    book.Returns state (g.repeated b) inp := by
  obtain ⟨limits, hattempts, hreturns⟩ := exists_returnsWithin h inp
  refine ⟨limits, fun scopes => ?_⟩
  obtain ⟨reply, scopes', -, hrun, hreply, -⟩ := (hleaves limits).repeated_returns b hreturns scopes
  exact ⟨reply, scopes', hrun limits.attempts hattempts, hreply⟩

end Rulebook

end Grammars

/-- Repetition always ends on a parser that leaves ends of its inputs and itself returns.  Within
    all limits larger than the input the answer is the same, and no misuse.  The runs of the parser
    are at most one more than the input has bytes, each is on strictly less than those before it,
    and with another parser that comes out the same in these runs the repetition is the same.  If it
    succeeds it gathers no more values than it consumes bytes.  A grammar that returns on every
    input within some limits, be it a repetition itself, is repeated within some limits. -/
theorem repeated_always_returns :
    (∀ {α : Type} (p : Parser α) (b : Bounds) (inp : Input) (scopes : Scopes), p.LeavesEnds →
      p.ReturnsWithin inp → ∃ reply scopes' tried,
        (∀ limit, inp.size < limit →
          Parser.repeated limit b p inp scopes = some (reply, scopes')) ∧
        (∀ m, reply ≠ .aborted m) ∧
        p.Tries b.most 0 (inp, scopes) tried ∧
        (∀ q : Parser α, (∀ x ∈ tried, q x.1 x.2 = p x.1 x.2) → ∀ limit,
          Parser.repeated limit b q inp scopes = Parser.repeated limit b p inp scopes) ∧
        tried.length ≤ inp.size + 1 ∧
        (tried.Pairwise fun x y => y.1.size < x.1.size) ∧
        ∀ rest vs, reply = .matched rest vs → vs.length + rest.size ≤ inp.size) ∧
    (∀ {N : Type → Type} {σ : Type 1} (book : Rulebook N σ) (state : σ) {α : Type}
      (g : Grammar N α) (b : Bounds) (inp : Input),
      (∀ limits, (book.parser limits state g).LeavesEnds) →
      (∀ inp', book.Returns state g inp') → book.Returns state (g.repeated b) inp) := by
  refine ⟨fun p b inp scopes hp hreturns => ?_,
    fun book state α g b inp hleaves h => Rulebook.repeated_returns hleaves h b inp⟩
  obtain ⟨reply, scopes', tried, hrun, hreply, htried⟩ := hp.repeated_returns b hreturns scopes
  refine ⟨reply, scopes', tried, hrun, hreply, htried, fun q hq limit => ?_, htried.length_le hp,
    htried.pairwise hp, fun rest vs hmatched => ?_⟩
  · have hgather := htried.gather_eq hq limit []
    rw [Parser.repeated, Parser.repeated, hgather]
  · have hrun' := hrun (inp.size + 1) (Nat.lt_succ_self _)
    rw [hmatched] at hrun'
    exact hp.length_le_of_matched hrun'

/-- A letter that may be missing, which is repeated, and repeated again: neither repetition is kept
    going by the empty match behind the letters, which is the last of three runs. -/
theorem repeated_always_returns_of_optional :
    let g : Grammar Markup.Symbol (Option Char) := (Grammar.char 'a').optional
    let inp := Input.ofString "aab"
    Markup.rulebook.Returns ⟨⟩ ((g.repeated Bounds.free).repeated (Bounds.free.atLeast 1)) inp ∧
      ∃ reply scopes' tried,
        (∀ limit, 3 < limit → Parser.repeated limit Bounds.free
          (Markup.rulebook.parser ⟨4, 0⟩ ⟨⟩ g) inp [] = some (reply, scopes')) ∧
        (Markup.rulebook.parser ⟨4, 0⟩ ⟨⟩ g).Tries none 0 (inp, []) tried ∧ tried.length ≤ 4 := by
  intro g inp
  have hleaves {α : Type} {g : Grammar Markup.Symbol α} (hg : g.Honest) (limits : Limits) :
      (Markup.rulebook.parser limits ⟨⟩ g).LeavesEnds :=
    (Rulebook.parser_faithful Markup.rulebook_honest limits trivial hg).leavesEnds
  have hg : g.Honest := ⟨Grammar.chars_over _, Grammar.pure_over _⟩
  have hreturns (limits : Limits) (inp' : Input) :
      (Markup.rulebook.parser limits ⟨⟩ g).Returns inp' := by
    intro scopes
    cases h : inp'.strip? ['a'] with
    | some rest =>
      refine ⟨.matched rest (some 'a'), scopes, ?_, fun m hm => by cases hm⟩
      simp [g, Rulebook.parser, Grammar.optional, Grammar.char, Grammar.chars, Grammar.eval,
        Parser.or, Parser.map, Parser.read, h]
    | none =>
      refine ⟨.matched inp' none, scopes, ?_, fun m hm => by cases hm⟩
      simp [g, Rulebook.parser, Grammar.optional, Grammar.char, Grammar.chars, Grammar.pure,
        Grammar.eval, Parser.or, Parser.map, Parser.read, h]
  obtain ⟨hparsers, hgrammars⟩ := repeated_always_returns
  have hinner (inp' : Input) : Markup.rulebook.Returns ⟨⟩ (g.repeated Bounds.free) inp' :=
    hgrammars _ _ g Bounds.free inp' (hleaves hg) fun inp'' => ⟨⟨0, 0⟩, hreturns _ inp''⟩
  obtain ⟨reply, scopes', tried, hrun, -, htried, -, hlength, -⟩ :=
    hparsers _ Bounds.free inp [] (hleaves hg ⟨4, 0⟩) fun inp' _ => hreturns _ inp'
  exact ⟨hgrammars _ _ _ _ inp (hleaves hg) hinner, reply, scopes', tried, hrun, htried, hlength⟩

end Descent
