/-
  Descent.Proofs.Progress

  Repetition without the check for progress.  A parser consumes if every match leaves an end of the
  input that is shorter than the input.  The check of a repetition compares lengths, so it never
  stops a parser that consumes, and the greedy loop, which goes on until the parser fails or its
  bounds are full, gives the same answer.

  Which parsers a grammar repeats is told from the grammar.  If each of them consumes then no
  attempt of a run idles, heard or not, neither in the grammar nor in those that its symbols stand
  for, and with greedy loops everywhere the grammar describes the same parser.
-/
import Descent.Proofs.Attempts
import Descent.Proofs.Places

namespace Descent

variable {α β : Type}

-- ============================================================================
-- Parsers that consume
-- ============================================================================

/-- A match leaves an end of the input, and a shorter one. -/
def Parser.Consumes (p : Parser α) : Prop :=
  ∀ inp scopes rest value scopes', p inp scopes = some (.matched rest value, scopes') →
    rest.chars <:+ inp.chars ∧ rest.size < inp.size

namespace Parser

variable {p q : Parser α}

theorem Consumes.leavesEnds (hp : p.Consumes) : p.LeavesEnds :=
  fun inp scopes rest value scopes' hrun => (hp inp scopes rest value scopes' hrun).1

theorem Consumes.takes (hp : p.Consumes) {r : Bool → Recorder α} (h : p.Records r) (heard : Bool) :
    (r heard).Takes 1 := by
  intro inp rest value w hr
  obtain ⟨scopes, scopes', hrun⟩ := h.exists_run hr
  exact (hp inp scopes rest value scopes' hrun).2

theorem read_consumes {step : Input → Except Failure (Input × α)}
    (h : ∀ inp rest value, step inp = .ok (rest, value) → ∃ w, w ≠ [] ∧
      inp.chars = w ++ rest.chars) : (read step).Consumes := by
  intro inp scopes rest value scopes' hrun
  rw [read] at hrun
  split at hrun
  · next hstep =>
    cases hrun
    obtain ⟨w, hw, hinp⟩ := h inp rest value hstep
    exact ⟨⟨w, hinp.symm⟩, Input.size_lt_of_consumed hw hinp⟩
  · cases hrun

theorem map_consumes (f : α → β) (hp : p.Consumes) : (map f p).Consumes := by
  intro inp scopes rest value scopes' hrun
  rw [map] at hrun
  split at hrun
  · cases hrun
  · next hmatched =>
    cases hrun
    exact hp inp scopes _ _ _ hmatched
  · cases hrun
  · cases hrun

theorem filter_consumes (keep : α → Bool) (hp : p.Consumes) : (filter keep p).Consumes := by
  intro inp scopes rest value scopes' hrun
  rw [filter] at hrun
  split at hrun
  · cases hrun
  · next hmatched =>
    split at hrun
    · cases hrun
      exact hp inp scopes _ _ _ hmatched
    · cases hrun
  · cases hrun
  · cases hrun

/-- It is enough that the first stage consumes. -/
theorem andThen_consumes {next : α → Parser β} (hp : p.Consumes)
    (hnext : ∀ value, (next value).LeavesEnds) : (andThen p next).Consumes := by
  intro inp scopes rest value scopes' hrun
  rw [andThen] at hrun
  split at hrun
  · cases hrun
  · next mid first scopes'' hmatched =>
    obtain ⟨hmid, hlt⟩ := hp inp scopes mid first scopes'' hmatched
    have hrest : rest.chars <:+ mid.chars := hnext first mid scopes'' rest value scopes' hrun
    have hle : rest.size ≤ mid.size := Input.size_le_of_suffix hrest
    exact ⟨hrest.trans hmid, by omega⟩
  · cases hrun
  · cases hrun

theorem or_consumes (hp : p.Consumes) (hq : q.Consumes) : (or p q).Consumes := by
  intro inp scopes rest value scopes' hrun
  rw [or] at hrun
  split at hrun
  · cases hrun
  · next hmatched =>
    cases hrun
    exact hp inp scopes _ _ _ hmatched
  · exact hq inp _ rest value scopes' hrun
  · cases hrun

/-- What is collected around a parser does not change its reply. -/
theorem exists_run_of_collect {inp : Input} {scopes outer : Scopes} {reply : Reply α}
    {trace : Trace} (h : collect p inp scopes = some (reply, trace, outer)) :
    ∃ scopes', p inp scopes.enter = some (reply, scopes') := by
  rw [collect] at h
  split at h
  · cases h
  · next hrun =>
    cases h
    exact ⟨_, hrun⟩
  · next hrun =>
    obtain ⟨rfl, -⟩ := Prod.mk.inj (Option.some.inj h)
    exact ⟨_, hrun⟩

theorem marked_consumes (label : String) (hp : p.Consumes) : (marked label p).Consumes := by
  intro inp scopes rest value scopes' hrun
  rw [marked] at hrun
  split at hrun
  · exact hp inp scopes rest value scopes' hrun
  · split at hrun
    · cases hrun
    · next reply scope outer hcollect =>
      split at hrun
      · cases hrun
      · cases hrun
        obtain ⟨scopes'', hmatched⟩ := exists_run_of_collect hcollect
        exact hp inp scopes.enter rest value scopes'' hmatched

/-- A course leads to an end of the input. -/
theorem Course.suffix {most : Option Nat} {n : Nat} {x z : Point} {vs : List α}
    (hp : p.LeavesEnds) (h : p.Course most n x vs z) : z.1.chars <:+ x.1.chars := by
  induction h with
  | stay => exact List.suffix_refl _
  | step hv _ ih => exact ih.trans (hp.advances hv).1

/-- A repetition that asks for a value consumes, since every attempt that goes on does. -/
theorem repeated_consumes (limit : Nat) {b : Bounds} (hleast : 0 < b.least) (hp : p.LeavesEnds) :
    (repeated limit b p).Consumes := by
  intro inp scopes rest values scopes' hrun
  obtain ⟨z, hcourse, rfl, hle⟩ := course_of_repeated_matched (x := (inp, scopes)) hrun
  have hbytes : values.length + z.1.size ≤ inp.size := hcourse.course.length_add_size_le hp
  exact ⟨hcourse.course.suffix hp, by omega⟩

-- ============================================================================
-- The greedy loop
-- ============================================================================

/-- Gather values as `gather` does, but go on after every match, whatever it leaves. -/
def gatherGreedily (b : Bounds) (p : Parser α) : Nat → Input → Nat → List α → Scopes →
    Option (Except Misuse (Haul α) × Scopes)
  | 0, _, _, _, _ => none
  | limit + 1, rest, count, newestFirst, scopes =>
    if b.isFull count then
      some (.ok ⟨newestFirst.reverse, rest, .full⟩, scopes)
    else
      match p rest scopes with
      | none => none
      | some (.matched after value, scopes) =>
        gatherGreedily b p limit after (count + 1) (value :: newestFirst) scopes
      | some (.failed e, scopes) => some (.ok ⟨newestFirst.reverse, rest, .refused e⟩, scopes)
      | some (.aborted m, scopes) => some (.error m, scopes)

/-- Run a parser until it fails or the bounds are full, and list its values. -/
def greedy (limit : Nat) (b : Bounds) (p : Parser α) : Parser (List α) :=
  fun inp scopes =>
    match gatherGreedily b p limit inp 0 [] scopes with
    | none => none
    | some (.ok haul, scopes) => some (judge b inp haul, scopes)
    | some (.error m, scopes) => some (.aborted m, scopes)

theorem Consumes.gatherGreedily_eq (hp : p.Consumes) (b : Bounds) (limit : Nat) (rest : Input)
    (count : Nat) (newestFirst : List α) (scopes : Scopes) :
    gatherGreedily b p limit rest count newestFirst scopes =
      gather b p limit rest count newestFirst scopes := by
  induction limit generalizing rest count newestFirst scopes with
  | zero => rfl
  | succ limit ih =>
    rw [gatherGreedily, gather]
    cases hrun : p rest scopes with
    | none => rfl
    | some answer =>
      obtain ⟨reply, scopes'⟩ := answer
      cases reply with
      | matched after value =>
        have hprogress : after.size ≠ rest.size :=
          Nat.ne_of_lt (hp rest scopes after value scopes' hrun).2
        simp only [hprogress, if_false, ih]
      | failed e | aborted m => rfl

/-- A parser that consumes is repeated in the same way with the check for progress and without. -/
theorem Consumes.greedy_eq (hp : p.Consumes) (limit : Nat) (b : Bounds) :
    greedy limit b p = repeated limit b p := by
  funext inp scopes
  have hgather := hp.gatherGreedily_eq b limit inp 0 [] scopes
  cases hrun : gather b p limit inp 0 [] scopes with
  | none => simp only [greedy, repeated, hgather, hrun]
  | some answer =>
    obtain ⟨haul, scopes'⟩ := answer
    cases haul with
    | ok haul | error m => simp only [greedy, repeated, hgather, hrun]

/-- A parser that always succeeds without consuming keeps the greedy loop going for ever. -/
theorem greedy_eq_none (value : α) {b : Bounds} (hmost : b.most = none) (limit : Nat)
    (inp : Input) (scopes : Scopes) :
    greedy limit b (read fun inp => .ok (inp, value)) inp scopes = none := by
  have hgather : ∀ count newestFirst, gatherGreedily b (read fun inp => .ok (inp, value)) limit inp
      count newestFirst scopes = none := by
    induction limit with
    | zero => exact fun _ _ => rfl
    | succ limit ih =>
      intro count newestFirst
      have hopen : b.isFull count = false := by rw [Bounds.isFull, hmost]
      simp only [gatherGreedily, hopen, read, ih, Bool.false_eq_true, if_false]
  rw [greedy, hgather]

end Parser

-- ============================================================================
-- What a grammar repeats
-- ============================================================================

section Grammars

variable {N : Type → Type} {σ : Type 1}

/-- Every grammar that is repeated inside the grammar is of the given kind. -/
def Grammar.Repeating (K : {α : Type} → Grammar N α → Prop) : {α : Type} → Grammar N α → Prop
  | _, .leaf _ => True
  | _, .map _ g => g.Repeating K
  | _, .filter _ g => g.Repeating K
  | _, .andThen g next => g.Repeating K ∧ ∀ value, (next value).Repeating K
  | _, .or g h => g.Repeating K ∧ h.Repeating K
  | _, .repeated _ g => K g ∧ g.Repeating K
  | _, .marked _ g => g.Repeating K
  | _, .wrapped _ g => g.Repeating K
  | _, .traced g => g.Repeating K
  | _, .symbol _ => True

/-- The run of a grammar on the input, heard or not, makes an attempt of a repetition that succeeds
    and consumes nothing, where `inside` says whether the run of a symbol does. -/
def Grammar.Idles (attempts : Nat) (call : {α : Type} → N α → Bool → Recorder α)
    (inside : {α : Type} → N α → Bool → Input → Prop) :
    {α : Type} → Grammar N α → Bool → Input → Prop
  | _, .leaf _, _, _ => False
  | _, .map _ g, heard, inp => g.Idles attempts call inside heard inp
  | _, .filter _ g, heard, inp => g.Idles attempts call inside heard inp
  | _, .andThen g next, heard, inp => g.Idles attempts call inside heard inp ∨ ∃ rest value w,
      g.record attempts call heard inp = some (.matched rest value, w) ∧
        (next value).Idles attempts call inside heard rest
  | _, .or g h, heard, inp => g.Idles attempts call inside heard inp ∨
      (∃ e w, g.record attempts call heard inp = some (.failed e, w)) ∧
        h.Idles attempts call inside heard inp
  | _, .repeated b g, heard, inp => ∃ place,
      Recorder.Attempts b (g.record attempts call heard) place attempts 0 inp ∧
        (g.Idles attempts call inside heard place ∨ ∃ after value w,
          g.record attempts call heard place = some (.matched after value, w) ∧
            after.size = place.size)
  | _, .marked _ g, heard, inp => g.Idles attempts call inside heard inp
  | _, .wrapped _ g, heard, inp => g.Idles attempts call inside heard inp
  | _, .traced g, _, inp => g.Idles attempts call inside true inp
  | _, .symbol n, heard, inp => inside n heard inp

/-- The parser that a grammar describes if all its repetitions are greedy. -/
def Grammar.greedy (attempts : Nat) (call : {α : Type} → N α → Parser α) :
    {α : Type} → Grammar N α → Parser α
  | _, .leaf step => Parser.read step
  | _, .map f g => Parser.map f (g.greedy attempts call)
  | _, .filter keep g => Parser.filter keep (g.greedy attempts call)
  | _, .andThen g next =>
    Parser.andThen (g.greedy attempts call) fun value => (next value).greedy attempts call
  | _, .or g h => Parser.or (g.greedy attempts call) (h.greedy attempts call)
  | _, .repeated b g => Parser.greedy attempts b (g.greedy attempts call)
  | _, .marked label g => Parser.marked label (g.greedy attempts call)
  | _, .wrapped _ g => g.greedy attempts call
  | _, .traced g => Parser.traced (g.greedy attempts call)
  | _, .symbol n => call n

namespace Rulebook

/-- Whether the run of a symbol idles: look it up and see whether that of the grammar found does. -/
def CallIdles (book : Rulebook N σ) (attempts : Nat) :
    Nat → σ → {α : Type} → N α → Bool → Input → Prop
  | 0, _, _, _, _, _ => False
  | nesting + 1, state, _, n, heard, inp =>
    match book.resolve state n with
    | .error _ => False
    | .ok (g, state) => g.Idles attempts (fun n => book.recordCall attempts nesting state n)
        (fun n => book.CallIdles attempts nesting state n) heard inp

/-- The run of a grammar under a rulebook, within limits, makes an attempt of a repetition that
    succeeds and consumes nothing. -/
def Idles (book : Rulebook N σ) (limits : Limits) (state : σ) (g : Grammar N α) (heard : Bool)
    (inp : Input) : Prop :=
  g.Idles limits.attempts (fun n => book.recordCall limits.attempts limits.nesting state n)
    (fun n => book.CallIdles limits.attempts limits.nesting state n) heard inp

/-- Run a symbol with greedy loops everywhere. -/
def callGreedy (book : Rulebook N σ) (attempts : Nat) : Nat → σ → {α : Type} → N α → Parser α
  | 0, _, _, _ => fun _ _ => none
  | nesting + 1, state, _, n =>
    match book.resolve state n with
    | .error m => Parser.abort m
    | .ok (g, state) => g.greedy attempts fun n => book.callGreedy attempts nesting state n

/-- The parser that a grammar describes under a rulebook, within limits, with greedy loops
    everywhere. -/
def greedyParser (book : Rulebook N σ) (limits : Limits) (state : σ) (g : Grammar N α) :
    Parser α :=
  g.greedy limits.attempts fun n => book.callGreedy limits.attempts limits.nesting state n

/-- Whatever the grammar repeats consumes, however far runs may go. -/
def Drives (book : Rulebook N σ) (state : σ) (g : Grammar N α) : Prop :=
  g.Repeating fun body => ∀ limits, (book.parser limits state body).Consumes

/-- Whatever is repeated in the grammars that symbols stand for consumes. -/
def Driven (book : Rulebook N σ) : Prop :=
  ∀ {α : Type} (state state' : σ) (n : N α) (g : Grammar N α),
    book.resolve state n = .ok (g, state') → book.Drives state' g

end Rulebook

variable {attempts nesting : Nat} {g : Grammar N α}

theorem Grammar.Repeating.mono {K L : {α : Type} → Grammar N α → Prop}
    (hKL : ∀ {α : Type} (body : Grammar N α), K body → L body) (h : g.Repeating K) :
    g.Repeating L := by
  induction g with
  | leaf _ | symbol _ => trivial
  | map _ _ ih | filter _ _ ih | marked _ _ ih | wrapped _ _ ih | traced _ ih => exact ih h
  | andThen _ _ ihg ihnext => exact ⟨ihg h.1, fun value => ihnext value (h.2 value)⟩
  | or _ _ ihg ihh => exact ⟨ihg h.1, ihh h.2⟩
  | repeated _ _ ih => exact ⟨hKL _ h.1, ih h.2⟩

/-- Where all that is repeated takes a byte, no attempt idles. -/
theorem Grammar.Repeating.not_idles {call : {α : Type} → N α → Bool → Recorder α}
    {inside : {α : Type} → N α → Bool → Input → Prop}
    (hinside : ∀ {α : Type} (n : N α) (heard : Bool) (inp : Input), ¬ inside n heard inp)
    (h : g.Repeating fun body => ∀ heard, (body.record attempts call heard).Takes 1) (heard : Bool)
    (inp : Input) : ¬ g.Idles attempts call inside heard inp := by
  induction g generalizing heard inp with
  | leaf _ => exact id
  | map _ _ ih | filter _ _ ih | marked _ _ ih | wrapped _ _ ih => exact ih h heard inp
  | traced _ ih => exact ih h true inp
  | andThen _ _ ihg ihnext =>
    rintro (hidles | ⟨rest, value, -, -, hidles⟩)
    · exact ihg h.1 heard inp hidles
    · exact ihnext value (h.2 value) heard rest hidles
  | or _ _ ihg ihh =>
    rintro (hidles | ⟨-, hidles⟩)
    · exact ihg h.1 heard inp hidles
    · exact ihh h.2 heard inp hidles
  | repeated b g ih =>
    rintro ⟨place, -, hidles | ⟨after, value, w, hmatched, hsize⟩⟩
    · exact ih h.2 heard place hidles
    · have htakes := h.1 heard place after value w hmatched
      omega
  | symbol n => exact hinside n heard inp

/-- Where all that is repeated consumes, greedy loops make no difference. -/
theorem Grammar.Repeating.greedy_eq {call call' : {α : Type} → N α → Parser α}
    (hcall : ∀ {α : Type} (n : N α), call' n = call n)
    (h : g.Repeating fun body => (body.eval attempts call).Consumes) :
    g.greedy attempts call' = g.eval attempts call := by
  induction g with
  | leaf step => rfl
  | map f g ih => exact congrArg (Parser.map f) (ih h)
  | filter keep g ih => exact congrArg (Parser.filter keep) (ih h)
  | andThen g next ihg ihnext =>
    exact congrArg₂ Parser.andThen (ihg h.1) (funext fun value => ihnext value (h.2 value))
  | or g g' ihg ihh => exact congrArg₂ Parser.or (ihg h.1) (ihh h.2)
  | repeated b g ih =>
    have hloop : Parser.greedy attempts b (g.eval attempts call) =
        Parser.repeated attempts b (g.eval attempts call) := h.1.greedy_eq attempts b
    exact (congrArg (Parser.greedy attempts b) (ih h.2)).trans hloop
  | marked label g ih => exact congrArg (Parser.marked label) (ih h)
  | wrapped w g ih => exact ih h
  | traced g ih => exact congrArg Parser.traced (ih h)
  | symbol n => exact hcall n

namespace Rulebook

variable {book : Rulebook N σ} {state : σ}

theorem Drives.takes (h : book.Drives state g) (attempts nesting : Nat) :
    g.Repeating fun body => ∀ heard,
      (body.record attempts (fun n => book.recordCall attempts nesting state n) heard).Takes 1 :=
  h.mono fun body hbody =>
    (hbody ⟨attempts, nesting⟩).takes (book.parser_records ⟨attempts, nesting⟩ state body)

theorem Driven.not_callIdles (hbook : book.Driven) (state : σ) (n : N α) (heard : Bool)
    (inp : Input) : ¬ book.CallIdles attempts nesting state n heard inp := by
  induction nesting generalizing state α heard inp with
  | zero => exact id
  | succ nesting ih =>
    rw [CallIdles]
    split
    · exact id
    · next g state' hresolve =>
      have htakes := (hbook state state' n g hresolve).takes attempts nesting
      exact htakes.not_idles (fun n heard inp => ih state' n heard inp) heard inp

/-- Where all that is repeated consumes, no run idles. -/
theorem Drives.not_idles (h : book.Drives state g) (hbook : book.Driven) (limits : Limits)
    (heard : Bool) (inp : Input) : ¬ book.Idles limits state g heard inp :=
  (h.takes limits.attempts limits.nesting).not_idles
    (fun n heard inp => hbook.not_callIdles state n heard inp) heard inp

theorem Driven.callGreedy_eq (hbook : book.Driven) (state : σ) (n : N α) :
    book.callGreedy attempts nesting state n = book.call attempts nesting state n := by
  induction nesting generalizing state α with
  | zero => rfl
  | succ nesting ih =>
    funext inp scopes
    rw [callGreedy, call]
    cases hresolve : book.resolve state n with
    | error m => rfl
    | ok found =>
      obtain ⟨g, state'⟩ := found
      have hbodies : g.Repeating fun body =>
          (body.eval attempts fun n => book.call attempts nesting state' n).Consumes :=
        (hbook state state' n g hresolve).mono fun body hbody => hbody ⟨attempts, nesting⟩
      exact congrFun (congrFun (hbodies.greedy_eq fun n => ih state' n) inp) scopes

/-- Where all that is repeated consumes, greedy loops everywhere give the same parser. -/
theorem Drives.greedyParser_eq (h : book.Drives state g) (hbook : book.Driven) (limits : Limits) :
    book.greedyParser limits state g = book.parser limits state g := by
  have hbodies : g.Repeating fun body => (body.eval limits.attempts fun n =>
      book.call limits.attempts limits.nesting state n).Consumes :=
    h.mono fun body hbody => hbody limits
  exact hbodies.greedy_eq fun n => hbook.callGreedy_eq state n

end Rulebook

end Grammars

end Descent
