/-
  Descent.Parser.Repetition

  Running a parser again and again.  A repetition goes on until as many values are gathered as its
  bounds allow, the parser fails, or the parser succeeds without making progress, which is told by
  comparing the lengths of what is left.  The last attempt counts for nothing in the latter two
  cases.  What was gathered is then judged by the lower bound.
-/
import Descent.Parser

namespace Descent

/-- How many values a repetition asks for and allows. -/
structure Bounds where
  least : Nat
  most : Option Nat
deriving DecidableEq

namespace Bounds

/-- Any number of values, none included. -/
def free : Bounds := ⟨0, none⟩

/-- Ask for at least `n` values. -/
def atLeast (n : Nat) (b : Bounds) : Bounds := { b with least := n }

/-- Allow at most `n` values. -/
def atMost (n : Nat) (b : Bounds) : Bounds := { b with most := some n }

/-- Ask for `n` values, no less and no more. -/
def exactly (n : Nat) (_ : Bounds) : Bounds := ⟨n, some n⟩

/-- Whether `n` values are all that is allowed. -/
def isFull (b : Bounds) (n : Nat) : Bool :=
  match b.most with
  | none => false
  | some most => most ≤ n

@[simp] theorem isFull_free (n : Nat) : free.isFull n = false := rfl

theorem isFull_iff (b : Bounds) (n : Nat) :
    b.isFull n = true ↔ ∃ most, b.most = some most ∧ most ≤ n := by
  cases h : b.most <;> simp [isFull, h]

/-- There is room for one value more. -/
theorem isFull_eq_false_iff {b : Bounds} {n : Nat} :
    b.isFull n = false ↔ ∀ hi ∈ b.most, n < hi := by
  rw [← Bool.not_eq_true, isFull_iff]
  simp only [Option.mem_def, not_exists, not_and, Nat.not_le]

/-- There is room for `n` values. -/
theorem forall_isFull_eq_false_iff {b : Bounds} {n : Nat} :
    (∀ m < n, b.isFull m = false) ↔ ∀ hi ∈ b.most, n ≤ hi := by
  refine ⟨fun h hi hmost => ?_, fun h m hm => isFull_eq_false_iff.2 fun hi hmost => ?_⟩
  · cases n with
    | zero => exact Nat.zero_le hi
    | succ n => exact isFull_eq_false_iff.1 (h n (Nat.lt_succ_self n)) hi hmost
  · exact Nat.lt_of_lt_of_le hm (h hi hmost)

end Bounds

/-- Why a repetition stopped. -/
inductive Stop where
  /-- No more values are allowed. -/
  | full
  /-- The parser succeeded but consumed nothing. -/
  | idle
  /-- The parser failed. -/
  | refused (failure : Failure)
deriving DecidableEq

/-- What a repetition gathered, what it left, and why it stopped. -/
structure Haul (α : Type) where
  items : List α
  rest : Input
  stop : Stop

namespace Parser

variable {α : Type}

/-- Gather values until the repetition stops.  `count` values are in `newestFirst` already and
    `rest` is left; at most `limit` more attempts are made. -/
def gather (b : Bounds) (p : Parser α) : Nat → Input → Nat → List α → Scopes →
    Option (Except Misuse (Haul α) × Scopes)
  | 0, _, _, _, _ => none
  | limit + 1, rest, count, newestFirst, scopes =>
    if b.isFull count then
      some (.ok ⟨newestFirst.reverse, rest, .full⟩, scopes)
    else
      match p rest scopes with
      | none => none
      | some (.matched after value, scopes) =>
        -- The same length left means that nothing was consumed; the value is dropped.
        if after.size = rest.size then
          some (.ok ⟨newestFirst.reverse, rest, .idle⟩, scopes)
        else
          gather b p limit after (count + 1) (value :: newestFirst) scopes
      | some (.failed e, scopes) => some (.ok ⟨newestFirst.reverse, rest, .refused e⟩, scopes)
      | some (.aborted m, scopes) => some (.error m, scopes)

/-- Judge what a repetition that was given `inp` gathered.  If it is too little the repetition
    fails at `inp`, except that a failure of the very first attempt is handed on. -/
def judge (b : Bounds) (inp : Input) (haul : Haul α) : Reply (List α) :=
  if b.least ≤ haul.items.length then
    .matched haul.rest haul.items
  else
    match haul.items, haul.stop with
    | [], .refused e => .failed e
    | _, _ => .failed ⟨inp⟩

theorem judge_of_le {b : Bounds} {inp : Input} {haul : Haul α}
    (h : b.least ≤ haul.items.length) : judge b inp haul = .matched haul.rest haul.items := by
  simp [judge, h]

/-- Too little, but the first attempt succeeded: the repetition fails where it began. -/
theorem judge_of_lt {b : Bounds} {inp : Input} {haul : Haul α} (h : haul.items.length < b.least)
    (hne : haul.items ≠ []) : judge b inp haul = .failed ⟨inp⟩ := by
  obtain ⟨items, rest, stop⟩ := haul
  cases items with
  | nil => exact absurd rfl hne
  | cons a as => simpa [judge] using h

/-- Run a parser again and again, in at most `limit` attempts, and list its values. -/
@[inline] def repeated (limit : Nat) (b : Bounds) (p : Parser α) : Parser (List α) :=
  fun inp scopes =>
    match gather b p limit inp 0 [] scopes with
    | none => none
    | some (.ok haul, scopes) => some (judge b inp haul, scopes)
    | some (.error m, scopes) => some (.aborted m, scopes)

end Parser

end Descent
