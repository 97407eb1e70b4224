/-
  Descent.Store

  Cells for grammars that refer to themselves.  A cell is declared first and defined once; whoever
  holds a reference to it can already use it in other grammars, the definition of the cell among
  them.  References come in two strengths: owners keep their cell alive, handles do not.  A cell
  lives as long as some owner of it is left, be it under a name or in the definition of a cell
  that is itself alive.  A cell that has died stays dead.
-/
import Descent.Grammar
import Descent.Value

namespace Descent

/-- A cell, by the order in which cells were declared. -/
abbrev CellId := Nat

/-- A way to reach a cell. -/
inductive Reference where
  /-- Keeps the cell alive. -/
  | owner (cell : CellId)
  /-- Does not. -/
  | handle (cell : CellId)
deriving DecidableEq

namespace Reference

/-- The cell that is referred to. -/
def cell : Reference → CellId
  | .owner c => c
  | .handle c => c

/-- The cells that holding this reference keeps alive. -/
def owned : Reference → List CellId
  | .owner c => [c]
  | .handle _ => []

end Reference

/-- The symbols of described grammars. -/
inductive Symbol : Type → Type where
  /-- The element of the markup language. -/
  | element : Symbol Markup.Element
  /-- A named rule, built anew whenever it is run. -/
  | rule (name : String) : Symbol Value
  /-- What a cell is defined as. -/
  | cell (r : Reference) : Symbol Value

/-- A grammar that is ready to run, with the cells that it owns. -/
structure Built where
  grammar : Grammar Symbol Value
  owned : List CellId

/-- The cells of two lists, without naming one of the first list again. -/
def joinCells (cs ds : List CellId) : List CellId := cs ++ ds.filter fun d => !cs.contains d

@[simp] theorem mem_joinCells {c : CellId} {cs ds : List CellId} :
    c ∈ joinCells cs ds ↔ c ∈ cs ∨ c ∈ ds := by
  by_cases h : c ∈ cs <;> simp [joinCells, h]

/-- A place for one definition. -/
structure Cell where
  definition : Option Built
  alive : Bool

/-- The cells owned by a cell: those that its definition owns, as long as it is alive. -/
def Cell.owned (cell : Cell) : List CellId :=
  if cell.alive then (cell.definition.map Built.owned).getD [] else []

/-- All cells declared so far, the newest first, since the newest are used most.  The field
    `next` is the cell that would be declared next, and so the number of cells. -/
structure Store where
  cells : List Cell
  next : Nat
  next_eq : next = cells.length

namespace Reference

/-- The grammar that uses whatever the cell is defined as. -/
def built (r : Reference) : Built := ⟨.symbol (.cell r), r.owned⟩

end Reference

namespace Store

/-- No cells. -/
def empty : Store := ⟨[], 0, rfl⟩

/-- Declare a cell, which is alive and has no definition. -/
def declare (store : Store) : Store :=
  ⟨⟨none, true⟩ :: store.cells, store.next + 1, by simp [store.next_eq]⟩

/-- The cell of this number. -/
def cell? (store : Store) (c : CellId) : Option Cell :=
  if c < store.next then store.cells[store.next - 1 - c]? else none

/-- Write the definition of a cell. -/
def write (store : Store) (c : CellId) (b : Built) : Store :=
  if c < store.next then
    ⟨store.cells.modify (store.next - 1 - c) fun cell => { cell with definition := some b },
      store.next, by simp [store.next_eq]⟩
  else
    store

@[simp] theorem next_empty : empty.next = 0 := rfl

@[simp] theorem next_declare (store : Store) : store.declare.next = store.next + 1 := rfl

@[simp] theorem next_write (store : Store) (c : CellId) (b : Built) :
    (store.write c b).next = store.next := by
  unfold write
  split <;> rfl

/-- The cells are those with a number below the next one. -/
theorem cell?_isSome_iff {store : Store} {c : Nat} :
    (store.cell? c).isSome = true ↔ c < store.next := by
  unfold cell?
  split
  · next h =>
    have hc : c < store.next := h
    have hlt : store.next - 1 - c < store.cells.length := by rw [← store.next_eq]; omega
    simp only [h, iff_true, Option.isSome_iff_exists]
    exact ⟨_, List.getElem?_eq_getElem hlt⟩
  · next h => simp [h]

/-- The cell declared last is new; the others stay what they were. -/
theorem cell?_declare (store : Store) (c : Nat) :
    store.declare.cell? c = if c = store.next then some ⟨none, true⟩ else store.cell? c := by
  by_cases hc : c = store.next
  · subst hc
    simp [cell?, declare]
  · by_cases h : c < store.next
    · have hi : store.next - c = store.next - 1 - c + 1 := by omega
      simp [cell?, declare, h, hc, hi, Nat.lt_succ_of_lt h]
    · have h' : ¬ c < store.next + 1 := by omega
      simp [cell?, declare, h, h', hc]

/-- Writing changes the definition of one cell. -/
theorem cell?_write (store : Store) (c d : Nat) (b : Built) :
    (store.write c b).cell? d =
      if d = c then (store.cell? d).map fun cell => { cell with definition := some b }
      else store.cell? d := by
  by_cases hc : c < store.next
  · by_cases hd : d < store.next
    · have hi : store.next - 1 - c = store.next - 1 - d ↔ d = c := by omega
      simp only [cell?, write, hc, hd, if_true, List.getElem?_modify, hi]
      split <;> simp
    · simp [cell?, write, hc, hd]
  · by_cases hd : d = c
    · subst hd
      simp [cell?, write, hc]
    · simp [write, hc, hd]

/-! ## Using cells -/

/-- Whether a reference still reaches its cell. -/
def reaches (store : Store) : Reference → Bool
  | .owner _ => true
  | .handle c => (store.cell? c).any Cell.alive

/-- What a cell is defined as. -/
def definition? (store : Store) (c : CellId) : Option Built :=
  (store.cell? c).bind Cell.definition

/-- What a reference stands for. -/
def resolve (store : Store) (r : Reference) : Except Misuse Built :=
  -- A dead cell is reported as such, defined or not.
  if store.reaches r then
    match store.definition? r.cell with
    | some b => .ok b
    | none => .error .undefined
  else
    .error .orphaned

/-- Define a cell that has no definition yet. -/
def define (store : Store) (r : Reference) (b : Built) : Except Misuse Store :=
  if store.reaches r then
    match store.definition? r.cell with
    | some _ => .error .redefined
    | none => .ok (store.write r.cell b)
  else
    .error .orphaned

@[simp] theorem definition?_declare (store : Store) (c : Nat) :
    store.declare.definition? c = store.definition? c := by
  rw [definition?, cell?_declare]
  split
  · next h =>
    subst h
    simp [definition?, cell?]
  · rfl

/-- A cell that was declared has the definition written last. -/
theorem definition?_write_self {store : Store} {c : Nat} (h : c < store.next) (b : Built) :
    (store.write c b).definition? c = some b := by
  obtain ⟨cell, hc⟩ := Option.isSome_iff_exists.1 (cell?_isSome_iff.2 h)
  simp [definition?, cell?_write, hc]

theorem definition?_write_of_ne {store : Store} {c d : Nat} (h : c ≠ d) (b : Built) :
    (store.write c b).definition? d = store.definition? d := by
  simp [definition?, cell?_write, Ne.symm h]

/-! ## Letting go of cells

Which cells have an owner is found out for all of them at once, by marking whatever the roots and
the living cells own. -/

/-- Whether a cell has an owner: among the roots, or in the definition of a living cell. -/
def hasOwner (store : Store) (roots : List CellId) (c : CellId) : Bool :=
  roots.contains c || store.cells.any fun cell => cell.owned.contains c

/-- Mark cells. -/
def mark (marks : Array Bool) (cs : List CellId) : Array Bool :=
  cs.foldl (fun marks c => marks.setIfInBounds c true) marks

/-- The marks of all cells that have an owner. -/
def marks (store : Store) (roots : List CellId) : Array Bool :=
  store.cells.foldl (fun marks cell => mark marks cell.owned)
    (mark (Array.replicate store.next false) roots)

/-- Let every cell die that has no owner at this moment. -/
def sweep (roots : List CellId) (store : Store) : Store :=
  let marks := store.marks roots
  ⟨store.cells.mapIdx fun i cell =>
      { cell with alive := cell.alive && marks.getD (store.next - 1 - i) false },
    store.next, by simp [store.next_eq]⟩

/-- The number of living cells. -/
def living (store : Store) : Nat := store.cells.countP Cell.alive

/-- Sweep until nothing dies any more, but no more often than the given number of times. -/
def sweeps (roots : List CellId) : Nat → Store → Store
  | 0, store => store
  | n + 1, store =>
    let swept := sweep roots store
    if swept.living = store.living then store else sweeps roots n swept

/-- Let every cell die that the roots and the living cells no longer own.  Each death may take
    away the last owner of other cells, but there are no more deaths than cells. -/
def release (roots : List CellId) (store : Store) : Store :=
  sweeps roots store.next store

/-! ### What a sweep does -/

@[simp] theorem size_mark (marks : Array Bool) (cs : List CellId) :
    (mark marks cs).size = marks.size := by
  induction cs generalizing marks with
  | nil => rfl
  | cons c cs ih => simp only [mark, List.foldl_cons] at ih ⊢; simp [ih]

theorem getD_mark {marks : Array Bool} {c : Nat} (h : c < marks.size) (cs : List CellId) :
    (mark marks cs).getD c false = (marks.getD c false || cs.contains c) := by
  induction cs generalizing marks with
  | nil => simp [mark]
  | cons d cs ih =>
    have hm := @ih (marks.setIfInBounds d true) (by simpa using h)
    simp only [mark, List.foldl_cons] at hm ⊢
    rw [hm]
    by_cases hd : d = c
    · subst hd
      simp [Array.getD, h]
    · simp [Array.getD, h, hd, Ne.symm hd]

/-- The marks are right: a cell is marked exactly if it has an owner. -/
theorem getD_marks {store : Store} {c : Nat} (h : c < store.next) (roots : List CellId) :
    (store.marks roots).getD c false = store.hasOwner roots c := by
  have key : ∀ (cells : List Cell) (marks : Array Bool), c < marks.size →
      (cells.foldl (fun marks cell => mark marks cell.owned) marks).getD c false =
        (marks.getD c false || cells.any fun cell => cell.owned.contains c) := by
    intro cells
    induction cells with
    | nil => intro marks _; simp
    | cons cell cells ih =>
      intro marks hm
      rw [List.foldl_cons, ih _ (by simpa using hm), getD_mark hm, List.any_cons, Bool.or_assoc]
  rw [marks, key _ _ (by simpa using h), getD_mark (by simpa using h), hasOwner]
  simp [Array.getD, h]

@[simp] theorem next_sweep (roots : List CellId) (store : Store) :
    (sweep roots store).next = store.next := rfl

/-- A sweep leaves a cell alive if it was alive and has an owner, and nothing else changes. -/
theorem cell?_sweep (roots : List CellId) (store : Store) (c : Nat) :
    (sweep roots store).cell? c = (store.cell? c).map fun cell =>
      { cell with alive := cell.alive && store.hasOwner roots c } := by
  by_cases hc : c < store.next
  · have hi : store.next - 1 - (store.next - 1 - c) = c := by omega
    simp only [cell?, sweep, hc, if_true, List.getElem?_mapIdx, hi, getD_marks hc]
  · simp [cell?, sweep, hc]

/-- Sweeping takes no definition away. -/
@[simp] theorem definition?_sweep (roots : List CellId) (store : Store) (c : Nat) :
    (sweep roots store).definition? c = store.definition? c := by
  rw [definition?, cell?_sweep, definition?]
  cases store.cell? c <;> rfl

/-- Letting cells die leaves at most as many alive, and as many only if none of them was alive. -/
theorem countP_alive_le (cells : List Cell) (stays : Nat → Bool) :
    (cells.mapIdx fun i cell => { cell with alive := cell.alive && stays i }).countP Cell.alive ≤
        cells.countP Cell.alive ∧
      ((cells.mapIdx fun i cell => { cell with alive := cell.alive && stays i }).countP Cell.alive =
        cells.countP Cell.alive →
      (cells.mapIdx fun i cell => { cell with alive := cell.alive && stays i }) = cells) := by
  induction cells generalizing stays with
  | nil => simp
  | cons cell cells ih =>
    have hle := (ih fun i => stays (i + 1)).1
    have heq := (ih fun i => stays (i + 1)).2
    obtain ⟨definition, alive⟩ := cell
    simp only [List.mapIdx_cons, List.countP_cons, List.cons.injEq, Cell.mk.injEq, true_and]
    cases alive <;> cases stays 0 <;> simp <;> first | exact ⟨hle, heq⟩ | omega

theorem living_sweep_le (roots : List CellId) (store : Store) :
    (sweep roots store).living ≤ store.living :=
  (countP_alive_le _ _).1

/-- Where as many cells are alive as before, none has died. -/
theorem sweep_eq_self {roots : List CellId} {store : Store}
    (h : (sweep roots store).living = store.living) : sweep roots store = store := by
  obtain ⟨cells, next, hnext⟩ := store
  simp only [sweep, Store.mk.injEq, and_true]
  exact (countP_alive_le _ _).2 h

@[simp] theorem next_sweeps (roots : List CellId) (n : Nat) (store : Store) :
    (sweeps roots n store).next = store.next := by
  induction n generalizing store with
  | zero => rfl
  | succ n ih =>
    simp only [sweeps]
    split
    · rfl
    · rw [ih, next_sweep]

@[simp] theorem definition?_sweeps (roots : List CellId) (n : Nat) (store : Store) (c : Nat) :
    (sweeps roots n store).definition? c = store.definition? c := by
  induction n generalizing store with
  | zero => rfl
  | succ n ih =>
    simp only [sweeps]
    split
    · rfl
    · rw [ih, definition?_sweep]

/-- Letting go of cells takes no definition away. -/
@[simp] theorem definition?_release (roots : List CellId) (store : Store) (c : Nat) :
    (store.release roots).definition? c = store.definition? c := by
  simp [release]

end Store

end Descent
