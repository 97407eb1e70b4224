/-
  Descent.Proofs.Written

  In which order cells are written.  A build declares cells and writes each of them once, and what
  it writes owns no cells but those that the names around own and those that it has written before.
  So if these names own none but cells that are defined already, the cells of a store stand in a
  line in the order in which they were written, and each owns none but cells that stand behind it.

  In such a store no cell owns itself, by however many steps.  And where every living cell has an
  owner, going from one to its owner, and on, comes nearer to the end of the line at every step, so
  it has to end at a root.
-/
import Descent.Proofs.Owners

namespace Descent

namespace Store

variable {store mid store' : Store} {outside roots cs cs' : List CellId} {c d : CellId} {b : Built}

/-- Declaring cells and writing those given, newest first, leads from the first store to the second.
    Each is written for the first time, and with what owns none but outside cells and those written
    before. -/
inductive Writes (outside : List CellId) (store : Store) : List CellId → Store → Prop
  | refl : Writes outside store [] store
  | declare {cs : List CellId} {mid : Store} (h : Writes outside store cs mid) :
      Writes outside store cs mid.declare
  | write {cs : List CellId} {mid : Store} {c : CellId} {b : Built}
      (h : Writes outside store cs mid) (hc : mid.cell? c = some ⟨none, true⟩)
      (howned : ∀ d ∈ b.owned, d ∈ outside ∨ d ∈ cs) :
      Writes outside store (c :: cs) (mid.write c b)

/-- The store has come about by declaring cells, letting go of cells, and writing those given,
    newest first.  Each was written once, and with what owns none but cells written before. -/
inductive Written : List CellId → Store → Prop
  | empty : Written [] .empty
  | declare {cs : List CellId} {store : Store} (h : Written cs store) : Written cs store.declare
  | write {cs : List CellId} {store : Store} {c : CellId} {b : Built} (h : Written cs store)
      (hc : c < store.next) (hundefined : store.definition? c = none)
      (howned : ∀ d ∈ b.owned, d ∈ cs) : Written (c :: cs) (store.write c b)
  | release {cs : List CellId} {store : Store} (h : Written cs store) (roots : List CellId) :
      Written cs (store.release roots)

/-- The definition of the first cell owns the second one. -/
def Owns (store : Store) (c d : CellId) : Prop := ∃ b, store.definition? c = some b ∧ d ∈ b.owned

/-- The defined cells stand in this line, in the order in which they were written, the newest first.
    What a definition owns stands behind its cell. -/
structure Line (store : Store) (cs : List CellId) : Prop where
  written : store.Written cs
  nodup : cs.Nodup
  mem_iff : ∀ c, c ∈ cs ↔ (store.definition? c).isSome = true
  behind : ∀ c d, store.Owns c d → ∃ newer older, cs = newer ++ c :: older ∧ d ∈ older

/-- The cells were written in this order, and the roots are among them. -/
structure Ordered (store : Store) (roots cs : List CellId) : Prop where
  written : store.Written cs
  roots : roots ⊆ cs

-- ============================================================================
-- The line of written cells
-- ============================================================================

namespace Written

/-- The cells in the line are those that are defined. -/
theorem mem_iff (h : Written cs store) : c ∈ cs ↔ (store.definition? c).isSome = true := by
  induction h generalizing c with
  | empty => simp [Store.definition?, cell?, Store.empty]
  | declare _ ih => rw [definition?_declare, ih]
  | @write cs store d b _ hd _ _ ih =>
    by_cases hdc : d = c
    · subst hdc
      simp [definition?_write_self hd]
    · rw [definition?_write_of_ne hdc, List.mem_cons, ih]
      exact or_iff_right (Ne.symm hdc)
  | release _ roots ih => rw [definition?_release, ih]

theorem not_mem (h : Written cs store) (hundefined : store.definition? c = none) : c ∉ cs := by
  rw [h.mem_iff, hundefined]
  exact Bool.false_ne_true

theorem nodup (h : Written cs store) : cs.Nodup := by
  induction h with
  | empty => exact List.nodup_nil
  | declare _ ih | release _ _ ih => exact ih
  | write h _ hundefined _ ih => exact List.nodup_cons.2 ⟨h.not_mem hundefined, ih⟩

/-- What a cell owns stands behind it in the line. -/
theorem behind (h : Written cs store) (hb : store.definition? c = some b) (hd : d ∈ b.owned) :
    ∃ newer older, cs = newer ++ c :: older ∧ d ∈ older := by
  induction h generalizing b with
  | empty => simp [Store.definition?, cell?, Store.empty] at hb
  | declare _ ih =>
    rw [definition?_declare] at hb
    exact ih hb hd
  | @write cs store e b' _ he _ howned ih =>
    by_cases hec : e = c
    · subst hec
      rw [definition?_write_self he] at hb
      cases hb
      exact ⟨[], cs, rfl, howned d hd⟩
    · rw [definition?_write_of_ne hec] at hb
      obtain ⟨newer, older, rfl, hmem⟩ := ih hb hd
      exact ⟨e :: newer, older, rfl, hmem⟩
  | release _ roots ih =>
    rw [definition?_release] at hb
    exact ih hb hd

theorem line (h : Written cs store) : store.Line cs :=
  ⟨h, h.nodup, fun _ => h.mem_iff, fun _ _ ⟨_, hb, hd⟩ => h.behind hb hd⟩

/-- So it has a greater distance from the newest cell. -/
theorem idxOf_lt (h : Written cs store) (howns : store.Owns c d) : cs.idxOf c < cs.idxOf d := by
  obtain ⟨b, hb, hd⟩ := howns
  obtain ⟨newer, older, rfl, hmem⟩ := h.behind hb hd
  obtain ⟨-, hcons, hdisjoint⟩ := List.nodup_append.1 h.nodup
  have hcd : c ≠ d := fun hcd => (List.nodup_cons.1 hcons).1 (hcd ▸ hmem)
  have hc : c ∉ newer := fun hc => hdisjoint c hc c List.mem_cons_self rfl
  have hd : d ∉ newer := fun hd => hdisjoint d hd d (List.mem_cons_of_mem c hmem) rfl
  rw [List.idxOf_append, if_neg hc, List.idxOf_cons_self, List.idxOf_append, if_neg hd,
    List.idxOf_cons, beq_false_of_ne hcd, cond_false]
  omega

/-- No cell owns itself, by however many steps. -/
theorem not_owns_self (h : Written cs store) : ¬ Relation.TransGen store.Owns c c := by
  have hlt {d : CellId} (howns : Relation.TransGen store.Owns c d) : cs.idxOf c < cs.idxOf d := by
    induction howns with
    | single howns => exact h.idxOf_lt howns
    | tail _ howns ih => exact Nat.lt_trans ih (h.idxOf_lt howns)
  exact fun howns => Nat.lt_irrefl _ (hlt howns)

/-- Where every living cell has an owner, each can be reached. -/
theorem reachable (h : Written cs store) (haccounted : store.Accounted roots)
    (hc : store.Alive c) : store.Reachable roots c := by
  -- On the distance from the newest cell: an owner is nearer to it.
  induction hn : cs.idxOf c using Nat.strongRecOn generalizing c with
  | _ n ih =>
    subst hn
    rcases haccounted c hc with hroot | ⟨d, b, hd, hmem⟩
    · exact .root hroot
    · have hlt := h.idxOf_lt ⟨b, hd.definition?, hmem⟩
      exact .owned (ih _ hlt hd.alive rfl) hd.definition? hmem

/-- What has been written since stands in front. -/
theorem writes (h : Written cs store) (hwrites : store.Writes outside cs' store')
    (houtside : outside ⊆ cs) : Written (cs' ++ cs) store' := by
  induction hwrites with
  | refl => exact h
  | declare _ ih => exact ih.declare
  | write _ hc howned ih =>
    refine ih.write (lt_next_of_cell? hc) (by rw [Store.definition?, hc]; rfl) fun d hd => ?_
    exact List.mem_append.2 ((howned d hd).symm.imp_right fun hd => houtside hd)

end Written

namespace Writes

/-- What was written first may be owned by what is written later. -/
theorem trans (h : store.Writes outside cs mid)
    (h' : mid.Writes (cs ++ outside) cs' store') : store.Writes outside (cs' ++ cs) store' := by
  induction h' with
  | refl => exact h
  | declare _ ih => exact ih.declare
  | write _ hc howned ih =>
    refine ih.write hc fun d hd => ?_
    rcases howned d hd with hmem | hmem
    · rcases List.mem_append.1 hmem with hmem | hmem
      · exact .inr (List.mem_append_right _ hmem)
      · exact .inl hmem
    · exact .inr (List.mem_append_left _ hmem)

theorem mono {more : List CellId} (h : store.Writes outside cs store') (hsub : outside ⊆ more) :
    store.Writes more cs store' := by
  induction h with
  | refl => exact .refl
  | declare _ ih => exact ih.declare
  | write _ hc howned ih => exact ih.write hc fun d hd => (howned d hd).imp_left fun hd => hsub hd

/-- Whatever is written over living cells is alive, and the store stays sound. -/
theorem sound (h : store.Writes outside cs store') (hstore : store.Sound roots)
    (houtside : ∀ c ∈ outside, store.Alive c) :
    store'.Sound roots ∧ (∀ c ∈ outside, store'.Alive c) ∧ ∀ c ∈ cs, store'.Alive c := by
  induction h with
  | refl => exact ⟨hstore, houtside, List.forall_mem_nil _⟩
  | @declare cs mid _ ih =>
    obtain ⟨hsound, hout, hcs⟩ := ih
    have hkeeps := Keeps.declare mid
    exact ⟨hsound.declare, fun c hc => hkeeps.alive (hout c hc), fun c hc =>
      hkeeps.alive (hcs c hc)⟩
  | @write cs mid c b _ hc howned ih =>
    obtain ⟨hsound, hout, hcs⟩ := ih
    refine ⟨hsound.write (fun d hd => (howned d hd).elim (hout d) (hcs d)) c,
      fun d hd => alive_write_iff.2 (hout d hd), List.forall_mem_cons.2
        ⟨alive_write_iff.2 ⟨none, hc⟩, fun d hd => alive_write_iff.2 (hcs d hd)⟩⟩

end Writes

namespace Ordered

variable {more : List CellId}

theorem anti (h : store.Ordered roots cs) (hsub : more ⊆ roots) : store.Ordered more cs :=
  ⟨h.written, List.Subset.trans hsub h.roots⟩

theorem declare (h : store.Ordered roots cs) : store.declare.Ordered roots cs :=
  ⟨h.written.declare, h.roots⟩

/-- What is written stands in front. -/
theorem write (h : store.Ordered roots cs) (hc : c < store.next)
    (hundefined : store.definition? c = none) (hb : b.owned ⊆ roots) :
    (store.write c b).Ordered (c :: roots) (c :: cs) :=
  ⟨h.written.write hc hundefined fun _ hd => h.roots (hb hd), List.cons_subset_cons c h.roots⟩

/-- What a definition owns has been written. -/
theorem owned (h : store.Ordered roots cs) (hb : store.definition? c = some b) :
    store.Ordered (b.owned ++ roots) cs := by
  refine ⟨h.written, List.append_subset.2 ⟨fun d hd => ?_, h.roots⟩⟩
  obtain ⟨newer, older, rfl, hmem⟩ := h.written.behind hb hd
  exact List.mem_append_right newer (List.mem_cons_of_mem c hmem)

theorem release (h : store.Ordered roots cs) : (store.release roots).Ordered roots cs :=
  ⟨h.written.release roots, h.roots⟩

end Ordered

end Store

-- ============================================================================
-- Building
-- ============================================================================

/-- What the names stand for owns none but the given cells. -/
def Names.OwnedIn (names : Names) (outside : List CellId) : Prop :=
  ∀ entry ∈ names, entry.2.owned ⊆ outside

/-- The build writes cells over the given ones, and its result owns none but these and those. -/
def Build.Writes {β : Type 1} (outside : List CellId) (owned : β → List CellId)
    (build : Build β) : Prop :=
  ∀ store b store', build store = .ok (b, store') →
    ∃ cs, store.Writes outside cs store' ∧ owned b ⊆ cs ++ outside

variable {names : Names} {outside more : List CellId}

theorem Names.OwnedIn.mono (h : names.OwnedIn outside) (hsub : outside ⊆ more) :
    names.OwnedIn more :=
  fun entry hentry => List.Subset.trans (h entry hentry) hsub

namespace Build.Writes

variable {β γ : Type 1} {owned : β → List CellId} {owned' : γ → List CellId}

theorem done {b : β} (h : owned b ⊆ outside) : Build.Writes outside owned (.done b) := by
  intro store b' store' hdone
  obtain ⟨rfl, rfl⟩ := Build.done_inv hdone
  exact ⟨[], .refl, h⟩

/-- What the first build gives is there for the second one. -/
theorem next {build : Build β} {f : β → Build γ} (h : Build.Writes outside owned build)
    (hf : ∀ b, Build.Writes (owned b ++ outside) owned' (f b)) :
    Build.Writes outside owned' (build.next f) := by
  intro store c store' hnext
  obtain ⟨b, mid, hbuild, hf'⟩ := Build.next_inv hnext
  obtain ⟨cs, hcs, howned⟩ := h store b mid hbuild
  obtain ⟨cs', hcs', howned'⟩ := hf b mid c store' hf'
  have hsub : owned b ++ outside ⊆ cs ++ outside :=
    List.append_subset.2 ⟨howned, List.subset_append_right _ _⟩
  refine ⟨cs' ++ cs, hcs.trans (hcs'.mono hsub), fun c hc => ?_⟩
  rw [List.append_assoc]
  exact (List.mem_append.1 (howned' hc)).elim (List.mem_append_left _) fun hc =>
    List.mem_append_right _ (hsub hc)

theorem named (hnames : names.OwnedIn outside) (x : String) :
    Build.Writes outside Built.owned ((Recipe.named x).build names) := by
  intro store b store' h
  rw [Recipe.build] at h
  split at h
  · next hlookup =>
    obtain ⟨rfl, rfl⟩ := Prod.mk.inj (Except.ok.inj h)
    exact ⟨[], .refl, hnames _ (mem_of_lookup_eq_some hlookup)⟩
  · cases h

/-- The cell of a recursive parser is declared first and written last. -/
theorem recursive {x : String} {body : Recipe}
    (hbody : ∀ c, Build.Writes outside Built.owned
      (body.build ((x, (Reference.handle c).built) :: names))) :
    Build.Writes outside Built.owned ((Recipe.recursive x body).build names) := by
  intro store b store' h
  obtain ⟨a, mid, hbuild, hwrite⟩ := Build.next_inv h
  obtain ⟨rfl, rfl⟩ := Prod.mk.inj (Except.ok.inj hwrite)
  obtain ⟨cs, hcs, howned⟩ := hbody store.next store.declare a mid hbuild
  have hcell : mid.cell? store.next = some ⟨none, true⟩ :=
    (body.build_grown hbuild).keeps _ _ (Store.cell?_declare_self store)
  have hdeclared : store.Writes outside (cs ++ []) mid :=
    Store.Writes.trans (.declare .refl) hcs
  rw [List.append_nil] at hdeclared
  refine ⟨store.next :: cs, hdeclared.write hcell fun d hd => ?_, fun d hd => ?_⟩
  · exact (List.mem_append.1 (howned hd)).symm
  · obtain rfl := List.mem_singleton.1 hd
    exact List.mem_cons_self

end Build.Writes

theorem subset_joinCells {cs ds : List CellId} (hcs : cs ⊆ outside) (hds : ds ⊆ outside) :
    joinCells cs ds ⊆ outside :=
  fun _ hc => (mem_joinCells.1 hc).elim (fun hc => hcs hc) fun hc => hds hc

theorem Names.OwnedIn.push (h : names.OwnedIn outside) (x : String) (c : CellId) :
    Names.OwnedIn ((x, (Reference.handle c).built) :: names) outside :=
  List.forall_mem_cons.2 ⟨List.nil_subset _, h⟩

-- Along the description; what a part gives is there for the parts behind it.

mutual

/-- A build writes each cell once, with what owns none but cells that are there. -/
theorem Recipe.build_writes : (recipe : Recipe) → ∀ {names outside}, Names.OwnedIn names outside →
    Build.Writes outside Built.owned (recipe.build names)
  | .piece _, _, _, _ => .done (List.nil_subset _)
  | .modified _ body, _, _, hnames =>
    .next (body.build_writes hnames) fun _ => .done (List.subset_append_left _ _)
  | .joined _ first second, _, _, hnames => by
    refine .next (first.build_writes hnames) fun a => ?_
    refine .next (second.build_writes (hnames.mono (List.subset_append_right _ _))) fun b => ?_
    refine .done (subset_joinCells ?_ (List.subset_append_left _ _))
    exact List.subset_append_of_subset_right _ (List.subset_append_left _ _)
  | .between body start finish, _, _, hnames => by
    refine .next (body.build_writes hnames) fun b => ?_
    have hnames' := hnames.mono (List.subset_append_right b.owned _)
    refine .next (start.build_writes hnames') fun s => ?_
    have hnames'' := hnames'.mono (List.subset_append_right s.owned _)
    refine .next (finish.build_writes hnames'') fun f => ?_
    refine .done (subset_joinCells (subset_joinCells ?_ ?_) (List.subset_append_left _ _))
    · exact List.subset_append_of_subset_right _ (List.subset_append_of_subset_right _
        (List.subset_append_left _ _))
    · exact List.subset_append_of_subset_right _ (List.subset_append_left _ _)
  | .andThen body next, _, _, hnames | .chained body next, _, _, hnames => by
    refine .next (body.build_writes hnames) fun b => ?_
    refine .next (next.build_writes (hnames.mono (List.subset_append_right _ _))) fun k => ?_
    refine .done (subset_joinCells ?_ (List.subset_append_left _ _))
    exact List.subset_append_of_subset_right _ (List.subset_append_left _ _)
  | .rule _, _, _, _ => .done (List.nil_subset _)
  | .recursive x body, _, _, hnames => .recursive fun c => body.build_writes (hnames.push x c)
  | .named x, _, _, hnames => .named hnames x

theorem Continuation.build_writes : (next : Continuation) → ∀ {names outside},
    Names.OwnedIn names outside →
    Build.Writes outside BuiltContinuation.owned (next.build names)
  | .same, _, _, _ | .close, _, _, _ | .keep, _, _, _ => .done (List.nil_subset _)
  | .count body, _, _, hnames | .always body, _, _, hnames =>
    .next (body.build_writes hnames) fun _ => .done (List.subset_append_left _ _)
  | .cases table otherwise, _, _, hnames => by
    refine .next (Recipe.buildTable_writes table hnames) fun cases => ?_
    refine .next (otherwise.build_writes (hnames.mono (List.subset_append_right _ _))) fun b => ?_
    refine .done fun c hc => ?_
    rcases mem_foldr_joinCells.1 hc with hc | hc
    · exact List.mem_append_right _ (List.mem_append_left _ hc)
    · exact List.mem_append_left _ hc

theorem Recipe.buildTable_writes : (table : List (String × Recipe)) → ∀ {names outside},
    Names.OwnedIn names outside →
    Build.Writes outside (fun cases => cases.flatMap fun entry => entry.2.owned)
      (Recipe.buildTable names table)
  | [], _, _, _ => .done (List.nil_subset _)
  | (_, body) :: table, _, _, hnames => by
    refine .next (body.build_writes hnames) fun b => ?_
    refine .next (Recipe.buildTable_writes table (hnames.mono (List.subset_append_right _ _)))
      fun cases => ?_
    refine .done ?_
    rw [List.flatMap_cons]
    exact List.append_subset.2 ⟨List.subset_append_of_subset_right _ (List.subset_append_left _ _),
      List.subset_append_left _ _⟩

end

namespace Recipe

variable {roots cs : List CellId} {store store' : Store} {b : Built}

/-- What is built among living cells owns none but living ones, and the store stays sound. -/
theorem build_sound (recipe : Recipe) (hnames : names.OwnedIn roots) (h : store.Sound roots)
    (hbuild : recipe.build names store = .ok (b, store')) : store'.Sound (b.owned ++ roots) := by
  obtain ⟨cs, hwrites, howned⟩ := recipe.build_writes hnames store b store' hbuild
  obtain ⟨hsound, hroots, hcs⟩ := hwrites.sound h h.roots
  have halive : ∀ c ∈ b.owned, store'.Alive c := fun c hc =>
    (List.mem_append.1 (howned hc)).elim (hcs c) (hroots c)
  exact hsound.append halive

/-- The cells that a build defines stand in front of those that were there. -/
theorem build_ordered (recipe : Recipe) (hnames : names.OwnedIn roots) (h : store.Ordered roots cs)
    (hbuild : recipe.build names store = .ok (b, store')) :
    ∃ new, store'.Ordered (b.owned ++ roots) (new ++ cs) := by
  obtain ⟨new, hwrites, howned⟩ := recipe.build_writes hnames store b store' hbuild
  have hroots : roots ⊆ new ++ cs := List.subset_append_of_subset_right _ h.roots
  have hwritten : store'.Written (new ++ cs) := h.written.writes hwrites h.roots
  refine ⟨new, hwritten, List.append_subset.2 ⟨fun c hc => ?_, hroots⟩⟩
  exact (List.mem_append.1 (howned hc)).elim (List.mem_append_left _) fun hc => hroots hc

end Recipe

end Descent
