/-
  Descent.Proofs.Knots

  The two ways of tying a knot agree.  A finite system of rules can be run with every reference
  built anew whenever it is run, or in a session that declares a cell for each rule and then defines
  it, with the cells in the place of references.  Both give the same answer to the same input, trace
  included, and within the same limits, so one comes to an end exactly if the other does.

  The session is followed step by step.  While cells are declared, each is owned by its name; while
  they are defined, each rule that is done is tied to its cell, and all cells are kept.  A recursive
  parser is a system of one rule that is declared and defined in one step, with a handle in the
  place of the reference.
-/
import Descent.Session
import Descent.Proofs.Kept
import Descent.Proofs.Tied

namespace Descent

variable {rules : Rules} {ref : String → String} {knots : Knots} {s s' : Session}

/-- A system of rules that refer to each other and to nothing else, with a name for each. -/
structure Rules.System (rules : Rules) (ref : String → String) : Prop where
  distinct : ((rules.map Prod.fst).map ref).Nodup
  closed : ∀ rule ∈ rules, rule.2.Closed (rules.map Prod.fst) ref []

/-- Declare a cell for each rule. -/
def Rules.declares (rules : Rules) (ref : String → String) : List Step :=
  rules.map fun rule => .declare (ref rule.1)

/-- Define the cell of each rule, with cells in the place of rules. -/
def Rules.defines (rules : Rules) (ref : String → String) : List Step :=
  rules.map fun rule => .define (ref rule.1) (rule.2.throughNames ref)

/-! ## Names -/

theorem Rules.System.nodup (h : rules.System ref) : (rules.map Prod.fst).Nodup :=
  List.Pairwise.of_map ref (fun _ _ hne heq => hne (congrArg ref heq)) h.distinct

theorem Rules.System.lookup (h : rules.System ref) {name : String} {body : Recipe}
    (hrule : (name, body) ∈ rules) : List.lookup name rules = some body :=
  lookup_eq_some_of_mem h.nodup hrule

theorem Session.lookup_builtNames {x : String} {b : Binding} (h : s.names.lookup x = some b) :
    s.builtNames.lookup x = some b.built := by
  obtain ⟨names, store, scopes⟩ := s
  induction names with
  | nil => exact nomatch h
  | cons entry names ih =>
    obtain ⟨y, b'⟩ := entry
    by_cases hxy : x = y
    · subst hxy
      rw [List.lookup_cons_self] at h
      obtain rfl := Option.some.inj h
      exact List.lookup_cons_self
    · rw [lookup_cons_of_ne hxy] at h
      have htail := ih h
      show ((y, b'.built) :: _).lookup x = some b.built
      rw [lookup_cons_of_ne hxy]
      exact htail

namespace Session

/-! ## Single steps -/

theorem answers_cons_of_done {limits : Limits} {step : Step}
    (h : s.step limits step = some (.done, s')) (steps : List Step) :
    s.answers limits (step :: steps) = (s'.answers limits steps).map (.done :: ·) := by
  rw [answers, h]

/-- A session that keeps all its cells lets go of none. -/
theorem release_eq (h : s.store.Kept s.roots) : s.release = s := by
  rw [release, h.release_eq]

/-- A name that is new takes nothing away. -/
theorem bind_eq {x : String} (hx : x ∉ s.names.map Prod.fst) (b : Binding) :
    Session.bind x b s = { s with names := (x, b) :: s.names } := by
  have hnames : s.names.filter (fun entry => entry.1 ≠ x) = s.names := by
    refine List.filter_eq_self.2 fun entry hentry => ?_
    have hne : entry.1 ≠ x := by
      intro heq
      exact hx (heq ▸ List.mem_map_of_mem hentry)
    exact decide_eq_true hne
  rw [Session.bind, unbind, hnames]

/-- Declaring a cell under a new name adds the name, the cell, and nothing else. -/
theorem declare_eq {x : String} (hx : x ∉ s.names.map Prod.fst) (hkept : s.store.Kept s.roots) :
    s.declare x = { s with
      names := (x, .cell (.owner s.store.next)) :: s.names, store := s.store.declare } := by
  have hbind := bind_eq (s := { s with store := s.store.declare }) hx
    (.cell (.owner s.store.next))
  rw [Session.declare, hbind]
  exact release_eq hkept.declare

/-- Defining a cell that has no definition writes it, if that keeps all cells. -/
theorem define_eq {x : String} {recipe : Recipe} {b : Built} {store : Store} {r : Reference}
    (hbuild : s.build recipe = .ok (b, store)) (hx : s.names.lookup x = some (.cell r))
    (hcell : store.cell? r.cell = some ⟨none, true⟩)
    (hkept : (store.write r.cell b).Kept s.roots) :
    s.define x recipe = .ok { s with store := store.write r.cell b } := by
  have hlookup : s.lookupCell x = .ok r := by
    rw [lookupCell, Session.lookup, hx]
  have hreaches : store.reaches r = true := by
    cases r with
    | owner c => rfl
    | handle c =>
      have hc : store.cell? c = some ⟨none, true⟩ := hcell
      rw [Store.reaches, hc]
      rfl
  have hundefined : store.definition? r.cell = none := by
    rw [Store.definition?, hcell]
    rfl
  have hdefine : store.define r b = .ok (store.write r.cell b) := by
    rw [Store.define, if_pos hreaches, hundefined]
  have hrelease := release_eq (s := { s with store := store.write r.cell b }) hkept
  rw [Session.define, hbuild, hlookup]
  simp only [hdefine, hrelease]

/-- A run answers as the recipe does on its own, if what was built runs the same. -/
theorem answers_run {limits : Limits} {mode : Mode} {inp : Input} {recipe recipe' : Recipe}
    {b b' : Built} {store store' : Store} (hscopes : s.scopes = [])
    (hbuild : recipe.build [] .empty = .ok (b, store))
    (hbuild' : s.build recipe' = .ok (b', store'))
    (hparser : b.parser rules limits store = b'.parser [] limits store') :
    s.answers limits [.run mode recipe' inp] = recipe.runAll limits rules mode [inp] := by
  rw [answers, step, run, hbuild', Recipe.runAll, hbuild]
  simp only [Recipe.runAll.go, hscopes, hparser]
  cases hstart : (b'.parser [] limits store').start mode inp [] with
  | none => rfl
  | some result =>
    obtain ⟨⟨reply, trace, printed⟩, scopes⟩ := result
    cases reply with
    | matched rest value => rfl
    | failed e => rfl
    | aborted m => rfl

-- ============================================================================
-- Declaring
-- ============================================================================

/-- So far there are cells for some rules, one for each, without definitions. -/
structure Declared (ref : String → String) (knots : Knots) (s : Session) : Prop where
  names : s.names = knots.map fun knot => (ref knot.1, .cell knot.2)
  blank : ∀ knot ∈ knots, s.store.cell? knot.2.cell = some ⟨none, true⟩
  apart : ∀ knot ∈ knots, ∀ knot' ∈ knots, knot.2.cell = knot'.2.cell → knot = knot'
  kept : s.store.Kept s.roots
  scopes : s.scopes = []

theorem declared_empty : Declared ref [] empty :=
  ⟨rfl, List.forall_mem_nil _, List.forall_mem_nil _, Store.kept_empty, rfl⟩

theorem Declared.keys (h : Declared ref knots s) :
    s.names.map Prod.fst = (knots.map Prod.fst).map ref := by
  rw [h.names, List.map_map, List.map_map]
  rfl

theorem Declared.declare (h : Declared ref knots s) {name : String}
    (hname : ref name ∉ (knots.map Prod.fst).map ref) :
    Declared ref ((name, .owner s.store.next) :: knots) (s.declare (ref name)) := by
  have hx : ref name ∉ s.names.map Prod.fst := by
    rw [h.keys]
    exact hname
  rw [declare_eq hx h.kept]
  refine ⟨?_, fun knot hknot => ?_, fun knot hknot knot' hknot' hcell => ?_, h.kept.declare,
    h.scopes⟩
  · rw [List.map_cons, ← h.names]
  · rcases List.mem_cons.1 hknot with rfl | hknot
    · exact Store.cell?_declare_self s.store
    · exact Store.Keeps.declare s.store _ _ (h.blank knot hknot)
  · have hlt : ∀ knot ∈ knots, knot.2.cell ≠ s.store.next := fun knot hknot =>
      Nat.ne_of_lt (Store.lt_next_of_cell? (h.blank knot hknot))
    rcases List.mem_cons.1 hknot with rfl | hknot
    · rcases List.mem_cons.1 hknot' with rfl | hknot'
      · rfl
      · exact absurd hcell.symm (hlt knot' hknot')
    · rcases List.mem_cons.1 hknot' with rfl | hknot'
      · exact absurd hcell (hlt knot hknot)
      · exact h.apart knot hknot knot' hknot' hcell

/-- The cells for more rules are declared one after the other. -/
theorem Declared.answers {todo : Rules} (h : Declared ref knots s)
    (hdistinct : (((todo.map Prod.fst).reverse ++ knots.map Prod.fst).map ref).Nodup) :
    ∃ more s', Declared ref more s' ∧
      more.map Prod.fst = (todo.map Prod.fst).reverse ++ knots.map Prod.fst ∧
      ∀ limits steps, s.answers limits (todo.declares ref ++ steps) =
        (s'.answers limits steps).map (List.replicate todo.length .done ++ ·) := by
  induction todo generalizing knots s with
  | nil =>
    refine ⟨knots, s, h, rfl, fun limits steps => ?_⟩
    exact Option.map_id'.symm
  | cons rule todo ih =>
    -- The name of the rule moves over to those that are declared.
    have hmove : ((rule :: todo).map Prod.fst).reverse ++ knots.map Prod.fst =
        (todo.map Prod.fst).reverse ++
          ((rule.1, Reference.owner s.store.next) :: knots).map Prod.fst := by
      rw [List.map_cons, List.reverse_cons, List.append_assoc]
      rfl
    rw [hmove] at hdistinct ⊢
    have hname : ref rule.1 ∉ (knots.map Prod.fst).map ref := by
      rw [List.map_append, List.nodup_append] at hdistinct
      exact (List.nodup_cons.1 hdistinct.2.1).1
    obtain ⟨more, s', hs', hmore, hanswers⟩ := ih (h.declare hname) hdistinct
    refine ⟨more, s', hs', hmore, fun limits steps => ?_⟩
    have hstep : s.step limits (.declare (ref rule.1)) = some (.done, s.declare (ref rule.1)) := rfl
    show s.answers limits (.declare (ref rule.1) :: (Rules.declares todo ref ++ steps)) = _
    rw [answers_cons_of_done hstep, hanswers, Option.map_map]
    rfl

-- ============================================================================
-- Defining
-- ============================================================================

/-- All rules have cells; those to be done have no definitions yet, and the others are tied. -/
structure Defining (rules : Rules) (ref : String → String) (knots : Knots) (todo : Rules)
    (s : Session) : Prop where
  lookup : ∀ knot ∈ knots, s.names.lookup (ref knot.1) = some (.cell knot.2)
  covers : ∀ name ∈ rules.map Prod.fst, ∃ r, (name, r) ∈ knots
  apart : ∀ knot ∈ knots, ∀ knot' ∈ knots, knot.2.cell = knot'.2.cell → knot = knot'
  blank : ∀ knot ∈ knots, knot.1 ∈ todo.map Prod.fst →
    s.store.cell? knot.2.cell = some ⟨none, true⟩
  tied : ∀ knot ∈ knots, knot.1 ∈ todo.map Prod.fst ∨ TiedAt knots rules s.store knot.1 knot.2
  kept : s.store.Kept s.roots
  scopes : s.scopes = []

theorem Declared.defining (h : Declared ref knots s) (hrules : rules.System ref)
    (hknots : knots.map Prod.fst = (rules.map Prod.fst).reverse) :
    Defining rules ref knots rules s := by
  have hkeys : (s.names.map Prod.fst).Nodup := by
    rw [h.keys, hknots, List.map_reverse, List.Perm.nodup_iff (List.reverse_perm _)]
    exact hrules.distinct
  have hmem : ∀ name, name ∈ knots.map Prod.fst ↔ name ∈ rules.map Prod.fst := by
    intro name
    rw [hknots, List.mem_reverse]
  refine ⟨fun knot hknot => ?_, fun name hname => ?_, h.apart,
    fun knot hknot _ => h.blank knot hknot, fun knot hknot => ?_, h.kept, h.scopes⟩
  · refine lookup_eq_some_of_mem hkeys ?_
    rw [h.names]
    exact List.mem_map_of_mem (f := fun knot => (ref knot.1, Binding.cell knot.2)) hknot
  · obtain ⟨knot, hknot, rfl⟩ := List.mem_map.1 ((hmem name).2 hname)
    exact ⟨knot.2, hknot⟩
  · exact .inl ((hmem knot.1).1 (List.mem_map_of_mem hknot))

namespace Defining

variable {todo : Rules}

/-- The names of the session stand for the cells of the rules. -/
theorem namesAlike (h : Defining rules ref knots todo s) (pairs : Pairs) :
    NamesAlike knots pairs (rules.map Prod.fst) ref [] [] s.builtNames := by
  refine ⟨List.forall_mem_nil _, fun name hname => ?_⟩
  obtain ⟨r, hknot⟩ := h.covers name hname
  exact ⟨r, r.owned, hknot, lookup_builtNames (h.lookup (name, r) hknot)⟩

/-- A rule has one cell. -/
theorem unique (h : Defining rules ref knots todo s) {name : String} {r r' : Reference}
    (hr : (name, r) ∈ knots) (hr' : (name, r') ∈ knots) : r = r' := by
  have hlookup := h.lookup (name, r) hr
  rw [h.lookup (name, r') hr'] at hlookup
  exact (Binding.cell.inj (Option.some.inj hlookup)).symm

/-- Defining the cell of one more rule ties the two together. -/
theorem define {rule : String × Recipe} (h : Defining rules ref knots (rule :: todo) s)
    (hrules : rules.System ref) (hrule : rule ∈ rules)
    (hnew : rule.1 ∉ todo.map Prod.fst) :
    ∃ s', s.define (ref rule.1) (rule.2.throughNames ref) = .ok s' ∧
      Defining rules ref knots todo s' := by
  obtain ⟨name, body⟩ := rule
  have hnames := h.namesAlike []
  have hclosed : body.Closed (rules.map Prod.fst) ref [] := hrules.closed (name, body) hrule
  have hbody : rules.lookup name = some body := hrules.lookup hrule
  obtain ⟨r, hknot⟩ := h.covers name (List.mem_map_of_mem (f := Prod.fst) hrule)
  have hblank : s.store.cell? r.cell = some ⟨none, true⟩ :=
    h.blank (name, r) hknot List.mem_cons_self
  have hboth : BuildsAlike knots (BuiltAlike knots) [] (body.build [])
      ((body.throughNames ref).build s.builtNames) := body.build_alike hclosed hnames
  obtain ⟨-, -, -, b, store, -, -, hbuild, -, -, hkeeps, -⟩ := hboth .empty s.store
  have hcell : store.cell? r.cell = some ⟨none, true⟩ := hkeeps _ _ hblank
  have hkept : (store.write r.cell b).Kept s.roots :=
    h.kept.define (Recipe.build_grown _ hbuild) hblank
  have hdefined : ∀ c b', s.store.Defined c b' → (store.write r.cell b).Defined c b' :=
    fun c b' hc => (hkeeps.defined hc).write hcell
  refine ⟨_, define_eq hbuild (h.lookup (name, r) hknot) hcell hkept, h.lookup, h.covers, h.apart,
    fun knot hknot' htodo => ?_, fun knot hknot' => ?_, hkept, h.scopes⟩
  · -- The cell of another rule is another cell.
    have hne : knot.2.cell ≠ r.cell := by
      intro hcells
      have hname : knot.1 = name := congrArg Prod.fst (h.apart knot hknot' (name, r) hknot hcells)
      exact hnew (hname ▸ htodo)
    show (store.write r.cell b).cell? knot.2.cell = _
    rw [Store.cell?_write_of_ne hne]
    exact hkeeps _ _ (h.blank knot hknot' (List.mem_cons_of_mem _ htodo))
  · rcases h.tied knot hknot' with hmem | htied
    · rcases List.mem_cons.1 hmem with hself | hmem
      · obtain ⟨name', r'⟩ := knot
        obtain rfl : name' = name := hself
        obtain rfl : r = r' := h.unique hknot hknot'
        exact .inr (tiedAt_of_build hbody hclosed hnames hbuild hcell)
      · exact .inl hmem
    · exact .inr (htied.mono hdefined)

/-- The cells of the rules are defined one after the other, and in the end all rules are tied. -/
theorem answers (h : Defining rules ref knots todo s) (hrules : rules.System ref)
    (htodo : ∀ rule ∈ todo, rule ∈ rules) (hdistinct : (todo.map Prod.fst).Nodup) :
    ∃ s', Defining rules ref knots [] s' ∧ ∀ limits steps,
      s.answers limits (todo.defines ref ++ steps) =
        (s'.answers limits steps).map (List.replicate todo.length .done ++ ·) := by
  induction todo generalizing s with
  | nil =>
    refine ⟨s, h, fun limits steps => ?_⟩
    exact Option.map_id'.symm
  | cons rule todo ih =>
    rw [List.map_cons, List.nodup_cons] at hdistinct
    obtain ⟨mid, hmid, hdefining⟩ := h.define hrules (htodo rule List.mem_cons_self) hdistinct.1
    obtain ⟨s', hs', hanswers⟩ := ih hdefining
      (fun rule' hrule' => htodo rule' (List.mem_cons_of_mem _ hrule')) hdistinct.2
    refine ⟨s', hs', fun limits steps => ?_⟩
    have hstep : s.step limits (.define (ref rule.1) (rule.2.throughNames ref)) =
        some (.done, mid) := by
      rw [step, hmid]
      rfl
    show s.answers limits (.define (ref rule.1) (rule.2.throughNames ref) ::
      (Rules.defines todo ref ++ steps)) = _
    rw [answers_cons_of_done hstep, hanswers, Option.map_map]
    rfl

/-- With all rules tied, a closed recipe answers as it does with rules. -/
theorem answers_run_eq (h : Defining rules ref knots [] s) {start : Recipe}
    (hstart : start.Closed (rules.map Prod.fst) ref []) (limits : Limits) (mode : Mode)
    (inp : Input) : s.answers limits [.run mode (start.throughNames ref) inp] =
      start.runAll limits rules mode [inp] := by
  have htied : Tied knots rules s.store := fun knot hknot =>
    (h.tied knot hknot).resolve_left List.not_mem_nil
  have hboth : BuildsAlike knots (BuiltAlike knots) [] (start.build [])
      ((start.throughNames ref).build s.builtNames) := start.build_alike hstart (h.namesAlike [])
  obtain ⟨more, b, store, b', store', -, hb, hb', halike, -, hkeeps', hpairs⟩ :=
    hboth .empty s.store
  have hdefined : ∀ p ∈ more, DefinedAlike knots more store store' p := fun p hp =>
    (hpairs p hp).resolve_left List.not_mem_nil
  have htied' : Tied knots rules store' := htied.mono fun _ _ => hkeeps'.defined
  exact answers_run h.scopes hb hb' (htied'.parser_eq hdefined halike limits)

end Defining

/-- A system of rules answers as a session does that declares and defines a cell for each rule. -/
theorem answers_of_system (hrules : rules.System ref) {start : Recipe}
    (hstart : start.Closed (rules.map Prod.fst) ref []) (limits : Limits) (mode : Mode)
    (inp : Input) :
    empty.answers limits
        (rules.declares ref ++ (rules.defines ref ++ [.run mode (start.throughNames ref) inp])) =
      (start.runAll limits rules mode [inp]).map
        (List.replicate (2 * rules.length) .done ++ ·) := by
  have hdistinct : (((rules.map Prod.fst).reverse ++ []).map ref).Nodup := by
    rw [List.append_nil, List.map_reverse, List.Perm.nodup_iff (List.reverse_perm _)]
    exact hrules.distinct
  obtain ⟨knots, declared, hdeclared, hknots, hdeclares⟩ := declared_empty.answers hdistinct
  rw [List.map_nil, List.append_nil] at hknots
  obtain ⟨defined, hdefined, hdefines⟩ := (hdeclared.defining hrules hknots).answers hrules
    (fun rule hrule => hrule) hrules.nodup
  have hreplicate (answers : List Answer) : List.replicate rules.length .done ++
      (List.replicate rules.length .done ++ answers) =
        List.replicate (2 * rules.length) .done ++ answers := by
    rw [← List.append_assoc, List.replicate_append_replicate, Nat.two_mul]
  rw [hdeclares, hdefines, hdefined.answers_run_eq hstart, Option.map_map]
  exact congrArg (fun f => Option.map f _) (funext hreplicate)

-- ============================================================================
-- Recursive parsers
-- ============================================================================

/-- What a session is that has bound a recursive parser first, the recipe of which was built with a
    handle to it: the parser is bound to its owner, which keeps all cells. -/
theorem recursive_eq {x handle : String} {recipe : Recipe} {b : Built} {store : Store}
    (hbuild : recipe.build [(handle, (Reference.handle 0).built)] Store.empty.declare =
      .ok (b, store)) :
    ∃ s', empty.recursive x handle recipe = .ok s' ∧ s'.store = store.write 0 b ∧
      s'.scopes = [] ∧ s'.builtNames.lookup x = some (Reference.owner 0).built := by
  have hkept : (store.write 0 b).Kept [0] :=
    Store.kept_empty.declare.define (Recipe.build_grown _ hbuild) (Store.cell?_declare_self .empty)
  have hbind : ∃ names, Session.bind x (.cell (.owner 0))
      ⟨[(handle, .cell (.handle 0))], store.write 0 b, []⟩ =
        ⟨(x, .cell (.owner 0)) :: names, store.write 0 b, []⟩ ∧
      names.flatMap (fun entry => entry.2.built.owned) = [] := by
    by_cases hx : handle = x
    · exact ⟨[], by simp [Session.bind, unbind, hx], rfl⟩
    · exact ⟨[(handle, .cell (.handle 0))], by simp [Session.bind, unbind, hx], rfl⟩
  obtain ⟨names, hbind, hhandle⟩ := hbind
  have hroots : roots ⟨(x, .cell (.owner 0)) :: names, store.write 0 b, []⟩ = [0] := by
    rw [roots, List.flatMap_cons, hhandle]
    rfl
  refine ⟨⟨(x, .cell (.owner 0)) :: names, store.write 0 b, []⟩, ?_, rfl, rfl,
    List.lookup_cons_self⟩
  have hopened : Session.build ⟨[(handle, .cell (.handle 0))], Store.empty.declare, []⟩ recipe =
      .ok (b, store) := hbuild
  have hopen : Session.bind handle (.cell (.handle empty.store.next))
      { empty with store := empty.store.declare } =
        ⟨[(handle, .cell (.handle 0))], Store.empty.declare, []⟩ := rfl
  rw [Session.recursive]
  simp only [hopen, hopened]
  exact congrArg Except.ok ((congrArg release hbind).trans (release_eq (hroots.symm ▸ hkept)))

/-- A recursive parser answers as a rule does that refers to itself. -/
theorem answers_of_recursive {name x handle : String} {body : Recipe}
    (hclosed : body.Closed [name] (fun _ => handle) []) (limits : Limits) (mode : Mode)
    (inp : Input) :
    empty.answers limits [.recursive x handle (body.throughNames fun _ => handle),
        .run mode (.named x) inp] =
      (Recipe.runAll limits [(name, body)] mode (.rule name) [inp]).map (.done :: ·) := by
  -- The handle stands for the rule inside, and the owner where the parser is run.
  let knots : Knots := [(name, .handle 0), (name, .owner 0)]
  have hnames : NamesAlike knots [] [name] (fun _ => handle) [] []
      [(handle, (Reference.handle 0).built)] := by
    refine ⟨List.forall_mem_nil _, fun n hn => ?_⟩
    obtain rfl := List.mem_singleton.1 hn
    exact ⟨.handle 0, [], List.mem_cons_self, List.lookup_cons_self⟩
  have hboth : BuildsAlike knots (BuiltAlike knots) [] (body.build [])
      ((body.throughNames fun _ => handle).build [(handle, (Reference.handle 0).built)]) :=
    body.build_alike hclosed hnames
  obtain ⟨-, -, -, b, store, -, -, hbuild, -, -, hkeeps, -⟩ := hboth .empty Store.empty.declare
  have hcell : store.cell? 0 = some ⟨none, true⟩ := hkeeps _ _ (Store.cell?_declare_self .empty)
  have hlookup : List.lookup name [(name, body)] = some body := List.lookup_cons_self
  have htied : Tied knots [(name, body)] (store.write 0 b) := by
    refine List.forall_mem_cons.2 ⟨?_, List.forall_mem_singleton.2 ?_⟩
    · exact tiedAt_of_build (r := .handle 0) hlookup hclosed hnames hbuild hcell
    · exact tiedAt_of_build (r := .owner 0) hlookup hclosed hnames hbuild hcell
  obtain ⟨s', hs', hstore, hscopes, hx⟩ := recursive_eq (x := x) hbuild
  have hstep : empty.step limits (.recursive x handle (body.throughNames fun _ => handle)) =
      some (.done, s') := by
    rw [step, hs']
    rfl
  have hrule : BuiltAlike knots [] ⟨.symbol (.rule name), []⟩ (Reference.owner 0).built :=
    .symbol (.rule (List.mem_cons_of_mem _ List.mem_cons_self))
  have hnamed : s'.build (.named x) = .ok ((Reference.owner 0).built, s'.store) := by
    rw [Session.build, Recipe.build]
    simp only [hx]
  have hstart : (Recipe.rule name).build [] .empty = .ok (⟨.symbol (.rule name), []⟩, .empty) := rfl
  have hpairs : ∀ p ∈ ([] : Pairs), DefinedAlike knots [] Store.empty (store.write 0 b) p :=
    List.forall_mem_nil _
  have hparser := htied.parser_eq hpairs hrule limits
  rw [answers_cons_of_done hstep, answers_run hscopes hstart hnamed (hstore ▸ hparser)]

end Session

/-- The two ways of tying a knot agree, to every input, in every mode and within every limit.  A
    system of described rules answers as a session that declares and defines a cell for each rule;
    one rule answers as a recursive parser with a handle in its place; and rules that are grammars
    with any functions and continuations run as cells do that are defined by them. -/
theorem knots_agree :
    (∀ (rules : Rules) (ref : String → String) (start : Recipe) (limits : Limits) (mode : Mode)
      (inp : Input), rules.System ref → start.Closed (rules.map Prod.fst) ref [] →
      Session.empty.answers limits
          (rules.declares ref ++ (rules.defines ref ++ [.run mode (start.throughNames ref) inp])) =
        (start.runAll limits rules mode [inp]).map
          (List.replicate (2 * rules.length) .done ++ ·)) ∧
    (∀ (name x handle : String) (body : Recipe) (limits : Limits) (mode : Mode) (inp : Input),
      body.Closed [name] (fun _ => handle) [] →
      Session.empty.answers limits [.recursive x handle (body.throughNames fun _ => handle),
          .run mode (.named x) inp] =
        (Recipe.runAll limits [(name, body)] mode (.rule name) [inp]).map (.done :: ·)) ∧
    (∀ (names : List String) (ref : String → Reference) (body : String → Grammar Symbol Value)
      (store store' : Store) (limits : Limits) (α : Type) (start : Grammar Symbol α),
      (∀ name ∈ names, (body name).Among names) → Symbol.Ties names ref body store' →
      start.Among names →
      (Rulebook.lazily body).parser limits store start =
        (Rules.rulebook []).parser limits store' (start.rename (Symbol.tied ref))) := by
  refine ⟨?_, ?_, ?_⟩
  · intro rules ref start limits mode inp hrules hstart
    exact Session.answers_of_system hrules hstart limits mode inp
  · intro name x handle body limits mode inp hclosed
    exact Session.answers_of_recursive hclosed limits mode inp
  · intro names ref body store store' limits α start hbody hties hstart
    exact lazily_parser_eq hbody hties limits store hstart

/-- Lists of lists and of words, each rule using the other, and a word being a recursive parser. -/
def lists : Rules :=
  [("list",
      .between (.modified .zeroOrMore (.rule "item")) (.piece (.char '[')) (.piece (.char ']'))),
    ("item", .joined .or (.rule "list") (.recursive "w"
      (.joined .or (.joined .both (.piece .digit) (.named "w")) (.piece (.char '.')))))]

/-- The lists, a parser of brackets that uses itself, and a grammar that goes on with the character
    it has read. -/
theorem knots_agree_on_lists :
    Session.empty.answers ⟨9, 9⟩ (lists.declares (· ++ "_cell") ++ (lists.defines (· ++ "_cell") ++
        [.run .traced (.named "list_cell") (.ofString "[[]12.]")])) =
      (Recipe.runAll ⟨9, 9⟩ lists .traced (.rule "list") [.ofString "[[]12.]"]).map
        (List.replicate 4 .done ++ ·) ∧
    Session.empty.answers ⟨9, 9⟩ [.recursive "x" "h" (.joined .or (.between (.named "h")
        (.piece (.char '[')) (.piece (.char ']'))) (.piece .empty)),
        .run .parse (.named "x") (.ofString "[[]")] =
      (Recipe.runAll ⟨9, 9⟩ [("p", .joined .or (.between (.rule "p") (.piece (.char '['))
        (.piece (.char ']'))) (.piece .empty))] .parse (.rule "p") [.ofString "[[]"]).map
          (.done :: ·) ∧
    (Rulebook.lazily fun _ => .andThen .any fun c =>
        (Grammar.symbol (.rule "p")).or ((Grammar.char c).map .ofChar)).parser ⟨9, 9⟩ .empty
          (.symbol (.rule "p")) =
      (Rules.rulebook []).parser ⟨9, 9⟩ (Store.empty.declare.write 0 ⟨.andThen .any fun c =>
        (Grammar.symbol (.cell (.owner 0))).or ((Grammar.char c).map .ofChar), []⟩)
          (.symbol (.cell (.owner 0))) := by
  obtain ⟨hsystem, hrecursive, hgrammar⟩ := knots_agree
  have hlists : lists.System (· ++ "_cell") := by
    refine ⟨by decide, List.forall_mem_cons.2 ⟨?_, List.forall_mem_singleton.2 ?_⟩⟩
    · simp [Recipe.Closed, lists]
    · simp [Recipe.Closed, lists]
  refine ⟨?_, ?_, ?_⟩
  · exact hsystem lists (· ++ "_cell") (.rule "list") ⟨9, 9⟩ .traced _ hlists List.mem_cons_self
  · exact hrecursive "p" "x" "h" (.joined .or (.between (.rule "p") (.piece (.char '['))
      (.piece (.char ']'))) (.piece .empty)) ⟨9, 9⟩ .parse _
      ⟨⟨List.mem_cons_self, trivial, trivial⟩, trivial⟩
  · refine hgrammar ["p"] (fun _ => .owner 0) _ .empty _ ⟨9, 9⟩ Value (.symbol (.rule "p"))
      (fun name _ => ?_) (fun name _ => ⟨[], rfl⟩) List.mem_cons_self
    exact ⟨trivial, fun c => ⟨List.mem_cons_self, trivial⟩⟩

end Descent
