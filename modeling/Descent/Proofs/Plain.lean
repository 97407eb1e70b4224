/-
  Descent.Proofs.Plain

  Described grammars without marks, wrappers and second spellings.  A description and what is left
  of it are built side by side: the cells of the two are numbered alike, and each is defined by a
  grammar and by this grammar undressed.  Values are related if they are the same up to the traces
  inside, since a description can make a trace part of a value but cannot look into it.
-/
import Descent.Proofs.Over
import Descent.Proofs.Pairs
import Descent.Proofs.Transparent
import Descent.Proofs.Untraced

namespace Descent

-- ============================================================================
-- Descriptions
-- ============================================================================

/-- A modified description in the first spelling, without mark and wrapper. -/
def Modifier.plain : Modifier → Recipe → Recipe
  | .wrapped _, body => body
  | .marked _, body => body
  | .mapped f, body => .modified (.map f) body
  | .accepted c, body => .modified (.filter c) body
  | .zeroOrMore, body => .modified (.repeated Bounds.free) body
  | .oneOrMore, body => .modified (.repeated (Bounds.free.atLeast 1)) body
  | m, body => .modified m body

/-- The first spelling of a joint. -/
def Joint.plain : Joint → Joint
  | .pair => .both
  | .right => .skipThen
  | .left => .thenSkip
  | .either => .or
  | j => j

mutual

/-- The description without marks and wrappers and in the first spelling throughout. -/
def Recipe.plain : Recipe → Recipe
  | .piece p => .piece p
  | .modified m body => m.plain body.plain
  | .joined j first second => .joined j.plain first.plain second.plain
  | .between body start finish => .between body.plain start.plain finish.plain
  | .andThen body next => .andThen body.plain next.plain
  | .chained body next => .andThen body.plain next.plain
  | .rule name => .rule name
  | .recursive name body => .recursive name body.plain
  | .named name => .named name

def Continuation.plain : Continuation → Continuation
  | .same => .same
  | .close => .close
  | .keep => .keep
  | .count body => .count body.plain
  | .always body => .always body.plain
  | .cases table otherwise => .cases (Recipe.plainTable table) otherwise.plain

def Recipe.plainTable : List (String × Recipe) → List (String × Recipe)
  | [] => []
  | (key, body) :: table => (key, body.plain) :: Recipe.plainTable table

end

/-- All rules without marks and wrappers. -/
def Rules.plain (rules : Rules) : Rules := rules.map fun rule => (rule.1, rule.2.plain)

-- ============================================================================
-- Grammars of descriptions
-- ============================================================================

/-- Elements have no traces in them; what rules and cells give is the same up to those. -/
def Symbol.likeness : Likeness Symbol
  | _, .element => Eq
  | _, .rule _ => Value.Like
  | _, .cell _ => Value.Like

/-- The second grammar is the first one without some of its marks and wrappers. -/
abbrev Stripped (g h : Grammar Symbol Value) : Prop :=
  Grammar.Undressed Symbol.likeness Value.Like g h

/-- A grammar of the markup language collects no trace. -/
theorem Grammar.Untraced.stripped {α : Type} {g : Grammar Symbol α}
    (hg : g.Untraced Symbol.IsElement) : Grammar.Undressed Symbol.likeness Eq g g := by
  refine hg.undressed fun n hn a b hab => ?_
  cases n with
  | element => exact hab
  | rule name => exact hn.elim
  | cell r => exact hn.elim

section Ready

variable {N : Type → Type} {S : {α : Type} → N α → Prop}

theorem Lexical.textBetween_untraced (start finish : Char) :
    (Lexical.textBetween start finish : Grammar N String).Untraced S :=
  ⟨⟨trivial, fun _ => trivial⟩, fun _ => trivial⟩

namespace Markup

theorem attributePair_untraced : (attributePair : Grammar N _).Untraced S :=
  ⟨⟨trivial, fun _ => trivial⟩, fun _ => Lexical.textBetween_untraced _ _⟩

theorem attributes_untraced : (attributes : Grammar N _).Untraced S :=
  ⟨trivial, fun _ => attributePair_untraced⟩

theorem elementStart_untraced : (elementStart : Grammar N _).Untraced S :=
  ⟨trivial, fun _ => ⟨trivial, fun _ => attributes_untraced⟩⟩

theorem singleElement_untraced : (singleElement : Grammar N _).Untraced S :=
  ⟨elementStart_untraced, fun _ => trivial⟩

theorem openElement_untraced : (openElement : Grammar N _).Untraced S :=
  ⟨elementStart_untraced, fun _ => trivial⟩

theorem closeElement_untraced (name : String) : (closeElement name : Grammar N _).Untraced S :=
  ⟨⟨trivial, fun _ => trivial⟩, fun _ => trivial⟩

variable {self : N Element}

theorem parentElement_untraced (hself : S self) : (parentElement self).Untraced S :=
  ⟨openElement_untraced, fun _ => ⟨hself, fun _ => closeElement_untraced _⟩⟩

theorem element_untraced (hself : S self) : (element self).Untraced S :=
  ⟨singleElement_untraced, parentElement_untraced hself⟩

theorem document_untraced (hself : S self) : (document self).Untraced S :=
  ⟨trivial, fun _ => ⟨⟨element_untraced hself, fun _ => trivial⟩, fun _ => trivial⟩⟩

end Markup

end Ready

theorem Piece.grammar_untraced (p : Piece) : p.grammar.Untraced Symbol.IsElement := by
  cases p with
  | quotedText => exact Lexical.textBetween_untraced _ _
  | textBetween start finish => exact Lexical.textBetween_untraced start finish
  | attributePair => exact Markup.attributePair_untraced
  | attributes => exact Markup.attributes_untraced
  | elementStart => exact Markup.elementStart_untraced
  | openElement => exact Markup.openElement_untraced
  | singleElement => exact Markup.singleElement_untraced
  | parentElement => exact Markup.parentElement_untraced trivial
  | element => exact Markup.element_untraced trivial
  | closeElement name => exact Markup.closeElement_untraced name
  | document => exact Markup.document_untraced trivial
  | literal | char | any | atEnd | empty | bytes | digit | everything | preview | failing
  | leaving | blank | blanks | someBlanks | identifier => exact trivial

theorem Piece.grammar_stripped (p : Piece) : Stripped p.grammar p.grammar :=
  .weaken p.grammar_untraced.stripped fun _ _ h => congrArg Value.untraced h

theorem Modifier.apply_stripped (m : Modifier) {g h : Grammar Symbol Value}
    (hgh : Stripped g h) : Stripped (m.apply g) (m.apply h) := by
  cases m with
  | map f | mapped f => exact .map (fun _ _ hab => f.apply_like hab) hgh
  | constant v => exact .map (fun _ _ _ => rfl) hgh
  | ignored =>
    have hunit : Grammar.Undressed Symbol.likeness Eq g.ignored h.ignored :=
      .map (fun _ _ _ => rfl) hgh
    exact .map (fun _ _ _ => rfl) hunit
  | collect c => exact .map (fun _ _ hab => Value.collect_like c hab) hgh
  | filter c | accepted c => exact .filter (fun _ _ hab => c.holds_like hab) hgh
  | optional =>
    have hoption : Grammar.Undressed Symbol.likeness
        (fun a b => Value.Like (.ofOption a) (.ofOption b)) g.optional h.optional := by
      refine .or (.map (fun _ _ hab => congrArg Value.present hab) hgh) (.leaf ?_)
      intro inp rest value hpure
      rfl
    exact .map (fun _ _ hab => hab) hoption
  | repeated b => exact .map (fun _ _ hab => .list hab) (.repeated b hgh)
  | wrapped w => exact .wrapped w hgh
  | marked label => exact .marked label hgh
  | traced =>
    refine .map (fun a b hab => ?_) (.traced hgh)
    exact congrArg (fun v => Value.list [v, .trace []]) hab
  | zeroOrMore => exact .map (fun _ _ hab => .list hab) (.repeated Bounds.free hgh)
  | oneOrMore => exact .map (fun _ _ hab => .list hab) (.repeated (Bounds.free.atLeast 1) hgh)

/-- Both values of a sequence. -/
theorem Grammar.Undressed.both {g h g' h' : Grammar Symbol Value} (hgh : Stripped g h)
    (hgh' : Stripped g' h') : Stripped ((g.both g').map .ofPair) ((h.both h').map .ofPair) := by
  have hpair : Undressed Symbol.likeness (fun p q => Value.Like p.1 q.1 ∧ Value.Like p.2 q.2)
      (g.both g') (h.both h') :=
    .andThen hgh fun _ _ hab => .map (fun _ _ hab' => ⟨hab, hab'⟩) hgh'
  refine .map (fun p q hpq => ?_) hpair
  show Value.pair _ _ = Value.pair _ _
  rw [hpq.1, hpq.2]

/-- The first value of a sequence. -/
theorem Grammar.Undressed.thenSkip {g h g' h' : Grammar Symbol Value} (hgh : Stripped g h)
    (hgh' : Stripped g' h') : Stripped (g.thenSkip g') (h.thenSkip h') :=
  .andThen hgh fun _ _ hab => .map (fun _ _ _ => hab) hgh'

/-- The second value of a sequence. -/
theorem Grammar.Undressed.skipThen {g h g' h' : Grammar Symbol Value} (hgh : Stripped g h)
    (hgh' : Stripped g' h') : Stripped (g.skipThen g') (h.skipThen h') :=
  .andThen hgh fun _ _ _ => hgh'

theorem Joint.apply_stripped (j : Joint) {g h g' h' : Grammar Symbol Value} (hgh : Stripped g h)
    (hgh' : Stripped g' h') : Stripped (j.apply g g') (j.plain.apply h h') := by
  cases j with
  | both | pair => exact hgh.both hgh'
  | skipThen | right => exact hgh.skipThen hgh'
  | thenSkip | left => exact hgh.thenSkip hgh'
  | or | either => exact .or hgh hgh'

-- ============================================================================
-- Building side by side
-- ============================================================================

/-- What a table has under a key on both sides: nothing, or grammars of which the second is the
    first undressed. -/
def Names.Beside (names names' : Names) : Prop :=
  ∀ x, (names.lookup x = none ∧ names'.lookup x = none) ∨
    ∃ b b', names.lookup x = some b ∧ names'.lookup x = some b' ∧ Stripped b.grammar b'.grammar

theorem Names.beside_nil : Names.Beside [] [] := Names.paired_nil

theorem Names.Beside.cons {names names' : Names} (h : names.Beside names') (x : String)
    {b b' : Built} (hb : Stripped b.grammar b'.grammar) :
    Names.Beside ((x, b) :: names) ((x, b') :: names') :=
  Names.Paired.cons h x hb

/-- Cells are numbered alike, live alike, and are defined by grammars of which the second is the
    first undressed. -/
structure Store.Beside (store store' : Store) : Prop where
  next : store.next = store'.next
  reaches : ∀ r, store.reaches r = store'.reaches r
  definition : ∀ c, (store.definition? c = none ∧ store'.definition? c = none) ∨
    ∃ b b', store.definition? c = some b ∧ store'.definition? c = some b' ∧
      Stripped b.grammar b'.grammar

/-- In stores beside each other both builds are the same misuse, or they come out with results
    related by `Q` and with stores beside each other. -/
def Build.Beside {β : Type 1} (Q : β → β → Prop) (build build' : Build β) : Prop :=
  ∀ store store', store.Beside store' →
    (∃ m, build store = .error m ∧ build' store' = .error m) ∨
      ∃ b after b' after', build store = .ok (b, after) ∧ build' store' = .ok (b', after') ∧
        Q b b' ∧ after.Beside after'

/-- What a description gives on both sides. -/
abbrev BuiltBeside (b b' : Built) : Prop := Stripped b.grammar b'.grammar

/-- Stores beside each other are paired by what their cells are defined as. -/
theorem Store.beside_eq : Store.Beside = Store.Paired BuiltBeside := by
  funext store store'
  exact propext ⟨fun h => ⟨h.next, h.reaches, h.definition⟩,
    fun h => ⟨h.next, h.reaches, h.definition⟩⟩

theorem Store.Beside.empty : Store.Beside .empty .empty := by
  rw [beside_eq]
  exact .empty

namespace Build.Beside

variable {β γ : Type 1} {Q : β → β → Prop} {T : γ → γ → Prop} {build build' : Build β}
  {names names' : Names} {body body' : Recipe}

theorem done {b b' : β} (h : Q b b') : Build.Beside Q (.done b) (.done b') :=
  Build.Paired.done h

theorem next {f f' : β → Build γ} (h : Build.Beside Q build build')
    (hf : ∀ b b', Q b b' → Build.Beside T (f b) (f' b')) :
    Build.Beside T (build.next f) (build'.next f') :=
  Build.Paired.next h hf

/-- Something more is done with the result on the first side alone. -/
theorem more {T : β → β → Prop} {f : β → β} (h : Build.Beside Q build build')
    (hf : ∀ b b', Q b b' → T (f b) b') :
    Build.Beside T (build.next fun b => .done (f b)) build' :=
  Build.Paired.more h hf

/-- A mark or a wrapper is built on the first side alone, and anything else on both. -/
theorem modified (m : Modifier) (h : Build.Beside BuiltBeside (body.build names)
      (body'.build names')) :
    Build.Beside BuiltBeside ((Recipe.modified m body).build names)
      ((m.plain body').build names') := by
  have hboth : Build.Beside BuiltBeside ((Recipe.modified m body).build names)
      ((Recipe.modified m body').build names') :=
    .next h fun b b' hb => .done (m.apply_stripped hb)
  cases m with
  | wrapped w => exact .more h fun b b' hb => .unwrapped w hb
  | marked label => exact .more h fun b b' hb => .unmarked label hb
  | map | constant | ignored | collect | filter | optional | repeated | traced | mapped
  | accepted | zeroOrMore | oneOrMore => exact hboth

/-- The cells of a recursive parser have the same number on both sides. -/
theorem recursive {x : String}
    (h : ∀ c, Build.Beside BuiltBeside
      (body.build ((x, (Reference.handle c).built) :: names))
      (body'.build ((x, (Reference.handle c).built) :: names'))) :
    Build.Beside BuiltBeside ((Recipe.recursive x body).build names)
      ((Recipe.recursive x body').build names') := by
  unfold Build.Beside at h ⊢
  rw [Store.beside_eq] at h ⊢
  exact Build.Paired.recursive (fun r => .symbol (Symbol.cell r)) h

/-- A name is unbound on both sides or stands for a grammar and the same undressed. -/
theorem named (hnames : names.Beside names') (x : String) :
    Build.Beside BuiltBeside ((Recipe.named x).build names) ((Recipe.named x).build names') :=
  Build.Paired.named hnames x

end Build.Beside

theorem chooseCase_stripped {cases cases' : Names} (h : cases.Beside cases') {b b' : Built}
    (hb : BuiltBeside b b') {v v' : Value} (hv : Value.Like v v') :
    Stripped (chooseCase cases b v) (chooseCase cases' b' v') := by
  rw [chooseCase, chooseCase, ← hv.chars_eq]
  exact Names.Paired.getD (P := BuiltBeside) h hb (String.ofList v.chars)

/-- Continuations give a grammar and the same undressed to values that are the same up to traces. -/
abbrev ContinuationBeside (k k' : BuiltContinuation) : Prop :=
  ∀ v v', Value.Like v v' → Stripped (k.next v) (k'.next v')

-- Along the description; the parts are built one after the other on both sides.

mutual

theorem Recipe.build_plain : (recipe : Recipe) → ∀ {names names' : Names}, names.Beside names' →
    Build.Beside BuiltBeside (recipe.build names) (recipe.plain.build names')
  | .piece p, _, _, _ => .done p.grammar_stripped
  | .modified m body, _, _, hnames => .modified m (body.build_plain hnames)
  | .joined j first second, _, _, hnames => by
    refine .next (first.build_plain hnames) fun a a' ha => ?_
    refine .next (second.build_plain hnames) fun b b' hb => ?_
    exact .done (j.apply_stripped ha hb)
  | .between body start finish, _, _, hnames => by
    refine .next (body.build_plain hnames) fun b b' hb => ?_
    refine .next (start.build_plain hnames) fun s s' hs => ?_
    refine .next (finish.build_plain hnames) fun f f' hf => ?_
    exact .done (hs.skipThen (hb.thenSkip hf))
  | .andThen body next, _, _, hnames | .chained body next, _, _, hnames => by
    refine .next (body.build_plain hnames) fun b b' hb => ?_
    refine .next (next.build_plain hnames) fun k k' hk => ?_
    exact .done (.andThen hb hk)
  | .rule name, _, _, _ => .done (.symbol (Symbol.rule name))
  | .recursive x body, _, _, hnames =>
    .recursive fun c => body.build_plain (hnames.cons x (.symbol (Symbol.cell (.handle c))))
  | .named x, _, _, hnames => .named hnames x

theorem Continuation.build_plain : (next : Continuation) → ∀ {names names' : Names},
    names.Beside names' →
    Build.Beside ContinuationBeside (next.build names) (next.plain.build names')
  | .same, _, _, _ => by
    refine .done fun v v' hv => ?_
    have hchars : Grammar.Undressed Symbol.likeness Eq (.chars v'.chars : Grammar Symbol _)
        (.chars v'.chars) := .leaf fun _ _ _ _ => rfl
    simp only [hv.chars_eq]
    exact .map (fun _ _ hab => by rw [hab]; rfl) hchars
  | .close, _, _, _ => by
    refine .done fun v v' hv => ?_
    simp only [hv.chars_eq]
    exact (Piece.closeElement (String.ofList v'.chars)).grammar_stripped
  | .keep, _, _, _ => by
    refine .done fun v v' hv => ?_
    have hempty : Grammar.Undressed Symbol.likeness Eq (.empty : Grammar Symbol Unit) .empty :=
      .leaf fun _ _ _ _ => rfl
    exact .map (fun _ _ _ => hv) hempty
  | .count body, _, _, hnames => by
    refine .next (body.build_plain hnames) fun b b' hb => .done fun v v' hv => ?_
    simp only [hv.count_eq]
    exact .map (fun _ _ hab => .list hab) (.repeated _ hb)
  | .always body, _, _, hnames => by
    refine .next (body.build_plain hnames) fun b b' hb => ?_
    exact .done fun _ _ _ => hb
  | .cases table otherwise, _, _, hnames => by
    refine .next (Recipe.buildTable_plain table hnames) fun cases cases' hcases => ?_
    refine .next (otherwise.build_plain hnames) fun b b' hb => ?_
    exact .done fun _ _ hv => chooseCase_stripped hcases hb hv

theorem Recipe.buildTable_plain : (table : List (String × Recipe)) →
    ∀ {names names' : Names}, names.Beside names' →
    Build.Beside Names.Beside (Recipe.buildTable names table)
      (Recipe.buildTable names' (Recipe.plainTable table))
  | [], _, _, _ => .done Names.beside_nil
  | (key, body) :: table, _, _, hnames => by
    refine .next (body.build_plain hnames) fun b b' hb => ?_
    refine .next (Recipe.buildTable_plain table hnames) fun cases cases' hcases => ?_
    exact .done (hcases.cons key hb)

end

end Descent
