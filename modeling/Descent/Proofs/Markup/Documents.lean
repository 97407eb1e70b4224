/-
  Descent.Proofs.Markup.Documents

  The parser of documents accepts the elements that stand one behind the other with blanks around
  them, up to the end of the text, and where it fails it has read the longest beginning of the text
  that is itself a document.

  The parser is greedy: it skips all blanks there are and takes an element wherever one begins.  A
  document that the text begins with does no better.  Its blanks are some of those that are skipped,
  its elements begin where the parser looks for one, and the text of an element is the only one to
  begin there.  So nothing in front of the point at which the parser stops is ever taken back.
-/
import Descent.Proofs.Markup.Accepts

namespace Descent.Markup

variable {N : Type → Type} {attempts : Nat} {inp : Input}

/-- Elements one behind the other, with any number of blanks in front of each and behind the
    last one. -/
inductive DocumentText : List Char → List Element → Prop
  | blanks {b : List Char} (hb : ∀ c ∈ b, Text.isBlank c = true) : DocumentText b []
  | element {b w ws : List Char} {e : Element} {es : List Element}
      (hb : ∀ c ∈ b, Text.isBlank c = true) (hw : Denotes w e) (hws : DocumentText ws es) :
      DocumentText (b ++ w ++ ws) (e :: es)

-- ============================================================================
-- Skipping blanks
-- ============================================================================

/-- All blanks in front are skipped, and this is left. -/
def Skipped (cs rest : List Char) : Prop :=
  ∃ b, (∀ c ∈ b, Text.isBlank c = true) ∧ cs = b ++ rest ∧ StopsAt Text.isBlank rest

theorem skipped_exists (cs : List Char) : ∃ rest, Skipped cs rest := by
  induction cs with
  | nil => exact ⟨[], [], List.forall_mem_nil _, rfl, stopsAt_nil _⟩
  | cons c cs ih =>
    cases hc : Text.isBlank c with
    | true =>
      obtain ⟨rest, b, hb, rfl, hstop⟩ := ih
      exact ⟨rest, c :: b, List.forall_mem_cons.2 ⟨hc, hb⟩, rfl, hstop⟩
    | false => exact ⟨c :: cs, [], List.forall_mem_nil _, rfl, stopsAt_cons.2 hc⟩

theorem Skipped.length_le {cs rest : List Char} (h : Skipped cs rest) :
    rest.length ≤ cs.length := by
  obtain ⟨b, -, rfl, -⟩ := h
  rw [List.length_append]
  omega

/-- Where some blanks have been taken already, the same is left in the end. -/
theorem Skipped.of_append {b cs rest : List Char} (hb : ∀ c ∈ b, Text.isBlank c = true)
    (h : Skipped (b ++ cs) rest) : Skipped cs rest := by
  induction b with
  | nil => exact h
  | cons c b ih =>
    obtain ⟨hc, hb⟩ := List.forall_mem_cons.1 hb
    refine ih hb ?_
    obtain ⟨b', hb', heq, hstop⟩ := h
    cases b' with
    | nil =>
      -- The rest would begin with a blank.
      rw [List.nil_append] at heq
      rw [← heq, List.cons_append, stopsAt_cons, hc] at hstop
      exact Bool.noConfusion hstop
    | cons d b' =>
      obtain ⟨-, heq⟩ := List.cons.inj heq
      exact ⟨b', (List.forall_mem_cons.1 hb').2, heq, hstop⟩

/-- Nothing is skipped where no blank stands in front. -/
theorem Skipped.eq_of_stopsAt {cs rest : List Char} (hcs : StopsAt Text.isBlank cs)
    (h : Skipped cs rest) : rest = cs := by
  obtain ⟨b, hb, rfl, -⟩ := h
  cases b with
  | nil => rfl
  | cons c b =>
    rw [List.cons_append, stopsAt_cons, (List.forall_mem_cons.1 hb).1] at hcs
    exact Bool.noConfusion hcs

theorem Denotes.stopsAt {w : List Char} {e : Element} (h : Denotes w e) (cs : List Char) :
    StopsAt Text.isBlank (w ++ cs) := by
  obtain ⟨c, cs', rfl, -⟩ := h.head
  exact stopsAt_cons.2 (by decide)

-- ============================================================================
-- The greedy reading
-- ============================================================================

/-- An element, and all blanks behind it. -/
def Entry (cs : List Char) (e : Element) (rest : List Char) : Prop :=
  ∃ ds, Begins Denotes cs e ds ∧ Skipped ds rest

theorem consuming_entry : Consuming Entry := by
  rintro cs e rest ⟨ds, ⟨w, hw, rfl⟩, b, -, rfl, -⟩
  refine ⟨w ++ b, fun hnil => hw.ne_nil (List.append_eq_nil_iff.1 hnil).1, ?_⟩
  rw [List.append_assoc]

/-- An element that a text begins with is the only one. -/
theorem begins_denotes_unique {cs rest rest' : List Char} {e e' : Element}
    (h : Begins Denotes cs e rest) (h' : Begins Denotes cs e' rest') : e = e' ∧ rest = rest' :=
  (parser_element_decides (.ofChars cs)).unique h h'

/-- Entries that are gathered behind skipped blanks make a document. -/
theorem documentText_of_gathered {n : Nat} {cs mid rest : List Char} {es : List Element}
    (h : Gathered Entry Bounds.free n mid es rest) (hskip : Skipped cs mid) :
    ∃ w, DocumentText w es ∧ cs = w ++ rest := by
  induction h generalizing cs with
  | done _ =>
    obtain ⟨b, hb, rfl, -⟩ := hskip
    exact ⟨b, .blanks hb, rfl⟩
  | more _ hv _ ih =>
    obtain ⟨b, hb, rfl, -⟩ := hskip
    obtain ⟨ds, ⟨w, hw, rfl⟩, hds⟩ := hv
    obtain ⟨ws, hws, rfl⟩ := ih hds
    exact ⟨b ++ w ++ ws, .element hb hw hws, by simp only [List.append_assoc]⟩

/-- No document that the text begins with goes further than what is gathered, and one that goes to
    the end has the same elements. -/
theorem gathered_longest {n : Nat} {cs mid rest w after : List Char} {es es' : List Element}
    (h : Gathered Entry Bounds.free n mid es rest) (hskip : Skipped cs mid)
    (hw : DocumentText w es') (hcs : cs = w ++ after) :
    rest.length ≤ after.length ∧ (after = [] → es' = es) := by
  -- Along the document.  The blanks in front of an element are exactly those that are skipped.
  induction hw generalizing n cs mid es with
  | blanks hb =>
    have hafter : Skipped after mid := Skipped.of_append hb (hcs ▸ hskip)
    have hmid := hafter.length_le
    have hrest := h.length_le consuming_entry
    refine ⟨by omega, fun hnil => ?_⟩
    have hmidnil : mid = [] := List.eq_nil_of_length_eq_zero (by simp_all)
    cases h with
    | done _ => rfl
    | more _ hv _ =>
      obtain ⟨w, hne, happend⟩ := consuming_entry _ _ _ hv
      rw [hmidnil] at happend
      exact absurd (List.append_eq_nil_iff.1 happend.symm).1 hne
  | @element b w ws e es' hb hw hws ih =>
    have hbehind : Skipped (w ++ (ws ++ after)) mid := by
      refine Skipped.of_append hb ?_
      rw [← List.append_assoc, ← List.append_assoc, ← hcs]
      exact hskip
    obtain rfl : mid = w ++ (ws ++ after) := hbehind.eq_of_stopsAt (hw.stopsAt _)
    have hbegins : Begins Denotes (w ++ (ws ++ after)) e (ws ++ after) := ⟨w, hw, rfl⟩
    cases h with
    | done hstop =>
      obtain ⟨rest', hrest'⟩ := skipped_exists (ws ++ after)
      rcases hstop with hfull | hnone
      · exact Bool.noConfusion hfull
      · exact absurd ⟨_, hbegins, hrest'⟩ (hnone e rest')
    | more _ hv hvs =>
      obtain ⟨ds, hds, hskip'⟩ := hv
      obtain ⟨rfl, rfl⟩ := begins_denotes_unique hbegins hds
      obtain ⟨hle, hsame⟩ := ih hvs hskip' rfl
      exact ⟨hle, fun hnil => by rw [hsame hnil]⟩

-- ============================================================================
-- The parser
-- ============================================================================

section Parser

variable {call : {α : Type} → N α → Parser α} {self : N Element}

theorem skipping_decides {F : List Char → Prop} (ha : inp.size < attempts) :
    ((Lexical.blanks : Grammar N (List Char)).eval attempts call).Decides inp
      (fun vs cs => inp.chars = vs ++ cs ∧ (∀ c ∈ vs, Text.isBlank c = true) ∧
        StopsAt Text.isBlank cs) F := by
  obtain ⟨rest, b, hb, hchars, hstop⟩ := skipped_exists inp.chars
  exact (Lexical.blanks_decides ha).of_exists ⟨hchars, hb, hstop⟩

/-- An element, and all blanks behind it. -/
theorem entry_decides (ha : inp.size < attempts)
    (hcall : ∀ inp' : Input, inp'.size + 3 ≤ inp.size →
      (call self).Decides inp' (Begins Denotes inp'.chars) fun _ => True) :
    (((element self).thenSkip Lexical.blanks).eval attempts call).Decides inp (Entry inp.chars)
      fun _ => True := by
  refine (Grammar.thenSkip_decides
    (U := fun ds b cs => ds = b ++ cs ∧ (∀ c ∈ b, Text.isBlank c = true) ∧
      StopsAt Text.isBlank cs) (element_decides ha hcall) fun e mid he => ?_).congr ?_ fun _ h => h
  · obtain ⟨w, -, hinp⟩ := he
    have hsize : mid.size ≤ inp.size := Input.size_le_of_append hinp
    exact skipping_decides (by omega)
  intro e cs
  refine ⟨fun h => ?_, fun h => ?_⟩
  · obtain ⟨ds, he, b, hb, hds, hstop⟩ := h
    exact ⟨b, ds, he, hds, hb, hstop⟩
  · obtain ⟨b, ds, he, hds, hb, hstop⟩ := h
    exact ⟨ds, he, b, hb, hds, hstop⟩

/-- Entries are taken for as long as one begins, and that never fails. -/
theorem entries_decides {F : List Char → Prop} (ha : inp.size < attempts)
    (hcall : ∀ inp' : Input, inp'.size + 3 ≤ inp.size →
      (call self).Decides inp' (Begins Denotes inp'.chars) fun _ => True) :
    ((((element self).thenSkip Lexical.blanks).repeated Bounds.free).eval attempts call).Decides
      inp (Gathered Entry Bounds.free 0 inp.chars) F := by
  have h := Grammar.repeated_decides (b := Bounds.free) (F := fun _ => True)
    (G := fun _ _ => True) consuming_entry ha
    (fun inp' hinp' => entry_decides (by omega) fun inp'' hinp'' => hcall inp'' (by omega))
    trivial fun _ _ => trivial
  obtain ⟨es, rest, hes⟩ := Gathered.exists consuming_entry Bounds.free 0 inp.chars
  refine (h.of_exists ⟨hes, Nat.zero_le _⟩).congr (fun es cs => ?_) fun _ hf => hf
  exact ⟨fun hg => ⟨hg, Nat.zero_le _⟩, fun hg => hg.1⟩

/-- Something is left, and the text in front of it is the longest beginning that is a document. -/
def StopsBefore (cs rest : List Char) : Prop :=
  rest ≠ [] ∧ ∃ w, cs = w ++ rest ∧ (∃ es, DocumentText w es) ∧
    ∀ w' rest' es', cs = w' ++ rest' → DocumentText w' es' → w'.length ≤ w.length

theorem stopsBefore_of_gathered {cs mid rest : List Char} {es : List Element}
    (h : Gathered Entry Bounds.free 0 mid es rest) (hskip : Skipped cs mid) (hne : rest ≠ []) :
    StopsBefore cs rest := by
  obtain ⟨w, hw, hcs⟩ := documentText_of_gathered h hskip
  refine ⟨hne, w, hcs, ⟨es, hw⟩, fun w' rest' es' hcs' hw' => ?_⟩
  have hle := (gathered_longest h hskip hw' hcs').1
  have hlength := congrArg List.length (hcs.symm.trans hcs')
  rw [List.length_append, List.length_append] at hlength
  omega

/-- A document is all of the input, and otherwise the parser fails behind the longest one. -/
theorem document_decides (ha : inp.size < attempts)
    (hcall : ∀ inp' : Input, inp'.size + 3 ≤ inp.size →
      (call self).Decides inp' (Begins Denotes inp'.chars) fun _ => True) :
    ((document self).eval attempts call).Decides inp
      (fun es cs => cs = [] ∧ DocumentText inp.chars es) (StopsBefore inp.chars) := by
  have hentries (mid : Input) (hskip : Skipped inp.chars mid.chars)
      (hmid : mid.size ≤ inp.size) :
      ((Grammar.andThen (((element self).thenSkip Lexical.blanks).repeated Bounds.free) fun es =>
        Grammar.atEnd.map fun _ => es).eval attempts call).Decides mid
        (fun es cs => Gathered Entry Bounds.free 0 mid.chars es [] ∧ cs = [])
        (StopsBefore inp.chars) := by
    refine (Grammar.thenSkip_decides (U := fun ds _ cs => ds = [] ∧ cs = [])
      (entries_decides (by omega) fun inp' hinp' => hcall inp' (by omega))
      fun es rest hes => ?_).congr ?_ fun _ h => h
    · refine Grammar.atEnd_decides.congr (fun _ _ => Iff.rfl) fun cs hcs => ?_
      obtain ⟨rfl, hne⟩ := hcs
      exact stopsBefore_of_gathered hes hskip hne
    · intro es cs
      refine ⟨fun h => ?_, fun h => ?_⟩
      · exact ⟨(), [], h.1, rfl, h.2⟩
      · obtain ⟨_, ds, hes, rfl, hcs⟩ := h
        exact ⟨hes, hcs⟩
  refine (Grammar.andThen_decides
    (U := fun _ ds es cs => Gathered Entry Bounds.free 0 ds es [] ∧ cs = [])
    (skipping_decides ha) fun b mid hb => ?_).congr ?_ fun _ h => h
  · obtain ⟨hinp, hblank, hstop⟩ := hb
    exact hentries mid ⟨b, hblank, hinp, hstop⟩ (Input.size_le_of_append hinp)
  intro es cs
  refine ⟨fun h => ?_, fun h => ?_⟩
  · obtain ⟨rfl, hdocument⟩ := h
    obtain ⟨mid, b, hb, hinp, hstop⟩ := skipped_exists inp.chars
    obtain ⟨es', rest, hes'⟩ := Gathered.exists consuming_entry Bounds.free 0 mid
    obtain ⟨hrest, hes⟩ := gathered_longest hes' ⟨b, hb, hinp, hstop⟩ hdocument
      (List.append_nil _).symm
    obtain rfl : rest = [] := List.eq_nil_of_length_eq_zero (Nat.le_zero.1 hrest)
    obtain rfl : es = es' := hes rfl
    exact ⟨b, mid, ⟨hinp, hb, hstop⟩, hes', rfl⟩
  · obtain ⟨b, mid, ⟨hinp, hb, hstop⟩, hes, rfl⟩ := h
    obtain ⟨w, hw, hchars⟩ := documentText_of_gathered hes ⟨b, hb, hinp, hstop⟩
    rw [List.append_nil] at hchars
    exact ⟨rfl, hchars ▸ hw⟩

end Parser

/-- The parser of documents always answers, and decides which documents there are. -/
theorem parser_document_decides (inp : Input) :
    (parser (document .element)).Decides inp (fun es cs => cs = [] ∧ DocumentText inp.chars es)
      (StopsBefore inp.chars) := by
  have h : ((document Symbol.element).eval (inp.size + 1) fun n =>
      rulebook.call (inp.size + 1) (inp.size / 3 + 1) ⟨⟩ n).Decides inp
      (fun es cs => cs = [] ∧ DocumentText inp.chars es) (StopsBefore inp.chars) :=
    document_decides (Nat.lt_succ_self _) fun inp' hinp' =>
      call_decides (fun _ => rfl) (inp.size / 3 + 1) _ (by omega) (by omega)
  intro scopes
  obtain ⟨reply, scopes', hrun, hr⟩ := h scopes
  exact ⟨reply, scopes', hrun, hr⟩

/-- The parser of documents succeeds on the text. -/
def Accepted (w : List Char) : Prop :=
  ∃ rest es scopes', parser (document .element) (.ofChars w) [] =
    some (.matched rest es, scopes')

theorem accepted_iff {w : List Char} : Accepted w ↔ ∃ es, DocumentText w es := by
  refine ⟨fun h => ?_, fun h => ?_⟩
  · obtain ⟨rest, es, scopes', hrun⟩ := h
    exact ⟨es, (((parser_document_decides (.ofChars w)).matched_iff [] es rest).1
      ⟨scopes', hrun⟩).2⟩
  · obtain ⟨es, hes⟩ := h
    obtain ⟨scopes', hrun⟩ :=
      ((parser_document_decides (.ofChars w)).matched_iff [] es (.ofChars [])).2 ⟨rfl, hes⟩
    exact ⟨.ofChars [], es, scopes', hrun⟩

/-- The parser of documents always answers with a match or a failure.  It matches with elements
    exactly if the text is these elements with blanks around them, and leaves nothing.  If it fails,
    something is left, and the text in front of it is the longest beginning that it accepts. -/
theorem document_matched_iff_or_longest (inp : Input) (scopes : Scopes) :
    (∃ reply scopes', parser (document .element) inp scopes = some (reply, scopes') ∧
      ∀ m, reply ≠ .aborted m) ∧
    (∀ es rest, (∃ scopes', parser (document .element) inp scopes =
      some (.matched rest es, scopes')) ↔ rest = .ofChars [] ∧ DocumentText inp.chars es) ∧
    (∀ e scopes', parser (document .element) inp scopes = some (.failed e, scopes') →
      e.rest.chars ≠ [] ∧ ∃ w, inp.chars = w ++ e.rest.chars ∧ Accepted w ∧
        ∀ w' rest', inp.chars = w' ++ rest' → Accepted w' → w'.length ≤ w.length) := by
  have hdecides := parser_document_decides inp
  obtain ⟨reply, scopes', hrun, hreply⟩ := hdecides scopes
  refine ⟨⟨reply, scopes', hrun, fun m hm => ?_⟩, fun es rest => ?_, fun e scopes'' hfail => ?_⟩
  · rw [hm] at hreply
    exact hreply
  · rw [hdecides.matched_iff scopes es rest]
    exact and_congr_left' ⟨fun h => Input.ext h, fun h => congrArg Input.chars h⟩
  · obtain ⟨rfl, -⟩ := Prod.mk.inj (Option.some.inj (hrun.symm.trans hfail))
    obtain ⟨-, hne, w, hinp, hw, hlongest⟩ := hreply
    refine ⟨hne, w, hinp, accepted_iff.2 hw, fun w' rest' hinp' hw' => ?_⟩
    obtain ⟨es', hes'⟩ := accepted_iff.1 hw'
    exact hlongest w' rest' es' hinp' hes'

/-- Where an element is closed by another name, the longest document is what stands in front of the
    element, although its first tag is a well-formed one. -/
theorem longest_of_mismatched_tag :
    parser (document .element) (.ofString " <a/>\n<b></c>") [] =
      some (.failed ⟨.ofString "<b></c>"⟩, []) ∧
    ∃ w, (Input.ofString " <a/>\n<b></c>").chars = w ++ "<b></c>".toList ∧ Accepted w ∧
      ∀ w' rest', (Input.ofString " <a/>\n<b></c>").chars = w' ++ rest' → Accepted w' →
        w'.length ≤ w.length := by
  have hfail : parser (document .element) (.ofString " <a/>\n<b></c>") [] =
      some (.failed ⟨.ofString "<b></c>"⟩, []) := by decide +kernel
  obtain ⟨-, -, hlongest⟩ := document_matched_iff_or_longest (.ofString " <a/>\n<b></c>") []
  exact ⟨hfail, (hlongest _ _ hfail).2⟩

end Descent.Markup
