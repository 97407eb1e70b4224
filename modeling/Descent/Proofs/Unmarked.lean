/-
  Descent.Proofs.Unmarked

  Marks, wrappers and tracing are transparent everywhere.  A description of honest pieces answers
  every input as the plain one does, in every mode but the complete one, up to the traces that were
  collected to be values; where no trace has become a value the answers are the same.  The same is
  true of grammars over honest steps with any functions and continuations, provided that these do
  not look at traces.
-/
import Descent.Proofs.Answers
import Descent.Proofs.Contract
import Descent.Proofs.Plain

namespace Descent

-- ============================================================================
-- Running
-- ============================================================================

/-- Whatever a symbol stands for under rules, it stands for the same undressed under the plain
    ones. -/
theorem Rules.rulebook_undresses (rules : Rules) :
    rules.rulebook.Undresses rules.plain.rulebook Symbol.likeness Store.Beside := by
  intro α store store' n hstore
  have hrules : rules.Paired BuiltBeside rules.plain := by
    refine Rules.paired_map fun rule _ => ?_
    rw [← Store.beside_eq]
    exact rule.2.build_plain Names.beside_nil
  rw [Store.beside_eq] at hstore ⊢
  refine (hrules.resolve hstore n).imp_right ?_
  rintro ⟨g, after, g', after', hg, hg', hn, hafter⟩
  refine ⟨g, after, g', after', hg, hg', ?_, hafter⟩
  cases hn with
  | element =>
    have helement : (Markup.element Symbol.element).Untraced Symbol.IsElement :=
      Markup.element_untraced trivial
    exact helement.stripped
  | rule x hb | cell r hb => exact hb

/-- The answer to a reply that comes with no trace and no print-out. -/
def Answer.ofReply : Reply Value → Answer
  | .aborted m => .misused m
  | reply => .ran ⟨reply, none, ""⟩

/-- The answer without the trace and the print-out of the run. -/
def Answer.bare : Answer → Answer
  | .ran report => .ran ⟨report.reply, none, ""⟩
  | answer => answer

/-- The reply without the traces inside its value. -/
def Reply.untraced : Reply Value → Reply Value
  | .matched rest v => .matched rest v.untraced
  | reply => reply

/-- The answer without the traces inside its value. -/
def Answer.untraced : Answer → Answer
  | .ran report => .ran { report with reply := report.reply.untraced }
  | answer => answer

/-- There is no trace in the value of the reply. -/
def Reply.NoTrace : Reply Value → Prop
  | .matched _ v => v.NoTrace
  | _ => True

/-- There is no trace in the value of the answer. -/
def Answer.NoTrace : Answer → Prop
  | .ran report => report.reply.NoTrace
  | _ => True

theorem Reply.NoTrace.untraced_eq {reply : Reply Value} (h : reply.NoTrace) :
    reply.untraced = reply := by
  cases reply with
  | matched rest v => exact congrArg (Reply.matched rest) (Value.NoTrace.untraced_eq h)
  | failed e | aborted m => rfl

theorem Reply.noTrace_of_untraced {reply : Reply Value} (h : reply.untraced.NoTrace) :
    reply.NoTrace := by
  cases reply with
  | matched rest v => exact Value.noTrace_of_untraced h
  | failed e | aborted m => trivial

theorem Answer.NoTrace.untraced_eq {answer : Answer} (h : answer.NoTrace) :
    answer.bare.untraced = answer.bare := by
  cases answer with
  | done | misused m => rfl
  | ran report =>
    exact congrArg (fun reply => Answer.ran ⟨reply, none, ""⟩) (Reply.NoTrace.untraced_eq h)

theorem Answer.noTrace_iff_bare {answer : Answer} : answer.bare.NoTrace ↔ answer.NoTrace := by
  cases answer with
  | done | misused m | ran report => exact Iff.rfl

theorem Answer.noTrace_of_untraced {answer : Answer} (h : answer.bare.untraced.NoTrace) :
    answer.NoTrace := by
  cases answer with
  | done | misused m => trivial
  | ran report => exact Reply.noTrace_of_untraced h

/-- Answers that differ in nothing but traces come of replies with values that are alike. -/
theorem Agree.answer_eq {x y : Option (Reply Value × Trace)}
    (h : Agree False False Value.Like x y) :
    x.map (fun x => (Answer.ofReply x.1).untraced) =
      y.map fun y => (Answer.ofReply y.1).untraced := by
  cases h with
  | unanswered hx hy => rw [hx, hy]
  | matched hab hx hy =>
    rw [hx, hy]
    exact congrArg (fun v => some (Answer.ran ⟨.matched _ v, none, ""⟩)) hab
  | failed he hx hy =>
    obtain rfl := he.resolve_left id
    rw [hx, hy]
    rfl
  | aborted hx hy =>
    rw [hx, hy]
    rfl
  | overrun hmay _ => exact hmay.elim

-- ============================================================================
-- Pieces
-- ============================================================================

theorem Modifier.plain_honest (m : Modifier) {body : Recipe} (h : body.Honest) :
    (m.plain body).Honest := by
  cases m <;> exact h

-- The pieces of the plain description are those of the description.

mutual

theorem Recipe.plain_honest : (recipe : Recipe) → recipe.Honest → recipe.plain.Honest
  | .piece _, h => h
  | .modified m body, h => m.plain_honest (body.plain_honest h)
  | .joined _ first second, h => ⟨first.plain_honest h.1, second.plain_honest h.2⟩
  | .between body start finish, h =>
    ⟨body.plain_honest h.1, start.plain_honest h.2.1, finish.plain_honest h.2.2⟩
  | .andThen body next, h | .chained body next, h =>
    ⟨body.plain_honest h.1, next.plain_honest h.2⟩
  | .rule _, _ | .named _, _ => trivial
  | .recursive _ body, h => body.plain_honest h

theorem Continuation.plain_honest : (next : Continuation) → next.Honest → next.plain.Honest
  | .same, _ | .close, _ | .keep, _ => trivial
  | .count body, h | .always body, h => body.plain_honest h
  | .cases table otherwise, h =>
    ⟨Recipe.plainTable_honest table h.1, otherwise.plain_honest h.2⟩

theorem Recipe.plainTable_honest : (table : List (String × Recipe)) → Recipe.HonestTable table →
    Recipe.HonestTable (Recipe.plainTable table)
  | [], _ => trivial
  | (_, body) :: table, h => ⟨body.plain_honest h.1, Recipe.plainTable_honest table h.2⟩

end

theorem Rules.Honest.plain {rules : Rules} (h : rules.Honest) : rules.plain.Honest := by
  intro rule hrule
  obtain ⟨first, hfirst, rfl⟩ := List.mem_map.1 hrule
  exact first.2.plain_honest (h first hfirst)

namespace Recipe

/-- A start that comes out is answered by its reply, and the runs after it go on from the scopes it
    leaves. -/
theorem runAll_go_cons {β : Type} (f : Answer → β) {p : Parser Value} {mode : Mode} {inp : Input}
    {scopes after : Scopes} {report : Report Value}
    (hstart : p.start mode inp scopes = some (report, after)) (inputs : List Input) :
    (runAll.go mode p (inp :: inputs) scopes).map (List.map fun answer => f answer.bare) =
      ((runAll.go mode p inputs after).map (List.map fun answer => f answer.bare)).map
        (f (Answer.ofReply report.reply) :: ·) := by
  obtain ⟨reply, trace, printed⟩ := report
  rw [runAll.go, hstart]
  cases reply with
  | matched rest v | failed e | aborted m =>
    show Option.map _ (Option.map _ (runAll.go mode p inputs after)) = _
    cases runAll.go mode p inputs after with
    | none => rfl
    | some answers => rfl

/-- Where it makes no difference who listens, each input is answered by itself, as the recorder
    says. -/
theorem runAll_go_bare {β : Type} (f : Answer → β) {p : Parser Value} {r : Bool → Recorder Value}
    (h : p.Records r)
    (hsame : ∀ heard inp, (r heard inp).map Prod.fst = (r false inp).map Prod.fst) {mode : Mode}
    (hmode : mode ≠ .complete) (inputs : List Input) (scopes : Scopes) :
    (runAll.go mode p inputs scopes).map (List.map fun answer => f answer.bare) =
      inputs.mapM fun inp => (r false inp).map fun x => f (Answer.ofReply x.1) := by
  -- Whatever scopes a run leaves, the next one gives the recorded reply.
  induction inputs generalizing scopes with
  | nil => rfl
  | cons inp inputs ih =>
    have hreply := h.startReply_eq_of_ne hmode inp scopes
    rw [Parser.startReply, hsame] at hreply
    rw [List.mapM_cons]
    cases hstart : p.start mode inp scopes with
    | none =>
      rw [hstart] at hreply
      rw [runAll.go, hstart, Option.map_eq_none_iff.1 hreply.symm]
      rfl
    | some start =>
      rw [hstart] at hreply
      obtain ⟨⟨reply, w⟩, hrecord, hfst⟩ := Option.map_eq_some_iff.1 hreply.symm
      obtain rfl : reply = start.1.reply := hfst
      rw [runAll_go_cons f hstart, ih start.2, hrecord]
      exact Option.map_eq_bind

/-- A description and the plain one give the same answers up to traces. -/
theorem runAll_plain (limits : Limits) {rules : Rules} (hrules : rules.Honest) {mode : Mode}
    (hmode : mode ≠ .complete) {recipe : Recipe} (hrecipe : recipe.Honest) (inputs : List Input) :
    (recipe.runAll limits rules mode inputs).map (List.map fun answer => answer.bare.untraced) =
      (recipe.plain.runAll limits rules.plain .parse inputs).map
        (List.map fun answer => answer.bare.untraced) := by
  rw [runAll, runAll]
  rcases recipe.build_plain Names.beside_nil .empty .empty .empty with
    ⟨m, hm, hm'⟩ | ⟨b, store, b', store', hb, hb', hstripped, hstore⟩
  · simp only [hm, hm']
  · obtain ⟨hhonest, hall⟩ :=
      recipe.build_honest hrecipe [] Names.all_nil _ _ _ Store.all_empty hb
    obtain ⟨hhonest', hall'⟩ :=
      recipe.plain.build_honest (recipe.plain_honest hrecipe) [] Names.all_nil _ _ _
        Store.all_empty hb'
    have hagree := rules.rulebook_undresses.recorder_agrees hrules.rulebook limits hstore hall
      hstripped hhonest false
    have hsame := fun heard => b.recorder_reply_eq hhonest hrules limits hall heard false
    have hsame' := fun heard =>
      b'.recorder_reply_eq hhonest' hrules.plain limits hall' heard false
    simp only [hb, hb']
    rw [runAll_go_bare _ (b.parser_records rules limits store) hsame hmode,
      runAll_go_bare _ (b'.parser_records rules.plain limits store') hsame' (by decide)]
    exact congrArg (fun answer => inputs.mapM answer) (funext fun inp => (hagree inp).answer_eq)

/-- Where no trace has become a value, the plain description gives the very same answers. -/
theorem runAll_plain_of_noTrace {limits : Limits} {rules : Rules} (hrules : rules.Honest)
    {mode : Mode} (hmode : mode ≠ .complete) {recipe : Recipe} (hrecipe : recipe.Honest)
    {inputs : List Input} {answers : List Answer}
    (hrun : recipe.runAll limits rules mode inputs = some answers)
    (hanswers : ∀ answer ∈ answers, answer.NoTrace) :
    (recipe.plain.runAll limits rules.plain .parse inputs).map (List.map Answer.bare) =
      some (answers.map Answer.bare) := by
  have hboth := runAll_plain limits hrules hmode hrecipe inputs
  rw [hrun, Option.map_some] at hboth
  obtain ⟨answers', hrun', heq⟩ := Option.map_eq_some_iff.1 hboth.symm
  have hfree : ∀ answer ∈ answers, answer.bare.untraced = answer.bare := fun answer hanswer =>
    (hanswers answer hanswer).untraced_eq
  have hfree' : ∀ answer ∈ answers', answer.bare.untraced = answer.bare := by
    -- It is an answer of the first run up to traces, and there are none in that.
    intro answer hanswer
    have hmem := List.mem_map_of_mem (f := fun answer : Answer => answer.bare.untraced) hanswer
    rw [heq] at hmem
    obtain ⟨first, hfirst, hsame⟩ := List.mem_map.1 hmem
    have hnone : first.bare.NoTrace := Answer.noTrace_iff_bare.2 (hanswers first hfirst)
    rw [← hfree first hfirst, hsame] at hnone
    exact (Answer.noTrace_of_untraced hnone).untraced_eq
  rw [hrun', Option.map_some, ← List.map_congr_left hfree, ← List.map_congr_left hfree', heq]

end Recipe

/-- Marks, wrappers and second spellings are transparent where all steps leave ends of their input.
    Started in any mode but the complete one, under whatever open scopes, a grammar gives the reply
    that it gives without marks and wrappers, provided that nothing in it looks at a trace; so do
    the grammars that its symbols stand for.  A description answers as the plain one does up to
    traces, and where no trace has become a value the answers are the same.  A run that does not
    come to its end within given limits does not without marks and wrappers either. -/
theorem marks_transparent :
    (∀ {N : Type → Type} {σ : Type 1} (V : Likeness N) (book : Rulebook N σ) (Allowed : σ → Prop)
      (state : σ) {α : Type} (g : Grammar N α) (limits : Limits) (mode : Mode) (inp : Input)
      (scopes scopes' : Scopes), book.Blind V Allowed → book.Honest Allowed → Allowed state →
      Grammar.Undressed V Eq g g → g.Honest → mode ≠ .complete →
      (book.parser limits state g).startReply mode inp scopes =
        (book.plain.parser limits state g.plain).startReply .parse inp scopes') ∧
    (∀ (limits : Limits) (rules : Rules) (mode : Mode) (recipe : Recipe) (inputs : List Input),
      rules.Honest → recipe.Honest → mode ≠ .complete →
      (recipe.runAll limits rules mode inputs).map (List.map fun answer => answer.bare.untraced) =
        (recipe.plain.runAll limits rules.plain .parse inputs).map
          (List.map fun answer => answer.bare.untraced)) ∧
    (∀ (limits : Limits) (rules : Rules) (mode : Mode) (recipe : Recipe) (inputs : List Input)
      (answers : List Answer), rules.Honest → recipe.Honest → mode ≠ .complete →
      recipe.runAll limits rules mode inputs = some answers →
      (∀ answer ∈ answers, answer.NoTrace) →
      (recipe.plain.runAll limits rules.plain .parse inputs).map (List.map Answer.bare) =
        some (answers.map Answer.bare)) := by
  refine ⟨?_, ?_, ?_⟩
  · intro N σ V book Allowed state α g limits mode inp scopes scopes' hbook hhonest hstate hg hg'
      hmode
    exact hbook.startReply_plain hhonest limits hstate hg hg' hmode inp scopes scopes'
  · intro limits rules mode recipe inputs hrules hrecipe hmode
    exact Recipe.runAll_plain limits hrules hmode hrecipe inputs
  · intro limits rules mode recipe inputs answers hrules hrecipe hmode hrun hanswers
    exact Recipe.runAll_plain_of_noTrace hrules hmode hrecipe hrun hanswers

/-- An element whose trace is dropped, and brackets that count the traces collected inside them. -/
theorem marks_transparent_in_brackets :
    (Markup.rulebook.plain.parser ⟨9, 9⟩ ⟨⟩
        (((Markup.element .element).traced.map Prod.fst).plain)).startReply .parse
          (.ofString "<a></b>") [] = some (.failed ⟨.ofString "</b>"⟩) ∧
    (Recipe.runAll ⟨9, 9⟩ [] .parse (.recursive "h" (.modified (.map .length) (.modified .traced
        (.modified .optional (.between (.named "h") (.piece (.char '[')) (.piece (.char ']')))))))
          [.ofString "[[]]!"]).map (List.map Answer.bare) =
      some [.ran ⟨.matched (.ofString "!") (.int 2), none, ""⟩] := by
  obtain ⟨hgrammar, -, hrecipe⟩ := marks_transparent
  refine ⟨?_, ?_⟩
  · have helement : Grammar.Undressed (fun _ _ => Eq) Eq (Markup.element Markup.Symbol.element)
        (Markup.element Markup.Symbol.element) :=
      (Markup.element_untraced (S := fun _ => True) trivial).undressed fun _ _ _ _ hab => hab
    have hbook : Markup.rulebook.Blind (fun _ _ => Eq) fun _ => True := by
      intro α state state' n g _ hresolve
      cases n
      cases hresolve
      exact ⟨helement, trivial⟩
    have hrun : (Markup.rulebook.parser ⟨9, 9⟩ ⟨⟩ ((Markup.element .element).traced.map
        Prod.fst)).startReply .verbose (.ofString "<a></b>") [] =
          some (.failed ⟨.ofString "</b>"⟩) := by decide +kernel
    rw [← hrun]
    exact (hgrammar _ _ _ _ _ _ _ _ _ _ hbook Markup.rulebook_honest trivial
      (.map (fun _ _ hab => hab) (.traced helement)) (Markup.element_over trivial)
      (by decide)).symm
  · have hrun : Recipe.runAll ⟨9, 9⟩ [] .traced (.recursive "h" (.modified (.marked "brackets")
        (.modified (.mapped .length) (.modified .traced (.modified (.wrapped .boxed) (.modified
          .optional (.between (.named "h") (.piece (.char '[')) (.piece (.char ']')))))))))
            [.ofString "[[]]!"] =
          some [.ran ⟨.matched (.ofString "!") (.int 2), some [⟨"brackets", .matched 4, []⟩],
            ""⟩] := rfl
    refine hrecipe _ _ _ _ _ _ Rules.honest_nil ?_ (by decide) hrun
      (List.forall_mem_singleton.2 trivial)
    exact ⟨trivial, trivial, trivial⟩

end Descent
