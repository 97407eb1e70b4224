/-
  Descent.Proofs.Markup.Reported

  What the program prints for its arguments.  The text to read is the last argument that is not the
  flag.  Collecting a trace changes nothing about the reply, so with the flag the same is told, only
  behind the trace.  What is told of a document is one line for each element, in document order;
  what is told of anything else is the line on which the longest document in front ends, since the
  parser fails behind that one and the rest that it names is how the source ends.
-/
import Descent.Proofs.Consumed
import Descent.Proofs.Heard
import Descent.Proofs.Markup.Outlined
import Descent.Proofs.Messages

namespace Descent

namespace Markup

-- ============================================================================
-- Arguments
-- ============================================================================

/-- The text that the arguments ask to read. -/
inductive Asked : List String → String → Prop
  /-- Behind it there are only flags. -/
  | given {before after : List String} {source : String} (hsource : source ≠ traceFlag)
      (hafter : ∀ arg ∈ after, arg = traceFlag) : Asked (before ++ source :: after) source
  /-- There are only flags. -/
  | sample {args : List String} (h : ∀ arg ∈ args, arg = traceFlag) : Asked args sample

theorem filter_flags {args : List String} (h : ∀ arg ∈ args, arg = traceFlag) :
    args.filter (· ≠ traceFlag) = [] := by
  rw [List.filter_eq_nil_iff]
  intro arg harg hother
  exact of_decide_eq_true hother (h arg harg)

theorem asked_sourceOf (args : List String) : Asked args (sourceOf args) := by
  rw [sourceOf]
  cases hlast : (args.filter (· ≠ traceFlag)).getLast? with
  | none =>
    have hnone := List.filter_eq_nil_iff.1 (List.getLast?_eq_none_iff.1 hlast)
    refine .sample fun arg harg => ?_
    simpa using hnone arg harg
  | some source =>
    -- In front of the last one there may be others, behind it none.
    obtain ⟨others, hothers⟩ := List.getLast?_eq_some_iff.1 hlast
    obtain ⟨front, back, rfl, -, hback⟩ := List.filter_eq_append_iff.1 hothers
    obtain ⟨flags, after, rfl, -, hsource, hafter⟩ := List.filter_eq_cons_iff.1 hback
    rw [← List.append_assoc]
    refine .given (of_decide_eq_true hsource) fun arg harg => ?_
    simpa using List.filter_eq_nil_iff.1 hafter arg harg

/-- The arguments ask for one text and no other. -/
theorem asked_iff {args : List String} {source : String} :
    Asked args source ↔ source = sourceOf args := by
  refine ⟨fun h => ?_, fun h => h ▸ asked_sourceOf args⟩
  cases h with
  | @given before after _ hsource hafter =>
    rw [sourceOf, List.filter_append, List.filter_cons, if_pos (decide_eq_true hsource),
      filter_flags hafter, List.getLast?_concat, Option.getD_some]
  | sample h =>
    rw [sourceOf, filter_flags h]
    rfl

-- ============================================================================
-- Document order
-- ============================================================================

mutual

/-- An element and those inside it in document order, each with the number of elements around
    it. -/
def Element.preorder (around : Nat) : Element → List (Nat × Element)
  | ⟨name, attributes, children⟩ =>
    (around, ⟨name, attributes, children⟩) :: Element.preorderList (around + 1) children

def Element.preorderList (around : Nat) : List Element → List (Nat × Element)
  | [] => []
  | e :: es => e.preorder around ++ Element.preorderList around es

end

mutual

theorem Element.length_preorder (around : Nat) : (e : Element) →
    (e.preorder around).length = e.count
  | ⟨name, attributes, children⟩ => by
    rw [Element.preorder, List.length_cons, Element.length_preorderList (around + 1) children,
      Element.count, Nat.add_comm]

/-- Every element is there once. -/
theorem Element.length_preorderList (around : Nat) : (es : List Element) →
    (Element.preorderList around es).length = Element.countList es
  | [] => rfl
  | e :: es => by
    rw [Element.preorderList, List.length_append, Element.length_preorder around e,
      Element.length_preorderList around es, Element.countList]

end

/-- The line of an element that has so many others around it: two spaces for each of these, its
    name, and each attribute as `key=value`, with the value in quotes. -/
def entryLine : Nat × Element → List Char
  | (around, e) =>
    List.replicate (2 * around) ' ' ++ e.name.toList ++
      e.attributes.flatMap fun (key, value) =>
        ' ' :: (key.toList ++ '=' :: Text.quote value.toList)

theorem outlineLine_eq_entryLine (around : Nat) (name : String)
    (attributes : List (String × String)) (children : List Element) :
    outlineLine around name attributes = entryLine (around, ⟨name, attributes, children⟩) := by
  have hattribute : outlineAttribute = fun (key, value) =>
      ' ' :: (key.toList ++ '=' :: Text.quote value.toList) := by
    funext a
    simp [outlineAttribute]
  rw [outlineLine, hattribute, entryLine]

mutual

theorem Element.outline_eq_map (around : Nat) : (e : Element) →
    e.outline around = (e.preorder around).map entryLine
  | ⟨name, attributes, children⟩ => by
    rw [Element.outline_mk, Element.preorder, List.map_cons,
      Element.outlineList_eq_map (around + 1) children,
      outlineLine_eq_entryLine around name attributes children]

/-- An outline has one line for each element in document order. -/
theorem Element.outlineList_eq_map (around : Nat) : (es : List Element) →
    Element.outlineList around es = (Element.preorderList around es).map entryLine
  | [] => rfl
  | e :: es => by
    rw [Element.outlineList_cons, Element.preorderList, List.map_append,
      Element.outline_eq_map around e, Element.outlineList_eq_map around es]

end

-- ============================================================================
-- What is told
-- ============================================================================

/-- What the program tells of a source for a reply of the parser of documents. -/
inductive Tells (source : Input) : Reply (List Element) → String → Prop
  /-- There is a line for each element in document order, and no other line. -/
  | outline {rest : Input} {es : List Element} {told : String}
      (hlines : told.toList.splitOn '\n' = (Element.preorderList 0 es).map entryLine ++ [[]])
      (hcount : told.toList.count '\n' = Element.countList es) :
      Tells source (.matched rest es) told
  /-- One line names the line behind the longest beginning of the source that is accepted, and says
      what the failure says.  The failure is at this place of the source, where it can be cut. -/
  | complaint {e : Failure} {w : List Char} (hsource : source.chars = w ++ e.rest.chars)
      (haccepted : Accepted w)
      (hlongest : ∀ w' rest', source.chars = w' ++ rest' → Accepted w' → w'.length ≤ w.length)
      (hoffset : e.offsetIn source = some (utf8Length w))
      (hcut : source.split? (utf8Length w) = some (w, e.rest))
      (hmessage : '\n' ∉ e.message.toList) :
      Tells source (.failed e)
        ("Parse error on line " ++ toString (w.count '\n' + 1) ++ ": " ++ e.message ++ "\n")

theorem tells_outlineText {source rest : Input} {es : List Element}
    (h : ∀ e ∈ es, e.WellFormed) : Tells source (.matched rest es) (outlineText es) := by
  have hlines := outlineText_lines h
  have hcount : (outlineText es).toList.count '\n' = (Element.outlineList 0 es).length := by
    rw [outlineText, String.toList_ofList, Text.count_endLines (outlineList_unbroken 0 h)]
  rw [Element.outlineList_eq_map 0 es] at hlines hcount
  rw [List.length_map, Element.length_preorderList] at hcount
  exact .outline hlines hcount

/-- Where the source stops being a document, the complaint names the line. -/
theorem tells_complaint {source : Input} {e : Failure}
    (h : StopsBefore source.chars e.rest.chars) :
    ∃ told, complaint source e = some told ∧ Tells source (.failed e) told := by
  obtain ⟨-, w, hsource, hw, hlongest⟩ := h
  have hoffset : e.offsetIn source = some (utf8Length w) := Input.offsetIn_of_append hsource
  have hcut : source.split? (utf8Length w) = some (w, e.rest) := Input.split?_of_append hsource
  have hline : lineAt source ((e.offsetIn source).getD 0) = some (w.count '\n' + 1) := by
    rw [hoffset, Option.getD_some, lineAt, hcut]
    rfl
  have hdecimal : String.ofList (Nat.toDigits 10 (w.count '\n' + 1)) =
      toString (w.count '\n' + 1) := rfl
  have hcomplaint : complaint source e = some ("Parse error on line " ++
      toString (w.count '\n' + 1) ++ ": " ++ e.message ++ "\n") := by
    rw [complaint, hline, Option.map_some, hdecimal]
  have hlongest' : ∀ w' rest', source.chars = w' ++ rest' → Accepted w' →
      w'.length ≤ w.length := by
    intro w' rest' hsource' hw'
    obtain ⟨es', hes'⟩ := accepted_iff.1 hw'
    exact hlongest w' rest' es' hsource' hes'
  exact ⟨_, hcomplaint, .complaint hsource (accepted_iff.2 hw) hlongest' hoffset hcut
    e.message_unbroken⟩

/-- Whatever the parser of documents replies, there is something to tell. -/
theorem tells_verdict {source : Input} {reply : Reply (List Element)}
    (h : reply.Decides (fun es cs => cs = [] ∧ DocumentText source.chars es)
      (StopsBefore source.chars)) :
    ∃ told, verdict source reply = some told ∧ Tells source reply told := by
  cases reply with
  | matched rest es =>
    have hdocument : DocumentText source.chars es := ((h es rest.chars).2 ⟨rfl, rfl⟩).2
    exact ⟨outlineText es, rfl, tells_outlineText hdocument.wellFormed⟩
  | failed e => exact tells_complaint h.2
  | aborted m => exact h.elim

/-- The language is over honest steps, so it makes no difference to the reply who listens. -/
theorem exists_record_heard {limits : Limits} {source : Input} {reply : Reply (List Element)}
    {w : Trace}
    (h : rulebook.recorder limits ⟨⟩ (document .element) false source = some (reply, w)) :
    ∃ trace, rulebook.recorder limits ⟨⟩ (document .element) true source = some (reply, trace) := by
  have hhonest : (document Symbol.element).Honest := document_over trivial
  have hsame : (rulebook.recorder limits ⟨⟩ (document .element) true source).map Prod.fst =
      (rulebook.recorder limits ⟨⟩ (document .element) false source).map Prod.fst :=
    rulebook_honest.recorder_reply_eq limits trivial hhonest true false source
  rw [h] at hsame
  obtain ⟨⟨reply', trace⟩, hrecord, rfl⟩ := Option.map_eq_some_iff.1 hsame
  exact ⟨trace, hrecord⟩

/-- However the parser of documents is started on a source, the reply is the same, and only a
    verbose start prints something: the trace that a traced one gives. -/
theorem document_starts_agree (source : Input) :
    ∃ reply trace told, parser (document .element) source [] = some (reply, []) ∧
      (parser (document .element)).start .parse source [] = some (⟨reply, none, ""⟩, []) ∧
      (parser (document .element)).start .traced source [] =
        some (⟨reply, some trace, ""⟩, []) ∧
      (parser (document .element)).start .verbose source [] =
        some (⟨reply, none, trace.shown⟩, []) ∧
      verdict source reply = some told ∧ Tells source reply told := by
  obtain ⟨reply, scopes', hanswer, hdecides⟩ := parser_document_decides source []
  obtain ⟨told, hverdict, htells⟩ := tells_verdict hdecides
  have hreply : ∀ m, reply ≠ .aborted m := by
    rintro m rfl
    exact hdecides
  have hrecords := rulebook.parser_records (limitsFor source.size) ⟨⟩ (document .element)
  obtain ⟨w, hunheard⟩ := (hrecords source []).exists_record hanswer hreply
  have hrun : parser (document .element) source [] = some (reply, []) :=
    (hrecords source []).answer_eq hunheard hreply
  obtain ⟨trace, hrecord⟩ := exists_record_heard hunheard
  have hcollect : Parser.collect (parser (document .element)) source [] =
      some (reply, trace, []) := by
    rw [Parser.collect, parser, ← Parser.collect]
    exact (Parser.collect_records hrecords source []).answer_eq hrecord hreply
  refine ⟨reply, trace, told, hrun, ?_, ?_, ?_, hverdict, htells⟩
  · rw [Parser.start, hrun, Option.map_some]
  · rw [Parser.start, hcollect, Option.map_some]
  · rw [Parser.start, hcollect, Option.map_some]

/-- The program reads the last argument that is not the flag, or else the sample.  What it prints is
    the trace of reading it as a document, if the flag is among the arguments, and behind it the
    elements of the document, or the line on which the longest document in front of the failure
    ends.  The reply and what is told of it are the same with the flag and without. -/
theorem output_reports_document (args : List String) :
    ∃ source reply trace told, (∀ text, Asked args text ↔ text = source) ∧
      parser (document .element) (.ofString source) [] = some (reply, []) ∧
      (parser (document .element)).start .traced (.ofString source) [] =
        some (⟨reply, some trace, ""⟩, []) ∧
      Tells (.ofString source) reply told ∧
      output args = some ((if traceFlag ∈ args then trace.shown else "") ++ told) := by
  obtain ⟨reply, trace, told, hrun, hparse, htraced, hverbose, hverdict, htells⟩ :=
    document_starts_agree (.ofString (sourceOf args))
  refine ⟨sourceOf args, reply, trace, told, fun text => asked_iff, hrun, htraced, htells, ?_⟩
  by_cases hflag : traceFlag ∈ args
  · simp only [output, if_pos hflag]
    rw [hverbose]
    show (verdict _ reply).map (trace.shown ++ ·) = some (trace.shown ++ told)
    rw [hverdict, Option.map_some]
  · simp only [output, if_neg hflag]
    rw [hparse]
    show (verdict _ reply).map ("" ++ ·) = some ("" ++ told)
    rw [hverdict, Option.map_some]

end Markup

end Descent
