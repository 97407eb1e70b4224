/-
  Descent.Markup.Outline

  The outline of a document: one line per element in document order, two spaces further in than
  the element around it, with its name and attributes.  Values are quoted, so an element never
  takes more than its line.  A text that is no document gives a line that says where it stops
  being one.
-/
import Descent.Markup.Language
import Descent.Parser.Mode
import Descent.Text.Lines
import Descent.Text.Quoted

namespace Descent.Markup

/-! ## Elements -/

/-- An attribute in an outline, with the space in front of it. -/
def outlineAttribute : String × String → List Char
  | (key, value) => [' '] ++ key.toList ++ ['='] ++ Text.quote value.toList

/-- The line of an element by itself. -/
def outlineLine (depth : Nat) (name : String) (attributes : List (String × String)) : List Char :=
  List.replicate (2 * depth) ' ' ++ name.toList ++ attributes.flatMap outlineAttribute

mutual

/-- The lines of an element inside `depth` others, with other lines below. -/
def Element.prependOutline (depth : Nat) : Element → List (List Char) → List (List Char)
  | ⟨name, attributes, children⟩, below =>
    outlineLine depth name attributes ::
      Element.prependOutlineList (depth + 1) children below

/-- The lines of elements inside `depth` others, with other lines below. -/
def Element.prependOutlineList (depth : Nat) :
    List Element → List (List Char) → List (List Char)
  | [], below => below
  | e :: es, below => e.prependOutline depth (Element.prependOutlineList depth es below)

end

/-- The lines of an element inside `depth` others. -/
def Element.outline (depth : Nat) (e : Element) : List (List Char) := e.prependOutline depth []

/-- The lines of elements inside `depth` others. -/
def Element.outlineList (depth : Nat) (es : List Element) : List (List Char) :=
  Element.prependOutlineList depth es []

mutual

theorem Element.prependOutline_append (depth : Nat) : (e : Element) →
    (above below : List (List Char)) →
    e.prependOutline depth (above ++ below) = e.prependOutline depth above ++ below
  | ⟨name, attributes, children⟩, above, below => by
    simp only [Element.prependOutline, Element.prependOutlineList_append (depth + 1) children,
      List.cons_append]

theorem Element.prependOutlineList_append (depth : Nat) : (es : List Element) →
    (above below : List (List Char)) →
    Element.prependOutlineList depth es (above ++ below) =
      Element.prependOutlineList depth es above ++ below
  | [], _, _ => rfl
  | e :: es, above, below => by
    simp only [Element.prependOutlineList, Element.prependOutlineList_append depth es,
      Element.prependOutline_append depth e]

end

/-- An element is outlined by its own line and those of its children. -/
@[simp] theorem Element.outline_mk (depth : Nat) (name : String)
    (attributes : List (String × String)) (children : List Element) :
    Element.outline depth ⟨name, attributes, children⟩ =
      outlineLine depth name attributes :: Element.outlineList (depth + 1) children := rfl

@[simp] theorem Element.outlineList_nil (depth : Nat) : Element.outlineList depth [] = [] := rfl

@[simp] theorem Element.outlineList_cons (depth : Nat) (e : Element) (es : List Element) :
    Element.outlineList depth (e :: es) = e.outline depth ++ Element.outlineList depth es :=
  Element.prependOutline_append depth e [] _

@[simp] theorem Element.outlineList_append (depth : Nat) (es fs : List Element) :
    Element.outlineList depth (es ++ fs) =
      Element.outlineList depth es ++ Element.outlineList depth fs := by
  induction es with
  | nil => rfl
  | cons e es ih => simp [ih]

/-- The outline of a document as text. -/
def outlineText (es : List Element) : String :=
  String.ofList (Text.endLines (Element.outlineList 0 es))

/-! ## Failures -/

/-- The number of the line, counted from one, that has the given offset in bytes. -/
def lineAt (source : Input) (offset : Nat) : Option Nat :=
  (source.split? offset).map fun (front, _) => front.count '\n' + 1

/-- The line that tells where a source stops being a document. -/
def complaint (source : Input) (e : Failure) : Option String :=
  (lineAt source ((e.offsetIn source).getD 0)).map fun line =>
    "Parse error on line " ++ String.ofList (Nat.toDigits 10 line) ++ ": " ++ e.message ++ "\n"

/-! ## The program -/

/-- The argument that asks for a trace. -/
def traceFlag : String := "--trace"

/-- What is read when no text is given. -/
def sample : String :=
  "<html lang=\"en\"><body class=\"dark\"><div id=\"main\"><p/>" ++
  "<img src=\"hello.jpg\" alt=\"hello\"/></div></body></html>\n<footer/>\n"

/-- The text to read: the last argument that is not the flag. -/
def sourceOf (args : List String) : String :=
  ((args.filter (· ≠ traceFlag)).getLast?).getD sample

/-- What follows the trace: the outline of a document, or the complaint. -/
def verdict (source : Input) : Reply (List Element) → Option String
  | .matched _ es => some (outlineText es)
  | .failed e => complaint source e
  | .aborted _ => none

/-- What the program prints for its arguments: a trace if one is asked for, then the verdict on
    the text. -/
def output (args : List String) : Option String :=
  let source := Input.ofString (sourceOf args)
  let mode := if traceFlag ∈ args then Mode.verbose else Mode.parse
  match (parser (document .element)).start mode source [] with
  | none => none
  | some (report, _) => (verdict source report.reply).map (report.printed ++ ·)

-- An element is entered once more behind the last one, to find out that it is the last.
example : output ["<a k=\"v\"/>"] = some "a k=\"v\"\n" := by decide +kernel
example : output ["<a/>", "--trace"] =
    some "Entered element\nMatched 4 bytes\nEntered element\nFailed 0 bytes in\na\n" := by
  decide +kernel
example : output ["<a/>\n<a>"] =
    some "Parse error on line 2: parse failed at \"<a>\"\n" := by decide +kernel

end Descent.Markup
