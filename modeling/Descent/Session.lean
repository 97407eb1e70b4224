/-
  Descent.Session

  Working with described grammars step by step.  A session keeps what names stand for, the cells
  declared so far, and the scopes left open by runs that were given up.  A name that is bound
  again loses what it stood for, but what was built before keeps what it captured.  A step that
  turns out to be a misuse changes neither names nor cells, and neither does any parse; after
  every other step the cells that have lost their last owner die.
-/
import Descent.Parser.Mode
import Descent.Recipe.Build

namespace Descent

/-- What a name stands for. -/
inductive Binding where
  /-- A grammar that was built. -/
  | grammar (b : Built)
  /-- A cell that can still be defined through the name. -/
  | cell (r : Reference)

/-- The grammar that uses what a name stands for. -/
def Binding.built : Binding → Built
  | .grammar b => b
  | .cell r => r.built

/-- Names, cells and open scopes. -/
structure Session where
  names : List (String × Binding)
  store : Store
  scopes : Scopes

/-- One step of a session. -/
inductive Step where
  /-- Declare a cell and bind its owner. -/
  | declare (x : String)
  /-- Define the cell that a name is bound to. -/
  | define (x : String) (recipe : Recipe)
  /-- Bind a grammar. -/
  | bind (x : String) (recipe : Recipe)
  /-- Bind a recursive parser and, first, a handle to it that its recipe can use. -/
  | recursive (x handle : String) (recipe : Recipe)
  /-- Bind a second name to what a first one is bound to. -/
  | copy (y x : String)
  /-- Unbind a name. -/
  | drop (x : String)
  /-- Run a recipe on an input. -/
  | run (mode : Mode) (recipe : Recipe) (inp : Input)

/-- What a step answers. -/
inductive Answer where
  | done
  | misused (m : Misuse)
  | ran (report : Report Value)

namespace Session

/-- No names, no cells, no open scopes. -/
def empty : Session := ⟨[], .empty, []⟩

/-- What a name is bound to. -/
def lookup (s : Session) (x : String) : Except Misuse Binding :=
  match s.names.lookup x with
  | some b => .ok b
  | none => .error (.unbound x)

/-- The cell that a name is bound to. -/
def lookupCell (s : Session) (x : String) : Except Misuse Reference :=
  match s.lookup x with
  | .ok (.cell r) => .ok r
  | .ok (.grammar _) => .error (.unbound x)
  | .error m => .error m

/-- Unbind a name. -/
def unbind (x : String) (s : Session) : Session :=
  { s with names := s.names.filter fun entry => entry.1 ≠ x }

/-- Bind a name, which loses what it stood for. -/
def bind (x : String) (b : Binding) (s : Session) : Session :=
  { s.unbind x with names := (x, b) :: (s.unbind x).names }

/-- The names as recipes see them. -/
def builtNames (s : Session) : Names := s.names.map fun entry => (entry.1, entry.2.built)

/-- The cells owned by what names stand for. -/
def roots (s : Session) : List CellId := s.names.flatMap fun entry => entry.2.built.owned

/-- Let every cell die that has lost its last owner. -/
def release (s : Session) : Session := { s with store := s.store.release s.roots }

/-- Build a recipe with the names of the session. -/
def build (s : Session) (recipe : Recipe) : Except Misuse (Built × Store) :=
  recipe.build s.builtNames s.store

/-! ## Steps that change names and cells -/

/-- Declare a cell and bind its owner. -/
def declare (x : String) (s : Session) : Session :=
  (Session.bind x (.cell (.owner s.store.next)) { s with store := s.store.declare }).release

/-- Define the cell that a name is bound to.  The recipe is built first. -/
def define (x : String) (recipe : Recipe) (s : Session) : Except Misuse Session :=
  match s.build recipe with
  | .error m => .error m
  | .ok (b, store) =>
    -- From here on a misuse forgets what was built.
    match s.lookupCell x with
    | .error m => .error m
    | .ok r =>
      match store.define r b with
      | .error m => .error m
      | .ok store => .ok { s with store := store }.release

/-- Bind a grammar. -/
def bindRecipe (x : String) (recipe : Recipe) (s : Session) : Except Misuse Session :=
  match s.build recipe with
  | .error m => .error m
  | .ok (b, store) => .ok (Session.bind x (.grammar b) { s with store := store }).release

/-- Bind a recursive parser.  The handle is bound first, so the recipe sees it, and sees what `x`
    stood for until then. -/
def recursive (x handle : String) (recipe : Recipe) (s : Session) : Except Misuse Session :=
  let c := s.store.next
  let opened := Session.bind handle (.cell (.handle c)) { s with store := s.store.declare }
  match opened.build recipe with
  | .error m => .error m
  | .ok (b, store) =>
    .ok (Session.bind x (.cell (.owner c)) { opened with store := store.write c b }).release

/-- Bind a second name to what a first one is bound to. -/
def copy (y x : String) (s : Session) : Except Misuse Session :=
  match s.lookup x with
  | .error m => .error m
  | .ok b => .ok (Session.bind y b s).release

/-- Unbind a name. -/
def drop (x : String) (s : Session) : Except Misuse Session :=
  match s.lookup x with
  | .error m => .error m
  | .ok _ => .ok (s.unbind x).release

/-! ## Running -/

/-- Build a recipe and start it.  The cells declared for it are gone when it has run. -/
def run (limits : Limits) (mode : Mode) (recipe : Recipe) (inp : Input) (s : Session) :
    Option (Answer × Session) :=
  match s.build recipe with
  | .error m => some (.misused m, s)
  | .ok (b, store) =>
    match (b.parser [] limits store).start mode inp s.scopes with
    | none => none
    -- Given up: the scopes that were open at that moment stay open.
    | some (⟨.aborted m, _, _⟩, scopes) => some (.misused m, { s with scopes := scopes })
    | some (report, scopes) => some (.ran report, { s with scopes := scopes })

/-- The answer to a step that either changes the session or is a misuse. -/
def settle (s : Session) : Except Misuse Session → Answer × Session
  | .ok s => (.done, s)
  | .error m => (.misused m, s)

/-- Take one step, within limits. -/
def step (limits : Limits) (s : Session) : Step → Option (Answer × Session)
  | .declare x => some (.done, s.declare x)
  | .define x recipe => some (s.settle (s.define x recipe))
  | .bind x recipe => some (s.settle (s.bindRecipe x recipe))
  | .recursive x handle recipe => some (s.settle (s.recursive x handle recipe))
  | .copy y x => some (s.settle (s.copy y x))
  | .drop x => some (s.settle (s.drop x))
  | .run mode recipe inp => s.run limits mode recipe inp

/-- The answers to steps taken one after the other. -/
def answers (limits : Limits) (s : Session) : List Step → Option (List Answer)
  | [] => some []
  | step :: steps =>
    match s.step limits step with
    | none => none
    | some (answer, s) => (answers limits s steps).map (answer :: ·)

end Session

/-! ## One recipe, many inputs -/

/-- Build a recipe once, with rules for it to look up, and start it on each input. -/
def Recipe.runAll (limits : Limits) (rules : Rules) (mode : Mode) (recipe : Recipe)
    (inputs : List Input) : Option (List Answer) :=
  match recipe.build [] .empty with
  | .error m => some (inputs.map fun _ => .misused m)
  | .ok (b, store) => go (b.parser rules limits store) inputs []
where
  /-- Start the parser on one input after the other, each with the scopes left by the last. -/
  go (p : Parser Value) : List Input → Scopes → Option (List Answer)
    | [], _ => some []
    | inp :: inputs, scopes =>
      match p.start mode inp scopes with
      | none => none
      | some (⟨.aborted m, _, _⟩, scopes) => (go p inputs scopes).map (.misused m :: ·)
      | some (report, scopes) => (go p inputs scopes).map (.ran report :: ·)

end Descent
