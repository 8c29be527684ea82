import Augment.Discovery
import Augment.Rewriting

/-!
# Processing a round

A run goes through the configured kinds of markers in order.  For each kind it lists the marked
declarations of the round as it then is, and takes them one by one: a class is announced and
rewritten by the strategy of its marker, anything else is refused (`Annotated.resolve`).  Whatever
goes wrong becomes a diagnostic, so a run always completes.
-/

namespace Augment

/-- Which processors run and how much they say. -/
structure ProcessingConfig where
  /-- Whether each accessor that is made gets a note. -/
  memberNotes : Bool := true
  /-- The kinds of markers to process, in order. -/
  processors : List MarkerKind := [.getter, .setter, .noArgsConstructor]
deriving DecidableEq, Repr

instance : Inhabited ProcessingConfig := ⟨{}⟩

/-- What a run has to say. -/
structure Report where
  diagnostics : List Diagnostic
  /-- The kinds of markers that were claimed by a processor, in order. -/
  claimed : List MarkerKind
deriving DecidableEq, Repr

namespace Report

/-- Diagnostics are advice, so a run always succeeds. -/
def success (_ : Report) : Bool := true

/-- The errors among the diagnostics. -/
def errors (report : Report) : List Diagnostic :=
  report.diagnostics.filter (·.severity = .error)

/-- The notes among the diagnostics. -/
def notes (report : Report) : List Diagnostic :=
  report.diagnostics.filter (·.severity = .note)

end Report

/-! ### One declaration -/

namespace Annotated

/-- Whether the declaration can be augmented. -/
def accepted (found : Annotated) : Bool :=
  found.element.isClass

/-- The announcement or the refusal of a declaration. -/
def resolution (names : Names) (found : Annotated) : Diagnostic :=
  let name := names.display found.element.name
  if found.accepted then
    .note ("Processing >> " ++ name)
  else
    .error <|
      "annotation not supported: " ++ found.marker.kind.text ++ " on " ++
        found.element.kind.text ++ " `" ++ name ++ "`, only classes can be augmented"

/-- Announces or refuses a declaration, and answers whether it can be augmented. -/
def resolve (names : Names) (found : Annotated) : Traced Bool := do
  Traced.report (found.resolution names)
  return found.accepted

end Annotated

/-- What is logged and issued about the outcome of a rewrite. -/
def Outcome.events (names : Names) (memberNotes : Bool) (element : Element) : Outcome → List Event
  | rewritten decl generated =>
    .rewrote (names.display decl) generated.length ::
      if memberNotes then generated.map fun name => .reported (.note (names.display name)) else []
  | notFound =>
    [.reported <| .error <|
      "could not locate class `" ++ names.display element.name ++ "` in its compilation unit"]
  | outcome => [.leftUnchanged outcome]

namespace Round

/-- Rewrites an accepted class and says what became of it. -/
def augment (round : Round) (memberNotes : Bool) (found : Annotated) : Traced Round :=
  match round.rewrite (some found.marker.strategy) found.element with
  | .ok rewriting => do
    let (round, outcome) ← rewriting
    Traced.emit (outcome.events round.maker.names memberNotes found.element)
    return round
  | .error error => do
    let name := round.maker.names.display found.element.name
    Traced.report (.error ("failed to rewrite `" ++ name ++ "`: " ++ error.message))
    return round

/-- Deals with one marked declaration. -/
def handle (memberNotes : Bool) (round : Round) (found : Annotated) : Traced Round := do
  if ← found.resolve round.maker.names then
    round.augment memberNotes found
  else
    return round

/-- Deals with all declarations that are marked with a kind.  A constructor gets no note. -/
def process (config : ProcessingConfig) (round : Round) (kind : MarkerKind) : Traced Round := do
  let found ← round.annotated kind
  let memberNotes := config.memberNotes && kind ≠ .noArgsConstructor
  found.foldlM (handle memberNotes) round

/-- Runs one processor of a run. -/
def runProcessor (config : ProcessingConfig) (round : Round) (kind : MarkerKind) :
    Traced Round := do
  Traced.emit [.processorStarted kind]
  round.process config kind

/-- Runs the configured processors one after the other. -/
def run (config : ProcessingConfig) (round : Round) : Traced Round := do
  Traced.emit [.roundStarted round.size]
  config.processors.foldlM (runProcessor config) round

/-- The report of a run: its diagnostics, and all its kinds, since each has a processor. -/
def report (config : ProcessingConfig) (run : Traced Round) : Report where
  diagnostics := run.diagnostics
  claimed := config.processors

end Round

end Augment
