import Augment.Processing
import Augment.Sample
import Augment.Source.Printer

/-!
# The command line

The command augments the sample class `Car` and prints it.  Its options say which markers `Car`
carries and what is printed.  There are no other arguments, and each option may be given once.
-/

namespace Augment.CommandLine

/-- What the options ask for. -/
structure Options where
  getter : Bool := true
  setter : Bool := false
  constructor : Bool := true
  access : AccessLevel := .privateAccess
  quiet : Bool := false
  showBefore : Bool := false
deriving DecidableEq, Repr

/-- An option without a value. -/
inductive Flag where
  | noGetter
  | setter
  | noConstructor
  | quiet
  | showBefore
deriving DecidableEq, Repr

/-- What is given on a command line. -/
inductive Given where
  | flag (chosen : Flag)
  | access (level : AccessLevel)
deriving DecidableEq, Repr

namespace Given

/-- What two arguments have in common if only one of them may be given: the flag, or that they are
about access. -/
def key : Given → Option Flag
  | .flag chosen => some chosen
  | .access _ => none

end Given

/-- The flag of an argument. -/
def flag? : String → Option Flag
  | "--no-getter" => some .noGetter
  | "--setter" => some .setter
  | "--no-constructor" => some .noConstructor
  | "--quiet" => some .quiet
  | "--show-before" => some .showBefore
  | _ => none

/-- The level of the value of `--access`. -/
def access? : String → Option AccessLevel
  | "public" => some .publicAccess
  | "protected" => some .protectedAccess
  | "package" => some .packagePrivate
  | "private" => some .privateAccess
  | _ => none

/-- The value of an argument `--access=VALUE`. -/
def accessValue? (argument : String) : Option String :=
  let key := "--access=".toList
  if key.isPrefixOf argument.toList then
    some (String.ofList (argument.toList.drop key.length))
  else
    none

/-- Splits the arguments into options.  `--` ends the options, and nothing may come after it. -/
def split : List String → Option (List Given)
  | [] => some []
  | ["--"] => some []
  | "--access" :: value :: rest => do
    let level ← access? value
    return .access level :: (← split rest)
  | argument :: rest => do
    let given ←
      match accessValue? argument with
      | some value => (access? value).map .access
      | none => (flag? argument).map .flag
    return given :: (← split rest)

/-- The options with one more taken into account. -/
def Options.add (options : Options) : Given → Options
  | .flag .noGetter => { options with getter := false }
  | .flag .setter => { options with setter := true }
  | .flag .noConstructor => { options with constructor := false }
  | .flag .quiet => { options with quiet := true }
  | .flag .showBefore => { options with showBefore := true }
  | .access level => { options with access := level }

/-- Reads the arguments; no option may be given twice. -/
def parse? (arguments : List String) : Option Options := do
  let given ← split arguments
  guard (given.map Given.key).Nodup
  return given.foldl Options.add {}

namespace Options

/-- The markers that `Car` carries. -/
def markers (options : Options) : List Marker :=
  (if options.getter then [.getter] else []) ++ (if options.setter then [.setter] else []) ++
    (if options.constructor then [.noArgsConstructor options.access] else [])

/-- The processing options. -/
def config (options : Options) : ProcessingConfig :=
  { memberNotes := !options.quiet }

end Options

/-- What the command writes. -/
structure Output where
  stdout : String
  stderr : String
  /-- Whether the command failed after all. -/
  failed : Bool
deriving DecidableEq, Repr

/-- Augments `Car` as the options ask for. -/
def perform (options : Options) : Output :=
  let (before, maker) := (Sample.carUnit options.markers).run {}
  let layout : Layout := {}
  let shown :=
    if options.showBefore then
      "// before\n" ++ before.source layout maker.names ++ "// after\n"
    else
      ""
  let (unit, round) := Round.addUnit { maker } before
  let run := round.run options.config
  let report := Round.report options.config run
  let stderr := String.join (report.diagnostics.map (·.text ++ "\n"))
  match report.errors, run.value.tree unit with
  | [], .ok after =>
    { stdout := shown ++ after.source layout run.value.maker.names, stderr, failed := false }
  | [], .error error =>
    { stdout := shown, stderr := stderr ++ "Error: " ++ error.message ++ "\n", failed := true }
  | _ :: _, _ =>
    { stdout := shown, stderr := stderr ++ "Error: augmentation reported errors\n", failed := true }

end Augment.CommandLine
