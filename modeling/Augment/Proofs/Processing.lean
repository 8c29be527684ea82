import Augment.Proofs.Discovery
import Augment.Source.Outline

/-!
# Runs answer all markers

Dealing with a declaration that was found is one answer, a processor deals with all declarations of
its kind, and a run is one processor after the other.  `Round.spelled_run` says what is left of all
this in the source: every class, at any depth, has answered to its markers in the order of the
processors.
-/

namespace Augment

namespace Round

variable {round : Round}

/-! ### Processors and runs -/

theorem Ready.advances_handle (ready : round.Ready) (memberNotes : Bool) {found : Annotated}
    (located : round.Locates found) :
    Advances found.answer round (round.handle memberNotes found).value := by
  rw [value_handle]
  by_cases accepted : found.accepted
  · have answer : found.answer = answerIn found.marker found.element := by
      funext unit decl
      rw [Annotated.answer, if_pos accepted]
    rw [if_pos accepted, answer]
    exact ready.advances_rewritten found.marker found.element
      (ready.narrow_of_locates located accepted)
  · have answer : found.answer = fun _ decl => decl := by
      funext unit decl
      rw [Annotated.answer, if_neg accepted]
    rw [if_neg accepted, answer]
    exact .refl ready

/-- Dealing with declarations one after the other is one change, which answers to all of them. -/
theorem Ready.advances_foldl_handle (ready : round.Ready) (memberNotes : Bool)
    (all : List Annotated) (located : ∀ found ∈ all, round.Locates found) :
    Advances (fun unit decl => all.foldl (fun decl found => found.answer unit decl) decl) round
      (all.foldl (fun round found => (round.handle memberNotes found).value) round) := by
  induction all generalizing round with
  | nil => exact .refl ready
  | cons found rest ih =>
    rw [List.forall_mem_cons] at located
    have first := ready.advances_handle memberNotes located.1
    exact first.trans (ih first.ready fun found hf => (located.2 found hf).advances first)

/-- **A processor makes every class respond to its kind.** -/
theorem Ready.advances_process (ready : round.Ready) (config : ProcessingConfig)
    (kind : MarkerKind) :
    Advances (fun _ decl => decl.respond kind) round (round.process config kind).value := by
  have value : (round.process config kind).value = (round.annotated kind).value.foldl
      (fun round found =>
        (round.handle (config.memberNotes && kind ≠ .noArgsConstructor) found).value) round := by
    rw [process, Traced.value_bind, Traced.value_foldlM]
  rw [value]
  refine (ready.advances_foldl_handle _ _ fun _ => ready.locates_of_mem_annotated).congr
    (fun _ => ClassDecl.local_respond kind) ?_
  intro unit tree slot decl mem
  exact ready.foldl_answer_draft kind slot mem

/-- **A run makes every class respond to all kinds in order.** -/
theorem Ready.advances_run (ready : round.Ready) (config : ProcessingConfig) :
    Advances (fun _ decl => config.processors.foldl ClassDecl.respond decl) round
      (round.run config).value := by
  have processors : ∀ (kinds : List MarkerKind) (round : Round), round.Ready →
      Advances (fun _ decl => kinds.foldl ClassDecl.respond decl) round
        (kinds.foldl (fun round kind => (round.runProcessor config kind).value) round) := by
    intro kinds
    induction kinds with
    | nil => exact fun round ready => .refl ready
    | cons kind rest ih =>
      intro round ready
      have first : Advances (fun _ decl => decl.respond kind) round
          (round.runProcessor config kind).value := ready.advances_process config kind
      exact first.trans (ih _ first.ready)
  have value : (round.run config).value = config.processors.foldl
      (fun round kind => (round.runProcessor config kind).value) round := by
    rw [run, Traced.value_bind, Traced.value_foldlM]
  rw [value]
  exact processors config.processors round ready

/-- What a run leaves of a slot: the lock stays, a unit that is not source code stays as it is, and
the source of any other reads as augmented source. -/
def Answered (kinds : List MarkerKind) (names names' : Names) (slot slot' : Slot) : Prop :=
  slot'.lock = slot.lock ∧
    if slot.tree.origin = .source then
      slot'.tree.spelled names' = (slot.tree.spelled names).augmented kinds
    else
      slot'.tree = slot.tree

/-- **A run is an augmentation of the source.** For a round that is ready, and for any list of
processors, every class of a source unit, at any depth and whatever else is to be done, has answered
to its own markers in the order of the processors; no other unit has changed. -/
theorem spelled_run (ready : round.Ready) (config : ProcessingConfig) :
    List.Forall₂
      (Answered config.processors round.maker.names (round.run config).value.maker.names)
      round.slots (round.run config).value.slots := by
  refine (ready.advances_run config).forall₂ ready fun tree tree' _ _ advances => ⟨rfl, ?_⟩
  split
  · rename_i source
    rw [CompilationUnit.spelled_eq, (advances.source (decide_eq_true source)).2,
      CompilationUnit.mapClasses_withoutId_respond]
  · rename_i notSource
    exact advances.other (decide_eq_false notSource)

/-- A class with two fields, two constructors and all sorts of markers, and with a class inside that
has a constructor marker of its own; and the same class in a library. -/
def markedCars : Round :=
  let program : Building (ClassDecl Symbol) := do
    let int ← Building.typeNamed "int"
    let price ← Building.field (← Building.name "price") int
    let empty ← Building.constructor (.ofAccess .publicAccess)
    let speed ← Building.field (← Building.name "speed") int
    let create ← Building.constructor .none [⟨price.name, int⟩]
    let part ← Building.type (← Building.name "Part") .classType .none
      [.noArgsConstructor .privateAccess]
    Building.type (← Building.name "Car") .classType .none
      [.noArgsConstructor .protectedAccess, .getter, .setter, .noArgsConstructor .publicAccess]
      [.field price, .method empty, .field speed, .method create, .nested part]
  let made := program {}
  let tree : Origin → CompilationUnit Symbol :=
    fun origin => { fileName := "Car.java", package := none, origin, types := [made.1] }
  { maker := made.2, slots := [⟨tree .source, .free⟩, ⟨tree .library, .free⟩] }

theorem ready_markedCars : markedCars.Ready where
  free := by decide
  distinct := by decide
  covers := by decide

/-- Each class answers to its own markers, for constructors to the first of them, and the library
stays as it is. -/
theorem spelled_run_nested :
    let after := (markedCars.run { processors := [.getter, .noArgsConstructor, .setter] }).value
    markedCars.Ready ∧
      List.Forall₂
        (Answered [.getter, .noArgsConstructor, .setter] markedCars.maker.names after.maker.names)
        markedCars.slots after.slots ∧
      after.slots.map (fun slot => slot.tree.outline after.maker.names) =
        [[("Car", ["price", "speed", "<init>/1", "Part", "getPrice", "getSpeed", "<init>/0",
              "setPrice", "setSpeed"]),
            ("Part", ["<init>/0"])],
          [("Car", ["price", "<init>/0", "speed", "<init>/1", "Part"]), ("Part", [])]] ∧
      after.slots.map (fun slot => slot.tree.classes.flatMap fun decl =>
          decl.constructors.map (·.modifiers)) =
        [[.none, .ofAccess .protectedAccess, .ofAccess .privateAccess],
          [.ofAccess .publicAccess, .none]] := by
  have answered := spelled_run ready_markedCars
    { processors := [.getter, .noArgsConstructor, .setter] }
  exact ⟨ready_markedCars, answered, by decide +kernel, by decide +kernel⟩

end Round

end Augment
