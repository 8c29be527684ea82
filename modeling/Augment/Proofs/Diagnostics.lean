import Augment.Proofs.Report

/-!
# The diagnostics of a run

What a run says, entry by entry.  Each declaration that a processor finds has one `Entry`: a
refusal, or the announcement of a class together with notes on the accessors that the class is about
to get.  Whether accessors are noted decides which lines of an entry are issued (`Entry.lines`), and
nothing else: the entries of a run (`Round.entries`) and the round that it leaves (`Round.after`)
are said without that option, and `Round.diagnostics_run` says that every run issues the lines of
its entries, in order.

The entries of a processor are read off the round in which it starts, although each class is
rewritten before the next one is announced.  This is sound because rewrites leave the fields of all
classes alone (`Round.Advances.accessorNotes_eq`).
-/

namespace Augment

theorem Traced.diagnostics_bind {α β : Type} (first : Traced α) (next : α → Traced β) :
    (first >>= next).diagnostics = first.diagnostics ++ (next first.value).diagnostics :=
  List.filterMap_append

/-! ### Entries -/

/-- The note that a class is about to be rewritten. -/
def Annotated.announcement (names : Names) (found : Annotated) : Diagnostic :=
  .note ("Processing >> " ++ names.display found.element.name)

/-- The error about a marker on anything but a class. -/
def Annotated.misplaced (names : Names) (found : Annotated) : Diagnostic :=
  .error <|
    "annotation not supported: " ++ found.marker.kind.text ++ " on " ++ found.element.kind.text ++
      " `" ++ names.display found.element.name ++ "`, only classes can be augmented"

/-- What is said about a declaration that was found. -/
structure Entry where
  /-- The announcement or the refusal. -/
  head : Diagnostic
  /-- The notes on the accessors of an announced class. -/
  notes : List Diagnostic
deriving DecidableEq, Repr

/-- The lines of an entry that are issued: notes on accessors only if they are wanted. -/
def Entry.lines (memberNotes : Bool) (entry : Entry) : List Diagnostic :=
  entry.head :: if memberNotes then entry.notes else []

/-- What is said first about a declaration. -/
theorem Annotated.resolution_eq (names : Names) (found : Annotated) :
    found.resolution names =
      if found.accepted then found.announcement names else found.misplaced names := rfl

/-- The name of the accessor that a processor makes for a field, if it makes accessors. -/
def MarkerKind.accessor? : MarkerKind → String → Option String
  | getter, field => some ("get" ++ Naming.capitalized field)
  | setter, field => some ("set" ++ Naming.capitalized field)
  | noArgsConstructor, _ => none

/-- One note for each accessor of a class, in the order of its own fields. -/
def ClassDecl.accessorNotes (names : Names) (kind : MarkerKind) (decl : ClassDecl Symbol) :
    List Diagnostic :=
  decl.fields.filterMap fun field => (kind.accessor? (names.display field.name)).map .note

namespace Round

/-- The class of an element, if its unit is source code. -/
def sourceClass? (round : Round) (element : Element) : Option (ClassDecl Symbol) := do
  let slot ← round.slots[element.unit.index]?
  if slot.tree.origin = .source then slot.tree.postorder.find? (·.id = element.decl) else none

/-- The notes on the accessors of an element; only classes in source code get accessors. -/
def accessorNotes (round : Round) (kind : MarkerKind) (element : Element) : List Diagnostic :=
  (round.sourceClass? element).elim [] (ClassDecl.accessorNotes round.maker.names kind)

/-- **The entry of a declaration.** A class in the narrow sense is announced, and anything else is
refused. -/
def entry (round : Round) (found : Annotated) : Entry :=
  if found.element.kind = .type .classType then
    { head := found.announcement round.maker.names
      notes := round.accessorNotes found.marker.kind found.element }
  else
    { head := found.misplaced round.maker.names, notes := [] }

/-- The entries of a processor that starts in this round. -/
def entriesOf (kind : MarkerKind) (round : Round) : List Entry :=
  (round.annotated kind).value.map round.entry

/-- The round that processors for these kinds leave. -/
def after : List MarkerKind → Round → Round
  | [], round => round
  | kind :: rest, round => after rest (round.process {} kind).value

/-- **The entries of a run:** those of its first processor, and then those of the others, which
start in the round that the first one has left. -/
def entries : List MarkerKind → Round → List Entry
  | [], _ => []
  | kind :: rest, round => round.entriesOf kind ++ entries rest (round.after [kind])

end Round

/-! ### Notes on accessors -/

theorem ClassDecl.accessorNotes_eq (names : Names) (kind : MarkerKind) (decl : ClassDecl Symbol) :
    decl.accessorNotes names kind =
      (decl.draft names).fields.filterMap fun field => (kind.accessor? field.name).map .note := by
  rw [accessorNotes, ClassDecl.fields_draft, List.filterMap_map]
  rfl

/-- **The names of the new accessors** are those that the kind of the marker gives. -/
theorem Marker.map_name_additions (marker : Marker) (makes : marker.kind ≠ .noArgsConstructor)
    (fields : List (FieldDecl String)) :
    (marker.additions fields).map (·.name) =
      fields.filterMap fun field => marker.kind.accessor? field.name := by
  cases marker with
  | getter =>
    rw [additions, List.map_map, ← List.filterMap_eq_map]
    rfl
  | setter =>
    rw [additions, List.map_map, ← List.filterMap_eq_map]
    rfl
  | noArgsConstructor access => exact absurd rfl makes

/-- What a strategy says it made is spelled like the accessors of the class. -/
theorem Marker.map_note_generated (marker : Marker) (makes : marker.kind ≠ .noArgsConstructor)
    (decl : ClassDecl Symbol) (maker : Maker) (covers : maker.names.Covers decl.nodes) :
    (marker.strategy decl maker).1.generated.map
        (fun name => .note ((marker.strategy decl maker).2.names.display name)) =
      decl.accessorNotes maker.names marker.kind := by
  obtain ⟨made, -, -, generated, spells⟩ := marker.strategy_spec decl maker
  have spelled := (spells fun field hf s hs =>
    covers _ (ClassDecl.field_mem_nodes hf) s hs).spelled
  have spelledNames := congrArg (List.map MethodDecl.name) spelled
  rw [List.map_map, Marker.map_name_additions marker makes, List.filterMap_map] at spelledNames
  have each : made.map (fun decl' => (marker.strategy decl maker).2.names.display decl'.name) =
      decl.fields.filterMap fun field =>
        marker.kind.accessor? (maker.names.display field.name) := spelledNames
  calc _ = (made.map fun decl' =>
        (marker.strategy decl maker).2.names.display decl'.name).map Diagnostic.note := by
          rw [generated, List.map_map, List.map_map]
          rfl
    _ = _ := by
      rw [each, List.map_filterMap]
      rfl

/-! ### Fields stay -/

namespace ClassDecl

/-- The change of a class keeps its id, its fields and the classes nested in it. -/
structure KeepsFields (f : ClassDecl String → ClassDecl String) : Prop where
  id : ∀ decl, (f decl).id = decl.id
  fields : ∀ decl, (f decl).fields = decl.fields
  nested : ∀ decl, (f decl).nested = decl.nested

theorem keepsFields_augmentedBy (marker : Marker) : KeepsFields (augmentedBy marker) where
  id _ := rfl
  fields decl := by
    have methods : ((marker.additions decl.fields).map Member.method).filterMap Member.field? =
        [] := by simp [Member.field?]
    rw [ClassDecl.fields, augmentedBy, List.filterMap_append, Marker.kept_filterMap fun _ => rfl,
      methods,
      List.append_nil, ClassDecl.fields]
  nested := nested_augmentedBy marker

theorem keepsFields_self : KeepsFields fun decl => decl :=
  ⟨fun _ => rfl, fun _ => rfl, fun _ => rfl⟩

/-- A change that is made to some classes only. -/
theorem KeepsFields.ite {f : ClassDecl String → ClassDecl String} (h : KeepsFields f)
    (p : ClassDecl String → Prop) [DecidablePred p] :
    KeepsFields fun decl => if p decl then f decl else decl := by
  constructor
  · intro decl
    split
    · exact h.id decl
    · rfl
  · intro decl
    split
    · exact h.fields decl
    · rfl
  · intro decl
    split
    · exact h.nested decl
    · rfl

theorem keepsFields_answer (found : Annotated) (unit : UnitId) :
    KeepsFields (found.answer unit) := by
  have answered : KeepsFields (Round.answerIn found.marker found.element unit) := by
    unfold Round.answerIn
    split
    · exact (keepsFields_augmentedBy found.marker).ite (·.id = found.element.decl)
    · exact keepsFields_self
  exact answered.ite fun _ => found.accepted

variable {f : ClassDecl String → ClassDecl String}

theorem id_mapClasses (keeps : KeepsFields f) (decl : ClassDecl String) :
    (decl.mapClasses f).id = decl.id := by
  rw [mapClasses_eq, keeps.id, id_mapNested]

theorem fields_mapClasses (keeps : KeepsFields f) (decl : ClassDecl String) :
    (decl.mapClasses f).fields = decl.fields := by
  rw [mapClasses_eq, keeps.fields, fields_mapNested]

end ClassDecl

/-- A class of a draft is found where it is found in the tree. -/
theorem CompilationUnit.find?_postorder_draft (names : Names) (tree : CompilationUnit Symbol)
    (target : DeclId) :
    (tree.draft names).postorder.find? (·.id = target) =
      (tree.postorder.find? (·.id = target)).map (ClassDecl.draft names) := by
  rw [CompilationUnit.postorder_draft, List.find?_map]
  congr 2
  funext decl
  simp

/-- **The fields of a class are the same after a change that keeps fields,** as far as their
spelling goes. -/
theorem CompilationUnit.map_accessorNotes_of_draft {names names' : Names}
    {tree tree' : CompilationUnit Symbol} {f : ClassDecl String → ClassDecl String}
    (keeps : ClassDecl.KeepsFields f)
    (draft : tree'.draft names' = (tree.draft names).mapClasses f) (kind : MarkerKind)
    (target : DeclId) :
    (tree'.postorder.find? (·.id = target)).map (ClassDecl.accessorNotes names' kind) =
      (tree.postorder.find? (·.id = target)).map (ClassDecl.accessorNotes names kind) := by
  -- in the drafts, the classes correspond to each other and have the same fields
  have drafts : (tree'.draft names').postorder.find? (·.id = target) =
      ((tree.draft names).postorder.find? (·.id = target)).map (ClassDecl.mapClasses f) := by
    rw [draft, CompilationUnit.postorder_mapClasses keeps.nested, List.find?_map]
    congr 2
    funext decl
    simp [ClassDecl.id_mapClasses keeps]
  rw [CompilationUnit.find?_postorder_draft, CompilationUnit.find?_postorder_draft] at drafts
  have notes := congrArg (Option.map fun decl : ClassDecl String =>
    decl.fields.filterMap fun field => (kind.accessor? field.name).map Diagnostic.note) drafts
  simp only [Option.map_map] at notes
  have left : ClassDecl.accessorNotes names' kind = fun decl : ClassDecl Symbol =>
      (decl.draft names').fields.filterMap fun field =>
        (kind.accessor? field.name).map Diagnostic.note :=
    funext fun decl => ClassDecl.accessorNotes_eq names' kind decl
  have right : ClassDecl.accessorNotes names kind = fun decl : ClassDecl Symbol =>
      ((decl.draft names).mapClasses f).fields.filterMap fun field =>
        (kind.accessor? field.name).map Diagnostic.note := by
    funext decl
    rw [ClassDecl.fields_mapClasses keeps, ClassDecl.accessorNotes_eq]
  rw [left, right]
  exact notes

namespace Round

variable {round round' : Round} {found : Annotated}

theorem sourceClass?_of_none {element : Element} (slot : round.slots[element.unit.index]? = none) :
    round.sourceClass? element = none := by
  rw [sourceClass?, slot]
  rfl

theorem sourceClass?_of_some {element : Element} {tree : CompilationUnit Symbol} {lock : Lock}
    (slot : round.slots[element.unit.index]? = some ⟨tree, lock⟩) :
    round.sourceClass? element =
      if tree.origin = .source then tree.postorder.find? (·.id = element.decl) else none := by
  rw [sourceClass?, slot]
  rfl

/-- **Notes on accessors can be made at any time,** before or after other classes change. -/
theorem Advances.accessorNotes_eq {change : UnitId → ClassDecl String → ClassDecl String}
    (ready : round.Ready) (h : Advances change round round')
    (keeps : ∀ unit, ClassDecl.KeepsFields (change unit)) (kind : MarkerKind) (element : Element) :
    round'.accessorNotes kind element = round.accessorNotes kind element := by
  have view : ∀ (names : Names) (decl? : Option (ClassDecl Symbol)),
      decl?.elim [] (ClassDecl.accessorNotes names kind) =
        (decl?.map (ClassDecl.accessorNotes names kind)).getD [] := by
    intro names decl?
    cases decl? <;> rfl
  rw [accessorNotes, accessorNotes, view, view]
  refine congrArg (Option.getD · []) ?_
  by_cases bound : element.unit.index < round.slots.length
  · have slot := ready.getElem?_eq bound
    obtain ⟨tree', slot', advances⟩ := h.tree element.unit _ slot
    rw [sourceClass?_of_some slot', sourceClass?_of_some slot]
    by_cases source : round.slots[element.unit.index].tree.origin = .source
    · obtain ⟨source', draft⟩ := advances.source (decide_eq_true source)
      rw [if_pos (of_decide_eq_true source'), if_pos source]
      exact CompilationUnit.map_accessorNotes_of_draft (keeps _) draft kind element.decl
    · have same := advances.other (decide_eq_false source)
      rw [same, if_neg source]
      rfl
  · -- there is no such unit, neither before nor after
    have outside : round.slots.length ≤ element.unit.index := Nat.le_of_not_lt bound
    have outside' : round'.slots.length ≤ element.unit.index := h.size ▸ outside
    rw [sourceClass?_of_none (List.getElem?_eq_none outside'),
      sourceClass?_of_none (List.getElem?_eq_none outside)]
    rfl

theorem Advances.entry_eq {change : UnitId → ClassDecl String → ClassDecl String}
    (ready : round.Ready) (h : Advances change round round')
    (keeps : ∀ unit, ClassDecl.KeepsFields (change unit))
    (known : round.maker.names.Knows found.element.name) :
    round'.entry found = round.entry found := by
  have name : round'.maker.names.display found.element.name =
      round.maker.names.display found.element.name :=
    Names.display_of_le (Maker.names_le h.grows) known
  unfold entry Annotated.announcement Annotated.misplaced
  rw [name, h.accessorNotes_eq ready keeps]

/-! ### What is issued -/

/-- **What becomes of an accepted class in a free unit,** and what is logged on the way. -/
theorem augment_of_free {tree : CompilationUnit Symbol} (memberNotes : Bool)
    (slot : round.slots[found.element.unit.index]? = some ⟨tree, .free⟩)
    {edited : Traced (Edited Outcome)}
    (change : tree.rewrite found.marker.strategy found.element.decl round.maker = edited) :
    round.augment memberNotes found =
      { value := { maker := edited.value.maker
                   slots := round.slots.set found.element.unit.index ⟨edited.value.tree, .free⟩ }
        events := .checkedOut found.element.unit ::
            (edited.events ++ [.released found.element.unit]) ++
          edited.value.result.events edited.value.maker.names memberNotes found.element } := by
  unfold augment
  rw [rewrite_of_free slot change]
  refine congrArg (Traced.mk _) ?_
  exact congrArg _ (List.append_nil _)

/-- **The rewrite of a class issues the notes of its entry,** if notes are wanted and the class gets
accessors. -/
theorem Ready.diagnostics_augment (ready : round.Ready) (memberNotes : Bool)
    (located : round.Locates found) (accepted : found.accepted) :
    (round.augment (memberNotes && found.marker.kind ≠ .noArgsConstructor) found).diagnostics =
      if memberNotes then round.accessorNotes found.marker.kind found.element else [] := by
  obtain ⟨tree, slot, decl, hd, id, -⟩ := located accepted
  have class? := sourceClass?_of_some slot
  rw [accessorNotes]
  by_cases source : tree.origin = .source
  · have isSource : tree.isPrimarySource = true := decide_eq_true source
    obtain ⟨old, tree', replaces⟩ := CompilationUnit.exists_replacesFirst
      (found.marker.strategy.replaced round.maker) tree ⟨decl, hd, id⟩
    have inside : round.maker.names.Covers old.nodes := by
      have here := ready.covers_tree (List.mem_of_getElem? slot)
      obtain ⟨before, after, nodes, -⟩ := replaces.nodes_eq
      exact here.subset fun node hn => by simp [nodes, hn]
    rw [if_pos source, replaces.find?_postorder] at class?
    rw [augment_of_free _ slot (CompilationUnit.rewrite_of_replacesFirst isSource replaces), class?]
    have quiet := found.marker.filterMap_diagnostic?_strategy old round.maker
    simp only [Traced.diagnostics, List.cons_append, List.filterMap_append, List.filterMap_cons,
      List.filterMap_nil, Event.diagnostic?, quiet, Outcome.events, List.nil_append]
    by_cases makes : found.marker.kind = .noArgsConstructor
    · -- constructors get no notes
      have none : old.accessorNotes round.maker.names .noArgsConstructor = [] :=
        List.filterMap_eq_nil_iff.mpr fun _ _ => rfl
      simp [makes, none]
    · have notes := Marker.map_note_generated found.marker makes old round.maker inside
      cases memberNotes with
      | false => rfl
      | true => simp [makes, ← notes, List.filterMap_map, Function.comp_def, Event.diagnostic?]
  · rw [if_neg source] at class?
    rw [augment_of_free _ slot (CompilationUnit.rewrite_of_not_source found.marker.strategy
      found.element.decl round.maker (decide_eq_false source)), class?]
    exact (ite_self _).symm

/-- A declaration is announced or refused first, and then rewritten if it was announced. -/
theorem diagnostics_handle (memberNotes : Bool) (round : Round) (found : Annotated) :
    (round.handle memberNotes found).diagnostics =
      found.resolution round.maker.names ::
        if found.accepted then (round.augment memberNotes found).diagnostics else [] := by
  have resolved : (round.handle memberNotes found).diagnostics =
      found.resolution round.maker.names ::
        (if found.accepted then round.augment memberNotes found
        else return round : Traced Round).diagnostics := rfl
  rw [resolved]
  split
  · rfl
  · rfl

/-- **Dealing with a declaration issues the lines of its entry.** -/
theorem Ready.diagnostics_handle (ready : round.Ready) (memberNotes : Bool)
    (located : round.Locates found) :
    (round.handle (memberNotes && found.marker.kind ≠ .noArgsConstructor) found).diagnostics =
      (round.entry found).lines memberNotes := by
  rw [Round.diagnostics_handle, Annotated.resolution_eq]
  unfold Entry.lines entry
  by_cases accepted : found.accepted
  · have isClass := Annotated.accepted_iff.mp accepted
    rw [if_pos accepted, if_pos accepted, if_pos isClass,
      ready.diagnostics_augment memberNotes located accepted]
  · have other := mt Annotated.accepted_iff.mpr accepted
    rw [if_neg accepted, if_neg accepted, if_neg other]
    exact congrArg _ (ite_self _).symm

/-- The lines on the way through the declarations that were found are those of their entries in the
round in which they were found. -/
theorem Ready.diagnostics_foldlM_handle (ready : round.Ready) (memberNotes : Bool)
    (kind : MarkerKind) (all : List Annotated) (located : ∀ found ∈ all, round.Locates found)
    (known : ∀ found ∈ all, round.maker.names.Knows found.element.name)
    (same : ∀ found ∈ all, found.marker.kind = kind) :
    (all.foldlM (handle (memberNotes && kind ≠ .noArgsConstructor)) round).diagnostics =
      all.flatMap fun found => (round.entry found).lines memberNotes := by
  induction all generalizing round with
  | nil => rfl
  | cons found rest ih =>
    rw [List.forall_mem_cons] at located known same
    have first := ready.advances_handle (memberNotes && kind ≠ .noArgsConstructor) located.1
    have le := Maker.names_le first.grows
    have later := ih first.ready (fun found hf => (located.2 found hf).advances first)
      (fun found hf => (known.2 found hf).mono le) same.2
    -- the entries of the others are the same before and after this class is rewritten
    have entries : ∀ other ∈ rest,
        (round.handle (memberNotes && kind ≠ .noArgsConstructor) found).value.entry other =
          round.entry other := fun other ho =>
      first.entry_eq ready (ClassDecl.keepsFields_answer found) (known.2 other ho)
    have here := ready.diagnostics_handle memberNotes located.1
    rw [same.1] at here
    rw [List.foldlM_cons, Traced.diagnostics_bind, here, later, List.flatMap_cons]
    refine congrArg _ (List.flatMap_congr fun other ho => ?_)
    rw [entries other ho]

theorem kind_of_mem_annotated {kind : MarkerKind} (h : found ∈ (round.annotated kind).value) :
    found.marker.kind = kind := by
  rw [value_annotated] at h
  obtain ⟨unit, -, hf⟩ := List.mem_flatMap.mp h
  unfold annotatedIn at hf
  split at hf
  · rw [Traced.value_pure, CompilationUnit.annotated_eq] at hf
    obtain ⟨node, -, hf⟩ := List.mem_filterMap.mp hf
    obtain ⟨marker, first, rfl⟩ := Option.map_eq_some_iff.mp hf
    exact Marker.kind_of_first? first
  · cases hf

/-- **A processor issues the lines of the entries** of the round in which it starts. -/
theorem Ready.diagnostics_process (ready : round.Ready) (config : ProcessingConfig)
    (kind : MarkerKind) :
    (round.process config kind).diagnostics =
      (round.entriesOf kind).flatMap (Entry.lines config.memberNotes) := by
  have found := ready.diagnostics_foldlM_handle config.memberNotes kind
    (round.annotated kind).value (fun _ => ready.locates_of_mem_annotated)
    (fun _ => ready.knows_of_mem_annotated) fun _ => kind_of_mem_annotated
  rw [process, Traced.diagnostics_bind, diagnostics_annotated, List.nil_append, found, entriesOf,
    List.flatMap_map]

/-! ### Runs -/

/-- Notes make no difference to what a processor leaves. -/
theorem value_process (config : ProcessingConfig) (round : Round) (kind : MarkerKind) :
    (round.process config kind).value = round.after [kind] := by
  have step : ∀ memberNotes memberNotes' : Bool,
      (fun round found => (handle memberNotes round found).value) =
        fun round found => (handle memberNotes' round found).value := by
    intro memberNotes memberNotes'
    funext round found
    rw [value_handle, value_handle]
  have value : ∀ config : ProcessingConfig, (round.process config kind).value =
      (round.annotated kind).value.foldl
        (fun round found => (handle (config.memberNotes && kind ≠ .noArgsConstructor)
          round found).value) round := by
    intro config
    rw [process, Traced.value_bind, Traced.value_foldlM]
  unfold after after
  rw [value config, value {}, step]

theorem after_cons (kind : MarkerKind) (rest : List MarkerKind) (round : Round) :
    round.after (kind :: rest) = (round.after [kind]).after rest := rfl

/-- **What a run leaves and what it says.** The round that it leaves and the entries that it goes
through do not depend on whether accessors are noted.  Its diagnostics are the lines of the entries,
for each processor in order those of the declarations that are found when it starts, and nothing
else. -/
theorem diagnostics_run (ready : round.Ready) (config : ProcessingConfig) :
    (round.run config).value = round.after config.processors ∧
      (report config (round.run config)).diagnostics =
        (round.entries config.processors).flatMap (Entry.lines config.memberNotes) := by
  have processors : ∀ (kinds : List MarkerKind) (round : Round), round.Ready →
      (kinds.foldlM (runProcessor config) round).value = round.after kinds ∧
        (kinds.foldlM (runProcessor config) round).diagnostics =
          (round.entries kinds).flatMap (Entry.lines config.memberNotes) := by
    intro kinds
    induction kinds with
    | nil => exact fun round _ => ⟨rfl, rfl⟩
    | cons kind rest ih =>
      intro round ready
      have left : (round.runProcessor config kind).value = round.after [kind] :=
        value_process config round kind
      have said : (round.runProcessor config kind).diagnostics =
          (round.entriesOf kind).flatMap (Entry.lines config.memberNotes) :=
        ready.diagnostics_process config kind
      have next : (round.after [kind]).Ready := by
        rw [← left]
        exact (ready.advances_process config kind).ready
      obtain ⟨value, diagnostics⟩ := ih (round.after [kind]) next
      rw [List.foldlM_cons, Traced.value_bind, Traced.diagnostics_bind, left, said, value,
        diagnostics, after_cons, entries, List.flatMap_append]
      exact ⟨rfl, rfl⟩
  exact processors config.processors round ready

/-- An interface with a getter marker, and a class with such a marker, a field that has a setter
marker and a class inside, which has two fields and both markers. -/
def markedShapes : Round :=
  let program : Building (CompilationUnit Symbol) := do
    let int ← Building.typeNamed "int"
    let shape ← Building.type (← Building.name "Shape") .interfaceType .none [.getter]
    let speed ← Building.field (← Building.name "speed") int
    let isOn ← Building.field (← Building.name "isOn") int
    let engine ← Building.type (← Building.name "Engine") .classType .none [.getter, .setter]
      [.field speed, .field isOn]
    let price ← Building.field (← Building.name "price") int .none [.setter]
    let car ← Building.type (← Building.name "Car") .classType .none [.getter]
      [.field price, .nested engine]
    return { fileName := "Car.java", package := none, origin := .source, types := [shape, car] }
  { maker := (program {}).2, slots := [⟨(program {}).1, .free⟩] }

theorem ready_markedShapes : markedShapes.Ready where
  free := by decide
  distinct := by decide
  covers := by decide

/-- Each class is announced right before its accessors are noted, getters or setters; the interface
and the field are refused. -/
theorem diagnostics_run_markedShapes :
    markedShapes.Ready ∧
      (report { processors := [.getter, .setter] }
          (markedShapes.run { processors := [.getter, .setter] })).diagnostics =
        [⟨.error, "annotation not supported: @Getter on interface `Shape`, " ++
            "only classes can be augmented"⟩,
          ⟨.note, "Processing >> Car"⟩, ⟨.note, "getPrice"⟩,
          ⟨.note, "Processing >> Engine"⟩, ⟨.note, "getSpeed"⟩, ⟨.note, "getIsOn"⟩,
          ⟨.error, "annotation not supported: @Setter on field `price`, " ++
            "only classes can be augmented"⟩,
          ⟨.note, "Processing >> Engine"⟩, ⟨.note, "setSpeed"⟩, ⟨.note, "setIsOn"⟩] := by
  refine ⟨ready_markedShapes, ?_⟩
  rw [(diagnostics_run ready_markedShapes { processors := [.getter, .setter] }).2]
  decide +kernel

end Round

end Augment
