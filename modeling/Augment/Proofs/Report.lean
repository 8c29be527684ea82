import Augment.Proofs.Processing
import Augment.Proofs.Refusals

/-!
# What a run reports

A run on a round that is ready succeeds with every rewrite it starts, so its errors are refusals.  A
processor refuses the declarations that carry its marker when its turn comes; by then a processor
for constructors may have deleted some of them.  `Round.errors_run` balances the account: the errors
of a run and the refusals that were lost (`Round.lost`) are together the refusals of the round as it
was before the run, and nothing is lost exactly if no processor comes too late
(`Round.LosesMarker`).
-/

namespace Augment

open scoped List

/-! ### Errors among events -/

/-- The errors among what was logged, in order. -/
def Event.errors (events : List Event) : List Diagnostic :=
  (events.filterMap Event.diagnostic?).filter (·.severity = .error)

@[simp] theorem Event.errors_append (left right : List Event) :
    Event.errors (left ++ right) = Event.errors left ++ Event.errors right := by
  simp [Event.errors]

theorem Event.errors_cons (event : Event) (rest : List Event) :
    Event.errors (event :: rest) = Event.errors [event] ++ Event.errors rest :=
  Event.errors_append [event] rest

theorem Traced.events_mapM {α β : Type} (f : α → Traced β) (items : List α) :
    (items.mapM f).events = items.flatMap fun item => (f item).events := by
  induction items with
  | nil => rfl
  | cons item rest ih => simp [List.mapM_cons, ih]

/-- Strategies issue no diagnostics. -/
theorem Marker.filterMap_diagnostic?_strategy (marker : Marker) (decl : ClassDecl Symbol)
    (maker : Maker) :
    (marker.strategy decl maker).1.events.filterMap Event.diagnostic? = [] := by
  cases marker <;> rfl

theorem Marker.errors_strategy (marker : Marker) (decl : ClassDecl Symbol) (maker : Maker) :
    Event.errors (marker.strategy decl maker).1.events = [] :=
  congrArg (List.filter _) (marker.filterMap_diagnostic?_strategy decl maker)

/-- The outcome of a rewrite that found its class is no error. -/
theorem Outcome.errors_events (names : Names) (memberNotes : Bool) (element : Element)
    {outcome : Outcome} (found : outcome ≠ .notFound) :
    Event.errors (outcome.events names memberNotes element) = [] := by
  cases outcome with
  | notConfigured => rfl
  | skippedOrigin => rfl
  | notFound => exact absurd rfl found
  | rewritten decl generated =>
    rw [events, Event.errors_cons]
    split
    · simp [Event.errors, Event.diagnostic?, Diagnostic.note]
    · rfl

/-! ### Declarations that were found -/

/-- The refusal of a declaration that was found. -/
def Annotated.refusal? (names : Names) (found : Annotated) : Option Diagnostic :=
  if found.accepted then none else some (found.resolution names)

theorem Node.refusal?_of_annotated? (names : Names) (kind : MarkerKind) (unit : UnitId)
    (node : Node Symbol) :
    (node.annotated? kind unit).bind (Annotated.refusal? names) =
      node.refusal? names.display kind := by
  cases first : Marker.first? kind node.markers with
  | none =>
    have unmarked : ¬∃ marker ∈ node.markers, marker.kind = kind := by
      rw [← Marker.isSome_first?_iff, first]
      simp
    rw [annotated?, first, refusal?, if_neg fun h => unmarked h.2]
    rfl
  | some marker =>
    have marked : ∃ marker ∈ node.markers, marker.kind = kind :=
      Marker.isSome_first?_iff.mp (by rw [first]; rfl)
    have same : marker.kind = kind := Marker.kind_of_first? first
    have accepted : ({ element := ⟨unit, node.id, node.elementKind, node.name⟩
                       marker := marker } : Annotated).accepted ↔
        node.elementKind = .type .classType := Annotated.accepted_iff
    rw [annotated?, first, Option.map_some, Option.bind_some]
    by_cases isClass : node.elementKind = .type .classType
    · rw [Annotated.refusal?, if_pos (accepted.mpr isClass), refusal?, if_neg fun h => h.1 isClass]
    · rw [Annotated.refusal?, if_neg (mt accepted.mp isClass), refusal?, if_pos ⟨isClass, marked⟩]
      refine congrArg some ((if_neg (mt accepted.mp isClass)).trans ?_)
      rw [same]
      rfl

namespace Round

variable {round : Round}

/-- **What is found and refused** are the declarations that are to be refused. -/
theorem Ready.filterMap_annotated (ready : round.Ready) (kind : MarkerKind) (names : Names) :
    (round.annotated kind).value.filterMap (Annotated.refusal? names) =
      round.nodes.filterMap (Node.refusal? names.display kind) := by
  have units : round.unitIds.map (fun unit =>
      (round.annotatedIn kind unit).value.filterMap (Annotated.refusal? names)) =
        round.slots.map fun slot => slot.tree.refusals names.display kind := by
    refine List.ext_getElem (by simp [unitIds, size]) fun index bound bound' => ?_
    have inside : index < round.slots.length := by simpa using bound'
    simp only [unitIds, List.getElem_map, List.getElem_range]
    rw [value_annotatedIn kind (ready.getElem?_eq inside), CompilationUnit.annotated_eq,
      List.filterMap_filterMap, CompilationUnit.refusals]
    exact List.filterMap_congr fun node _ => node.refusal?_of_annotated? names kind _
  rw [value_annotated, List.filterMap_flatMap, nodes, List.filterMap_flatMap, List.flatMap_def,
    List.flatMap_def, units]
  rfl

end Round

/-! ### Rewrites that succeed -/

/-- A class that is there is found, and its rewrite issues no errors. -/
theorem CompilationUnit.errors_rewrite {tree : CompilationUnit Symbol} (marker : Marker)
    (target : DeclId) (maker : Maker) (present : ∃ c ∈ tree.postorder, c.id = target) :
    Event.errors (tree.rewrite marker.strategy target maker).events = [] ∧
      (tree.rewrite marker.strategy target maker).value.result ≠ .notFound := by
  by_cases source : tree.isPrimarySource
  · obtain ⟨old, tree', replaces⟩ :=
      CompilationUnit.exists_replacesFirst (marker.strategy.replaced maker) tree present
    rw [rewrite_of_replacesFirst source replaces, Event.errors_append, marker.errors_strategy]
    exact ⟨rfl, by simp⟩
  · rw [rewrite_of_not_source marker.strategy target maker (by simpa using source)]
    exact ⟨rfl, by simp⟩

namespace Round

variable {round : Round} {found : Annotated}

theorem errors_augment (memberNotes : Bool) (located : round.Locates found)
    (accepted : found.accepted) :
    Event.errors (round.augment memberNotes found).events = [] := by
  obtain ⟨tree, slot, decl, hd, id, -⟩ := located accepted
  obtain ⟨quiet, outcome⟩ := CompilationUnit.errors_rewrite found.marker found.element.decl
    round.maker ⟨decl, hd, id⟩
  unfold augment
  rw [rewrite_of_free slot rfl]
  simp only [Traced.events_bind, Traced.events_emit, Traced.events_pure, Event.errors_append,
    Outcome.errors_events _ memberNotes found.element outcome, List.append_nil]
  rw [Event.errors_cons, Event.errors_append, quiet]
  rfl

/-- **A declaration is refused or rewritten,** and a rewrite issues no errors. -/
theorem errors_handle (memberNotes : Bool) (located : round.Locates found) :
    Event.errors (round.handle memberNotes found).events =
      (found.refusal? round.maker.names).toList := by
  have resolved : (round.handle memberNotes found).events =
      .reported (found.resolution round.maker.names) ::
        (if found.accepted then round.augment memberNotes found else return round).events := rfl
  rw [resolved, Event.errors_cons, Annotated.refusal?]
  by_cases accepted : found.accepted
  · have announced : found.resolution round.maker.names =
        .note ("Processing >> " ++ round.maker.names.display found.element.name) :=
      if_pos accepted
    rw [if_pos accepted, if_pos accepted, errors_augment memberNotes located accepted, announced]
    rfl
  · rw [if_neg accepted, if_neg accepted]
    unfold Annotated.resolution
    rw [if_neg accepted]
    rfl

/-- The errors on the way through the declarations that were found are the refusals among them. -/
theorem Ready.errors_foldlM_handle (ready : round.Ready) (memberNotes : Bool)
    (all : List Annotated) (located : ∀ found ∈ all, round.Locates found)
    (known : ∀ found ∈ all, round.maker.names.Knows found.element.name) :
    Event.errors (all.foldlM (handle memberNotes) round).events =
      all.filterMap (Annotated.refusal? round.maker.names) := by
  induction all generalizing round with
  | nil => rfl
  | cons found rest ih =>
    rw [List.forall_mem_cons] at located known
    have first := ready.advances_handle memberNotes located.1
    have le := Maker.names_le first.grows
    have later := ih first.ready (fun found hf => (located.2 found hf).advances first)
      fun found hf => (known.2 found hf).mono le
    -- names keep their spelling, so refusals can be read off the first round
    have same : rest.filterMap
        (Annotated.refusal? (round.handle memberNotes found).value.maker.names) =
          rest.filterMap (Annotated.refusal? round.maker.names) := by
      refine List.filterMap_congr fun found hf => ?_
      rw [Annotated.refusal?, Annotated.refusal?, Annotated.resolution, Annotated.resolution,
        Names.display_of_le le (known.2 found hf)]
    rw [List.foldlM_cons, Traced.events_bind, Event.errors_append,
      errors_handle memberNotes located.1, later, same, List.filterMap_cons]
    cases found.refusal? round.maker.names <;> rfl

/-- Discovery issues nothing. -/
theorem diagnostics_annotated (round : Round) (kind : MarkerKind) :
    (round.annotated kind).diagnostics = [] := by
  rw [Traced.diagnostics, List.filterMap_eq_nil_iff]
  intro event he
  rw [annotated, Traced.events_bind, Traced.events_mapM, Traced.events_pure, List.append_nil] at he
  obtain ⟨unit, -, he⟩ := List.mem_flatMap.mp he
  unfold annotatedIn at he
  split at he
  · cases he
  · rename_i error _
    obtain rfl : event = .skippedUnit unit error := List.mem_singleton.mp he
    rfl

theorem errors_annotated (round : Round) (kind : MarkerKind) :
    Event.errors (round.annotated kind).events = [] :=
  congrArg (List.filter _) (diagnostics_annotated round kind)

theorem Ready.knows_of_mem_annotated (ready : round.Ready) {kind : MarkerKind}
    (h : found ∈ (round.annotated kind).value) : round.maker.names.Knows found.element.name := by
  obtain ⟨tree, slot, hf⟩ := ready.exists_slot_of_mem_annotated h
  obtain ⟨node, hn, element⟩ := CompilationUnit.exists_of_mem_annotated hf
  rw [element]
  exact ready.covers_tree (List.mem_of_getElem? slot) node hn _ node.name_mem_names

/-- **A processor refuses what is to be refused** when its turn comes. -/
theorem Ready.errors_process (ready : round.Ready) (config : ProcessingConfig)
    (kind : MarkerKind) :
    Event.errors (round.process config kind).events =
      round.nodes.filterMap (Node.refusal? round.maker.names.display kind) := by
  rw [process, Traced.events_bind, Event.errors_append, errors_annotated, List.nil_append,
    ready.errors_foldlM_handle _ _ (fun _ => ready.locates_of_mem_annotated)
      (fun _ => ready.knows_of_mem_annotated), ready.filterMap_annotated]

/-! ### The account of a run -/

/-- All that is to be refused by a processor for this kind. -/
def refusalsOf (kind : MarkerKind) (round : Round) : List Diagnostic :=
  round.nodes.filterMap (Node.refusal? round.maker.names.display kind)

/-- Those refusals that are about constructors which are given up. -/
def lostOf (kind : MarkerKind) (round : Round) : List Diagnostic :=
  round.slots.flatMap fun slot => slot.tree.lost round.maker.names.display kind

/-- All that is to be refused by processors for these kinds. -/
def refusals (kinds : List MarkerKind) (round : Round) : List Diagnostic :=
  kinds.flatMap fun kind => round.refusalsOf kind

/-- The kinds whose processors start when a processor for constructors has finished. -/
def lateKinds (kinds : List MarkerKind) : List MarkerKind :=
  (kinds.dropWhile (· ≠ .noArgsConstructor)).tail

/-- The refusals that a run loses: the constructors are gone when the processor starts. -/
def lost (kinds : List MarkerKind) (round : Round) : List Diagnostic :=
  (lateKinds kinds).flatMap fun kind => round.lostOf kind

/-- A class in source code gives up a constructor that carries a marker of a late kind. -/
def LosesMarker (kinds : List MarkerKind) (round : Round) : Prop :=
  ∃ kind ∈ lateKinds kinds, ∃ slot ∈ round.slots, slot.tree.isPrimarySource ∧
    ∃ decl ∈ slot.tree.postorder, decl.LosesMarker kind

theorem lost_eq_nil_iff (kinds : List MarkerKind) (round : Round) :
    round.lost kinds = [] ↔ ¬round.LosesMarker kinds := by
  have unit : ∀ (tree : CompilationUnit Symbol) (kind : MarkerKind),
      tree.lost round.maker.names.display kind = [] ↔
        ¬(tree.isPrimarySource ∧ ∃ decl ∈ tree.postorder, decl.LosesMarker kind) := by
    intro tree kind
    by_cases source : tree.isPrimarySource
    · rw [CompilationUnit.lost, if_pos source, List.flatMap_eq_nil_iff]
      simp [ClassDecl.lost_eq_nil_iff, source]
    · simp [CompilationUnit.lost, source]
  simp only [lost, lostOf, LosesMarker, List.flatMap_eq_nil_iff, unit, not_exists]
  simp only [not_and, not_exists]

theorem append_append_perm {α : Type} (first second third fourth : List α) :
    first ++ second ++ (third ++ fourth) ~ first ++ third ++ (second ++ fourth) := by
  simp only [List.append_assoc]
  exact (List.perm_append_comm_assoc second third fourth).append_left first

/-- Accounts that balance entry by entry balance as a whole. -/
theorem flatMap_append_perm_of_forall₂ {α β γ : Type} {left : β → List γ} {lost all : α → List γ}
    {items : List α} {items' : List β}
    (h : List.Forall₂ (fun a b => left b ++ lost a ~ all a) items items') :
    items'.flatMap left ++ items.flatMap lost ~ items.flatMap all := by
  induction h with
  | nil => exact .refl _
  | cons first _ ih => exact (append_append_perm _ _ _ _).trans (first.append ih)

/-- **What a processor refuses late in a run,** with what was lost, is what was to be refused. -/
theorem UnitAdvances.refusals_perm {kinds : List MarkerKind} {names names' : Names}
    {tree tree' : CompilationUnit Symbol} (kind : MarkerKind)
    (h : UnitAdvances (fun decl => kinds.foldl ClassDecl.respond decl) names names' tree tree')
    (le : names ≤ names') (covers : names.Covers tree.nodes)
    (covers' : names'.Covers tree'.nodes) :
    tree'.refusals names'.display kind ++
      (if .noArgsConstructor ∈ kinds then tree.lost names.display kind else []) ~
        tree.refusals names.display kind := by
  by_cases source : tree.isPrimarySource
  · have balance : _ ++ _ ~ (tree.draft names).refusals (fun s => s) kind :=
      (tree.draft names).refusals_mapClasses kinds
    rw [← (h.source source).2, CompilationUnit.flatMap_lost_draft tree covers] at balance
    rw [CompilationUnit.lost, if_pos source]
    calc tree'.refusals names'.display kind ++ _
      _ ~ (tree'.draft names').refusals (fun s => s) kind ++ _ :=
        (tree'.refusals_draft covers').symm.append_right _
      _ ~ (tree.draft names).refusals (fun s => s) kind := balance
      _ ~ tree.refusals names.display kind := tree.refusals_draft covers
  · have same : tree'.refusals names'.display kind = tree.refusals names.display kind := by
      rw [h.other (by simpa using source)]
      refine List.filterMap_congr fun node hn => Node.refusal?_congr kind rfl rfl ?_
      exact Names.display_of_le le (covers node hn _ node.name_mem_names)
    rw [CompilationUnit.lost, if_neg source, ite_self, List.append_nil, same]

theorem Advances.refusals_perm {origin : Round} {kinds : List MarkerKind} (kind : MarkerKind)
    (ready : origin.Ready)
    (h : Advances (fun _ decl => kinds.foldl ClassDecl.respond decl) origin round) :
    round.refusalsOf kind ++ (if .noArgsConstructor ∈ kinds then origin.lostOf kind else []) ~
      origin.refusalsOf kind := by
  have slots : List.Forall₂ (fun slot slot' =>
      slot'.tree.refusals round.maker.names.display kind ++
        (if .noArgsConstructor ∈ kinds then slot.tree.lost origin.maker.names.display kind
          else []) ~
          slot.tree.refusals origin.maker.names.display kind) origin.slots round.slots := by
    refine h.forall₂ ready fun tree tree' mem mem' advances => ?_
    apply advances.refusals_perm kind (Maker.names_le h.grows)
    · exact ready.covers_tree mem
    · exact h.ready.covers_tree mem'
  rw [lostOf, flatMap_ite, refusalsOf, refusalsOf, nodes, nodes, List.filterMap_flatMap,
    List.filterMap_flatMap]
  exact flatMap_append_perm_of_forall₂ slots

/-- **The account balances on the way through the processors,** with a debt of the lost refusals. -/
theorem Ready.errors_processors {origin : Round} (ready : origin.Ready) (config : ProcessingConfig)
    (kinds earlier : List MarkerKind)
    (h : Advances (fun _ decl => earlier.foldl ClassDecl.respond decl) origin round) :
    Event.errors (kinds.foldlM (runProcessor config) round).events ++
        (if .noArgsConstructor ∈ earlier then kinds else lateKinds kinds).flatMap
          (fun kind => origin.lostOf kind) ~ origin.refusals kinds := by
  induction kinds generalizing earlier round with
  | nil =>
    rw [lateKinds, List.dropWhile_nil, List.tail_nil, ite_self]
    exact .refl _
  | cons kind rest ih =>
    have first : Advances (fun _ decl => (earlier ++ [kind]).foldl ClassDecl.respond decl) origin
        (round.runProcessor config kind).value := by
      have step : Advances (fun _ decl => decl.respond kind) round
          (round.runProcessor config kind).value := h.ready.advances_process config kind
      have both : (fun decl => (earlier ++ [kind]).foldl ClassDecl.respond decl) =
          (fun decl => decl.respond kind) ∘ fun decl => earlier.foldl ClassDecl.respond decl :=
        funext fun decl => List.foldl_append ..
      rw [both]
      exact h.trans step
    have errors : Event.errors (round.runProcessor config kind).events = round.refusalsOf kind := by
      rw [runProcessor, Traced.events_bind, Event.errors_append,
        h.ready.errors_process config kind]
      rfl
    -- the processor loses what an earlier one has deleted; the others also what this one deletes
    have debt : (if .noArgsConstructor ∈ earlier then kind :: rest else
        lateKinds (kind :: rest)).flatMap (fun kind => origin.lostOf kind) =
          (if .noArgsConstructor ∈ earlier then origin.lostOf kind else []) ++
            (if .noArgsConstructor ∈ earlier ++ [kind] then rest else lateKinds rest).flatMap
              (fun kind => origin.lostOf kind) := by
      by_cases deleted : .noArgsConstructor ∈ earlier
      · simp [deleted]
      · by_cases deletes : kind = .noArgsConstructor
        · simp [deleted, deletes, lateKinds]
        · simp [deleted, deletes, Ne.symm deletes, lateKinds]
    rw [List.foldlM_cons, Traced.events_bind, Event.errors_append, errors, debt]
    exact (append_append_perm _ _ _ _).trans
      ((h.refusals_perm kind ready).append (ih (earlier ++ [kind]) first))

/-- **The errors of a run.** They are the refusals of the round as it was before the run, one for
each declaration and each kind of marker on it that is to be refused, but without those that were
lost.  So no refusal is missing exactly if no class gives up a constructor that carries a marker of
a late kind.  Whatever is refused, interfaces and enumerations keep their members. -/
theorem errors_run (ready : round.Ready) (config : ProcessingConfig) :
    ((report config (round.run config)).errors ++ round.lost config.processors).Perm
        (round.refusals config.processors) ∧
      ((report config (round.run config)).errors.Perm (round.refusals config.processors) ↔
        ¬round.LosesMarker config.processors) ∧
      List.Forall₂
        (fun slot slot' => ClassDecl.PersistAll slot.tree.postorder slot'.tree.postorder)
        round.slots (round.run config).value.slots := by
  have account : (report config (round.run config)).errors ++ round.lost config.processors ~
      round.refusals config.processors := by
    have errors : (report config (round.run config)).errors =
        Event.errors (config.processors.foldlM (runProcessor config) round).events := rfl
    rw [errors]
    exact ready.errors_processors config config.processors [] (.refl ready)
  refine ⟨account, ?_, ?_⟩
  · -- permutations have one length, so nothing is missing only if nothing was lost
    rw [← lost_eq_nil_iff]
    constructor
    · intro complete
      have length := (account.trans complete.symm).length_eq
      rw [List.length_append] at length
      exact List.eq_nil_of_length_eq_zero (by omega)
    · intro nothing
      rwa [nothing, List.append_nil] at account
  · exact (ready.advances_run config).forall₂ ready fun tree tree' _ _ advances => advances.persist

/-- A class with a constructor marker, which declares a constructor with a getter marker. -/
def markedConstructor : Round :=
  let program : Building (CompilationUnit Symbol) := do
    let constructor ← Building.constructor .none [] {} [.getter]
    let decl ← Building.type (← Building.name "A") .classType .none
      [.noArgsConstructor .publicAccess] [.method constructor]
    return { fileName := "A.java", package := none, origin := .source, types := [decl] }
  { maker := (program {}).2, slots := [⟨(program {}).1, .free⟩] }

theorem ready_markedConstructor : markedConstructor.Ready where
  free := by decide
  distinct := by decide
  covers := by decide

/-- With getters first, the marker on the constructor is refused. -/
theorem errors_run_getter_first :
    markedConstructor.Ready ∧
      (report { processors := [.getter, .noArgsConstructor] }
        (markedConstructor.run { processors := [.getter, .noArgsConstructor] })).errors.Perm
        (markedConstructor.refusals [.getter, .noArgsConstructor]) := by
  have nothing : ¬markedConstructor.LosesMarker [.getter, .noArgsConstructor] := by
    rintro ⟨kind, late, -⟩
    cases late
  exact ⟨ready_markedConstructor, (errors_run ready_markedConstructor
    { processors := [.getter, .noArgsConstructor] }).2.1.mpr nothing⟩

/-- **The order of processors matters.** With constructors first, the constructor is gone with its
marker before getters are made, and nothing is said about it. -/
theorem not_errors_run_perm_refusals :
    ¬∀ (round : Round) (config : ProcessingConfig), round.Ready → config.processors.Nodup →
      (report config (round.run config)).errors.Perm (round.refusals config.processors) := by
  intro all
  have length := (all markedConstructor { processors := [.noArgsConstructor, .getter] }
    ready_markedConstructor (by decide)).length_eq
  revert length
  decide

end Round

end Augment
