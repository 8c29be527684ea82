import Augment.Proofs.Report

/-!
# What runs leave alone

The *skeleton* of a class is what is left of it without methods, at any depth: the classes as such,
with their fields and the classes nested in them (`ClassDecl.skeleton`).  Strategies take away and
add methods only, so no rewrite changes a skeleton (`Round.Rewrites.skeletons_eq`).  This holds of
any round, also if ids are used twice and symbols are unknown.

An element points at a class by the id, the name and the kind of the class, all of which are part of
the skeleton.  So an element that has been found once stays good (`Round.Designates.of_skeletons`),
and if nobody holds a unit, then every rewrite that a run asks for finds its class
(`Round.Unlocked.runsSmoothly`).
-/

namespace Augment

/-! ### Skeletons -/

namespace ClassDecl

variable {ν : Type}

/-- The class without its own methods. -/
def withoutMethods (decl : ClassDecl ν) : ClassDecl ν :=
  { decl with members := decl.members.filter (·.method?.isNone) }

/-- **The skeleton of a class:** the class without any methods in it. -/
def skeleton (decl : ClassDecl ν) : ClassDecl ν :=
  decl.mapClasses withoutMethods

end ClassDecl

/-- What is left of a member in the skeleton of its class. -/
def Member.skeleton? {ν : Type} : Member ν → Option (Member ν)
  | field decl => some (.field decl)
  | method _ => none
  | nested decl => some (.nested decl.skeleton)

namespace ClassDecl

variable {ν : Type} {decl decl' : ClassDecl ν}

theorem skeleton_eq (decl : ClassDecl ν) :
    decl.skeleton = { decl with members := decl.members.filterMap Member.skeleton? } := by
  have members : (decl.members.map (Member.mapNested skeleton)).filter (·.method?.isNone) =
      decl.members.filterMap Member.skeleton? := by
    rw [← List.filterMap_eq_filter, List.filterMap_map]
    refine List.filterMap_congr fun member _ => ?_
    cases member <;> rfl
  rw [← members]
  exact mapClasses_eq withoutMethods decl

/-- The skeleton of a class is decided by the class as such and the skeletons of its members. -/
theorem skeleton_congr (node : decl'.node = decl.node)
    (members : decl'.members.filterMap Member.skeleton? =
      decl.members.filterMap Member.skeleton?) : decl'.skeleton = decl.skeleton := by
  rw [skeleton_eq, skeleton_eq, members]
  cases decl
  cases decl'
  unfold ClassDecl.node at node
  injection node
  subst_vars
  rfl

@[simp] theorem node_skeleton (decl : ClassDecl ν) : decl.skeleton.node = decl.node := by
  rw [skeleton_eq]
  rfl

/-- All fields of a class are in its skeleton, in the same order. -/
theorem fields_skeleton (decl : ClassDecl ν) : decl.skeleton.fields = decl.fields := by
  rw [skeleton_eq, fields, fields, List.filterMap_filterMap]
  refine List.filterMap_congr fun member _ => ?_
  cases member <;> rfl

theorem nested_withoutMethods (decl : ClassDecl ν) : decl.withoutMethods.nested = decl.nested := by
  rw [withoutMethods, nested, nested, List.filterMap_filter]
  refine List.filterMap_congr fun member _ => ?_
  cases member <;> rfl

end ClassDecl

namespace CompilationUnit

variable {ν : Type}

/-- The unit without any methods in it. -/
def skeleton (unit : CompilationUnit ν) : CompilationUnit ν :=
  unit.mapClasses ClassDecl.withoutMethods

theorem skeleton_eq (unit : CompilationUnit ν) :
    unit.skeleton = { unit with types := unit.types.map ClassDecl.skeleton } := rfl

/-- **The classes of a unit are those of its skeleton,** in the same order. -/
theorem postorder_skeleton (unit : CompilationUnit ν) :
    unit.skeleton.postorder = unit.postorder.map ClassDecl.skeleton :=
  postorder_mapClasses ClassDecl.nested_withoutMethods unit

theorem map_node_postorder_skeleton (unit : CompilationUnit ν) :
    unit.skeleton.postorder.map ClassDecl.node = unit.postorder.map ClassDecl.node := by
  rw [postorder_skeleton, List.map_map]
  exact List.map_congr_left fun decl _ => decl.node_skeleton

end CompilationUnit

/-! ### Rewrites keep skeletons -/

/-- An exchange of one class keeps the skeleton around it if it keeps that of the class. -/
theorem ClassDecl.ReplacesFirst.skeleton_eq {ν : Type} {target : DeclId}
    {old new decl decl' : ClassDecl ν} (h : ReplacesFirst target old new decl decl')
    (keep : new.skeleton = old.skeleton) : decl'.skeleton = decl.skeleton := by
  induction h with
  | here _ _ => exact keep
  | @inside decl inner inner' before after members _ _ ih =>
    refine skeleton_congr rfl ?_
    have middle : (Member.nested inner').skeleton? = (Member.nested inner).skeleton? :=
      congrArg (some ∘ Member.nested) ih
    rw [members, List.filterMap_append, List.filterMap_append, List.filterMap_cons,
      List.filterMap_cons, middle]

theorem CompilationUnit.ReplacesFirst.skeleton_eq {ν : Type} {target : DeclId}
    {old new : ClassDecl ν} {unit unit' : CompilationUnit ν}
    (h : CompilationUnit.ReplacesFirst target old new unit unit')
    (keep : new.skeleton = old.skeleton) : unit'.skeleton = unit.skeleton := by
  obtain ⟨before, decl, decl', after, types, -, inner, rfl⟩ := h
  rw [CompilationUnit.skeleton_eq, CompilationUnit.skeleton_eq, types]
  simp [inner.skeleton_eq keep]

/-- **Strategies change methods only.** -/
theorem Marker.skeleton_replaced (marker : Marker) (maker : Maker) (decl : ClassDecl Symbol) :
    (marker.strategy.replaced maker decl).skeleton = decl.skeleton := by
  obtain ⟨made, -, members, -⟩ := marker.strategy_spec decl maker
  have methods : (made.map Member.method).filterMap Member.skeleton? = [] := by
    simp [Member.skeleton?]
  refine ClassDecl.skeleton_congr rfl ?_
  rw [Strategy.replaced, members, List.filterMap_append, methods, List.append_nil,
    Marker.kept_filterMap fun _ => rfl]

namespace Round

variable {round round' : Round}

/-- The skeletons of all units. -/
def skeletons (round : Round) : List (CompilationUnit Symbol) :=
  round.slots.map (·.tree.skeleton)

theorem Rewrites.skeletons_eq {marker : Marker} {element : Element}
    (h : Rewrites marker.strategy element round round') : round'.skeletons = round.skeletons := by
  cases h with
  | kept => rfl
  | @replaced tree tree' old slot source replaces =>
    have same := replaces.skeleton_eq (marker.skeleton_replaced round.maker old)
    have here : round.skeletons[element.unit.index]? = some tree.skeleton := by
      rw [skeletons, List.getElem?_map, slot]
      rfl
    obtain ⟨bound, get⟩ := List.getElem?_eq_some_iff.mp here
    -- the list of skeletons is written to as well, but with the entry that it has already
    rw [skeletons, List.map_set, same, ← get]
    exact List.set_getElem_self bound

/-- **No run changes a skeleton.** -/
theorem skeletons_eq_of_steps (steps : Relation.ReflTransGen Step round round') :
    round'.skeletons = round.skeletons := by
  induction steps with
  | refl => rfl
  | tail _ step ih =>
    obtain ⟨marker, element, rewrites⟩ := step
    exact rewrites.skeletons_eq.trans ih

/-! ### Elements that designate a class -/

/-- The unit of the element has a class with its id, its name and its kind. -/
def Designates (round : Round) (element : Element) : Prop :=
  ∃ slot, round.slots[element.unit.index]? = some slot ∧ ∃ decl ∈ slot.tree.postorder,
    decl.id = element.decl ∧ decl.name = element.name ∧ decl.elementKind = element.kind

/-- **Elements stay good** as long as the skeletons do. -/
theorem Designates.of_skeletons {element : Element} (h : round.Designates element)
    (same : round'.skeletons = round.skeletons) : round'.Designates element := by
  obtain ⟨slot, known, decl, hd, id, name, kind⟩ := h
  have here : round'.skeletons[element.unit.index]? = some slot.tree.skeleton := by
    rw [same, skeletons, List.getElem?_map, known]
    rfl
  rw [skeletons, List.getElem?_map] at here
  obtain ⟨slot', known', skeleton⟩ := Option.map_eq_some_iff.mp here
  -- the classes as such can be read off the skeleton, so both trees have the same ones
  have nodes : slot'.tree.postorder.map ClassDecl.node =
      slot.tree.postorder.map ClassDecl.node := by
    rw [← CompilationUnit.map_node_postorder_skeleton, skeleton,
      CompilationUnit.map_node_postorder_skeleton]
  have mem : decl.node ∈ slot'.tree.postorder.map ClassDecl.node :=
    nodes ▸ List.mem_map_of_mem hd
  obtain ⟨decl', hd', node⟩ := List.mem_map.mp mem
  unfold ClassDecl.node at node
  injection node with id' name' kind'
  exact ⟨slot', known', decl', hd', id'.trans id, name'.trans name,
    (congrArg ElementKind.type kind').trans kind⟩

/-- What is found as a type designates a class, whoever holds the unit. -/
theorem designates_of_mem_annotated {kind : MarkerKind} {found : Annotated}
    (h : found ∈ (round.annotated kind).value) {typeKind : TypeKind}
    (isType : found.element.kind = .type typeKind) : round.Designates found.element := by
  obtain ⟨slot, known, hf⟩ := exists_slot_of_mem_annotated h
  obtain ⟨decl, hd, id, name, same⟩ := CompilationUnit.exists_class_of_mem_annotated hf isType
  exact ⟨slot, known, decl, slot.tree.postorder_perm_classes.symm.subset hd, id, name,
    (congrArg ElementKind.type same).trans isType.symm⟩

/-- Nobody holds a unit. -/
def Unlocked (round : Round) : Prop :=
  ∀ slot ∈ round.slots, slot.lock = .free

theorem Unlocked.of_steps (h : round.Unlocked) (steps : Relation.ReflTransGen Step round round') :
    round'.Unlocked := by
  intro slot hs
  obtain ⟨index, known⟩ := List.mem_iff_getElem?.mp hs
  have locks := (slot_rewritten_of_steps steps index).lock_eq
  rw [known] at locks
  obtain ⟨before, here, lock⟩ := Option.map_eq_some_iff.mp locks.symm
  exact lock.symm.trans (h before (List.mem_of_getElem? here))

/-- A class that is designated can be rewritten if nobody holds a unit. -/
theorem Unlocked.locates (h : round.Unlocked) {found : Annotated}
    (designates : found.accepted → round.Designates found.element) : round.Locates found := by
  intro accepted
  obtain ⟨⟨tree, lock⟩, known, decl, hd, id, -, kind⟩ := designates accepted
  obtain rfl : lock = .free := h _ (List.mem_of_getElem? known)
  have narrow : ElementKind.type decl.kind = .type .classType :=
    kind.trans (Annotated.accepted_iff.mp accepted)
  injection narrow with narrow
  exact ⟨tree, known, decl, hd, id, narrow⟩

/-- **The rewrite of a located class succeeds and finds it.** -/
theorem Locates.exists_rewrite {found : Annotated} (located : round.Locates found)
    (accepted : found.accepted) :
    ∃ rewriting, round.rewrite (some found.marker.strategy) found.element = .ok rewriting ∧
      rewriting.value.2 ≠ .notFound := by
  obtain ⟨tree, slot, decl, hd, id, -⟩ := located accepted
  exact ⟨_, rewrite_of_free slot rfl, (CompilationUnit.errors_rewrite found.marker
    found.element.decl round.maker ⟨decl, hd, id⟩).2⟩

end Round

/-! ### The moments of a run -/

/-- What a fold logs is logged by one of its steps. -/
theorem Traced.exists_of_mem_events_foldlM {α β : Type} {step : β → α → Traced β} {items : List α}
    {start : β} {event : Event} (h : event ∈ (items.foldlM step start).events) :
    ∃ before item after, items = before ++ item :: after ∧
      event ∈ (step (before.foldlM step start).value item).events := by
  induction items generalizing start with
  | nil => cases h
  | cons item rest ih =>
    rw [List.foldlM_cons, Traced.events_bind, List.mem_append] at h
    rcases h with first | later
    · exact ⟨[], item, rest, rfl, first⟩
    · obtain ⟨before, other, after, rfl, he⟩ := ih later
      refine ⟨item :: before, other, after, rfl, ?_⟩
      rw [List.foldlM_cons, Traced.value_bind]
      exact he

namespace Round

variable {round now : Round} {found : Annotated}

/-- **A moment of a run:** the round is `now` when the turn of the declaration `found` comes.  Some
processors have finished, and another one has dealt with some of the declarations that it found when
it started. -/
def ComesUp (config : ProcessingConfig) (round now : Round) (found : Annotated) : Prop :=
  ∃ before kind after earlier later,
    config.processors = before ++ kind :: after ∧
      ((before.foldlM (runProcessor config) round).value.annotated kind).value =
        earlier ++ found :: later ∧
      now = (earlier.foldlM (handle (config.memberNotes && kind ≠ .noArgsConstructor))
        (before.foldlM (runProcessor config) round).value).value

/-- From the start of a run to a processor, and on to any moment of it, there are rewrites only. -/
theorem ComesUp.exists_start {config : ProcessingConfig} (h : ComesUp config round now found) :
    ∃ start kind, Relation.ReflTransGen Step round start ∧
      found ∈ (start.annotated kind).value ∧ Relation.ReflTransGen Step start now := by
  obtain ⟨before, kind, after, earlier, later, -, all, rfl⟩ := h
  refine ⟨(before.foldlM (runProcessor config) round).value, kind, ?_, ?_, ?_⟩
  · rw [Traced.value_foldlM]
    exact steps_foldl (fun round kind => steps_process config round kind) before round
  · rw [all]
    exact List.mem_append_right earlier List.mem_cons_self
  · rw [Traced.value_foldlM _ _ earlier]
    exact steps_foldl (fun round found => .single (step_handle _ round found)) earlier _

/-- **Every diagnostic of a run is issued when the turn of some declaration comes.** -/
theorem exists_comesUp_of_mem_diagnostics {config : ProcessingConfig} {diagnostic : Diagnostic}
    (h : diagnostic ∈ (report config (round.run config)).diagnostics) :
    ∃ now found memberNotes, ComesUp config round now found ∧
      .reported diagnostic ∈ (now.handle memberNotes found).events := by
  obtain ⟨event, he, said⟩ := List.mem_filterMap.mp h
  obtain rfl : event = .reported diagnostic := by
    cases event <;> simp_all [Event.diagnostic?]
  rw [run, Traced.events_bind, Traced.events_emit, List.mem_append] at he
  obtain ⟨before, kind, after, processors, he⟩ :=
    Traced.exists_of_mem_events_foldlM (he.resolve_left (by simp))
  rw [runProcessor, Traced.events_bind, Traced.events_emit, List.mem_append] at he
  replace he := he.resolve_left (by simp)
  rw [process, Traced.events_bind, List.mem_append] at he
  -- discovery issues nothing, so it was one of the declarations that were found
  have quiet : .reported diagnostic ∉
      ((before.foldlM (runProcessor config) round).value.annotated kind).events := by
    intro there
    have issued : diagnostic ∈
        ((before.foldlM (runProcessor config) round).value.annotated kind).diagnostics :=
      List.mem_filterMap.mpr ⟨_, there, rfl⟩
    rw [diagnostics_annotated] at issued
    cases issued
  obtain ⟨earlier, found, later, all, he⟩ :=
    Traced.exists_of_mem_events_foldlM (he.resolve_left quiet)
  exact ⟨_, found, _, ⟨before, kind, after, earlier, later, processors, all, rfl⟩, he⟩

/-- Whatever comes up in a run without locks is located. -/
theorem Unlocked.locates_of_comesUp (unlocked : round.Unlocked) {config : ProcessingConfig}
    (h : ComesUp config round now found) : now.Locates found := by
  obtain ⟨start, kind, first, hf, second⟩ := h.exists_start
  -- the declaration was found in `start`, and since then other classes have been rewritten
  refine (unlocked.of_steps (first.trans second)).locates fun accepted => ?_
  have designates := designates_of_mem_annotated hf (Annotated.accepted_iff.mp accepted)
  exact designates.of_skeletons (skeletons_eq_of_steps second)

/-- **The errors of a run without locks are refusals.** -/
theorem Unlocked.exists_refusal (unlocked : round.Unlocked) {config : ProcessingConfig}
    {message : String}
    (h : .error message ∈ (report config (round.run config)).diagnostics) :
    ∃ reason, message = "annotation not supported: " ++ reason := by
  obtain ⟨now, found, memberNotes, comesUp, he⟩ := exists_comesUp_of_mem_diagnostics h
  have error : .error message ∈ Event.errors (now.handle memberNotes found).events :=
    List.mem_filter.mpr ⟨List.mem_filterMap.mpr ⟨_, he, rfl⟩, rfl⟩
  rw [errors_handle memberNotes (unlocked.locates_of_comesUp comesUp), Option.mem_toList,
    Annotated.refusal?] at error
  by_cases accepted : found.accepted
  · rw [if_pos accepted] at error
    cases error
  · rw [if_neg accepted, Annotated.resolution, if_neg accepted] at error
    injection Option.some.inj error with _ text
    simp only [String.append_assoc] at text
    exact ⟨_, text.symm⟩

/-- The run finds every class that it is to rewrite, and keeps all skeletons. -/
structure RunsSmoothly (config : ProcessingConfig) (round : Round) : Prop where
  /-- Whenever the turn of a class comes, its rewrite succeeds and finds the class. -/
  succeeds : ∀ now found, ComesUp config round now found → found.accepted →
    ∃ rewriting, now.rewrite (some found.marker.strategy) found.element = .ok rewriting ∧
      rewriting.value.2 ≠ .notFound
  /-- No class is reported as lost. -/
  locates : ∀ name : String,
    .error ("could not locate class `" ++ name ++ "` in its compilation unit") ∉
      (report config (round.run config)).diagnostics
  /-- No rewrite is reported as failed. -/
  rewrites : ∀ (name : String) (error : RewriteError),
    .error ("failed to rewrite `" ++ name ++ "`: " ++ error.message) ∉
      (report config (round.run config)).diagnostics
  /-- Classes and fields stay, at any depth. -/
  skeletons : (round.run config).value.skeletons = round.skeletons

/-- **A run on a round that nobody holds finds all its classes and keeps their skeletons,** and what
has been found as a class before stays good through any number of runs.  The ids of classes may be
used twice, and symbols may be unknown. -/
theorem Unlocked.runsSmoothly (unlocked : round.Unlocked) (config : ProcessingConfig) :
    RunsSmoothly config round ∧
      ∀ (kind : MarkerKind) (found : Annotated) (typeKind : TypeKind)
        (configs : List ProcessingConfig),
        found ∈ (round.annotated kind).value → found.element.kind = .type typeKind →
          (configs.foldl (fun round config => (round.run config).value) round).Designates
            found.element := by
  -- the texts of refusals and of the other errors differ in their first letter
  have refused : ∀ {message : String} {first : Char} {rest : List Char},
      .error message ∈ (report config (round.run config)).diagnostics →
        message.toList = first :: rest → first = 'a' := by
    intro message first rest h spelled
    obtain ⟨reason, rfl⟩ := unlocked.exists_refusal h
    rw [String.toList_append] at spelled
    exact (List.cons.inj spelled).1.symm
  refine ⟨⟨?_, ?_, ?_, ?_⟩, ?_⟩
  · intro now found comesUp accepted
    exact (unlocked.locates_of_comesUp comesUp).exists_rewrite accepted
  · intro name h
    have initial : 'c' = 'a' := refused h (by simp only [String.toList_append]; rfl)
    cases initial
  · intro name error h
    have initial : 'f' = 'a' := refused h (by simp only [String.toList_append]; rfl)
    cases initial
  · exact skeletons_eq_of_steps (steps_run config round)
  · intro kind found typeKind configs hf isType
    have steps : Relation.ReflTransGen Step round
        (configs.foldl (fun round config => (round.run config).value) round) :=
      steps_foldl (fun round config => steps_run config round) configs round
    exact (designates_of_mem_annotated hf isType).of_skeletons (skeletons_eq_of_steps steps)

/-- A class with a class of the same id inside, both with markers and with fields of unknown names,
and a library with an interface of that id. -/
def sharedIds : Round :=
  let speed : FieldDecl Symbol := ⟨⟨1⟩, ⟨41⟩, .named ⟨42⟩, .none, []⟩
  let engine : ClassDecl Symbol := ⟨⟨7⟩, ⟨43⟩, .classType, .none, [.getter], [.field speed]⟩
  let car : ClassDecl Symbol :=
    ⟨⟨7⟩, ⟨44⟩, .classType, .none, [.getter, .noArgsConstructor .privateAccess],
      [.field speed, .nested engine]⟩
  let shape : ClassDecl Symbol := ⟨⟨7⟩, ⟨44⟩, .interfaceType, .none, [.getter], []⟩
  { slots := [⟨⟨"Car.java", none, .source, [car]⟩, .free⟩,
      ⟨⟨"Shape.java", none, .library, [shape]⟩, .free⟩] }

/-- Neither the ids nor the names of the round make a difference. -/
theorem runsSmoothly_sharedIds :
    sharedIds.Unlocked ∧
      ((sharedIds.annotated .getter).value.map fun found => (found.element.unit.index,
          found.element.decl.index, sharedIds.maker.names.resolve? found.element.name)) =
        [(0, 7, none), (0, 7, none), (1, 7, none)] ∧
      (∃ now found, ComesUp { processors := [.getter, .noArgsConstructor, .getter] } sharedIds now
        found ∧ found.accepted) ∧
      RunsSmoothly { processors := [.getter, .noArgsConstructor, .getter] } sharedIds ∧
      ∀ found ∈ (sharedIds.annotated .getter).value,
        (sharedIds.run { processors := [.setter, .getter] }).value.Designates found.element := by
  have unlocked : sharedIds.Unlocked := by
    unfold Unlocked
    decide
  have types : ∀ found ∈ (sharedIds.annotated .getter).value,
      found.element.kind = .type .classType ∨ found.element.kind = .type .interfaceType := by
    decide
  have comesUp : ComesUp { processors := [.getter, .noArgsConstructor, .getter] } sharedIds
      sharedIds ⟨⟨⟨0⟩, ⟨7⟩, .type .classType, ⟨44⟩⟩, .getter⟩ :=
    ⟨[], .getter, [.noArgsConstructor, .getter], [], _, rfl, rfl, rfl⟩
  refine ⟨unlocked, by decide, ⟨_, _, comesUp, rfl⟩, (unlocked.runsSmoothly _).1,
    fun found hf => ?_⟩
  have stays := (unlocked.runsSmoothly {}).2 .getter found
  rcases types found hf with isClass | isInterface
  · exact stays .classType [{ processors := [.setter, .getter] }] hf isClass
  · exact stays .interfaceType [{ processors := [.setter, .getter] }] hf isInterface

end Round

end Augment
