import Augment.Proofs.Advance

/-!
# The declarations that are found

Discovery lists the marked declarations of all units.  Those that are accepted are classes of the
round, and stay so while others are rewritten (`Round.Locates`).  As no two classes of a unit share
an id, the answers that a class gets are those to its own marker, whatever else is listed
(`Round.Ready.foldl_answer_draft`).
-/

namespace Augment

/-! ### Folds with one effect -/

theorem foldl_idle {α β : Type} {step : β → α → β} {items : List α} {state : β}
    (idle : ∀ item ∈ items, step state item = state) : items.foldl step state = state := by
  induction items with
  | nil => rfl
  | cons item rest ih =>
    rw [List.forall_mem_cons] at idle
    rw [List.foldl_cons, idle.1, ih idle.2]

/-- A step that idles on all items but those of one key acts once on items with different keys. -/
theorem foldl_single {α β κ : Type} {step : β → α → β} {key : α → κ} {items : List α} {item : α}
    (ok : β → Prop)
    (idle : ∀ state other, ok state → key other ≠ key item → step state other = state)
    (distinct : (items.map key).Nodup) (mem : item ∈ items) {state : β} (before : ok state)
    (after : ok (step state item)) : items.foldl step state = step state item := by
  obtain ⟨left, right, rfl⟩ := List.append_of_mem mem
  simp only [List.map_append, List.map_cons, List.nodup_append, List.nodup_cons] at distinct
  -- all items before this one and all after it have other keys, so the fold idles on both sides
  obtain ⟨-, ⟨later, -⟩, earlier⟩ := distinct
  have first : left.foldl step state = state := foldl_idle fun other ho =>
    idle state other before (earlier _ (List.mem_map_of_mem ho) _ List.mem_cons_self)
  have last : right.foldl step (step state item) = step state item := foldl_idle fun other ho =>
    idle _ other after fun same => later (same ▸ List.mem_map_of_mem ho)
  rw [List.foldl_append, List.foldl_cons, first, last]

/-! ### The declarations that are found -/

theorem Annotated.accepted_iff {found : Annotated} :
    found.accepted = true ↔ found.element.kind = .type .classType := by
  simp [accepted, Element.isClass]

/-- What a declaration that was found asks of a class of a unit. -/
def Annotated.answer (found : Annotated) (unit : UnitId) (decl : ClassDecl String) :
    ClassDecl String :=
  if found.accepted then Round.answerIn found.marker found.element unit decl else decl

/-- What a class asks of another class: nothing, unless it is the same class. -/
def ClassDecl.answerFor (kind : MarkerKind) (asking : ClassDecl Symbol) (decl : ClassDecl String) :
    ClassDecl String :=
  match asking.kind, Marker.first? kind asking.markers with
  | .classType, some marker => decl.answerAt asking.id marker
  | _, _ => decl

theorem ClassDecl.id_answerFor (kind : MarkerKind) (asking : ClassDecl Symbol)
    (decl : ClassDecl String) : (asking.answerFor kind decl).id = decl.id := by
  unfold answerFor
  split
  · unfold answerAt
    split <;> rfl
  · rfl

theorem ClassDecl.answerFor_of_ne {kind : MarkerKind} {asking : ClassDecl Symbol}
    {decl : ClassDecl String} (other : asking.id ≠ decl.id) :
    asking.answerFor kind decl = decl := by
  unfold answerFor
  split
  · exact if_neg other.symm
  · rfl

theorem ClassDecl.answerFor_draft (kind : MarkerKind) (decl : ClassDecl Symbol) (names : Names) :
    decl.answerFor kind (decl.draft names) = (decl.draft names).respond kind := by
  rw [answerFor, Marker.first?, respond, kind_draft, markers_draft]
  cases decl.markers.find? (·.kind = kind) with
  | none => cases decl.kind <;> rfl
  | some marker =>
    cases decl.kind with
    | classType => exact if_pos (id_draft names decl)
    | interfaceType => rfl
    | enumType => rfl

section Found

variable (kind : MarkerKind) (unit : UnitId)

/-- Only the classes among the declarations that are found ask for anything. -/
theorem CompilationUnit.foldl_answer_annotated (tree : CompilationUnit Symbol)
    (decl : ClassDecl String) :
    (tree.annotated kind unit).foldl (fun decl found => found.answer unit decl) decl =
      tree.classes.foldl (fun decl asking => asking.answerFor kind decl) decl := by
  rw [CompilationUnit.annotated, CompilationUnit.classes, List.foldl_filterMap,
    List.foldl_filterMap]
  refine congrArg (fun step => tree.tour.foldl step decl) (funext₂ fun decl visit => ?_)
  cases visit with
  | leave owner => rfl
  | field owner field =>
    simp only [Visit.annotated?, Visit.entered?]
    cases Marker.first? kind field.markers <;> rfl
  | method owner method =>
    simp only [Visit.annotated?, Visit.entered?]
    cases Marker.first? kind method.markers with
    | none => rfl
    | some marker =>
      have refused : ¬({ element := ⟨unit, method.id, method.elementKind, method.name⟩
                         marker := marker } : Annotated).accepted :=
        mt Annotated.accepted_iff.mp (method.elementKind_ne_type .classType)
      exact if_neg refused
  | enter asking =>
    simp only [Visit.annotated?, Visit.entered?, ClassDecl.answerFor]
    cases hm : Marker.first? kind asking.markers with
    | none => cases asking.kind <;> rfl
    | some marker =>
      have accepted : ({ element := ⟨unit, asking.id, asking.elementKind, asking.name⟩
                         marker := marker } : Annotated).accepted ↔ asking.kind = .classType := by
        simp [Annotated.accepted_iff, ClassDecl.elementKind]
      cases hk : asking.kind with
      | classType => exact (if_pos (accepted.mpr hk)).trans (congrFun (if_pos rfl) decl)
      | interfaceType => exact if_neg fun h => by rw [accepted, hk] at h; cases h
      | enumType => exact if_neg fun h => by rw [accepted, hk] at h; cases h

/-- **A class gets the answer to its own marker,** among all that are found in its unit. -/
theorem CompilationUnit.foldl_answer_draft {tree : CompilationUnit Symbol}
    (distinct : (tree.classes.map (·.id)).Nodup) {decl : ClassDecl Symbol}
    (mem : decl ∈ tree.classes) (names : Names) :
    (tree.annotated kind unit).foldl (fun decl found => found.answer unit decl) (decl.draft names) =
      (decl.draft names).respond kind := by
  rw [foldl_answer_annotated, ← ClassDecl.answerFor_draft]
  -- an answer keeps the id of a class, so the other classes go on to be told apart from it
  refine foldl_single (fun state => state.id = decl.id) ?_ distinct mem (decl.id_draft names) ?_
  · intro state other same different
    exact ClassDecl.answerFor_of_ne (same ▸ different)
  · rw [ClassDecl.id_answerFor, ClassDecl.id_draft]

end Found

/-- The declaration, if it carries a marker of the kind. -/
def Node.annotated? (kind : MarkerKind) (unit : UnitId) (node : Node Symbol) : Option Annotated :=
  (Marker.first? kind node.markers).map fun marker =>
    ⟨⟨unit, node.id, node.elementKind, node.name⟩, marker⟩

/-- **What is found are the marked ones among the declarations of the unit.** -/
theorem CompilationUnit.annotated_eq (kind : MarkerKind) (unit : UnitId)
    (tree : CompilationUnit Symbol) :
    tree.annotated kind unit = tree.nodes.filterMap (Node.annotated? kind unit) := by
  rw [CompilationUnit.annotated, CompilationUnit.nodes, List.filterMap_filterMap]
  refine List.filterMap_congr fun visit _ => ?_
  cases visit with
  | leave decl => rfl
  | enter decl => exact (Option.map_eq_bind ..).symm
  | field owner decl => exact (Option.map_eq_bind ..).symm
  | method owner decl => exact (Option.map_eq_bind ..).symm

theorem CompilationUnit.exists_of_mem_annotated {kind : MarkerKind} {unit : UnitId}
    {tree : CompilationUnit Symbol} {found : Annotated} (h : found ∈ tree.annotated kind unit) :
    ∃ node ∈ tree.nodes, found.element = ⟨unit, node.id, node.elementKind, node.name⟩ := by
  rw [annotated_eq] at h
  obtain ⟨node, hn, hf⟩ := List.mem_filterMap.mp h
  obtain ⟨marker, -, rfl⟩ := Option.map_eq_some_iff.mp hf
  exact ⟨node, hn, rfl⟩

/-- What is found as a type is a class of the unit. -/
theorem CompilationUnit.exists_class_of_mem_annotated {kind : MarkerKind} {unit : UnitId}
    {tree : CompilationUnit Symbol} {found : Annotated} (h : found ∈ tree.annotated kind unit)
    {typeKind : TypeKind} (isType : found.element.kind = .type typeKind) :
    ∃ decl ∈ tree.classes, decl.id = found.element.decl ∧ decl.name = found.element.name ∧
      decl.kind = typeKind := by
  obtain ⟨node, hn, element⟩ := exists_of_mem_annotated h
  rw [element] at isType ⊢
  cases node with
  | field decl => cases isType
  | method decl => exact absurd isType (decl.elementKind_ne_type typeKind)
  | type id name kind modifiers markers =>
    obtain ⟨decl, hd, node⟩ := exists_class_of_mem_nodes hn
    injection isType with same
    injection node with id name kind
    exact ⟨decl, hd, id, name, kind.trans same⟩

/-- What is found and accepted is a class of the unit, in the narrow sense. -/
theorem CompilationUnit.exists_of_accepted {kind : MarkerKind} {unit : UnitId}
    {tree : CompilationUnit Symbol} {found : Annotated} (h : found ∈ tree.annotated kind unit)
    (accepted : found.accepted) :
    ∃ decl ∈ tree.classes, decl.id = found.element.decl ∧ decl.kind = .classType := by
  obtain ⟨decl, hd, id, -, narrow⟩ :=
    exists_class_of_mem_annotated h (Annotated.accepted_iff.mp accepted)
  exact ⟨decl, hd, id, narrow⟩

namespace Round

variable {round : Round}

theorem value_annotated (round : Round) (kind : MarkerKind) :
    (round.annotated kind).value =
      round.unitIds.flatMap fun unit => (round.annotatedIn kind unit).value := by
  rw [annotated, Traced.value_bind, Traced.value_mapM, List.flatMap_def]
  rfl

/-- **What is found in a unit** depends on its tree, and on whether a rewrite holds it. -/
theorem value_annotatedIn_of_some {unit : UnitId} {slot : Slot} (kind : MarkerKind)
    (known : round.slots[unit.index]? = some slot) :
    (round.annotatedIn kind unit).value =
      if slot.lock.borrow = .exclusive then [] else slot.tree.annotated kind unit := by
  rw [annotatedIn, tree_eq, known]
  obtain ⟨tree, ⟨borrow, checkedOut⟩⟩ := slot
  cases borrow <;> rfl

theorem value_annotatedIn {unit : UnitId} {tree : CompilationUnit Symbol} (kind : MarkerKind)
    (slot : round.slots[unit.index]? = some ⟨tree, .free⟩) :
    (round.annotatedIn kind unit).value = tree.annotated kind unit :=
  value_annotatedIn_of_some kind slot

theorem unit_of_annotatedIn {kind : MarkerKind} {unit : UnitId} {found : Annotated}
    (h : found ∈ (round.annotatedIn kind unit).value) : found.element.unit = unit := by
  unfold annotatedIn at h
  split at h
  · obtain ⟨node, -, element⟩ := CompilationUnit.exists_of_mem_annotated h
    rw [element]
  · cases h

/-- If the declaration is accepted, the round has it, as a class in the narrow sense. -/
def Locates (round : Round) (found : Annotated) : Prop :=
  found.accepted → ∃ tree, round.slots[found.element.unit.index]? = some ⟨tree, .free⟩ ∧
    ∃ decl ∈ tree.postorder, decl.id = found.element.decl ∧ decl.kind = .classType

/-- What is located stays so while other classes are rewritten. -/
theorem Locates.advances {round' : Round} {change : UnitId → ClassDecl String → ClassDecl String}
    {found : Annotated} (h : round.Locates found) (advances : Advances change round round') :
    round'.Locates found := by
  intro accepted
  obtain ⟨tree, slot, decl, hd, id, kind⟩ := h accepted
  obtain ⟨tree', slot', unit⟩ := advances.tree _ tree slot
  obtain ⟨decl', hd', id', kind'⟩ := unit.persist.exists_id hd
  exact ⟨tree', slot', decl', hd', id'.trans id, kind'.trans kind⟩

/-- A located declaration is the only class with its id. -/
theorem Ready.narrow_of_locates (ready : round.Ready) {found : Annotated}
    (located : round.Locates found) (accepted : found.accepted) :
    ∀ tree, round.slots[found.element.unit.index]? = some ⟨tree, .free⟩ →
      ∀ c ∈ tree.postorder, c.id = found.element.decl → c.kind = .classType := by
  intro tree' slot' c hc id'
  obtain ⟨tree, slot, decl, hd, id, kind⟩ := located accepted
  obtain rfl := tree_unique slot slot'
  have distinct := tree.nodup_classes_iff.mp (ready.distinct _ (List.mem_of_getElem? slot))
  rw [List.inj_on_of_nodup_map distinct hc hd (id'.trans id.symm)]
  exact kind

/-- What is found is found in the unit that it names. -/
theorem exists_slot_of_mem_annotated {kind : MarkerKind} {found : Annotated}
    (h : found ∈ (round.annotated kind).value) :
    ∃ slot, round.slots[found.element.unit.index]? = some slot ∧
      found ∈ slot.tree.annotated kind found.element.unit := by
  rw [value_annotated] at h
  obtain ⟨unit, -, hf⟩ := List.mem_flatMap.mp h
  obtain rfl := unit_of_annotatedIn hf
  cases known : round.slots[found.element.unit.index]? with
  | none =>
    rw [annotatedIn, tree_eq, known] at hf
    cases hf
  | some slot =>
    rw [value_annotatedIn_of_some kind known] at hf
    refine ⟨slot, rfl, ?_⟩
    split at hf
    · cases hf
    · exact hf

theorem Ready.exists_slot_of_mem_annotated (ready : round.Ready) {kind : MarkerKind}
    {found : Annotated} (h : found ∈ (round.annotated kind).value) :
    ∃ tree, round.slots[found.element.unit.index]? = some ⟨tree, .free⟩ ∧
      found ∈ tree.annotated kind found.element.unit := by
  obtain ⟨⟨tree, lock⟩, slot, hf⟩ := Round.exists_slot_of_mem_annotated h
  obtain rfl : lock = .free := ready.free _ (List.mem_of_getElem? slot)
  exact ⟨tree, slot, hf⟩

/-- **All declarations that are found are located.** -/
theorem Ready.locates_of_mem_annotated (ready : round.Ready) {kind : MarkerKind} {found : Annotated}
    (h : found ∈ (round.annotated kind).value) : round.Locates found := by
  intro accepted
  obtain ⟨tree, slot, hf⟩ := ready.exists_slot_of_mem_annotated h
  obtain ⟨decl, hd, id, narrow⟩ := CompilationUnit.exists_of_accepted hf accepted
  exact ⟨tree, slot, decl, tree.postorder_perm_classes.symm.subset hd, id, narrow⟩

/-- **A class gets the answer to its own marker,** among all that are found in the round. -/
theorem Ready.foldl_answer_draft (ready : round.Ready) (kind : MarkerKind) {unit : UnitId}
    {tree : CompilationUnit Symbol} (slot : round.slots[unit.index]? = some ⟨tree, .free⟩)
    {decl : ClassDecl Symbol} (mem : decl ∈ tree.postorder) :
    (round.annotated kind).value.foldl (fun decl found => found.answer unit decl)
        (decl.draft round.maker.names) = (decl.draft round.maker.names).respond kind := by
  have bound : unit.index < round.slots.length := (List.getElem?_eq_some_iff.mp slot).1
  have here : unit ∈ round.unitIds :=
    List.mem_map.mpr ⟨unit.index, List.mem_range.mpr bound, rfl⟩
  have distinct : (round.unitIds.map (·.index)).Nodup := by
    rw [unitIds, List.map_map]
    simpa [Function.comp_def] using List.nodup_range
  have answered : (round.annotatedIn kind unit).value.foldl
      (fun decl found => found.answer unit decl) (decl.draft round.maker.names) =
        (decl.draft round.maker.names).respond kind := by
    rw [value_annotatedIn kind slot]
    exact CompilationUnit.foldl_answer_draft kind unit
      (ready.distinct _ (List.mem_of_getElem? slot)) (tree.postorder_perm_classes.subset mem) _
  rw [value_annotated, List.foldl_flatMap, ← answered]
  refine foldl_single (fun _ => True) ?_ distinct here trivial trivial
  intro state other _ different
  refine foldl_idle fun found hf => ?_
  have elsewhere : unit ≠ found.element.unit := by
    rw [unit_of_annotatedIn hf]
    exact fun same => different (congrArg UnitId.index same.symm)
  rw [Annotated.answer, answerIn, if_neg elsewhere, ite_self]

end Round

end Augment
