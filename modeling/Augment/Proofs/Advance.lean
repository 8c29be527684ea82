import Augment.Proofs.Draft
import Augment.Proofs.WellFormed
import Mathlib.Data.List.Forall2

/-!
# Rewrites as changes of drafts

While a run rewrites one class after the other, new names and ids come up and declarations go.  On
drafts all that is left of it is a change of every class, the same for all classes of a unit
(`Round.Advances`).  Such changes can be put one after the other (`Round.Advances.trans`), so that a
sequence of rewrites is a composition of answers to markers.

The rounds that this holds for are those that are `Round.Ready` for a run, and a rewrite leaves a
round ready.
-/

namespace Augment

namespace Round

/-- Nobody holds a unit, no two classes of a unit share an id, and all names can be spelled. -/
structure Ready (round : Round) : Prop where
  free : ∀ slot ∈ round.slots, slot.lock = .free
  distinct : ∀ slot ∈ round.slots, (slot.tree.classes.map (·.id)).Nodup
  covers : round.maker.names.Covers round.nodes

theorem Ready.getElem?_eq {round : Round} (ready : round.Ready) {index : Nat}
    (bound : index < round.slots.length) :
    round.slots[index]? = some ⟨round.slots[index].tree, .free⟩ := by
  have free : round.slots[index].lock = .free := ready.free _ (List.getElem_mem bound)
  rw [List.getElem?_eq_getElem bound, ← free]

theorem Ready.covers_tree {round : Round} (ready : round.Ready) {slot : Slot}
    (mem : slot ∈ round.slots) : round.maker.names.Covers slot.tree.nodes :=
  ready.covers.subset fun _ hn => List.mem_flatMap_of_mem mem hn

theorem tree_unique {slot? : Option Slot} {tree tree' : CompilationUnit Symbol} {lock lock' : Lock}
    (h : slot? = some ⟨tree, lock⟩) (h' : slot? = some ⟨tree', lock'⟩) : tree = tree' := by
  rw [h] at h'
  injection h' with h'
  injection h'

/-- What a change of all classes makes of a unit: it is seen in the draft of source code, and any
other unit stays as it is. -/
structure UnitAdvances (change : ClassDecl String → ClassDecl String) (names names' : Names)
    (tree tree' : CompilationUnit Symbol) : Prop where
  persist : ClassDecl.PersistAll tree.postorder tree'.postorder
  source : tree.isPrimarySource → tree'.isPrimarySource ∧
    tree'.draft names' = (tree.draft names).mapClasses change
  other : tree.isPrimarySource = false → tree' = tree

/-- One round came from another by a change of all classes of its units. -/
structure Advances (change : UnitId → ClassDecl String → ClassDecl String)
    (round round' : Round) : Prop where
  isLocal : ∀ unit, ClassDecl.Local (change unit)
  ready : round'.Ready
  grows : round.maker ≤ round'.maker
  size : round'.slots.length = round.slots.length
  tree : ∀ (unit : UnitId) (tree : CompilationUnit Symbol),
    round.slots[unit.index]? = some ⟨tree, .free⟩ →
      ∃ tree', round'.slots[unit.index]? = some ⟨tree', .free⟩ ∧
        UnitAdvances (change unit) round.maker.names round'.maker.names tree tree'

/-- A unit that stays as it is reads the same when the table of names grows. -/
theorem UnitAdvances.of_le {names names' : Names} (le : names ≤ names')
    (tree : CompilationUnit Symbol) (covers : names.Covers tree.nodes) :
    UnitAdvances (fun decl => decl) names names' tree tree where
  persist := .refl _
  source source := by
    refine ⟨source, ?_⟩
    rw [CompilationUnit.mapClasses_self]
    exact CompilationUnit.draft_of_le le tree covers
  other _ := rfl

theorem UnitAdvances.trans {change change' : ClassDecl String → ClassDecl String}
    {names names' names'' : Names} {tree tree' tree'' : CompilationUnit Symbol}
    (isLocal : ClassDecl.Local change) (h : UnitAdvances change names names' tree tree')
    (h' : UnitAdvances change' names' names'' tree' tree'') :
    UnitAdvances (change' ∘ change) names names'' tree tree'' where
  persist := h.persist.trans h'.persist
  source isSource := by
    obtain ⟨isSource', draft⟩ := h.source isSource
    obtain ⟨isSource'', draft'⟩ := h'.source isSource'
    refine ⟨isSource'', ?_⟩
    rw [draft', draft, CompilationUnit.mapClasses_mapClasses isLocal]
  other notSource := by
    have same := h.other notSource
    rw [h'.other (same ▸ notSource), same]

namespace Advances

variable {change change' : UnitId → ClassDecl String → ClassDecl String}
  {round round' round'' : Round}

theorem refl (ready : round.Ready) : Advances (fun _ decl => decl) round round where
  isLocal _ := ClassDecl.local_self
  ready := ready
  grows := le_refl _
  size := rfl
  tree _ tree slot :=
    ⟨tree, slot, .of_le (le_refl _) tree (ready.covers_tree (List.mem_of_getElem? slot))⟩

/-- **Changes can be put one after the other.** -/
theorem trans (h : Advances change round round') (h' : Advances change' round' round'') :
    Advances (fun unit => change' unit ∘ change unit) round round'' where
  isLocal unit := (h'.isLocal unit).comp (h.isLocal unit)
  ready := h'.ready
  grows := le_trans h.grows h'.grows
  size := h'.size.trans h.size
  tree unit tree slot := by
    obtain ⟨tree', slot', advances⟩ := h.tree unit tree slot
    obtain ⟨tree'', slot'', advances'⟩ := h'.tree unit tree' slot'
    exact ⟨tree'', slot'', advances.trans (h.isLocal unit) advances'⟩

/-- Only the change of the classes in the drafts matters. -/
theorem congr (h : Advances change round round') (isLocal : ∀ unit, ClassDecl.Local (change' unit))
    (same : ∀ (unit : UnitId) (tree : CompilationUnit Symbol),
      round.slots[unit.index]? = some ⟨tree, .free⟩ → ∀ c ∈ tree.postorder,
        change unit (c.draft round.maker.names) = change' unit (c.draft round.maker.names)) :
    Advances change' round round' where
  isLocal := isLocal
  ready := h.ready
  grows := h.grows
  size := h.size
  tree unit tree slot := by
    obtain ⟨tree', slot', advances⟩ := h.tree unit tree slot
    refine ⟨tree', slot', advances.persist, fun isSource => ?_, advances.other⟩
    refine ⟨(advances.source isSource).1, ?_⟩
    rw [(advances.source isSource).2]
    refine CompilationUnit.mapClasses_congr (h.isLocal unit) (isLocal unit) _ ?_
    rw [CompilationUnit.postorder_draft, List.forall_mem_map]
    exact same unit tree slot

/-- The slots of both rounds, side by side. -/
theorem forall₂ {change : ClassDecl String → ClassDecl String} {R : Slot → Slot → Prop}
    (h : Advances (fun _ => change) round round') (ready : round.Ready)
    (each : ∀ tree tree', ⟨tree, .free⟩ ∈ round.slots → ⟨tree', .free⟩ ∈ round'.slots →
      UnitAdvances change round.maker.names round'.maker.names tree tree' →
        R ⟨tree, .free⟩ ⟨tree', .free⟩) :
    List.Forall₂ R round.slots round'.slots := by
  rw [List.forall₂_iff_get]
  refine ⟨h.size.symm, fun index bound bound' => ?_⟩
  simp only [List.get_eq_getElem]
  have slot := ready.getElem?_eq bound
  obtain ⟨tree', slot', advances⟩ := h.tree ⟨index⟩ _ slot
  obtain ⟨_, get⟩ := List.getElem?_eq_some_iff.mp slot
  obtain ⟨_, get'⟩ := List.getElem?_eq_some_iff.mp slot'
  rw [get, get']
  exact each _ tree' (List.mem_of_getElem? slot) (List.mem_of_getElem? slot') advances

end Advances

/-! ### One rewrite -/

section Rewrite

variable {round : Round} (marker : Marker) (element : Element)

/-- The answer to a marker in the unit of an element and nowhere else. -/
def answerIn (unit : UnitId) : ClassDecl String → ClassDecl String :=
  if unit = element.unit then ClassDecl.answerAt element.decl marker else fun decl => decl

theorem local_answerIn (unit : UnitId) : ClassDecl.Local (answerIn marker element unit) := by
  unfold answerIn
  split
  · exact ClassDecl.local_answerAt element.decl marker
  · exact ClassDecl.local_self

variable {marker element}

/-- Without the class nothing changes, and nothing needs to. -/
theorem Ready.advances_of_absent (ready : round.Ready)
    (absent : ∀ tree, round.slots[element.unit.index]? = some ⟨tree, .free⟩ →
      tree.isPrimarySource → ∀ c ∈ tree.postorder, c.id ≠ element.decl) :
    Advances (answerIn marker element) round round where
  isLocal := local_answerIn marker element
  ready := ready
  grows := le_refl _
  size := rfl
  tree unit tree slot := by
    refine ⟨tree, slot, .refl _, fun source => ⟨source, ?_⟩, fun _ => rfl⟩
    unfold answerIn
    split
    · rename_i here
      subst here
      exact (CompilationUnit.mapClasses_answerAt_of_absent marker tree
        (absent tree slot source)).symm
    · exact (CompilationUnit.mapClasses_self _).symm

/-- A round is still ready when a class was replaced. -/
theorem Ready.replaced (ready : round.Ready) {tree tree' : CompilationUnit Symbol}
    {old : ClassDecl Symbol} (slot : round.slots[element.unit.index]? = some ⟨tree, .free⟩)
    (source : tree.isPrimarySource)
    (replaces : tree.ReplacesFirst element.decl old
      (marker.strategy.replaced round.maker old) tree') (kind : old.kind = .classType) :
    Ready { maker := (marker.strategy old round.maker).2
            slots := round.slots.set element.unit.index ⟨tree', .free⟩ } where
  free found hf := by
    rcases List.mem_or_eq_of_mem_set hf with hf | rfl
    · exact ready.free found hf
    · rfl
  distinct found hf := by
    rcases List.mem_or_eq_of_mem_set hf with hf | rfl
    · exact ready.distinct found hf
    · have persist := replaces.persists rfl
        (ClassDecl.persistAll_replaced marker old round.maker kind)
      rw [CompilationUnit.nodup_classes_iff, persist.map_id_eq,
        ← CompilationUnit.nodup_classes_iff]
      exact ready.distinct _ (List.mem_of_getElem? slot)
  covers := ((Rewrites.replaced slot source replaces).supply ready.covers).covers ready.covers

/-- The unit of a class that was replaced has answered to the marker. -/
theorem UnitAdvances.of_replacesFirst {names names' : Names} {target : DeclId}
    {tree tree' : CompilationUnit Symbol} {old new : ClassDecl Symbol}
    (replaces : tree.ReplacesFirst target old new tree') (le : names ≤ names')
    (covers : names.Covers tree.nodes) (distinct : (tree.classes.map (·.id)).Nodup)
    (source : tree.isPrimarySource) (node : new.node = old.node)
    (persist : ClassDecl.PersistAll old.postorder new.postorder)
    (answer : new.draft names' = (old.draft names).augmentedBy marker) :
    UnitAdvances (ClassDecl.answerAt target marker) names names' tree tree' where
  persist := replaces.persists node persist
  source _ := by
    constructor
    · rw [CompilationUnit.isPrimarySource, replaces.origin_eq]
      exact source
    · exact CompilationUnit.draft_of_replacesFirst replaces le covers
        (tree.nodup_classes_iff.mp distinct) answer
  other notSource := by
    rw [notSource] at source
    cases source

/-- Replacing a class in the narrow sense is one answer. -/
theorem Ready.advances_replaced (ready : round.Ready) {tree tree' : CompilationUnit Symbol}
    {old : ClassDecl Symbol} (slot : round.slots[element.unit.index]? = some ⟨tree, .free⟩)
    (source : tree.isPrimarySource)
    (replaces : tree.ReplacesFirst element.decl old
      (marker.strategy.replaced round.maker old) tree') (kind : old.kind = .classType) :
    Advances (answerIn marker element) round
      { maker := (marker.strategy old round.maker).2
        slots := round.slots.set element.unit.index ⟨tree', .free⟩ } := by
  have here : round.maker.names.Covers tree.nodes := ready.covers_tree (List.mem_of_getElem? slot)
  have inside : round.maker.names.Covers old.nodes := by
    obtain ⟨before, after, nodes, -⟩ := replaces.nodes_eq
    exact here.subset fun node hn => by simp [nodes, hn]
  have grows := (Strategy.supply_replaced marker old inside).grows
  have le := Maker.names_le grows
  refine ⟨local_answerIn marker element, ready.replaced slot source replaces kind, grows,
    List.length_set, fun unit other slot' => ?_⟩
  -- the unit of the element has the answer, and the other units read the same as before
  by_cases on : unit = element.unit
  · subst on
    obtain rfl := tree_unique slot slot'
    have bound := (List.getElem?_eq_some_iff.mp slot).1
    refine ⟨tree', List.getElem?_set_self bound, ?_⟩
    rw [answerIn, if_pos rfl]
    exact .of_replacesFirst replaces le here (ready.distinct _ (List.mem_of_getElem? slot)) source
      rfl (ClassDecl.persistAll_replaced marker old round.maker kind)
      (ClassDecl.draft_replaced marker old round.maker inside)
  · refine ⟨other, ?_, ?_⟩
    · rw [List.getElem?_set_ne (UnitId.index_ne on)]
      exact slot'
    · rw [answerIn, if_neg on]
      exact .of_le le other (ready.covers_tree (List.mem_of_getElem? slot'))

/-- **One rewrite of classes in the narrow sense is one answer.** -/
theorem Ready.advances_rewritten (ready : round.Ready) (marker : Marker) (element : Element)
    (narrow : ∀ tree, round.slots[element.unit.index]? = some ⟨tree, .free⟩ →
      ∀ c ∈ tree.postorder, c.id = element.decl → c.kind = .classType) :
    Advances (answerIn marker element) round (round.rewritten marker.strategy element) := by
  cases slot : round.slots[element.unit.index]? with
  | none =>
    have unknown : round.checkout element.unit = .error (.unknownUnit element.unit) := by
      rw [checkout_eq, slot]
    -- without the unit there is no class either
    rw [rewritten_of_error unknown]
    exact ready.advances_of_absent fun tree h => by rw [slot] at h; cases h
  | some found =>
    obtain ⟨tree, lock⟩ := found
    obtain rfl : lock = .free := ready.free _ (List.mem_of_getElem? slot)
    rcases rewritten_of_free marker.strategy slot with
      ⟨absent, kept⟩ | ⟨source, old, tree', replaces, replaced⟩
    · rw [kept]
      refine ready.advances_of_absent fun tree' h => ?_
      obtain rfl := tree_unique slot h
      exact absent
    · rw [replaced]
      have id : old.id = element.decl := by simpa using List.find?_some replaces.find?_postorder
      exact ready.advances_replaced slot source replaces
        (narrow tree slot old replaces.mem_postorder id)

end Rewrite

end Round

end Augment
