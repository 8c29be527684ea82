import Augment.Proofs.Rewriting
import Augment.Proofs.Synthesis

/-!
# Drafts and rewrites

A rewrite replaces one class somewhere in a tree, with symbols and ids that the maker gives out on
the way.  On drafts none of that is seen: the draft of the new tree is the draft of the old one with
an answer given at every class of the id (`CompilationUnit.draft_of_replacesFirst`).  For the class
itself that is what the strategy of the marker makes of it (`ClassDecl.draft_replaced`); the way
from there to the root needs that no other class has the id.
-/

namespace Augment

/-! ### Parts of a draft -/

theorem Member.postorder_draft (names : Names) (member : Member Symbol)
    (each : ∀ decl, member = .nested decl →
      (decl.draft names).postorder = decl.postorder.map (ClassDecl.draft names)) :
    (member.draft names).postorder = member.postorder.map (ClassDecl.draft names) := by
  cases member with
  | field decl => rfl
  | method decl => rfl
  | nested decl => exact each decl rfl

/-- **The classes of a draft are the drafts of the classes.** -/
theorem ClassDecl.postorder_draft (names : Names) (decl : ClassDecl Symbol) :
    (decl.draft names).postorder = decl.postorder.map (ClassDecl.draft names) := by
  induction decl using ClassDecl.induction with
  | step decl ih =>
    have members : (decl.members.map (Member.draft names)).flatMap Member.postorder =
        (decl.members.flatMap Member.postorder).map (ClassDecl.draft names) := by
      rw [List.flatMap_map, List.map_flatMap]
      refine List.flatMap_congr fun member hm => Member.postorder_draft names member ?_
      rintro inner rfl
      exact ih inner hm
    rw [postorder_eq_members, postorder_eq_members, members_draft, members, List.map_append]
    rfl

theorem CompilationUnit.postorder_draft (names : Names) (unit : CompilationUnit Symbol) :
    (unit.draft names).postorder = unit.postorder.map (ClassDecl.draft names) := by
  rw [CompilationUnit.postorder_eq, CompilationUnit.postorder_eq, CompilationUnit.draft_eq,
    List.flatMap_map, List.map_flatMap]
  exact List.flatMap_congr fun decl _ => ClassDecl.postorder_draft names decl

theorem ClassDecl.fields_draft (names : Names) (decl : ClassDecl Symbol) :
    (decl.draft names).fields =
      decl.fields.map fun field => (field.map names.display).withoutId := by
  rw [fields, fields, members_draft, List.filterMap_map, List.map_filterMap]
  refine List.filterMap_congr fun member _ => ?_
  cases member <;> rfl

/-- Drafting tells constructors without parameters from other members. -/
theorem Member.isNullary_draft {names : Names} (member : Member Symbol)
    (known : ∀ decl, member = .method decl → names.Knows decl.name) :
    (member.draft names).IsNullary ↔ member.IsNullary := by
  cases member with
  | field decl => rfl
  | nested decl => rfl
  | method decl =>
    have name : names.display decl.name = initName ↔ decl.name = Names.init :=
      Names.display_eq_initName_iff (known decl rfl)
    exact and_congr name (and_congr Option.map_eq_none_iff List.map_eq_nil_iff)

/-- Drafting members and choosing those that stay can be exchanged. -/
theorem Marker.kept_draft {names : Names} (marker : Marker) (members : List (Member Symbol))
    (covers : names.Covers (members.flatMap Member.nodes)) :
    marker.kept (members.map (Member.draft names)) =
      (marker.kept members).map (Member.draft names) := by
  cases marker with
  | getter => rfl
  | setter => rfl
  | noArgsConstructor access =>
    rw [kept, kept, List.filter_map]
    refine congrArg _ (List.filter_congr fun member hm => ?_)
    have known : ∀ decl, member = .method decl → names.Knows decl.name := by
      rintro decl rfl
      exact covers _ (List.mem_flatMap_of_mem hm List.mem_cons_self) _ (Node.name_mem_names _)
    simp only [Function.comp, member.isNullary_draft known]

/-- What a marker adds does not depend on the ids of fields. -/
theorem Marker.additions_withoutId (marker : Marker) (fields : List (FieldDecl String)) :
    marker.additions (fields.map FieldDecl.withoutId) = marker.additions fields := by
  cases marker with
  | getter => rw [additions, additions, List.map_map]; rfl
  | setter => rw [additions, additions, List.map_map]; rfl
  | noArgsConstructor access => rfl

theorem Member.draft_of_le {names names' : Names} (h : names ≤ names') (member : Member Symbol)
    (covers : names.Covers member.nodes) : member.draft names' = member.draft names := by
  cases member with
  | field decl =>
    have same : decl.map names'.display = decl.map names.display :=
      FieldDecl.map_congr fun s hs =>
        Names.display_of_le h (covers _ (List.mem_singleton_self _) s hs)
    rw [draft, draft, same]
  | method decl =>
    have same : decl.map names'.display = decl.map names.display :=
      MethodDecl.map_congr fun s hs =>
        Names.display_of_le h (covers _ (List.mem_singleton_self _) s hs)
    rw [draft, draft, same]
  | nested decl => exact congrArg Member.nested (decl.draft_of_le h covers)

/-! ### The replaced class -/

/-- **A strategy makes of a class what its marker asks for.** -/
theorem ClassDecl.draft_replaced (marker : Marker) (decl : ClassDecl Symbol) (maker : Maker)
    (covers : maker.names.Covers decl.nodes) :
    (marker.strategy.replaced maker decl).draft (marker.strategy decl maker).2.names =
      (decl.draft maker.names).augmentedBy marker := by
  obtain ⟨made, makes, members, -, spells⟩ := marker.strategy_spec decl maker
  have le := Maker.names_le makes.grows
  obtain ⟨node, inside⟩ := List.forall_mem_cons.mp (ClassDecl.nodes_eq decl ▸ covers)
  have name : (marker.strategy decl maker).2.names.display decl.name =
      maker.names.display decl.name :=
    Names.display_of_le le (node decl.name (by simp [ClassDecl.node, Node.names]))
  -- what was there reads as before, although the table of names has grown
  have stay : (marker.kept decl.members).map
      (Member.draft (marker.strategy decl maker).2.names) =
        (marker.kept decl.members).map (Member.draft maker.names) := by
    refine List.map_congr_left fun member hm => member.draft_of_le le fun node hn => ?_
    exact inside node (List.mem_flatMap_of_mem ((marker.kept_sublist _).subset hm) hn)
  -- and what is new reads as the marker asks for
  have new : (made.map Member.method).map (Member.draft (marker.strategy decl maker).2.names) =
      (marker.additions (decl.draft maker.names).fields).map Member.method := by
    have reads := spells fun field hf => covers (.field field) (ClassDecl.field_mem_nodes hf)
    have additions : marker.additions (decl.draft maker.names).fields =
        marker.additions (decl.fields.map (·.map maker.names.display)) := by
      have ids := marker.additions_withoutId (decl.fields.map (·.map maker.names.display))
      rw [List.map_map] at ids
      rw [fields_draft]
      exact ids
    rw [additions, ← reads.spelled, List.map_map, List.map_map]
    rfl
  rw [draft_eq, augmentedBy, members_draft, Marker.kept_draft marker decl.members inside,
    ← stay, ← new, ← List.map_append, ← members]
  simp only [Strategy.replaced, draft_eq maker.names decl, name]

/-- All classes in a class persist when it is replaced. -/
theorem ClassDecl.persistAll_replaced (marker : Marker) (decl : ClassDecl Symbol) (maker : Maker)
    (kind : decl.kind = .classType) :
    PersistAll decl.postorder (marker.strategy.replaced maker decl).postorder := by
  obtain ⟨made, -, members, -, -⟩ := marker.strategy_spec decl maker
  rw [Strategy.replaced, members]
  exact persistAll_kept marker decl made kind

/-! ### The way to the root -/

/-- The class, with the answer to the marker if it is the class of the id. -/
def ClassDecl.answerAt (target : DeclId) (marker : Marker) (decl : ClassDecl String) :
    ClassDecl String :=
  if decl.id = target then decl.augmentedBy marker else decl

section Replacement

variable {target : DeclId} {marker : Marker} {names names' : Names}

theorem ClassDecl.local_answerAt (target : DeclId) (marker : Marker) :
    Local (answerAt target marker) := by
  intro f decl
  by_cases id : decl.id = target
  · rw [answerAt, answerAt, if_pos id]
    exact (if_pos id).trans (local_augmentedBy marker f decl)
  · rw [answerAt, answerAt, if_neg id]
    exact if_neg id

/-- A class without the id anywhere in it answers nothing. -/
theorem ClassDecl.mapClasses_answerAt_of_absent (marker : Marker) (decl : ClassDecl Symbol)
    (absent : ∀ c ∈ decl.postorder, c.id ≠ target) :
    (decl.draft names).mapClasses (answerAt target marker) = decl.draft names := by
  refine mapClasses_eq_self (local_answerAt target marker) _ ?_
  rw [postorder_draft, List.forall_mem_map]
  intro c hc
  rw [answerAt, if_neg (by simpa using absent c hc)]

theorem Member.draft_of_absent (le : names ≤ names') (marker : Marker) (member : Member Symbol)
    (covers : names.Covers member.nodes) (absent : ∀ c ∈ member.postorder, c.id ≠ target) :
    member.draft names' =
      (member.draft names).mapNested (ClassDecl.mapClasses (ClassDecl.answerAt target marker)) := by
  rw [member.draft_of_le le covers]
  cases member with
  | field decl => rfl
  | method decl => rfl
  | nested decl =>
    exact congrArg Member.nested (ClassDecl.mapClasses_answerAt_of_absent marker decl absent).symm

/-- Members without the class go on to read the same. -/
theorem Member.map_draft_of_absent (le : names ≤ names') (marker : Marker)
    (members : List (Member Symbol)) (covers : names.Covers (members.flatMap Member.nodes))
    (absent : ∀ c ∈ members.flatMap Member.postorder, c.id ≠ target) :
    members.map (Member.draft names') = (members.map (Member.draft names)).map
      (Member.mapNested (ClassDecl.mapClasses (ClassDecl.answerAt target marker))) := by
  rw [List.map_map]
  refine List.map_congr_left fun member hm => member.draft_of_absent le marker ?_ ?_
  · exact covers.subset fun node hn => List.mem_flatMap_of_mem hm hn
  · exact List.forall_mem_flatMap.mp absent member hm

/-- Around a class of an id that no other class has, there is no class of that id. -/
theorem ClassDecl.distinct_inside {decl inner : ClassDecl Symbol}
    {before after : List (Member Symbol)}
    (members : decl.members = before ++ .nested inner :: after)
    (distinct : (decl.postorder.map (·.id)).Nodup)
    (occurs : target ∈ inner.postorder.map (·.id)) :
    (inner.postorder.map (·.id)).Nodup ∧ (∀ c ∈ after.flatMap Member.postorder, c.id ≠ target) ∧
      decl.id ≠ target := by
  rw [postorder_eq_members, members] at distinct
  simp only [List.flatMap_append, List.flatMap_cons, Member.postorder, List.map_append,
    List.nodup_append, List.map_cons, List.map_nil, List.mem_append, List.mem_singleton,
    forall_eq] at distinct
  obtain ⟨⟨-, ⟨inner, -, later⟩, -⟩, -, root⟩ := distinct
  refine ⟨inner, fun c hc id => ?_, fun id => ?_⟩
  · exact later target occurs c.id (List.mem_map_of_mem hc) id.symm
  · exact root target (.inr (.inl occurs)) id.symm

/-- **On drafts, a replacement is an answer given at every class of the id,** because there is only
one such class. -/
theorem ClassDecl.draft_of_replacesFirst {old new decl decl' : ClassDecl Symbol}
    (h : ReplacesFirst target old new decl decl') (le : names ≤ names')
    (covers : names.Covers decl.nodes) (distinct : (decl.postorder.map (·.id)).Nodup)
    (answer : new.draft names' = (old.draft names).augmentedBy marker) :
    decl'.draft names' = (decl.draft names).mapClasses (answerAt target marker) := by
  induction h with
  | here id passed =>
    -- the classes inside do not have the id, so the answer is given at the class alone
    rw [ClassDecl.nodes_eq] at covers
    have inside : (old.draft names).mapNested (mapClasses (answerAt target marker)) =
        old.draft names := by
      have members := Member.map_draft_of_absent (le_refl names) marker old.members
        (List.forall_mem_cons.mp covers).2 passed
      rw [mapNested, members_draft, ← members, ← members_draft]
      cases old.draft names
      rfl
    rw [mapClasses_eq, inside, answerAt, if_pos (by rw [id_draft, id]), answer]
  | @inside decl inner inner' before after members passed deeper ih =>
    rw [ClassDecl.nodes_eq, members, List.flatMap_append, List.flatMap_cons] at covers
    obtain ⟨node, coversBefore, coversInner, coversAfter⟩ := by
      simpa only [Names.Covers, List.forall_mem_cons, List.forall_mem_append] using covers
    -- the class with the id is inside one member, and nowhere before it, after it or around it
    obtain ⟨distinctInner, absent, other⟩ := distinct_inside members distinct
      (List.mem_map.mpr ⟨old, deeper.mem_postorder, deeper.id_old⟩)
    have first := Member.map_draft_of_absent le marker before coversBefore passed
    have last := Member.map_draft_of_absent le marker after coversAfter absent
    have middle : Member.draft names' (.nested inner') =
        (Member.draft names (.nested inner)).mapNested (mapClasses (answerAt target marker)) :=
      congrArg Member.nested (ih coversInner distinctInner)
    have name : names'.display decl.name = names.display decl.name :=
      Names.display_of_le le (node decl.name (by simp [ClassDecl.node, Node.names]))
    rw [mapClasses_eq, answerAt, if_neg (by simpa using other), mapNested, members_draft, members,
      List.map_append, List.map_append, List.map_cons, List.map_cons, ← first, ← last,
      ← middle]
    rw [draft_eq names', draft_eq names decl, name, List.map_append, List.map_cons]

/-- A unit without the class goes on to read the same. -/
theorem CompilationUnit.mapClasses_answerAt_of_absent (marker : Marker)
    (unit : CompilationUnit Symbol) (absent : ∀ c ∈ unit.postorder, c.id ≠ target) :
    (unit.draft names).mapClasses (ClassDecl.answerAt target marker) = unit.draft names := by
  rw [CompilationUnit.postorder_eq, List.forall_mem_flatMap] at absent
  have types : (unit.types.map (ClassDecl.draft names)).map
      (ClassDecl.mapClasses (ClassDecl.answerAt target marker)) =
        unit.types.map (ClassDecl.draft names) := by
    rw [List.map_map]
    exact List.map_congr_left fun decl hd =>
      ClassDecl.mapClasses_answerAt_of_absent marker decl (absent decl hd)
  rw [CompilationUnit.draft_eq, CompilationUnit.mapClasses, types]

theorem CompilationUnit.draft_of_replacesFirst {old new : ClassDecl Symbol}
    {unit unit' : CompilationUnit Symbol} (h : ReplacesFirst target old new unit unit')
    (le : names ≤ names') (covers : names.Covers unit.nodes)
    (distinct : (unit.postorder.map (·.id)).Nodup)
    (answer : new.draft names' = (old.draft names).augmentedBy marker) :
    unit'.draft names' = (unit.draft names).mapClasses (ClassDecl.answerAt target marker) := by
  obtain ⟨before, decl, decl', after, types, passed, inner, rfl⟩ := h
  rw [CompilationUnit.nodes_eq, types, List.flatMap_append, List.flatMap_cons] at covers
  obtain ⟨coversBefore, coversInner, coversAfter⟩ := by
    simpa only [Names.Covers, List.forall_mem_append] using covers
  rw [CompilationUnit.postorder_eq, types] at distinct
  simp only [List.flatMap_append, List.flatMap_cons, List.map_append, List.nodup_append] at distinct
  obtain ⟨-, ⟨distinctInner, -, later⟩, -⟩ := distinct
  have absent : ∀ c ∈ after.flatMap ClassDecl.postorder, c.id ≠ target := fun c hc id =>
    later old.id (List.mem_map_of_mem inner.mem_postorder) c.id (List.mem_map_of_mem hc)
      (inner.id_old.trans id.symm)
  have stays : ∀ types : List (ClassDecl Symbol),
      names.Covers (types.flatMap ClassDecl.nodes) →
      (∀ c ∈ types.flatMap ClassDecl.postorder, c.id ≠ target) →
      types.map (ClassDecl.draft names') = (types.map (ClassDecl.draft names)).map
        (ClassDecl.mapClasses (ClassDecl.answerAt target marker)) := by
    intro types covers absent
    rw [List.map_map]
    refine List.map_congr_left fun decl hd => ?_
    rw [decl.draft_of_le le (covers.subset fun node hn => List.mem_flatMap_of_mem hd hn)]
    exact (ClassDecl.mapClasses_answerAt_of_absent marker decl
      (List.forall_mem_flatMap.mp absent decl hd)).symm
  rw [CompilationUnit.draft_eq, CompilationUnit.draft_eq, CompilationUnit.mapClasses, types]
  simp only [List.map_append, List.map_cons, stays before coversBefore passed,
    stays after coversAfter absent,
    ClassDecl.draft_of_replacesFirst inner le coversInner distinctInner answer]

end Replacement

end Augment
