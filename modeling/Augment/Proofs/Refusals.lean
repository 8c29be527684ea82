import Augment.Proofs.Draft

/-!
# Refusals

A marker on anything but a class in the narrow sense is to be refused: `Node.refusal?` is what is to
be said about a declaration.  When a class answers to a marker, the new members carry no markers, so
nothing is to be said about them; but the constructors that it gives up take their own markers with
them.  What is then left to be said is what was to be said before, without what the class has lost
(`CompilationUnit.refusals_mapClasses`).
-/

namespace Augment

open scoped List

variable {ν : Type} [DecidableEq ν] [InitName ν]

/-- A choice that is the same for all items can be made for each. -/
theorem flatMap_ite {α β : Type} (p : Prop) [Decidable p] (items : List α) (f : α → List β) :
    (if p then items.flatMap f else []) = items.flatMap fun item => if p then f item else [] := by
  split
  · rfl
  · simp

/-! ### What is to be said -/

/-- What is said about a declaration that cannot answer to a marker. -/
def Node.refusal (spell : ν → String) (kind : MarkerKind) (node : Node ν) : Diagnostic :=
  .error <|
    "annotation not supported: " ++ kind.text ++ " on " ++ node.elementKind.text ++ " `" ++
      spell node.name ++ "`, only classes can be augmented"

/-- The refusal of a declaration that carries a marker of the kind and is no class. -/
def Node.refusal? (spell : ν → String) (kind : MarkerKind) (node : Node ν) : Option Diagnostic :=
  if node.elementKind ≠ .type .classType ∧ ∃ marker ∈ node.markers, marker.kind = kind then
    some (node.refusal spell kind)
  else
    none

/-- The refusal of a member itself. -/
def Member.refusal? (spell : ν → String) (kind : MarkerKind) (member : Member ν) :
    Option Diagnostic :=
  member.own?.bind (Node.refusal? spell kind)

/-- The refusals of a class and of what it declares itself. -/
def ClassDecl.refusals (spell : ν → String) (kind : MarkerKind) (decl : ClassDecl ν) :
    List Diagnostic :=
  decl.own.filterMap (Node.refusal? spell kind)

/-- The refusals of all declarations of a unit. -/
def CompilationUnit.refusals (spell : ν → String) (kind : MarkerKind) (unit : CompilationUnit ν) :
    List Diagnostic :=
  unit.nodes.filterMap (Node.refusal? spell kind)

/-- The class gives up its constructors without parameters, if it comes to that. -/
def ClassDecl.ReplacesConstructors (decl : ClassDecl ν) : Prop :=
  decl.kind = .classType ∧ ∃ marker ∈ decl.markers, marker.kind = .noArgsConstructor

instance (decl : ClassDecl ν) : Decidable decl.ReplacesConstructors :=
  inferInstanceAs (Decidable (_ ∧ _))

/-- The class without constructors that have no parameters. -/
def ClassDecl.withoutNoArgsConstructors (decl : ClassDecl ν) : ClassDecl ν :=
  { decl with members := decl.members.filter (¬·.IsNullary) }

/-- The class gives up a constructor that carries a marker of the kind. -/
def ClassDecl.LosesMarker (kind : MarkerKind) (decl : ClassDecl ν) : Prop :=
  decl.ReplacesConstructors ∧ ∃ method, .method method ∈ decl.members ∧
    (Member.method method).IsNullary ∧ ∃ marker ∈ method.markers, marker.kind = kind

/-- The refusals of the constructors that a class gives up. -/
def ClassDecl.lost (spell : ν → String) (kind : MarkerKind) (decl : ClassDecl ν) :
    List Diagnostic :=
  if decl.ReplacesConstructors then
    (decl.members.filter (·.IsNullary)).filterMap (Member.refusal? spell kind)
  else
    []

section Refusals

variable {spell : ν → String} {kind : MarkerKind}

theorem Node.refusal?_of_unmarked {node : Node ν} (unmarked : node.markers = []) :
    node.refusal? spell kind = none := by
  simp [Node.refusal?, unmarked]

/-- A method or constructor has no refusal only if it has no such marker. -/
theorem MethodDecl.refusal?_eq_none_iff {decl : MethodDecl ν} :
    (Node.method decl).refusal? spell kind = none ↔
      ∀ marker ∈ decl.markers, marker.kind ≠ kind := by
  have elementKind : (Node.method decl).elementKind ≠ .type .classType :=
    decl.elementKind_ne_type .classType
  simp [Node.refusal?, elementKind]

/-- **A class loses nothing** unless it gives up a constructor with a marker. -/
theorem ClassDecl.lost_eq_nil_iff (decl : ClassDecl ν) :
    decl.lost spell kind = [] ↔ ¬decl.LosesMarker kind := by
  by_cases replaces : decl.ReplacesConstructors
  · rw [lost, if_pos replaces, List.filterMap_eq_nil_iff]
    constructor
    · rintro none ⟨-, method, hm, gone, marker, marked, same⟩
      have silent : (Node.method method).refusal? spell kind = Option.none :=
        none (.method method) (List.mem_filter.mpr ⟨hm, decide_eq_true gone⟩)
      exact MethodDecl.refusal?_eq_none_iff.mp silent marker marked same
    · intro nothing member hm
      obtain ⟨hm, gone⟩ := List.mem_filter.mp hm
      have gone := of_decide_eq_true gone
      cases member with
      | field field => cases gone
      | nested inner => cases gone
      | method method =>
        refine MethodDecl.refusal?_eq_none_iff.mpr fun marker marked same => ?_
        exact nothing ⟨replaces, method, hm, gone, marker, marked, same⟩
  · simp [lost, LosesMarker, replaces]

theorem ClassDecl.refusals_eq (decl : ClassDecl ν) :
    decl.refusals spell kind = (decl.node.refusal? spell kind).toList ++
      decl.members.filterMap (Member.refusal? spell kind) := by
  have members : (decl.members.filterMap Member.own?).filterMap (Node.refusal? spell kind) =
      decl.members.filterMap (Member.refusal? spell kind) := List.filterMap_filterMap
  rw [refusals, own, List.filterMap_cons, members]
  cases decl.node.refusal? spell kind <;> rfl

/-- **The refusals of a unit** are those of its classes, at any depth. -/
theorem CompilationUnit.refusals_perm (unit : CompilationUnit ν) :
    (unit.refusals spell kind).Perm (unit.postorder.flatMap (ClassDecl.refusals spell kind)) := by
  have perm := unit.nodes_perm.filterMap (Node.refusal? spell kind)
  rwa [List.filterMap_flatMap] at perm

/-- **A class that gives up constructors loses their refusals.** -/
theorem ClassDecl.refusals_withoutNoArgsConstructors (decl : ClassDecl ν) :
    (decl.withoutNoArgsConstructors.refusals spell kind ++
      (decl.members.filter (·.IsNullary)).filterMap (Member.refusal? spell kind)).Perm
      (decl.refusals spell kind) := by
  have members : (decl.members.filter (¬·.IsNullary) ++
      decl.members.filter (·.IsNullary)).Perm decl.members := by
    simp only [decide_not]
    exact List.perm_append_comm.trans (List.filter_append_perm _ _)
  have refused := members.filterMap (Member.refusal? spell kind)
  rw [List.filterMap_append] at refused
  rw [refusals_eq, refusals_eq, List.append_assoc]
  exact refused.append_left _

end Refusals

/-! ### What an answer loses -/

namespace ClassDecl

/-- An answer neither adds nor takes away nested classes. -/
theorem nested_augmentedBy (marker : Marker) (decl : ClassDecl String) :
    (decl.augmentedBy marker).nested = decl.nested := by
  have methods : ((marker.additions decl.fields).map Member.method).filterMap Member.nested? =
      [] := by simp [Member.nested?]
  rw [nested, augmentedBy, List.filterMap_append, Marker.kept_filterMap fun _ => rfl, methods,
    List.append_nil]
  rfl

theorem nested_respond (kind : MarkerKind) (decl : ClassDecl String) :
    (decl.respond kind).nested = decl.nested := by
  unfold respond
  split
  · exact nested_augmentedBy _ decl
  · rfl

theorem nested_foldl_respond (kinds : List MarkerKind) (decl : ClassDecl String) :
    (kinds.foldl respond decl).nested = decl.nested := by
  induction kinds generalizing decl with
  | nil => rfl
  | cons kind rest ih => rw [List.foldl_cons, ih, nested_respond]

end ClassDecl

/-- New members have no markers. -/
theorem Marker.markers_of_mem_additions {marker : Marker} {fields : List (FieldDecl String)}
    {decl : MethodDecl String} (h : decl ∈ marker.additions fields) : decl.markers = [] := by
  cases marker with
  | getter =>
    obtain ⟨field, -, rfl⟩ := List.mem_map.mp h
    rfl
  | setter =>
    obtain ⟨field, -, rfl⟩ := List.mem_map.mp h
    rfl
  | noArgsConstructor access =>
    obtain rfl := List.mem_singleton.mp h
    rfl

section Respond

variable {spell : String → String} {kind : MarkerKind}

/-- Nothing is to be said about new members. -/
theorem Member.filterMap_refusal?_additions {marker : Marker} {fields : List (FieldDecl String)}
    {members : List (Member String)} (h : members ⊆ (marker.additions fields).map .method) :
    members.filterMap (Member.refusal? spell kind) = [] := by
  refine List.filterMap_eq_nil_iff.mpr fun member hm => ?_
  obtain ⟨decl, hd, rfl⟩ := List.mem_map.mp (h hm)
  exact Node.refusal?_of_unmarked (Marker.markers_of_mem_additions hd)

namespace ClassDecl

theorem refusals_augmentedBy (marker : Marker) (decl : ClassDecl String) :
    (decl.augmentedBy marker).refusals spell kind =
      ({ decl with members := marker.kept decl.members } :
        ClassDecl String).refusals spell kind := by
  rw [refusals_eq, refusals_eq, augmentedBy, List.filterMap_append,
    Member.filterMap_refusal?_additions (List.Subset.refl _), List.append_nil]
  rfl

theorem refusals_withoutNoArgsConstructors_augmentedBy (marker : Marker)
    (decl : ClassDecl String) :
    (decl.augmentedBy marker).withoutNoArgsConstructors.refusals spell kind =
      decl.withoutNoArgsConstructors.refusals spell kind := by
  have members : (decl.augmentedBy marker).withoutNoArgsConstructors.members =
      decl.members.filter (¬·.IsNullary) ++
        ((marker.additions decl.fields).map Member.method).filter (¬·.IsNullary) := by
    rw [withoutNoArgsConstructors, augmentedBy, List.filter_append, marker.filter_kept]
  have new : (((marker.additions decl.fields).map Member.method).filter
      (¬·.IsNullary)).filterMap (Member.refusal? spell kind) = [] :=
    Member.filterMap_refusal?_additions (List.filter_subset_self _)
  rw [refusals_eq, refusals_eq, members, List.filterMap_append, new, List.append_nil]
  rfl

theorem replacesConstructors_respond (answered : MarkerKind) (decl : ClassDecl String) :
    (decl.respond answered).ReplacesConstructors ↔ decl.ReplacesConstructors := by
  unfold respond
  split <;> rfl

theorem refusals_withoutNoArgsConstructors_respond (answered : MarkerKind)
    (decl : ClassDecl String) :
    (decl.respond answered).withoutNoArgsConstructors.refusals spell kind =
      decl.withoutNoArgsConstructors.refusals spell kind := by
  unfold respond
  split
  · exact refusals_withoutNoArgsConstructors_augmentedBy _ decl
  · rfl

/-- **What is to be said about a class after one answer.** -/
theorem refusals_respond (answered : MarkerKind) (decl : ClassDecl String) :
    (decl.respond answered).refusals spell kind =
      if answered = .noArgsConstructor ∧ decl.ReplacesConstructors then
        decl.withoutNoArgsConstructors.refusals spell kind
      else
        decl.refusals spell kind := by
  unfold respond
  split
  · rename_i marker isClass first
    have hm : marker.kind = answered := Marker.kind_of_first? first
    rw [refusals_augmentedBy]
    -- only the answer to a constructor marker chooses among the members
    cases marker with
    | getter => rw [if_neg (by simp [← hm, Marker.kind])]; rfl
    | setter => rw [if_neg (by simp [← hm, Marker.kind])]; rfl
    | noArgsConstructor access =>
      have replaces : decl.ReplacesConstructors :=
        ⟨isClass, _, List.mem_of_find?_eq_some first, rfl⟩
      rw [if_pos ⟨hm.symm, replaces⟩]
      rfl
  · rename_i neither
    have kept : ¬(answered = .noArgsConstructor ∧ decl.ReplacesConstructors) := by
      rintro ⟨rfl, isClass, marked⟩
      obtain ⟨marker, first⟩ := Option.isSome_iff_exists.mp (Marker.isSome_first?_iff.mpr marked)
      exact neither marker isClass first
    rw [if_neg kept]

/-- **What is to be said about a class after some answers:** it has lost its constructors or not. -/
theorem refusals_foldl_respond (kinds : List MarkerKind) (decl : ClassDecl String) :
    (kinds.foldl respond decl).refusals spell kind =
      if .noArgsConstructor ∈ kinds ∧ decl.ReplacesConstructors then
        decl.withoutNoArgsConstructors.refusals spell kind
      else
        decl.refusals spell kind := by
  induction kinds generalizing decl with
  | nil => simp
  | cons answered rest ih =>
    simp only [List.foldl_cons, ih, replacesConstructors_respond, refusals_respond,
      refusals_withoutNoArgsConstructors_respond]
    -- once the constructors are gone, no answer brings them back
    by_cases replaces : decl.ReplacesConstructors
    · by_cases first : answered = .noArgsConstructor
      · simp [first, replaces]
      · simp [first, replaces, Ne.symm first]
    · simp [replaces]

theorem refusals_foldl_perm (kinds : List MarkerKind) (decl : ClassDecl String) :
    ((kinds.foldl respond decl).refusals spell kind ++
      if .noArgsConstructor ∈ kinds then decl.lost spell kind else []).Perm
      (decl.refusals spell kind) := by
  rw [refusals_foldl_respond, lost]
  by_cases answered : .noArgsConstructor ∈ kinds
  · by_cases replaces : decl.ReplacesConstructors
    · simp only [answered, replaces, and_self, if_true]
      exact decl.refusals_withoutNoArgsConstructors
    · simp [replaces]
  · simp [answered]

end ClassDecl

/-- **What is to be said about a unit after some answers** is what was to be said before, without
what was lost by its classes. -/
theorem CompilationUnit.refusals_mapClasses (kinds : List MarkerKind)
    (unit : CompilationUnit String) :
    ((unit.mapClasses fun decl => kinds.foldl ClassDecl.respond decl).refusals spell kind ++
      if .noArgsConstructor ∈ kinds then
        unit.postorder.flatMap (ClassDecl.lost spell kind)
      else
        []).Perm (unit.refusals spell kind) := by
  have changed := (CompilationUnit.nodes_mapClasses_perm (ClassDecl.local_foldl_respond kinds)
    (ClassDecl.nested_foldl_respond kinds) unit).filterMap (Node.refusal? spell kind)
  rw [List.filterMap_flatMap] at changed
  rw [flatMap_ite]
  calc (unit.mapClasses fun decl => kinds.foldl ClassDecl.respond decl).refusals spell kind ++ _
    _ ~ _ ++ _ := changed.append_right _
    _ ~ unit.postorder.flatMap (fun decl => _ ++ _) := List.flatMap_append_perm _ _ _
    _ ~ unit.postorder.flatMap (ClassDecl.refusals spell kind) :=
      List.Perm.flatMap_left _ fun decl _ => decl.refusals_foldl_perm kinds
    _ ~ unit.refusals spell kind := unit.refusals_perm.symm

end Respond

/-! ### Refusals of drafts -/

/-- A refusal depends on the kind of the declaration, its markers and its spelled name. -/
theorem Node.refusal?_congr {μ : Type} [DecidableEq μ] [InitName μ] {spell : ν → String}
    {spell' : μ → String} {node : Node ν} {node' : Node μ} (kind : MarkerKind)
    (elementKind : node'.elementKind = node.elementKind) (markers : node'.markers = node.markers)
    (name : spell' node'.name = spell node.name) :
    node'.refusal? spell' kind = node.refusal? spell kind := by
  rw [refusal?, refusal?, refusal, refusal, elementKind, markers, name]

section Draft

variable {names : Names} {kind : MarkerKind}

theorem Member.refusal?_draft (member : Member Symbol)
    (known : ∀ decl, member = .method decl → names.Knows decl.name) :
    (member.draft names).refusal? (fun s => s) kind = member.refusal? names.display kind := by
  cases member with
  | field decl => exact Node.refusal?_congr kind rfl rfl rfl
  | nested decl => rfl
  | method decl =>
    have isConstructor := decl.isConstructor_map (known decl rfl)
    have elementKind : (Node.method (decl.map names.display).withoutId).elementKind =
        (Node.method decl).elementKind :=
      congrArg (fun b : Bool => if b then ElementKind.constructor else .method) isConstructor
    exact Node.refusal?_congr kind elementKind rfl rfl

theorem ClassDecl.knows_of_mem_members {decl : ClassDecl Symbol} {member : Member Symbol}
    (covers : names.Covers decl.own) (hm : member ∈ decl.members) :
    ∀ method, member = .method method → names.Knows method.name := by
  rintro method rfl
  have own : .method method ∈ decl.own :=
    List.mem_cons_of_mem _ (List.mem_filterMap.mpr ⟨_, hm, rfl⟩)
  exact covers _ own _ (Node.name_mem_names _)

theorem ClassDecl.refusals_draft (decl : ClassDecl Symbol) (covers : names.Covers decl.own) :
    (decl.draft names).refusals (fun s => s) kind = decl.refusals names.display kind := by
  have node : (decl.draft names).node.refusal? (fun s => s) kind =
      decl.node.refusal? names.display kind := by
    rw [draft_eq]
    exact Node.refusal?_congr kind rfl rfl rfl
  have members : (decl.members.map (Member.draft names)).filterMap
      (Member.refusal? (fun s => s) kind) =
        decl.members.filterMap (Member.refusal? names.display kind) := by
    rw [List.filterMap_map]
    exact List.filterMap_congr fun member hm =>
      member.refusal?_draft (knows_of_mem_members covers hm)
  rw [refusals_eq, refusals_eq, node, members_draft, members]

theorem ClassDecl.lost_draft (decl : ClassDecl Symbol) (covers : names.Covers decl.own) :
    (decl.draft names).lost (fun s => s) kind = decl.lost names.display kind := by
  have replaces : (decl.draft names).ReplacesConstructors ↔ decl.ReplacesConstructors := by
    rw [ReplacesConstructors, kind_draft, markers_draft, ReplacesConstructors]
  have members : ((decl.members.map (Member.draft names)).filter (·.IsNullary)).filterMap
      (Member.refusal? (fun s => s) kind) =
        (decl.members.filter (·.IsNullary)).filterMap (Member.refusal? names.display kind) := by
    have same : decl.members.filter
        ((fun member : Member String => decide member.IsNullary) ∘ Member.draft names) =
          decl.members.filter (·.IsNullary) :=
      List.filter_congr fun member hm =>
        decide_eq_decide.mpr (member.isNullary_draft (knows_of_mem_members covers hm))
    rw [List.filter_map, List.filterMap_map, same]
    exact List.filterMap_congr fun member hm =>
      member.refusal?_draft (knows_of_mem_members covers (List.mem_of_mem_filter hm))
  simp only [lost, replaces, members_draft, members]

namespace CompilationUnit

/-- Names that are known in a unit are known in its classes. -/
theorem covers_own {unit : CompilationUnit Symbol} (covers : names.Covers unit.nodes)
    {decl : ClassDecl Symbol} (hd : decl ∈ unit.postorder) : names.Covers decl.own :=
  covers.subset fun _ hn => unit.nodes_perm.mem_iff.mpr (List.mem_flatMap_of_mem hd hn)

theorem refusals_draft (unit : CompilationUnit Symbol) (covers : names.Covers unit.nodes) :
    ((unit.draft names).refusals (fun s => s) kind).Perm (unit.refusals names.display kind) := by
  have classes : (unit.postorder.map (ClassDecl.draft names)).flatMap
      (ClassDecl.refusals (fun s => s) kind) =
        unit.postorder.flatMap (ClassDecl.refusals names.display kind) := by
    rw [List.flatMap_map]
    exact List.flatMap_congr fun decl hd => decl.refusals_draft (covers_own covers hd)
  have perm : ((unit.draft names).refusals (fun s => s) kind).Perm _ :=
    refusals_perm (unit.draft names)
  rw [postorder_draft, classes] at perm
  exact perm.trans unit.refusals_perm.symm

/-- The refusals of the constructors that are given up in a unit; only source code ever changes. -/
def lost (spell : ν → String) (kind : MarkerKind) (unit : CompilationUnit ν) : List Diagnostic :=
  if unit.isPrimarySource then unit.postorder.flatMap (ClassDecl.lost spell kind) else []

theorem flatMap_lost_draft (unit : CompilationUnit Symbol) (covers : names.Covers unit.nodes) :
    (unit.draft names).postorder.flatMap (ClassDecl.lost (fun s => s) kind) =
      unit.postorder.flatMap (ClassDecl.lost names.display kind) := by
  rw [postorder_draft, List.flatMap_map]
  exact List.flatMap_congr fun decl hd => decl.lost_draft (covers_own covers hd)

end CompilationUnit

end Draft

end Augment
