import Augment.Proofs.Tree.Replacement

/-!
# Changing every class of a tree

`ClassDecl.mapClasses f` applies `f` to every class of a tree, a nested class before the class that
declares it.  Unlike a bottom-up change with a state, the classes do not see each other.

A change of a class is *local* (`ClassDecl.Local`) if it does not look into the classes nested in
it: it commutes with every change of those.  For a local change the order in which the classes are
taken makes no difference, so two rounds of changes are one (`ClassDecl.mapClasses_mapClasses`), and
two local changes that agree on the classes of a tree agree on the tree
(`ClassDecl.mapClasses_congr`).

If a change keeps the nested classes, then the classes of the new tree are the changed classes, in
the same order (`ClassDecl.postorder_mapClasses`).  And if it is local as well, then the
declarations of the new tree are those that the changed classes declare themselves
(`ClassDecl.nodes_mapClasses_perm`).
-/

namespace Augment

variable {ν : Type}

/-- The member with a nested class changed. -/
def Member.mapNested (f : ClassDecl ν → ClassDecl ν) : Member ν → Member ν
  | nested decl => .nested (f decl)
  | member => member

theorem Member.mapNested_mapNested (f g : ClassDecl ν → ClassDecl ν) (member : Member ν) :
    (member.mapNested g).mapNested f = member.mapNested (f ∘ g) := by
  cases member <;> rfl

namespace ClassDecl

/-- The class with the classes declared directly in it changed. -/
def mapNested (f : ClassDecl ν → ClassDecl ν) (decl : ClassDecl ν) : ClassDecl ν :=
  { decl with members := decl.members.map (Member.mapNested f) }

mutual

/-- The class with each class in it changed, and then the class. -/
def mapClasses (f : ClassDecl ν → ClassDecl ν) : ClassDecl ν → ClassDecl ν
  | ⟨id, name, kind, modifiers, markers, members⟩ =>
    f ⟨id, name, kind, modifiers, markers, mapClassesMembers f members⟩

/-- The members with each class in them changed. -/
def mapClassesMembers (f : ClassDecl ν → ClassDecl ν) : List (Member ν) → List (Member ν)
  | [] => []
  | .field decl :: rest => .field decl :: mapClassesMembers f rest
  | .method decl :: rest => .method decl :: mapClassesMembers f rest
  | .nested decl :: rest => .nested (decl.mapClasses f) :: mapClassesMembers f rest

end

end ClassDecl

/-- The unit with each class in it changed. -/
def CompilationUnit.mapClasses (f : ClassDecl ν → ClassDecl ν) (unit : CompilationUnit ν) :
    CompilationUnit ν :=
  { unit with types := unit.types.map (ClassDecl.mapClasses f) }

namespace ClassDecl

variable {f g : ClassDecl ν → ClassDecl ν}

theorem mapClassesMembers_eq (f : ClassDecl ν → ClassDecl ν) (members : List (Member ν)) :
    mapClassesMembers f members = members.map (Member.mapNested (mapClasses f)) := by
  induction members with
  | nil => rfl
  | cons member rest ih => cases member <;> simp [mapClassesMembers, Member.mapNested, ih]

theorem mapClasses_eq (f : ClassDecl ν → ClassDecl ν) (decl : ClassDecl ν) :
    decl.mapClasses f = f (decl.mapNested (mapClasses f)) := by
  cases decl
  simp [mapClasses, mapNested, mapClassesMembers_eq]

@[simp] theorem id_mapNested (decl : ClassDecl ν) : (decl.mapNested f).id = decl.id := rfl

@[simp] theorem kind_mapNested (decl : ClassDecl ν) : (decl.mapNested f).kind = decl.kind := rfl

@[simp] theorem markers_mapNested (decl : ClassDecl ν) :
    (decl.mapNested f).markers = decl.markers := rfl

theorem members_mapNested (decl : ClassDecl ν) :
    (decl.mapNested f).members = decl.members.map (Member.mapNested f) := rfl

theorem mapNested_mapNested (decl : ClassDecl ν) :
    (decl.mapNested g).mapNested f = decl.mapNested (f ∘ g) := by
  simp [mapNested, Member.mapNested_mapNested]

/-- Two changes that agree on the directly nested classes give the same class. -/
theorem mapNested_congr {decl : ClassDecl ν}
    (h : ∀ inner, .nested inner ∈ decl.members → f inner = g inner) :
    decl.mapNested f = decl.mapNested g := by
  have members : decl.members.map (Member.mapNested f) = decl.members.map (Member.mapNested g) := by
    refine List.map_congr_left fun member hm => ?_
    cases member with
    | field field => rfl
    | method method => rfl
    | nested inner => exact congrArg Member.nested (h inner hm)
  rw [mapNested, mapNested, members]

theorem mapNested_self (decl : ClassDecl ν) : decl.mapNested (fun c => c) = decl := by
  have members : decl.members.map (Member.mapNested fun c => c) = decl.members := by
    refine List.map_id'' (fun member => ?_) _
    cases member <;> rfl
  rw [mapNested, members]
  cases decl
  rfl

/-! ### Local changes -/

/-- The change of a class does not look into the classes nested in it. -/
def Local (f : ClassDecl ν → ClassDecl ν) : Prop :=
  ∀ h decl, f (mapNested h decl) = mapNested h (f decl)

theorem local_self : Local fun c : ClassDecl ν => c := fun _ _ => rfl

theorem Local.comp (hf : Local f) (hg : Local g) : Local (f ∘ g) := by
  intro h decl
  rw [Function.comp, hg h decl, hf h (g decl), Function.comp]

theorem Local.foldl {α : Type} {step : ClassDecl ν → α → ClassDecl ν}
    (h : ∀ item, Local (step · item)) (items : List α) :
    Local fun decl => items.foldl step decl := by
  induction items with
  | nil => exact local_self
  | cons item rest ih => exact ih.comp (h item)

/-- **Two rounds of changes are one** if the first is local. -/
theorem mapClasses_mapClasses (hg : Local g) (decl : ClassDecl ν) :
    (decl.mapClasses g).mapClasses f = decl.mapClasses (f ∘ g) := by
  induction decl using ClassDecl.induction with
  | step decl ih =>
    have inner : decl.mapNested (mapClasses f ∘ mapClasses g) =
        decl.mapNested (mapClasses (f ∘ g)) := mapNested_congr ih
    -- `g` is local, so the nested classes can be changed by `f` before the class is changed by `g`
    rw [mapClasses_eq g, mapClasses_eq f, ← hg, mapNested_mapNested, inner, mapClasses_eq (f ∘ g),
      Function.comp_apply]

/-- **Local changes that agree on the classes of a tree agree on the tree.** -/
theorem mapClasses_congr (hf : Local f) (hg : Local g) (decl : ClassDecl ν)
    (h : ∀ c ∈ decl.postorder, f c = g c) : decl.mapClasses f = decl.mapClasses g := by
  induction decl using ClassDecl.induction with
  | step decl ih =>
    rw [postorder_eq_members, List.forall_mem_append, List.forall_mem_flatMap,
      List.forall_mem_singleton] at h
    have inner : ∀ inner, .nested inner ∈ decl.members →
        inner.mapClasses f = inner.mapClasses g := fun inner hi => ih inner hi (h.1 _ hi)
    rw [mapClasses_eq, mapClasses_eq, mapNested_congr inner, hf, hg, h.2]

theorem mapClasses_self (decl : ClassDecl ν) : decl.mapClasses (fun c => c) = decl := by
  induction decl using ClassDecl.induction with
  | step decl ih =>
    have inner : decl.mapNested (mapClasses fun c => c) = decl.mapNested fun c => c :=
      mapNested_congr ih
    rw [mapClasses_eq, inner, mapNested_self]

/-- A local change that leaves the classes of a tree alone leaves the tree alone. -/
theorem mapClasses_eq_self (hf : Local f) (decl : ClassDecl ν)
    (h : ∀ c ∈ decl.postorder, f c = c) : decl.mapClasses f = decl :=
  (mapClasses_congr hf local_self decl h).trans (mapClasses_self decl)

end ClassDecl

/-! ### Declarations by class -/

/-- The member as a declaration, unless it is a class. -/
def Member.own? : Member ν → Option (Node ν)
  | field decl => some (.field decl)
  | method decl => some (.method decl)
  | nested _ => none

namespace ClassDecl

/-- The class and what it declares itself, without the classes nested in it. -/
def own (decl : ClassDecl ν) : List (Node ν) :=
  decl.node :: decl.members.filterMap Member.own?

theorem own_mapNested (decl : ClassDecl ν) : (decl.mapNested f).own = decl.own := by
  rw [own, own, members_mapNested, List.filterMap_map]
  refine congrArg _ (List.filterMap_congr fun member _ => ?_)
  cases member <;> rfl

theorem nested_mapNested (decl : ClassDecl ν) : (decl.mapNested f).nested = decl.nested.map f := by
  rw [nested, nested, members_mapNested, List.filterMap_map, List.map_filterMap]
  refine List.filterMap_congr fun member _ => ?_
  cases member <;> rfl

theorem nested_mapClasses (keeps : ∀ decl, (f decl).nested = decl.nested) (decl : ClassDecl ν) :
    (decl.mapClasses f).nested = decl.nested.map (mapClasses f) := by
  rw [mapClasses_eq, keeps, nested_mapNested]

/-- **The classes of a changed tree** are the changed classes, in the same order. -/
theorem postorder_mapClasses (keeps : ∀ decl, (f decl).nested = decl.nested) (decl : ClassDecl ν) :
    (decl.mapClasses f).postorder = decl.postorder.map (mapClasses f) := by
  induction decl using ClassDecl.induction with
  | step decl ih =>
    have inner : (decl.nested.map (mapClasses f)).flatMap postorder =
        (decl.nested.flatMap postorder).map (mapClasses f) := by
      rw [List.flatMap_map, List.map_flatMap]
      exact List.flatMap_congr fun c hc => ih c (mem_nested.mp hc)
    rw [postorder_eq, postorder_eq, nested_mapClasses keeps, inner, List.map_append]
    rfl

/-- What a class declares, and what is declared in the classes nested in it. -/
theorem nodes_perm (decl : ClassDecl ν) :
    decl.nodes.Perm (decl.own ++ decl.nested.flatMap nodes) := by
  have members : ∀ members : List (Member ν), (members.flatMap Member.nodes).Perm
      (members.filterMap Member.own? ++ (members.filterMap Member.nested?).flatMap nodes) := by
    intro members
    induction members with
    | nil => exact .refl _
    | cons member rest ih =>
      cases member with
      | field field => exact ih.cons _
      | method method => exact ih.cons _
      | nested inner =>
        exact (ih.append_left inner.nodes).trans (List.perm_append_comm_assoc ..)
  rw [nodes_eq]
  exact (members decl.members).cons decl.node

/-- **The declarations of a changed tree** are what its changed classes declare themselves. -/
theorem nodes_mapClasses_perm (hf : Local f) (keeps : ∀ decl, (f decl).nested = decl.nested)
    (decl : ClassDecl ν) :
    (decl.mapClasses f).nodes.Perm (decl.postorder.flatMap fun c => (f c).own) := by
  induction decl using ClassDecl.induction with
  | step decl ih =>
    have inside : (decl.nested.flatMap fun c => (c.mapClasses f).nodes).Perm
        (decl.nested.flatMap fun c => c.postorder.flatMap fun c => (f c).own) :=
      List.Perm.flatMap_left _ fun c hc => ih c (mem_nested.mp hc)
    rw [postorder_eq, List.flatMap_append, List.flatMap_assoc, List.flatMap_singleton,
      mapClasses_eq, hf]
    refine (nodes_perm _).trans ?_
    rw [own_mapNested, nested_mapNested, keeps, List.flatMap_map]
    exact List.perm_append_comm.trans (inside.append_right _)

end ClassDecl

namespace CompilationUnit

variable {f g : ClassDecl ν → ClassDecl ν}

theorem mapClasses_mapClasses (hg : ClassDecl.Local g) (unit : CompilationUnit ν) :
    (unit.mapClasses g).mapClasses f = unit.mapClasses (f ∘ g) := by
  simp [mapClasses, ClassDecl.mapClasses_mapClasses hg]

theorem mapClasses_congr (hf : ClassDecl.Local f) (hg : ClassDecl.Local g)
    (unit : CompilationUnit ν) (h : ∀ c ∈ unit.postorder, f c = g c) :
    unit.mapClasses f = unit.mapClasses g := by
  rw [CompilationUnit.postorder_eq, List.forall_mem_flatMap] at h
  have types : unit.types.map (ClassDecl.mapClasses f) = unit.types.map (ClassDecl.mapClasses g) :=
    List.map_congr_left fun decl hd => ClassDecl.mapClasses_congr hf hg decl (h decl hd)
  rw [mapClasses, mapClasses, types]

theorem mapClasses_self (unit : CompilationUnit ν) : unit.mapClasses (fun c => c) = unit := by
  have types : unit.types.map (ClassDecl.mapClasses fun c => c) = unit.types :=
    List.map_id'' (fun decl => ClassDecl.mapClasses_self decl) _
  rw [mapClasses, types]

theorem postorder_mapClasses (keeps : ∀ decl, (f decl).nested = decl.nested)
    (unit : CompilationUnit ν) :
    (unit.mapClasses f).postorder = unit.postorder.map (ClassDecl.mapClasses f) := by
  rw [CompilationUnit.postorder_eq, CompilationUnit.postorder_eq, mapClasses, List.flatMap_map,
    List.map_flatMap]
  exact List.flatMap_congr fun decl _ => ClassDecl.postorder_mapClasses keeps decl

theorem nodes_mapClasses_perm (hf : ClassDecl.Local f)
    (keeps : ∀ decl, (f decl).nested = decl.nested) (unit : CompilationUnit ν) :
    (unit.mapClasses f).nodes.Perm (unit.postorder.flatMap fun c => (f c).own) := by
  rw [CompilationUnit.nodes_eq, CompilationUnit.postorder_eq, mapClasses, List.flatMap_map,
    List.flatMap_assoc]
  exact List.Perm.flatMap_left _ fun decl _ => ClassDecl.nodes_mapClasses_perm hf keeps decl

/-- The declarations of a unit, class by class. -/
theorem nodes_perm (unit : CompilationUnit ν) :
    unit.nodes.Perm (unit.postorder.flatMap ClassDecl.own) := by
  have perm := nodes_mapClasses_perm (f := fun c => c) ClassDecl.local_self (fun _ => rfl) unit
  rwa [mapClasses_self] at perm

end CompilationUnit

end Augment
