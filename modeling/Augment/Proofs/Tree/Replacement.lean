import Augment.Proofs.Tree.Nodes
import Mathlib.Data.List.Forall2
import Mathlib.Data.List.Perm.Basic

/-!
# Replacing one class of a tree

`ClassDecl.ReplacesFirst target old new decl decl'` says that `decl'` is `decl` with one class
exchanged: the first class in post-order that has the id `target`, which was `old` and is `new`.
The derivation is the way from the root down to that class, so what such an exchange does to any
listing of a tree is shown by one induction along the way:

* `ReplacesFirst.find?_postorder`: the exchanged class is the one that a search in post-order finds;
* `ReplacesFirst.nodes_eq`: in the list of declarations, those of `old` give way to those of `new`,
  and all around them stays;
* `ReplacesFirst.persists`: the classes of the tree, as such, stay the same ones in the same order
  if those in `new` are those in `old`, and interfaces and enumerations keep their members.
-/

namespace Augment

variable {ν : Type}

/-! ### Post-order in terms of members -/

/-- The classes in a member, each after the classes nested in it. -/
def Member.postorder : Member ν → List (ClassDecl ν)
  | nested decl => decl.postorder
  | _ => []

theorem ClassDecl.nested_flatMap_postorder (members : List (Member ν)) :
    (members.filterMap Member.nested?).flatMap ClassDecl.postorder =
      members.flatMap Member.postorder := by
  induction members with
  | nil => rfl
  | cons member rest ih =>
    cases member <;> simp [Member.nested?, Member.postorder, List.filterMap_cons, ih]

theorem ClassDecl.postorder_eq_members (decl : ClassDecl ν) :
    decl.postorder = decl.members.flatMap Member.postorder ++ [decl] := by
  rw [ClassDecl.postorder_eq, ClassDecl.nested, nested_flatMap_postorder]

/-- The classes of a class, entered before they are left, are the same classes. -/
theorem ClassDecl.postorder_perm (decl : ClassDecl ν) :
    decl.postorder.Perm (decl.tour.filterMap Visit.entered?) := by
  induction decl using ClassDecl.induction with
  | step decl ih =>
    have members : (decl.members.flatMap Member.postorder).Perm
        ((decl.members.flatMap (Member.tour decl)).filterMap Visit.entered?) := by
      rw [List.filterMap_flatMap]
      refine List.Perm.flatMap_left _ fun member hm => ?_
      cases member with
      | field field => exact .refl _
      | method method => exact .refl _
      | nested inner => exact ih inner hm
    rw [postorder_eq_members, tour_eq]
    simp only [List.filterMap_cons, Visit.entered?, List.filterMap_append, List.filterMap_nil,
      List.append_nil]
    exact (List.perm_append_singleton _ _).trans (members.cons decl)

/-- **Both orders list the same classes.** -/
theorem CompilationUnit.postorder_perm_classes (unit : CompilationUnit ν) :
    unit.postorder.Perm unit.classes := by
  rw [CompilationUnit.postorder_eq, CompilationUnit.classes, CompilationUnit.tour,
    List.filterMap_flatMap]
  exact List.Perm.flatMap_left _ fun decl _ => ClassDecl.postorder_perm decl

theorem CompilationUnit.nodup_classes_iff (unit : CompilationUnit ν) :
    (unit.classes.map (·.id)).Nodup ↔ (unit.postorder.map (·.id)).Nodup :=
  (unit.postorder_perm_classes.map _).nodup_iff.symm

/-! ### Classes that persist -/

/-- The member without the declarations inside it. -/
def Member.node : Member ν → Node ν
  | field decl => .field decl
  | method decl => .method decl
  | nested decl => decl.node

/-- A class at a later time: it is the same class as such, and an interface or enumeration has kept
its members, up to changes inside the classes among them. -/
structure ClassDecl.Persists (decl decl' : ClassDecl ν) : Prop where
  node : decl'.node = decl.node
  members : decl.kind ≠ .classType → decl'.members.map Member.node = decl.members.map Member.node

/-- All classes persist, in the same order. -/
abbrev ClassDecl.PersistAll : List (ClassDecl ν) → List (ClassDecl ν) → Prop :=
  List.Forall₂ ClassDecl.Persists

namespace ClassDecl

variable {decl decl' decl'' : ClassDecl ν} {decls decls' decls'' : List (ClassDecl ν)}

theorem Persists.refl (decl : ClassDecl ν) : Persists decl decl :=
  ⟨rfl, fun _ => rfl⟩

theorem Persists.id_eq (h : Persists decl decl') : decl'.id = decl.id :=
  congrArg Node.id h.node

theorem Persists.kind_eq (h : Persists decl decl') : decl'.kind = decl.kind := by
  have node := h.node
  unfold ClassDecl.node at node
  injection node

theorem Persists.trans (h : Persists decl decl') (h' : Persists decl' decl'') :
    Persists decl decl'' where
  node := h'.node.trans h.node
  members kind := (h'.members (h.kind_eq ▸ kind)).trans (h.members kind)

theorem PersistAll.refl (decls : List (ClassDecl ν)) : PersistAll decls decls :=
  List.forall₂_same.mpr fun decl _ => .refl decl

theorem PersistAll.trans (h : PersistAll decls decls') (h' : PersistAll decls' decls'') :
    PersistAll decls decls'' := by
  induction h generalizing decls'' with
  | nil => exact h'
  | cons first _ ih =>
    cases h' with
    | cons first' rest' => exact .cons (first.trans first') (ih rest')

theorem PersistAll.map_id_eq (h : PersistAll decls decls') :
    decls'.map (·.id) = decls.map (·.id) := by
  induction h with
  | nil => rfl
  | cons first _ ih => rw [List.map_cons, List.map_cons, first.id_eq, ih]

/-- A class of some id that persists is still there with its kind. -/
theorem PersistAll.exists_id (h : PersistAll decls decls') (hd : decl ∈ decls) :
    ∃ decl' ∈ decls', decl'.id = decl.id ∧ decl'.kind = decl.kind := by
  induction h with
  | nil => cases hd
  | @cons _ last _ _ first _ ih =>
    rcases List.mem_cons.mp hd with rfl | hd
    · exact ⟨last, List.mem_cons_self, first.id_eq, first.kind_eq⟩
    · obtain ⟨decl', hd', same⟩ := ih hd
      exact ⟨decl', List.mem_cons_of_mem _ hd', same⟩

end ClassDecl

/-! ### Replacing a class -/

/-- The first class with the id `target` in post-order was `old` and is `new`. -/
inductive ClassDecl.ReplacesFirst (target : DeclId) (old new : ClassDecl ν) :
    ClassDecl ν → ClassDecl ν → Prop where
  /-- The class itself is exchanged, because no class nested in it has the id. -/
  | here (id : old.id = target)
      (passed : ∀ c ∈ old.members.flatMap Member.postorder, c.id ≠ target) :
      ReplacesFirst target old new old new
  /-- A class is exchanged inside a member, and no member before that one has a class of the id. -/
  | inside {decl inner inner' : ClassDecl ν} {before after : List (Member ν)}
      (members : decl.members = before ++ .nested inner :: after)
      (passed : ∀ c ∈ before.flatMap Member.postorder, c.id ≠ target)
      (deeper : ReplacesFirst target old new inner inner') :
      ReplacesFirst target old new decl { decl with members := before ++ .nested inner' :: after }

/-- The first class of the unit with the id `target` in post-order was `old` and is `new`. -/
def CompilationUnit.ReplacesFirst (target : DeclId) (old new : ClassDecl ν)
    (unit unit' : CompilationUnit ν) : Prop :=
  ∃ before decl decl' after, unit.types = before ++ decl :: after ∧
    (∀ c ∈ before.flatMap ClassDecl.postorder, c.id ≠ target) ∧
    ClassDecl.ReplacesFirst target old new decl decl' ∧
    unit' = { unit with types := before ++ decl' :: after }

/-- If some entry of a list has a property, there is a first one. -/
theorem exists_first {α : Type} {p : α → Prop} {items : List α} (h : ∃ a ∈ items, p a) :
    ∃ before a after, items = before ++ a :: after ∧ (∀ b ∈ before, ¬p b) ∧ p a := by
  induction items with
  | nil => simp at h
  | cons item rest ih =>
    by_cases first : p item
    · exact ⟨[], item, rest, rfl, by simp, first⟩
    · have later : ∃ a ∈ rest, p a := by simpa [first] using h
      obtain ⟨before, a, after, rfl, none, pa⟩ := ih later
      exact ⟨item :: before, a, after, rfl, List.forall_mem_cons.mpr ⟨first, none⟩, pa⟩

/-- **A class that occurs can be exchanged,** whatever is to take the place of the first one. -/
theorem ClassDecl.exists_replacesFirst {target : DeclId} (new : ClassDecl ν → ClassDecl ν)
    (decl : ClassDecl ν) (h : ∃ c ∈ decl.postorder, c.id = target) :
    ∃ old decl', ClassDecl.ReplacesFirst target old (new old) decl decl' := by
  induction decl using ClassDecl.induction with
  | step decl ih =>
    -- post-order: the class itself is the first one only if no member has one
    by_cases deep : ∃ member ∈ decl.members, ∃ c ∈ member.postorder, c.id = target
    · obtain ⟨before, member, after, members, passed, found⟩ := exists_first deep
      cases member with
      | field field => simp [Member.postorder] at found
      | method method => simp [Member.postorder] at found
      | nested inner =>
        obtain ⟨old, inner', replaces⟩ := ih inner (by simp [members]) found
        refine ⟨old, _, .inside members (List.forall_mem_flatMap.mpr ?_) replaces⟩
        simpa using passed
    · have passed : ∀ c ∈ decl.members.flatMap Member.postorder, c.id ≠ target :=
        List.forall_mem_flatMap.mpr (by simpa using deep)
      obtain ⟨c, hc, id⟩ := h
      rw [postorder_eq_members, List.mem_append, List.mem_singleton] at hc
      obtain rfl : c = decl := hc.resolve_left fun hc => passed c hc id
      exact ⟨c, _, .here id passed⟩

theorem CompilationUnit.exists_replacesFirst {target : DeclId} (new : ClassDecl ν → ClassDecl ν)
    (unit : CompilationUnit ν) (h : ∃ c ∈ unit.postorder, c.id = target) :
    ∃ old unit', CompilationUnit.ReplacesFirst target old (new old) unit unit' := by
  obtain ⟨c, hc, id⟩ := h
  rw [CompilationUnit.postorder_eq, List.mem_flatMap] at hc
  obtain ⟨decl, hd, hc⟩ := hc
  have deep : ∃ decl ∈ unit.types, ∃ c ∈ decl.postorder, c.id = target := ⟨decl, hd, c, hc, id⟩
  obtain ⟨before, decl, after, types, passed, found⟩ := exists_first deep
  obtain ⟨old, decl', replaces⟩ := ClassDecl.exists_replacesFirst new decl found
  refine ⟨old, _, before, decl, decl', after, types, List.forall_mem_flatMap.mpr ?_, replaces, rfl⟩
  simpa using passed

namespace ClassDecl.ReplacesFirst

variable {target : DeclId} {old new decl decl' : ClassDecl ν}

theorem id_old (h : ReplacesFirst target old new decl decl') : old.id = target := by
  induction h with
  | here id _ => exact id
  | inside _ _ _ ih => exact ih

/-- **The exchanged class is the one that a search in post-order finds.** -/
theorem find?_postorder (h : ReplacesFirst target old new decl decl') :
    decl.postorder.find? (·.id = target) = some old := by
  induction h with
  | here id passed =>
    rw [postorder_eq_members, List.find?_append, List.find?_eq_none.mpr (by simpa using passed)]
    simp [id]
  | inside members passed _ ih =>
    rw [postorder_eq_members, members, List.flatMap_append, List.flatMap_cons, List.append_assoc,
      List.find?_append, List.find?_eq_none.mpr (by simpa using passed), Member.postorder,
      List.append_assoc, List.find?_append, ih]
    simp

theorem mem_postorder (h : ReplacesFirst target old new decl decl') : old ∈ decl.postorder :=
  List.mem_of_find?_eq_some h.find?_postorder

/-- An exchange that keeps the class as such keeps every class around it. -/
theorem node_eq (h : ReplacesFirst target old new decl decl') (keep : new.node = old.node) :
    decl'.node = decl.node := by
  cases h with
  | here _ _ => exact keep
  | inside _ _ _ => rfl

/-- **The declarations of `old` give way to those of `new`.** -/
theorem nodes_eq (h : ReplacesFirst target old new decl decl') :
    ∃ before after, decl.nodes = before ++ old.nodes ++ after ∧
      decl'.nodes = before ++ new.nodes ++ after := by
  induction h with
  | here _ _ => exact ⟨[], [], by simp, by simp⟩
  | @inside decl inner inner' left right members _ _ ih =>
    obtain ⟨before, after, hold, hnew⟩ := ih
    refine ⟨decl.node :: left.flatMap Member.nodes ++ before,
      after ++ right.flatMap Member.nodes, ?_, ?_⟩
    · rw [ClassDecl.nodes_eq, members]
      simp [hold]
    · rw [ClassDecl.nodes_eq]
      simp [hnew, ClassDecl.node]

/-- **The classes of the tree persist** if those of `old` do. -/
theorem persists (h : ReplacesFirst target old new decl decl') (node : new.node = old.node)
    (keep : PersistAll old.postorder new.postorder) :
    PersistAll decl.postorder decl'.postorder := by
  induction h with
  | here _ _ => exact keep
  | @inside decl inner inner' before after members _ deeper ih =>
    have nodes : (before ++ Member.nested inner' :: after).map Member.node =
        decl.members.map Member.node := by
      rw [members]
      simp [Member.node, deeper.node_eq node]
    have middle : PersistAll ((Member.nested inner :: after).flatMap Member.postorder)
        ((Member.nested inner' :: after).flatMap Member.postorder) :=
      List.rel_append ih (PersistAll.refl _)
    rw [postorder_eq_members, postorder_eq_members, members, List.flatMap_append,
      List.flatMap_append]
    exact List.rel_append (List.rel_append (PersistAll.refl _) middle)
      (.cons ⟨rfl, fun _ => nodes⟩ .nil)

end ClassDecl.ReplacesFirst

namespace CompilationUnit.ReplacesFirst

variable {target : DeclId} {old new : ClassDecl ν} {unit unit' : CompilationUnit ν}

theorem find?_postorder (h : ReplacesFirst target old new unit unit') :
    unit.postorder.find? (·.id = target) = some old := by
  obtain ⟨before, decl, decl', after, types, passed, inner, -⟩ := h
  rw [CompilationUnit.postorder_eq, types, List.flatMap_append, List.flatMap_cons,
    List.find?_append, List.find?_eq_none.mpr (by simpa using passed), List.find?_append,
    inner.find?_postorder]
  rfl

theorem mem_postorder (h : ReplacesFirst target old new unit unit') : old ∈ unit.postorder :=
  List.mem_of_find?_eq_some h.find?_postorder

theorem id_old (h : ReplacesFirst target old new unit unit') : old.id = target := by
  simpa using List.find?_some h.find?_postorder

theorem origin_eq (h : ReplacesFirst target old new unit unit') : unit'.origin = unit.origin := by
  obtain ⟨_, _, _, _, -, -, -, rfl⟩ := h
  rfl

theorem nodes_eq (h : ReplacesFirst target old new unit unit') :
    ∃ before after, unit.nodes = before ++ old.nodes ++ after ∧
      unit'.nodes = before ++ new.nodes ++ after := by
  obtain ⟨left, decl, decl', right, types, -, inner, rfl⟩ := h
  obtain ⟨before, after, hold, hnew⟩ := inner.nodes_eq
  refine ⟨left.flatMap ClassDecl.nodes ++ before, after ++ right.flatMap ClassDecl.nodes, ?_, ?_⟩
  · rw [CompilationUnit.nodes_eq, types]
    simp [hold]
  · rw [CompilationUnit.nodes_eq]
    simp [hnew]

theorem persists (h : ReplacesFirst target old new unit unit') (node : new.node = old.node)
    (keep : ClassDecl.PersistAll old.postorder new.postorder) :
    ClassDecl.PersistAll unit.postorder unit'.postorder := by
  obtain ⟨left, decl, decl', right, types, -, inner, rfl⟩ := h
  rw [CompilationUnit.postorder_eq, CompilationUnit.postorder_eq, types, List.flatMap_append,
    List.flatMap_append, List.flatMap_cons, List.flatMap_cons]
  exact List.rel_append (ClassDecl.PersistAll.refl _)
    (List.rel_append (inner.persists node keep) (ClassDecl.PersistAll.refl _))

end CompilationUnit.ReplacesFirst

end Augment
