import Augment.Proofs.Names
import Augment.Tree.Tour
import Mathlib.Data.List.Basic

/-!
# The declarations of a tree

A `Node` is a declaration without the declarations inside it.  The nodes of a tree, listed in the
order of a tour (`ClassDecl.nodes`), hold all that a tree says apart from how its classes are
nested: the ids that are in use (`Node.id`), the names that occur anywhere (`Node.names`) and the
markers (`Node.markers`).  So a fact about ids, names or markers is a fact about one list, and
what a change of a tree does to all of them is said once, by what it does to the list of nodes.

`ClassDecl.map_congr` says that renaming looks at the occurring names only.
-/

namespace Augment

variable {ν μ : Type}

/-! ### Names that occur -/

/-- The names in a type. -/
def TypeRef.names : TypeRef ν → List ν
  | void => []
  | named name => [name]

@[simp] theorem TypeRef.names_void : (void : TypeRef ν).names = [] := rfl

@[simp] theorem TypeRef.map_void (f : ν → μ) : void.map f = void := rfl

/-- The names in an expression, from left to right. -/
def Expr.names : Expr ν → List ν
  | receiver => []
  | ident name => [name]
  | select target name => target.names ++ [name]
  | assign target value => target.names ++ value.names

/-- The names in a statement. -/
def Stmt.names : Stmt ν → List ν
  | ret value => value.names
  | exec effect => effect.names

/-- The names in a body. -/
def Block.names (block : Block ν) : List ν :=
  block.stmts.flatMap Stmt.names

/-- The names in a parameter. -/
def Param.names (param : Param ν) : List ν :=
  param.name :: param.type.names

/-- The names in a field. -/
def FieldDecl.names (decl : FieldDecl ν) : List ν :=
  decl.name :: decl.type.names

/-- The names in a method. -/
def MethodDecl.names (decl : MethodDecl ν) : List ν :=
  decl.name :: (decl.returnType.toList.flatMap TypeRef.names ++
    decl.params.flatMap Param.names ++ decl.body.names)

/-! ### Nodes -/

/-- A declaration without the declarations inside it. -/
inductive Node (ν : Type) where
  | type (id : DeclId) (name : ν) (kind : TypeKind) (modifiers : Modifiers) (markers : List Marker)
  | field (decl : FieldDecl ν)
  | method (decl : MethodDecl ν)
deriving DecidableEq, Repr

namespace Node

/-- The id of the declaration. -/
def id : Node ν → DeclId
  | type id .. => id
  | field decl => decl.id
  | method decl => decl.id

/-- The name of the declaration. -/
def name : Node ν → ν
  | type _ name .. => name
  | field decl => decl.name
  | method decl => decl.name

/-- The names in the declaration itself. -/
def names : Node ν → List ν
  | type _ name .. => [name]
  | field decl => decl.names
  | method decl => decl.names

/-- The markers on the declaration. -/
def markers : Node ν → List Marker
  | type _ _ _ _ markers => markers
  | field decl => decl.markers
  | method decl => decl.markers

/-- The kind of the declaration. -/
def elementKind [DecidableEq ν] [InitName ν] : Node ν → ElementKind
  | type _ _ kind _ _ => .type kind
  | field _ => .field
  | method decl => decl.elementKind

theorem name_mem_names (node : Node ν) : node.name ∈ node.names := by
  cases node <;> exact List.mem_cons_self

end Node

/-- A method is a method or a constructor. -/
theorem MethodDecl.elementKind_ne_type [DecidableEq ν] [InitName ν] (decl : MethodDecl ν)
    (kind : TypeKind) : decl.elementKind ≠ .type kind := by
  unfold elementKind
  split <;> simp

/-- The class without its members. -/
def ClassDecl.node (decl : ClassDecl ν) : Node ν :=
  .type decl.id decl.name decl.kind decl.modifiers decl.markers

/-- The declaration that is met; a class is met when it is entered. -/
def Visit.node? : Visit ν → Option (Node ν)
  | enter decl => some decl.node
  | field _ decl => some (.field decl)
  | method _ decl => some (.method decl)
  | leave _ => none

/-- The declarations of a class and in it, each before those inside it. -/
def ClassDecl.nodes (decl : ClassDecl ν) : List (Node ν) :=
  decl.tour.filterMap Visit.node?

/-- The declarations of a member and in it. -/
def Member.nodes : Member ν → List (Node ν)
  | field decl => [.field decl]
  | method decl => [.method decl]
  | nested decl => decl.nodes

/-- The declarations of a unit. -/
def CompilationUnit.nodes (unit : CompilationUnit ν) : List (Node ν) :=
  unit.tour.filterMap Visit.node?

@[simp] theorem Node.names_field (decl : FieldDecl ν) : (Node.field decl).names = decl.names := rfl

@[simp] theorem Node.markers_method (decl : MethodDecl ν) :
    (Node.method decl).markers = decl.markers := rfl

@[simp] theorem Node.names_method (decl : MethodDecl ν) :
    (Node.method decl).names = decl.names := rfl

@[simp] theorem Member.nodes_nested (decl : ClassDecl ν) :
    (Member.nested decl).nodes = decl.nodes := rfl

theorem Member.filterMap_tour (owner : ClassDecl ν) (member : Member ν) :
    (member.tour owner).filterMap Visit.node? = member.nodes := by
  cases member <;> simp [Member.tour, Member.nodes, Visit.node?, ClassDecl.nodes]

/-- **The nodes of a class** are the class and then the nodes of its members. -/
theorem ClassDecl.nodes_eq (decl : ClassDecl ν) :
    decl.nodes = decl.node :: decl.members.flatMap Member.nodes := by
  rw [ClassDecl.nodes, ClassDecl.tour_eq]
  simp [Visit.node?, List.filterMap_flatMap, Member.filterMap_tour]

theorem ClassDecl.field_mem_nodes {decl : ClassDecl ν} {field : FieldDecl ν}
    (h : field ∈ decl.fields) : .field field ∈ decl.nodes := by
  obtain ⟨member, hm, hf⟩ := List.mem_filterMap.mp h
  rw [ClassDecl.nodes_eq]
  refine List.mem_cons_of_mem _ (List.mem_flatMap_of_mem hm ?_)
  cases member with
  | field other => simpa [Member.field?, Member.nodes, eq_comm] using hf
  | method method => simp [Member.field?] at hf
  | nested inner => simp [Member.field?] at hf

/-- Nodes of classes come from the classes of the unit. -/
theorem CompilationUnit.exists_class_of_mem_nodes {unit : CompilationUnit ν} {id : DeclId}
    {name : ν} {kind : TypeKind} {modifiers : Modifiers} {markers : List Marker}
    (h : .type id name kind modifiers markers ∈ unit.nodes) :
    ∃ decl ∈ unit.classes, decl.node = .type id name kind modifiers markers := by
  obtain ⟨visit, hv, hn⟩ := List.mem_filterMap.mp h
  cases visit with
  | leave decl => cases hn
  | field owner decl => cases hn
  | method owner decl => cases hn
  | enter decl =>
    injection hn with node
    exact ⟨decl, List.mem_filterMap.mpr ⟨_, hv, rfl⟩, node⟩

theorem CompilationUnit.nodes_eq (unit : CompilationUnit ν) :
    unit.nodes = unit.types.flatMap ClassDecl.nodes := by
  simp only [CompilationUnit.nodes, CompilationUnit.tour, List.filterMap_flatMap]
  rfl

/-! ### Names that can be spelled -/

namespace Names

/-- The table can spell all names in these declarations. -/
def Covers (names : Names) (nodes : List (Node Symbol)) : Prop :=
  ∀ node ∈ nodes, ∀ s ∈ node.names, names.Knows s

instance (names : Names) (nodes : List (Node Symbol)) : Decidable (names.Covers nodes) :=
  inferInstanceAs (Decidable (∀ node ∈ nodes, ∀ s ∈ node.names, names.Knows s))

variable {names names' : Names} {nodes nodes' : List (Node Symbol)}

theorem Covers.mono (h : names.Covers nodes) (le : names ≤ names') : names'.Covers nodes :=
  fun node hn s hs => (h node hn s hs).mono le

theorem Covers.subset (h : names.Covers nodes) (subset : nodes' ⊆ nodes) : names.Covers nodes' :=
  fun node hn => h node (subset hn)

end Names

/-! ### Renaming -/

/-- Only the symbol of the constructor name is spelled like it. -/
theorem MethodDecl.isConstructor_map {names : Names} (decl : MethodDecl Symbol)
    (known : names.Knows decl.name) :
    (decl.map names.display).isConstructor = decl.isConstructor := by
  have name : (names.display decl.name = InitName.init) = (decl.name = InitName.init) :=
    propext (Names.display_eq_initName_iff known)
  simp [isConstructor, map, name]

theorem TypeRef.map_congr {f g : ν → μ} {type : TypeRef ν} (h : ∀ n ∈ type.names, f n = g n) :
    type.map f = type.map g := by
  cases type with
  | void => rfl
  | named name => simp [TypeRef.map, h name (by simp [TypeRef.names])]

theorem Expr.map_congr {f g : ν → μ} {expr : Expr ν} (h : ∀ n ∈ expr.names, f n = g n) :
    expr.map f = expr.map g := by
  induction expr with
  | receiver => rfl
  | ident name => simp [Expr.map, h name (by simp [Expr.names])]
  | select target name ih =>
    simp only [Expr.names, List.forall_mem_append, List.forall_mem_singleton] at h
    simp [Expr.map, ih h.1, h.2]
  | assign target value ihTarget ihValue =>
    simp only [Expr.names, List.forall_mem_append] at h
    simp [Expr.map, ihTarget h.1, ihValue h.2]

theorem Stmt.map_congr {f g : ν → μ} {stmt : Stmt ν} (h : ∀ n ∈ stmt.names, f n = g n) :
    stmt.map f = stmt.map g := by
  cases stmt with
  | ret value => exact congrArg Stmt.ret (Expr.map_congr h)
  | exec effect => exact congrArg Stmt.exec (Expr.map_congr h)

theorem Block.map_congr {f g : ν → μ} {block : Block ν} (h : ∀ n ∈ block.names, f n = g n) :
    block.map f = block.map g := by
  have stmts : block.stmts.map (Stmt.map f) = block.stmts.map (Stmt.map g) :=
    List.map_congr_left fun stmt hs =>
      Stmt.map_congr fun n hn => h n (List.mem_flatMap_of_mem hs hn)
  simp [Block.map, stmts]

theorem Param.map_congr {f g : ν → μ} {param : Param ν} (h : ∀ n ∈ param.names, f n = g n) :
    param.map f = param.map g := by
  simp only [Param.names, List.forall_mem_cons] at h
  simp [Param.map, h.1, TypeRef.map_congr h.2]

theorem FieldDecl.map_congr {f g : ν → μ} {decl : FieldDecl ν} (h : ∀ n ∈ decl.names, f n = g n) :
    decl.map f = decl.map g := by
  simp only [FieldDecl.names, List.forall_mem_cons] at h
  simp [FieldDecl.map, h.1, TypeRef.map_congr h.2]

theorem MethodDecl.map_congr {f g : ν → μ} {decl : MethodDecl ν}
    (h : ∀ n ∈ decl.names, f n = g n) : decl.map f = decl.map g := by
  simp only [MethodDecl.names, List.forall_mem_cons, List.forall_mem_append] at h
  obtain ⟨name, ⟨type, params⟩, body⟩ := h
  have returnType : decl.returnType.map (TypeRef.map f) = decl.returnType.map (TypeRef.map g) := by
    cases hr : decl.returnType with
    | none => rfl
    | some returned =>
      exact congrArg some (TypeRef.map_congr fun n hn => type n (by simp [hr, hn]))
  have params : decl.params.map (Param.map f) = decl.params.map (Param.map g) :=
    List.map_congr_left fun param hp =>
      Param.map_congr fun n hn => params n (List.mem_flatMap_of_mem hp hn)
  simp [MethodDecl.map, name, returnType, params, Block.map_congr body]

/-- **Renaming looks at the occurring names only.** -/
theorem ClassDecl.map_congr {f g : ν → μ} (decl : ClassDecl ν)
    (h : ∀ node ∈ decl.nodes, ∀ n ∈ node.names, f n = g n) : decl.map f = decl.map g := by
  induction decl using ClassDecl.induction with
  | step decl ih =>
    rw [ClassDecl.nodes_eq, List.forall_mem_cons, List.forall_mem_flatMap] at h
    have members : decl.members.map (Member.map f) = decl.members.map (Member.map g) := by
      refine List.map_congr_left fun member hm => ?_
      have hn := h.2 member hm
      cases member with
      | field field =>
        exact congrArg Member.field (FieldDecl.map_congr (by simpa [Member.nodes] using hn))
      | method method =>
        exact congrArg Member.method (MethodDecl.map_congr (by simpa [Member.nodes] using hn))
      | nested inner => exact congrArg Member.nested (ih inner hm hn)
    have name : f decl.name = g decl.name := h.1 _ (by simp [ClassDecl.node, Node.names])
    rw [ClassDecl.map_eq, ClassDecl.map_eq, members, name]

theorem CompilationUnit.map_congr {f g : ν → μ} (unit : CompilationUnit ν)
    (h : ∀ node ∈ unit.nodes, ∀ n ∈ node.names, f n = g n) : unit.map f = unit.map g := by
  rw [CompilationUnit.nodes_eq, List.forall_mem_flatMap] at h
  have types : unit.types.map (ClassDecl.map f) = unit.types.map (ClassDecl.map g) :=
    List.map_congr_left fun decl hd => ClassDecl.map_congr decl (h decl hd)
  simp [CompilationUnit.map, types]

end Augment
