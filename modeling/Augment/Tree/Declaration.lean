import Augment.Marker
import Augment.Tree.Body

/-!
# Declarations and compilation units

A compilation unit holds classes; a class holds fields, methods, constructors and further classes.
A constructor is a method of the reserved name without a return type (`MethodDecl.isConstructor`).

Classes and members are mutually recursive through a list.  Functions on them are written as a
pair, one on a class and one on a member list, and an equation in terms of the list's own
operations follows each pair (`ClassDecl.mapMembers_eq`).  Facts about all classes are proved with
`ClassDecl.induction`: a property holds of every class if it passes from the classes that are
declared directly in a class to that class.
-/

namespace Augment

/-- The identity of a declaration: no two declarations of a round share one. -/
structure DeclId where
  index : Nat
deriving DecidableEq, Repr, Inhabited

/-- What sort of type a class declaration declares. -/
inductive TypeKind where
  | classType
  | interfaceType
  | enumType
deriving DecidableEq, Repr

/-- The keyword in source text. -/
def TypeKind.keyword : TypeKind → String
  | classType => "class"
  | interfaceType => "interface"
  | enumType => "enum"

/-- What sort of declaration a marker was found on. -/
inductive ElementKind where
  | type (kind : TypeKind)
  | field
  | method
  | constructor
deriving DecidableEq, Repr

/-- The word for the kind in messages. -/
def ElementKind.text : ElementKind → String
  | type kind => kind.keyword
  | field => "field"
  | method => "method"
  | constructor => "constructor"

/-- A parameter of a method. -/
structure Param (ν : Type) where
  name : ν
  type : TypeRef ν
deriving DecidableEq, Repr

/-- A field. -/
structure FieldDecl (ν : Type) where
  id : DeclId
  name : ν
  type : TypeRef ν
  modifiers : Modifiers
  markers : List Marker
deriving DecidableEq, Repr

/-- A method or a constructor. -/
structure MethodDecl (ν : Type) where
  id : DeclId
  name : ν
  modifiers : Modifiers
  /-- A constructor has none, which is not the same as `void`. -/
  returnType : Option (TypeRef ν)
  params : List (Param ν)
  body : Block ν
  markers : List Marker
deriving DecidableEq, Repr

mutual

/-- A class, interface or enumeration. -/
structure ClassDecl (ν : Type) where
  id : DeclId
  name : ν
  kind : TypeKind
  modifiers : Modifiers
  markers : List Marker
  members : List (Member ν)

/-- An entry of a class body. -/
inductive Member (ν : Type) where
  | field (decl : FieldDecl ν)
  | method (decl : MethodDecl ν)
  | nested (decl : ClassDecl ν)

end

/-- Where a compilation unit comes from.  Only `source` units are ever rewritten. -/
inductive Origin where
  | source
  | generated
  | library
deriving DecidableEq, Repr

/-- The name of the origin. -/
def Origin.text : Origin → String
  | source => "Source"
  | generated => "Generated"
  | library => "Library"

/-- The tree of one source file. -/
structure CompilationUnit (ν : Type) where
  fileName : String
  package : Option String
  origin : Origin
  types : List (ClassDecl ν)

variable {ν μ : Type}

/-! ### Parts -/

namespace MethodDecl

/-- Whether the method is a constructor: it carries the reserved name and has no return type. -/
def isConstructor [DecidableEq ν] [InitName ν] (decl : MethodDecl ν) : Bool :=
  decl.name = InitName.init && decl.returnType.isNone

/-- The number of parameters. -/
def arity (decl : MethodDecl ν) : Nat :=
  decl.params.length

/-- Whether the method is a constructor without parameters. -/
def isNoArgsConstructor [DecidableEq ν] [InitName ν] (decl : MethodDecl ν) : Bool :=
  decl.isConstructor && decl.params.isEmpty

/-- The kind of the declaration. -/
def elementKind [DecidableEq ν] [InitName ν] (decl : MethodDecl ν) : ElementKind :=
  if decl.isConstructor then .constructor else .method

end MethodDecl

namespace Member

/-- The name of a member. -/
def name : Member ν → ν
  | field decl => decl.name
  | method decl => decl.name
  | nested decl => decl.name

/-- The member as a field. -/
def field? : Member ν → Option (FieldDecl ν)
  | field decl => some decl
  | _ => none

/-- The member as a method. -/
def method? : Member ν → Option (MethodDecl ν)
  | method decl => some decl
  | _ => none

/-- The member as a class. -/
def nested? : Member ν → Option (ClassDecl ν)
  | nested decl => some decl
  | _ => none

end Member

namespace ClassDecl

/-- The fields of the class itself, in order. -/
def fields (decl : ClassDecl ν) : List (FieldDecl ν) :=
  decl.members.filterMap Member.field?

/-- The methods of the class itself, constructors included, in order. -/
def methods (decl : ClassDecl ν) : List (MethodDecl ν) :=
  decl.members.filterMap Member.method?

/-- The constructors of the class itself, in order. -/
def constructors [DecidableEq ν] [InitName ν] (decl : ClassDecl ν) : List (MethodDecl ν) :=
  decl.methods.filter (·.isConstructor)

/-- The classes declared directly in the class, in order. -/
def nested (decl : ClassDecl ν) : List (ClassDecl ν) :=
  decl.members.filterMap Member.nested?

/-- The kind of the declaration. -/
def elementKind (decl : ClassDecl ν) : ElementKind :=
  .type decl.kind

end ClassDecl

/-- Whether the unit is source code, and so may be rewritten. -/
def CompilationUnit.isPrimarySource (unit : CompilationUnit ν) : Bool :=
  unit.origin = .source

/-! ### Induction -/

theorem ClassDecl.mem_nested {decl inner : ClassDecl ν} :
    inner ∈ decl.nested ↔ .nested inner ∈ decl.members := by
  simp only [nested, List.mem_filterMap]
  constructor
  · rintro ⟨member, hm, h⟩
    cases member <;> simp_all [Member.nested?]
  · exact fun h => ⟨_, h, rfl⟩

/-- **Induction over nested classes.** A property holds of every class if it holds of each class
all of whose directly nested classes have it. -/
@[elab_as_elim]
theorem ClassDecl.induction {motive : ClassDecl ν → Prop}
    (step : ∀ decl : ClassDecl ν, (∀ inner, .nested inner ∈ decl.members → motive inner) →
      motive decl) (decl : ClassDecl ν) : motive decl := by
  refine @ClassDecl.rec ν motive
    (fun member => ∀ inner, member = .nested inner → motive inner)
    (fun members => ∀ inner, .nested inner ∈ members → motive inner)
    ?_ ?_ ?_ ?_ ?_ ?_ decl
  · exact fun _ _ _ _ _ _ h => step _ h
  · simp
  · simp
  · rintro inner h _ ⟨⟩
    exact h
  · simp
  · intro member members hm hms inner h
    rcases List.mem_cons.1 h with rfl | h
    · exact hm inner rfl
    · exact hms inner h

/-! ### Renaming -/

/-- The parameter with its names mapped. -/
def Param.map (f : ν → μ) (param : Param ν) : Param μ where
  name := f param.name
  type := param.type.map f

/-- The field with its names mapped. -/
def FieldDecl.map (f : ν → μ) (decl : FieldDecl ν) : FieldDecl μ where
  id := decl.id
  name := f decl.name
  type := decl.type.map f
  modifiers := decl.modifiers
  markers := decl.markers

/-- The method with its names mapped. -/
def MethodDecl.map (f : ν → μ) (decl : MethodDecl ν) : MethodDecl μ where
  id := decl.id
  name := f decl.name
  modifiers := decl.modifiers
  returnType := decl.returnType.map (·.map f)
  params := decl.params.map (·.map f)
  body := decl.body.map f
  markers := decl.markers

mutual

/-- The class with all names in it mapped. -/
def ClassDecl.map (f : ν → μ) : ClassDecl ν → ClassDecl μ
  | ⟨id, name, kind, modifiers, markers, members⟩ =>
    ⟨id, f name, kind, modifiers, markers, ClassDecl.mapMembers f members⟩

/-- The members with all names in them mapped. -/
def ClassDecl.mapMembers (f : ν → μ) : List (Member ν) → List (Member μ)
  | [] => []
  | .field decl :: rest => .field (decl.map f) :: ClassDecl.mapMembers f rest
  | .method decl :: rest => .method (decl.map f) :: ClassDecl.mapMembers f rest
  | .nested decl :: rest => .nested (decl.map f) :: ClassDecl.mapMembers f rest

end

/-- The member with all names in it mapped. -/
def Member.map (f : ν → μ) : Member ν → Member μ
  | field decl => .field (decl.map f)
  | method decl => .method (decl.map f)
  | nested decl => .nested (decl.map f)

/-- The unit with all names in it mapped. -/
def CompilationUnit.map (f : ν → μ) (unit : CompilationUnit ν) : CompilationUnit μ where
  fileName := unit.fileName
  package := unit.package
  origin := unit.origin
  types := unit.types.map (·.map f)

theorem ClassDecl.mapMembers_eq (f : ν → μ) (members : List (Member ν)) :
    ClassDecl.mapMembers f members = members.map (Member.map f) := by
  induction members with
  | nil => rfl
  | cons member rest ih => cases member <;> simp [ClassDecl.mapMembers, Member.map, ih]

/-- Renaming a class renames its own name and each of its members, and leaves the rest. -/
theorem ClassDecl.map_eq (f : ν → μ) (decl : ClassDecl ν) :
    decl.map f = ⟨decl.id, f decl.name, decl.kind, decl.modifiers, decl.markers,
      decl.members.map (Member.map f)⟩ := by
  cases decl
  simp [ClassDecl.map, ClassDecl.mapMembers_eq]

end Augment
