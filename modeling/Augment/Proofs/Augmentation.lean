import Augment.Proofs.Names
import Augment.Proofs.Tree.ClassMap
import Augment.Synthesis

/-!
# The augmentation that markers ask for

What a run should make of a unit, said without a run: `CompilationUnit.augmented kinds` answers the
markers on every class of a spelled unit, each class for itself and in the order of `kinds`.  There
are no elements to be found, no ids, no table of names and no second pass over the tree; and what
accessors are called, which members give way and which marker counts is written out here, in terms
of lists and of characters.

Trees are compared as their source is: with symbols read as their spellings and without the ids of
declarations (`CompilationUnit.spelled`).  In between stands the *draft* of a tree
(`ClassDecl.draft`), which is spelled and has lost the ids of fields and methods but not those of
classes, so that a class of it can still be pointed at.
-/

namespace Augment

variable {ν : Type}

/-! ### Trees without ids -/

/-- The field without its id. -/
def FieldDecl.withoutId (decl : FieldDecl ν) : FieldDecl ν :=
  { decl with id := ⟨0⟩ }

/-- The method without its id. -/
def MethodDecl.withoutId (decl : MethodDecl ν) : MethodDecl ν :=
  { decl with id := ⟨0⟩ }

/-- The member without its id; a nested class keeps its own. -/
def Member.withoutId : Member ν → Member ν
  | field decl => .field decl.withoutId
  | method decl => .method decl.withoutId
  | nested decl => .nested decl

/-- The class whose fields and methods have lost their ids. -/
def ClassDecl.withoutMemberIds (decl : ClassDecl ν) : ClassDecl ν :=
  { decl with members := decl.members.map Member.withoutId }

/-- The class that has lost its id. -/
def ClassDecl.withoutId (decl : ClassDecl ν) : ClassDecl ν :=
  { decl with id := ⟨0⟩ }

/-- The unit in which no declaration has an id. -/
def CompilationUnit.withoutIds (unit : CompilationUnit ν) : CompilationUnit ν :=
  unit.mapClasses fun decl => decl.withoutMemberIds.withoutId

/-- The unit as its source reads: symbols are spelled, and declarations have no ids. -/
def CompilationUnit.spelled (names : Names) (unit : CompilationUnit Symbol) :
    CompilationUnit String :=
  (unit.map names.display).withoutIds

/-! ### Spellings -/

namespace Naming

/-- The name with a capital: the first character, if there is one, is in full upper case, and the
others are as they were. -/
def capitalized (name : String) : String :=
  String.ofList ((name.toList.take 1).flatMap Text.upper ++ name.toList.drop 1)

theorem capitalize_eq (name : String) : capitalize name = capitalized name := by
  unfold capitalize capitalized
  cases name.toList with
  | nil => rfl
  | cons first rest => simp

theorem getter_eq (field : String) : getter field = "get" ++ capitalized field := by
  rw [getter, capitalize_eq]

theorem setter_eq (field : String) : setter field = "set" ++ capitalized field := by
  rw [setter, capitalize_eq]

theorem setterParam_eq (field : String) : setterParam field = "_" ++ field := rfl

end Naming

/-! ### Constructors without parameters -/

namespace Member

/-- The member is a constructor without parameters: a method of the reserved name that has neither a
return type nor a parameter. -/
def IsNullary [InitName ν] : Member ν → Prop
  | method decl => decl.name = InitName.init ∧ decl.returnType = none ∧ decl.params = []
  | _ => False

variable [DecidableEq ν] [InitName ν]

instance : (member : Member ν) → Decidable member.IsNullary
  | field _ => isFalse not_false
  | method decl => inferInstanceAs
      (Decidable (decl.name = InitName.init ∧ decl.returnType = none ∧ decl.params = []))
  | nested _ => isFalse not_false

theorem isNoArgsConstructor_iff {member : Member ν} :
    member.isNoArgsConstructor = true ↔ member.IsNullary := by
  cases member with
  | field decl => exact iff_of_false Bool.false_ne_true not_false
  | method decl =>
    simp [isNoArgsConstructor, MethodDecl.isNoArgsConstructor, MethodDecl.isConstructor, IsNullary,
      and_assoc]
  | nested decl => exact iff_of_false Bool.false_ne_true not_false

end Member

/-! ### The answer to one marker -/

/-- `public T getN() { return n; }` -/
def FieldDecl.getter (decl : FieldDecl String) : MethodDecl String where
  id := ⟨0⟩
  name := "get" ++ Naming.capitalized decl.name
  modifiers := .ofAccess .publicAccess
  returnType := some decl.type
  params := []
  body := { indent := 1, stmts := [.ret (.ident decl.name)] }
  markers := []

/-- `public void setN(T _n) { n = _n; }` -/
def FieldDecl.setter (decl : FieldDecl String) : MethodDecl String where
  id := ⟨0⟩
  name := "set" ++ Naming.capitalized decl.name
  modifiers := .ofAccess .publicAccess
  returnType := some .void
  params := [{ name := "_" ++ decl.name, type := decl.type }]
  body :=
    { indent := 1, stmts := [.exec (.assign (.ident decl.name) (.ident ("_" ++ decl.name)))] }
  markers := []

/-- An empty constructor without parameters. -/
def MethodDecl.emptyConstructor (access : AccessLevel) : MethodDecl String where
  id := ⟨0⟩
  name := initName
  modifiers := .ofAccess access
  returnType := none
  params := []
  body := {}
  markers := []

namespace Marker

/-- The members that stay when a marker is answered: all of them, or all but the constructors
without parameters. -/
def kept [DecidableEq ν] [InitName ν] : Marker → List (Member ν) → List (Member ν)
  | noArgsConstructor _, members => members.filter (¬·.IsNullary)
  | _, members => members

theorem kept_noArgsConstructor [DecidableEq ν] [InitName ν] (access : AccessLevel)
    (members : List (Member ν)) :
    (noArgsConstructor access).kept members = Member.withoutNoArgsConstructors members := by
  refine List.filter_congr fun member _ => ?_
  simp only [decide_not, ← Member.isNoArgsConstructor_iff, Bool.decide_eq_true]

/-- The methods that a marker adds to a class with these fields. -/
def additions (fields : List (FieldDecl String)) : Marker → List (MethodDecl String)
  | getter => fields.map FieldDecl.getter
  | setter => fields.map FieldDecl.setter
  | noArgsConstructor access => [.emptyConstructor access]

end Marker

/-- The class after the answer to a marker. -/
def ClassDecl.augmentedBy (marker : Marker) (decl : ClassDecl String) : ClassDecl String :=
  { decl with
    members := marker.kept decl.members ++ (marker.additions decl.fields).map .method }

/-- The class after the answer to its first marker of a kind; interfaces and enumerations answer
to none. -/
def ClassDecl.respond (decl : ClassDecl String) (kind : MarkerKind) : ClassDecl String :=
  match decl.kind, decl.markers.find? (·.kind = kind) with
  | .classType, some marker => decl.augmentedBy marker
  | _, _ => decl

/-- The unit in which every class, at any depth, has answered to the kinds in order. -/
def CompilationUnit.augmented (kinds : List MarkerKind) (unit : CompilationUnit String) :
    CompilationUnit String :=
  unit.mapClasses fun decl => kinds.foldl ClassDecl.respond decl

/-! ### Answers are local -/

namespace ClassDecl

theorem fields_mapNested (f : ClassDecl ν → ClassDecl ν) (decl : ClassDecl ν) :
    (decl.mapNested f).fields = decl.fields := by
  rw [fields, fields, members_mapNested, List.filterMap_map]
  refine List.filterMap_congr fun member _ => ?_
  cases member <;> rfl

end ClassDecl

/-- What a marker takes away are constructors without parameters. -/
theorem Marker.filter_kept [DecidableEq ν] [InitName ν] (marker : Marker)
    (members : List (Member ν)) :
    (marker.kept members).filter (¬·.IsNullary) = members.filter (¬·.IsNullary) := by
  cases marker with
  | getter => rfl
  | setter => rfl
  | noArgsConstructor access =>
    rw [kept, List.filter_filter]
    simp only [Bool.and_self]

/-- Changing nested classes and choosing the members that stay can be exchanged. -/
theorem Marker.kept_mapNested [DecidableEq ν] [InitName ν] (marker : Marker)
    (f : ClassDecl ν → ClassDecl ν) (members : List (Member ν)) :
    marker.kept (members.map (Member.mapNested f)) =
      (marker.kept members).map (Member.mapNested f) := by
  have keep : ∀ member : Member ν, (member.mapNested f).IsNullary ↔ member.IsNullary := by
    intro member
    cases member <;> rfl
  cases marker with
  | getter => rfl
  | setter => rfl
  | noArgsConstructor access =>
    simp only [Marker.kept, List.filter_map, Function.comp_def, keep]

namespace ClassDecl

theorem local_augmentedBy (marker : Marker) : Local (augmentedBy marker) := by
  intro f decl
  have additions : ((marker.additions decl.fields).map Member.method).map (Member.mapNested f) =
      (marker.additions decl.fields).map Member.method := by
    rw [List.map_map]
    rfl
  rw [augmentedBy, augmentedBy, members_mapNested, fields_mapNested, Marker.kept_mapNested]
  simp only [mapNested, List.map_append, additions]

theorem local_respond (kind : MarkerKind) : Local (respond · kind) := by
  intro f decl
  simp only [respond, kind_mapNested, markers_mapNested]
  split
  · exact local_augmentedBy _ f decl
  · rfl

theorem local_foldl_respond (kinds : List MarkerKind) :
    Local fun decl : ClassDecl String => kinds.foldl respond decl :=
  Local.foldl local_respond kinds

theorem local_withoutId : Local (withoutId (ν := ν)) := fun _ _ => rfl

theorem local_withoutMemberIds : Local (withoutMemberIds (ν := ν)) := by
  intro f decl
  have members : (decl.members.map (Member.mapNested f)).map Member.withoutId =
      (decl.members.map Member.withoutId).map (Member.mapNested f) := by
    rw [List.map_map, List.map_map]
    refine List.map_congr_left fun member _ => ?_
    cases member <;> rfl
  simp only [withoutMemberIds, mapNested, members]

/-- A class answers to a kind in the same way without its id. -/
theorem withoutId_respond (kind : MarkerKind) (decl : ClassDecl String) :
    (decl.respond kind).withoutId = decl.withoutId.respond kind := by
  simp only [respond, withoutId]
  split <;> rfl

theorem withoutId_foldl_respond (kinds : List MarkerKind) (decl : ClassDecl String) :
    (kinds.foldl respond decl).withoutId = kinds.foldl respond decl.withoutId := by
  induction kinds generalizing decl with
  | nil => rfl
  | cons kind rest ih => rw [List.foldl_cons, List.foldl_cons, ih, withoutId_respond]

end ClassDecl

/-! ### Drafts -/

/-- The class spelled, with ids on classes only. -/
def ClassDecl.draft (names : Names) (decl : ClassDecl Symbol) : ClassDecl String :=
  (decl.map names.display).mapClasses ClassDecl.withoutMemberIds

/-- The unit spelled, with ids on classes only. -/
def CompilationUnit.draft (names : Names) (unit : CompilationUnit Symbol) :
    CompilationUnit String :=
  (unit.map names.display).mapClasses ClassDecl.withoutMemberIds

/-- The member spelled, with ids on classes only. -/
def Member.draft (names : Names) : Member Symbol → Member String
  | field decl => .field (decl.map names.display).withoutId
  | method decl => .method (decl.map names.display).withoutId
  | nested decl => .nested (decl.draft names)

/-- **The draft of a class** is made of its own parts and the drafts of its members. -/
theorem ClassDecl.draft_eq (names : Names) (decl : ClassDecl Symbol) :
    decl.draft names = ⟨decl.id, names.display decl.name, decl.kind, decl.modifiers, decl.markers,
      decl.members.map (Member.draft names)⟩ := by
  have members : (((decl.members.map (Member.map names.display)).map
      (Member.mapNested (ClassDecl.mapClasses ClassDecl.withoutMemberIds))).map
        Member.withoutId) = decl.members.map (Member.draft names) := by
    rw [List.map_map, List.map_map]
    refine List.map_congr_left fun member _ => ?_
    cases member <;> rfl
  rw [ClassDecl.draft, ClassDecl.mapClasses_eq, ClassDecl.map_eq, ClassDecl.mapNested,
    ClassDecl.withoutMemberIds, members]

@[simp] theorem ClassDecl.id_draft (names : Names) (decl : ClassDecl Symbol) :
    (decl.draft names).id = decl.id := by rw [ClassDecl.draft_eq]

@[simp] theorem ClassDecl.kind_draft (names : Names) (decl : ClassDecl Symbol) :
    (decl.draft names).kind = decl.kind := by rw [ClassDecl.draft_eq]

@[simp] theorem ClassDecl.markers_draft (names : Names) (decl : ClassDecl Symbol) :
    (decl.draft names).markers = decl.markers := by rw [ClassDecl.draft_eq]

theorem ClassDecl.members_draft (names : Names) (decl : ClassDecl Symbol) :
    (decl.draft names).members = decl.members.map (Member.draft names) := by
  rw [ClassDecl.draft_eq]

theorem CompilationUnit.draft_eq (names : Names) (unit : CompilationUnit Symbol) :
    unit.draft names = { fileName := unit.fileName, package := unit.package, origin := unit.origin,
                         types := unit.types.map (ClassDecl.draft names) } := by
  simp only [CompilationUnit.draft, CompilationUnit.mapClasses, CompilationUnit.map, List.map_map]
  rfl

/-- A spelled unit is its draft without the ids of classes. -/
theorem CompilationUnit.spelled_eq (names : Names) (unit : CompilationUnit Symbol) :
    unit.spelled names = (unit.draft names).mapClasses ClassDecl.withoutId := by
  rw [CompilationUnit.draft,
    CompilationUnit.mapClasses_mapClasses ClassDecl.local_withoutMemberIds]
  rfl

/-- **A draft that has answered to some kinds reads as the augmented source.** -/
theorem CompilationUnit.mapClasses_withoutId_respond (kinds : List MarkerKind) (names : Names)
    (unit : CompilationUnit Symbol) :
    ((unit.draft names).mapClasses fun decl => kinds.foldl ClassDecl.respond decl).mapClasses
      ClassDecl.withoutId = (unit.spelled names).augmented kinds := by
  have exchange : ClassDecl.withoutId ∘ (fun decl => kinds.foldl ClassDecl.respond decl) =
      (fun decl => kinds.foldl ClassDecl.respond decl) ∘ ClassDecl.withoutId :=
    funext fun decl => ClassDecl.withoutId_foldl_respond kinds decl
  rw [CompilationUnit.mapClasses_mapClasses (ClassDecl.local_foldl_respond kinds), exchange,
    CompilationUnit.spelled_eq, CompilationUnit.augmented,
    CompilationUnit.mapClasses_mapClasses ClassDecl.local_withoutId]

/-- Drafts do not change when the table of names grows. -/
theorem ClassDecl.draft_of_le {names names' : Names} (h : names ≤ names')
    (decl : ClassDecl Symbol) (covers : names.Covers decl.nodes) :
    decl.draft names' = decl.draft names := by
  rw [ClassDecl.draft, ClassDecl.draft, ClassDecl.map_congr decl fun node hn s hs =>
    Names.display_of_le h (covers node hn s hs)]

theorem CompilationUnit.draft_of_le {names names' : Names} (h : names ≤ names')
    (unit : CompilationUnit Symbol) (covers : names.Covers unit.nodes) :
    unit.draft names' = unit.draft names := by
  rw [CompilationUnit.draft, CompilationUnit.draft,
    CompilationUnit.map_congr unit fun node hn s hs => Names.display_of_le h (covers node hn s hs)]

end Augment
