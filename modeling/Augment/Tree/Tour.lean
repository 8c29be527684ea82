import Augment.Tree.Declaration

/-!
# Tours of a tree

A tour is everything that a walk over a tree meets, as a list.  A class is met twice: when it is
entered, before its members, and when it is left, after them.  Every order in which declarations
are listed is a selection from the tour: the entered classes are the classes in pre-order, the left
ones are the classes in post-order, where a nested class stands before the class that declares it
(`ClassDecl.postorder_eq`).
-/

namespace Augment

variable {ν : Type}

/-- One meeting of a tour.  Fields and methods are met together with the class that owns them. -/
inductive Visit (ν : Type) where
  | enter (decl : ClassDecl ν)
  | field (owner : ClassDecl ν) (decl : FieldDecl ν)
  | method (owner : ClassDecl ν) (decl : MethodDecl ν)
  | leave (decl : ClassDecl ν)

namespace Visit

/-- The class that is entered. -/
def entered? : Visit ν → Option (ClassDecl ν)
  | enter decl => some decl
  | _ => none

/-- The class that is left. -/
def left? : Visit ν → Option (ClassDecl ν)
  | leave decl => some decl
  | _ => none

end Visit

mutual

/-- The tour of a class and all that is declared in it. -/
def ClassDecl.tour : ClassDecl ν → List (Visit ν)
  | ⟨id, name, kind, modifiers, markers, members⟩ =>
    let decl : ClassDecl ν := ⟨id, name, kind, modifiers, markers, members⟩
    .enter decl :: (ClassDecl.tourMembers decl members ++ [.leave decl])

/-- The tour of a list of members of a class. -/
def ClassDecl.tourMembers (owner : ClassDecl ν) : List (Member ν) → List (Visit ν)
  | [] => []
  | .field decl :: rest => .field owner decl :: ClassDecl.tourMembers owner rest
  | .method decl :: rest => .method owner decl :: ClassDecl.tourMembers owner rest
  | .nested decl :: rest => decl.tour ++ ClassDecl.tourMembers owner rest

end

/-- The tour of one member of a class. -/
def Member.tour (owner : ClassDecl ν) : Member ν → List (Visit ν)
  | field decl => [.field owner decl]
  | method decl => [.method owner decl]
  | nested decl => decl.tour

/-- The tour of all classes of a unit. -/
def CompilationUnit.tour (unit : CompilationUnit ν) : List (Visit ν) :=
  unit.types.flatMap ClassDecl.tour

/-- The classes of a unit at any depth, each before the classes nested in it. -/
def CompilationUnit.classes (unit : CompilationUnit ν) : List (ClassDecl ν) :=
  unit.tour.filterMap Visit.entered?

/-- A class and the classes nested in it, each after the classes nested in it. -/
def ClassDecl.postorder (decl : ClassDecl ν) : List (ClassDecl ν) :=
  decl.tour.filterMap Visit.left?

/-- The classes of a unit at any depth, each after the classes nested in it. -/
def CompilationUnit.postorder (unit : CompilationUnit ν) : List (ClassDecl ν) :=
  unit.tour.filterMap Visit.left?

/-! ### Equations in terms of lists -/

theorem ClassDecl.tourMembers_eq (owner : ClassDecl ν) (members : List (Member ν)) :
    ClassDecl.tourMembers owner members = members.flatMap (Member.tour owner) := by
  induction members with
  | nil => rfl
  | cons member rest ih => cases member <;> simp [ClassDecl.tourMembers, Member.tour, ih]

/-- **A tour of a class** enters it, tours its members from left to right and leaves it. -/
theorem ClassDecl.tour_eq (decl : ClassDecl ν) :
    decl.tour = .enter decl :: (decl.members.flatMap (Member.tour decl) ++ [.leave decl]) := by
  cases decl
  simp [ClassDecl.tour, ClassDecl.tourMembers_eq]

/-- **Post-order:** the classes nested in a class, one after the other, and then the class. -/
theorem ClassDecl.postorder_eq (decl : ClassDecl ν) :
    decl.postorder = decl.nested.flatMap ClassDecl.postorder ++ [decl] := by
  have members : ∀ members : List (Member ν),
      (members.flatMap (Member.tour decl)).filterMap Visit.left? =
        (members.filterMap Member.nested?).flatMap ClassDecl.postorder := by
    intro members
    induction members with
    | nil => rfl
    | cons member rest ih =>
      cases member <;>
        simp [Member.tour, Member.nested?, Visit.left?, ClassDecl.postorder,
          List.filterMap_cons, ih]
  rw [ClassDecl.postorder, ClassDecl.tour_eq]
  simp [Visit.left?, List.filterMap_cons, members, ClassDecl.nested]

theorem CompilationUnit.postorder_eq (unit : CompilationUnit ν) :
    unit.postorder = unit.types.flatMap ClassDecl.postorder := by
  simp only [CompilationUnit.postorder, CompilationUnit.tour, List.filterMap_flatMap]
  rfl

end Augment
