import Augment.Tree.Tour

/-!
# Outlines

The outline of a class lists its members by name.  Constructors have no name of their own and are
told apart by their number of parameters.
-/

namespace Augment

/-- A member in an outline. -/
def Member.label (names : Names) : Member Symbol → String
  | method decl =>
    if decl.isConstructor then s!"{initName}/{decl.arity}" else names.display decl.name
  | member => names.display member.name

/-- The members of a class, in order. -/
def ClassDecl.outline (names : Names) (decl : ClassDecl Symbol) : List String :=
  decl.members.map (·.label names)

/-- Every class of a unit with its outline, a class before the classes nested in it. -/
def CompilationUnit.outline (names : Names) (unit : CompilationUnit Symbol) :
    List (String × List String) :=
  unit.classes.map fun decl => (names.display decl.name, decl.outline names)

end Augment
