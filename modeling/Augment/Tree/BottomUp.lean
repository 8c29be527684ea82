import Augment.Tree.Declaration

/-!
# Changing a tree from the bottom up

`bottomUp` changes every class of a tree by a function that also reads and writes a state.  A class
is changed after the classes nested in it, so the function always sees them in their final shape,
and the state passes from class to class in post-order.
-/

namespace Augment

variable {ν σ : Type}

mutual

/-- Changes the classes nested in a class from left to right, and then the class. -/
def ClassDecl.bottomUp (change : ClassDecl ν → σ → ClassDecl ν × σ) :
    ClassDecl ν → σ → ClassDecl ν × σ
  | ⟨id, name, kind, modifiers, markers, members⟩, state =>
    let (members, state) := ClassDecl.bottomUpMembers change members state
    change ⟨id, name, kind, modifiers, markers, members⟩ state

/-- Changes the classes among some members from left to right. -/
def ClassDecl.bottomUpMembers (change : ClassDecl ν → σ → ClassDecl ν × σ) :
    List (Member ν) → σ → List (Member ν) × σ
  | [], state => ([], state)
  | .nested decl :: rest, state =>
    let (decl, state) := decl.bottomUp change state
    let (rest, state) := ClassDecl.bottomUpMembers change rest state
    (.nested decl :: rest, state)
  | .field decl :: rest, state =>
    let (rest, state) := ClassDecl.bottomUpMembers change rest state
    (.field decl :: rest, state)
  | .method decl :: rest, state =>
    let (rest, state) := ClassDecl.bottomUpMembers change rest state
    (.method decl :: rest, state)

end

/-- Changes the classes of a list of types from left to right. -/
def ClassDecl.bottomUpTypes (change : ClassDecl ν → σ → ClassDecl ν × σ) :
    List (ClassDecl ν) → σ → List (ClassDecl ν) × σ
  | [], state => ([], state)
  | decl :: rest, state =>
    let (decl, state) := decl.bottomUp change state
    let (rest, state) := ClassDecl.bottomUpTypes change rest state
    (decl :: rest, state)

/-- Changes every class of a unit. -/
def CompilationUnit.bottomUp (change : ClassDecl ν → σ → ClassDecl ν × σ)
    (unit : CompilationUnit ν) (state : σ) : CompilationUnit ν × σ :=
  let (types, state) := ClassDecl.bottomUpTypes change unit.types state
  ({ unit with types }, state)

/-- **A class is changed last,** with the members that its nested classes have left behind. -/
theorem ClassDecl.bottomUp_eq (change : ClassDecl ν → σ → ClassDecl ν × σ) (decl : ClassDecl ν)
    (state : σ) :
    decl.bottomUp change state =
      change { decl with members := (ClassDecl.bottomUpMembers change decl.members state).1 }
        (ClassDecl.bottomUpMembers change decl.members state).2 := by
  cases decl
  rfl

end Augment
