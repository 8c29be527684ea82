import Augment.Proofs.Isolation

/-!
# Discovery lists declarations in pre-order

Discovery selects from a tour, which meets a class before and after its members.  Here the
declarations of a tree are listed in a way of their own: a class stands before its members, the
members stand from left to right, and a nested class stands with all that is in it where it is
declared (`ClassDecl.preorder`).  What discovery lists are the declarations with a marker of the
kind in that order, each once, with the first such marker (`CompilationUnit.annotated_eq_marked`).

In a round that is in use, the units are taken in order and those with a guard are passed over;
readers are no hindrance.  Looking at a unit takes a reader and gives it back, which leaves the
session as it was (`Session.Consistent.perform_annotated`).
-/

namespace Augment

/-! ### Declarations in pre-order -/

section Preorder

variable {ν : Type}

mutual

/-- **The declarations of a class in pre-order.** -/
def ClassDecl.preorder : ClassDecl ν → List (Node ν)
  | ⟨id, name, kind, modifiers, markers, members⟩ =>
    .type id name kind modifiers markers :: ClassDecl.preorderMembers members

/-- The declarations of some members in pre-order. -/
def ClassDecl.preorderMembers : List (Member ν) → List (Node ν)
  | [] => []
  | .field decl :: rest => .field decl :: ClassDecl.preorderMembers rest
  | .method decl :: rest => .method decl :: ClassDecl.preorderMembers rest
  | .nested decl :: rest => decl.preorder ++ ClassDecl.preorderMembers rest

end

/-- The declarations of a unit in pre-order. -/
def CompilationUnit.preorder (unit : CompilationUnit ν) : List (Node ν) :=
  unit.types.flatMap ClassDecl.preorder

/-- **A tour meets the declarations in pre-order.** -/
theorem ClassDecl.nodes_eq_preorder (decl : ClassDecl ν) : decl.nodes = decl.preorder := by
  induction decl using ClassDecl.induction with
  | step decl ih =>
    -- the listings of nested classes come from outside, as this is an induction on the list alone
    have members : ∀ members : List (Member ν),
        (∀ inner, .nested inner ∈ members → inner.nodes = inner.preorder) →
          members.flatMap Member.nodes = preorderMembers members := by
      intro members each
      induction members with
      | nil => rfl
      | cons member rest later =>
        have others := later fun inner hi => each inner (List.mem_cons_of_mem member hi)
        rw [List.flatMap_cons, others]
        cases member with
        | field field => rfl
        | method method => rfl
        | nested inner =>
          exact congrArg (· ++ preorderMembers rest) (each inner List.mem_cons_self)
    rw [nodes_eq, members decl.members ih]
    cases decl
    rfl

theorem CompilationUnit.nodes_eq_preorder (unit : CompilationUnit ν) :
    unit.nodes = unit.preorder := by
  rw [CompilationUnit.nodes_eq, preorder]
  exact List.flatMap_congr fun decl _ => decl.nodes_eq_preorder

end Preorder

/-! ### Marked declarations -/

/-- A method is a constructor if it has the reserved name and no return type. -/
def MethodDecl.methodOrConstructor (decl : MethodDecl Symbol) : ElementKind :=
  if decl.name = Names.init ∧ decl.returnType = none then .constructor else .method

/-- The element that points at a declaration. -/
def Node.element (unit : UnitId) : Node Symbol → Element
  | type id name kind _ _ => { unit, decl := id, kind := .type kind, name }
  | field decl => { unit, decl := decl.id, kind := .field, name := decl.name }
  | method decl => { unit, decl := decl.id, kind := decl.methodOrConstructor, name := decl.name }

/-- The declaration with the first of its markers of a kind, if it has any. -/
def Node.marked? (kind : MarkerKind) (unit : UnitId) (node : Node Symbol) : Option Annotated :=
  (node.markers.filter (·.kind = kind)).head?.map fun marker => ⟨node.element unit, marker⟩

/-- The declarations of a unit that have a marker of a kind. -/
def CompilationUnit.marked (kind : MarkerKind) (unit : UnitId) (tree : CompilationUnit Symbol) :
    List Annotated :=
  tree.preorder.filterMap (Node.marked? kind unit)

theorem MethodDecl.elementKind_eq (decl : MethodDecl Symbol) :
    decl.elementKind = decl.methodOrConstructor := by
  have constructor : decl.isConstructor ↔ decl.name = Names.init ∧ decl.returnType = none := by
    simp [isConstructor, InitName.init]
  simp only [elementKind, methodOrConstructor, constructor]

theorem Node.annotated?_eq_marked? (kind : MarkerKind) (unit : UnitId) (node : Node Symbol) :
    node.annotated? kind unit = node.marked? kind unit := by
  have element : ({ unit, decl := node.id, kind := node.elementKind, name := node.name } :
      Element) = node.element unit := by
    cases node with
    | type id name kind modifiers markers => rfl
    | field decl => rfl
    | method decl =>
      have kind : (method decl).elementKind = decl.methodOrConstructor := decl.elementKind_eq
      rw [kind]
      rfl
  rw [annotated?, marked?, List.head?_filter, element]
  rfl

/-- **Discovery in a unit lists the marked declarations in pre-order.** -/
theorem CompilationUnit.annotated_eq_marked (kind : MarkerKind) (unit : UnitId)
    (tree : CompilationUnit Symbol) : tree.annotated kind unit = tree.marked kind unit := by
  rw [annotated_eq, nodes_eq_preorder, marked]
  exact List.filterMap_congr fun node _ => node.annotated?_eq_marked? kind unit

/-! ### Discovery in a session -/

theorem flatMap_filter {α β : Type} (p : α → Bool) (f : α → List β) (items : List α) :
    (items.filter p).flatMap f = items.flatMap fun item => if p item then f item else [] := by
  induction items with
  | nil => rfl
  | cons item rest ih =>
    rw [List.filter_cons, List.flatMap_cons, ← ih]
    split <;> rfl

/-- A reader that is given back restores the lock. -/
theorem Round.unread_setLock {round : Round} {unit : UnitId} {slot : Slot} {readers : Nat}
    (known : round.slots[unit.index]? = some slot)
    (lock : slot.lock = { borrow := .shared readers }) :
    (round.setLock unit { borrow := .shared (readers + 1) }).unread unit = round := by
  have bound := (List.getElem?_eq_some_iff.mp known).1
  have taken : (round.setLock unit { borrow := .shared (readers + 1) }).slots =
      round.slots.set unit.index { slot with lock := { borrow := .shared (readers + 1) } } :=
    slots_modifySlot_of_getElem? known _
  have takenSlot : (round.setLock unit { borrow := .shared (readers + 1) }).slots[unit.index]? =
      some { slot with lock := { borrow := .shared (readers + 1) } } := by
    rw [taken, List.getElem?_set_self bound]
  have restored : ({ slot with lock := { borrow := .shared readers } } : Slot) = slot := by
    rw [← lock]
  have slots : ((round.setLock unit { borrow := .shared (readers + 1) }).unread unit).slots =
      round.slots := by
    rw [unread, slots_modifySlot_of_getElem? takenSlot, taken, List.set_set]
    change round.slots.set unit.index { slot with lock := { borrow := .shared readers } } = _
    rw [restored, slots_set_of_getElem? known]
  exact congrArg (Round.mk round.maker) slots

namespace Session

variable {session : Session}

/-- The marked declarations of all units without a guard. -/
def marked (session : Session) (kind : MarkerKind) : List Annotated :=
  (session.round.unitIds.filter (· ∉ session.guards)).flatMap fun unit =>
    (session.round.tree? unit).toList.flatMap (CompilationUnit.marked kind unit)

/-- **A reader that is given back at once** leaves no trace. -/
theorem Consistent.performAll_read_unread (consistent : session.Consistent) (unit : UnitId) :
    session.performAll [.read unit, .unread unit] = session := by
  have read := perform_read consistent unit
  change (session.perform (.read unit)).2.unread unit = session
  cases known : session.round.slots[unit.index]? with
  | none =>
    -- the reader was not given, so there is none to give back
    rw [read, known]
    exact if_neg (consistent.of_none known).2
  | some slot =>
    rw [known] at read
    by_cases held : unit ∈ session.guards
    · simp only [if_pos held] at read
      rw [read]
      exact if_neg (consistent.excludes held)
    · simp only [if_neg held] at read
      have round := Round.unread_setLock known (consistent.lock_of_no_guard known held)
      rw [read, unread, if_pos List.mem_cons_self, round, List.erase_cons_head]

/-- The calls that look at every unit of the round, one after the other. -/
def looks (session : Session) : List Call :=
  session.round.unitIds.flatMap fun unit => [.read unit, .unread unit]

theorem Consistent.performAll_looks (consistent : session.Consistent) :
    session.performAll session.looks = session := by
  rw [Session.performAll, looks, List.foldl_flatMap]
  exact foldl_idle fun unit _ => consistent.performAll_read_unread unit

/-- **Discovery is complete, sound and in order.** In a session with any guards and readers, it
lists the declarations of all units without a guard, in pre-order, that have a marker of the kind,
each once and with the first such marker.  It leaves the session as it was, and so do the readers
that it takes and gives back on the way. -/
theorem Consistent.perform_annotated (consistent : session.Consistent) (kind : MarkerKind) :
    session.perform (.annotated kind) = (.annotated (session.marked kind), session) ∧
      session.performAll session.looks = session := by
  refine ⟨?_, consistent.performAll_looks⟩
  have found : (session.round.annotated kind).value = session.marked kind := by
    rw [Round.value_annotated, marked, flatMap_filter]
    refine List.flatMap_congr fun unit _ => ?_
    have inUnit : CompilationUnit.annotated kind unit = CompilationUnit.marked kind unit :=
      funext (CompilationUnit.annotated_eq_marked kind unit)
    rw [consistent.value_annotatedIn kind unit, inUnit]
    simp only [decide_eq_true_eq, ite_not]
  rw [← found]
  rfl

/-- A class that is checked out, a class that is being read, with a class, a constructor, a field
and a method of the reserved name in it, and an interface in a library, all of them marked. -/
def markedGarage : Session :=
  let program : Building (List (Origin × ClassDecl Symbol)) := do
    let wheel ← Building.type (← Building.name "Wheel") .classType .none
      [.noArgsConstructor .privateAccess]
    let start ← Building.constructor .none [] {} [.noArgsConstructor .privateAccess]
    let engine ← Building.type (← Building.name "Engine") .classType .none
      [.getter, .noArgsConstructor .publicAccess] [.method start]
    let price ← Building.field (← Building.name "price") (← Building.typeNamed "int") .none
      [.noArgsConstructor .privateAccess, .noArgsConstructor .publicAccess]
    let method ← Building.method Names.init (some .void) .none [] {}
      [.noArgsConstructor .publicAccess, .noArgsConstructor .privateAccess]
    let car ← Building.type (← Building.name "Car") .classType .none
      [.noArgsConstructor .publicAccess] [.nested engine, .field price, .method method]
    let shape ← Building.type (← Building.name "Shape") .interfaceType .none
      [.noArgsConstructor .privateAccess]
    return [(.source, wheel), (.source, car), (.library, shape)]
  let trees := (program {}).1.map fun (origin, decl) =>
    { fileName := "Garage.java", package := none, origin, types := [decl] }
  (opened (program {}).2 trees).performAll [.checkout ⟨0⟩, .read ⟨1⟩]

/-- The class that is checked out is passed over, and each of the other declarations comes with the
first of its markers. -/
theorem perform_annotated_markedGarage :
    markedGarage.Consistent ∧
      markedGarage.perform (.annotated .noArgsConstructor) = (.annotated
        [⟨⟨⟨1⟩, ⟨5⟩, .type .classType, ⟨5⟩⟩, .noArgsConstructor .publicAccess⟩,
          ⟨⟨⟨1⟩, ⟨2⟩, .type .classType, ⟨2⟩⟩, .noArgsConstructor .publicAccess⟩,
          ⟨⟨⟨1⟩, ⟨1⟩, .constructor, Names.init⟩, .noArgsConstructor .privateAccess⟩,
          ⟨⟨⟨1⟩, ⟨3⟩, .field, ⟨3⟩⟩, .noArgsConstructor .privateAccess⟩,
          ⟨⟨⟨1⟩, ⟨4⟩, .method, Names.init⟩, .noArgsConstructor .publicAccess⟩,
          ⟨⟨⟨2⟩, ⟨6⟩, .type .interfaceType, ⟨6⟩⟩, .noArgsConstructor .privateAccess⟩],
        markedGarage) ∧
      markedGarage.performAll markedGarage.looks = markedGarage := by
  have consistent : markedGarage.Consistent := (consistent_opened _ _).performAll _
  obtain ⟨listed, looks⟩ := consistent.perform_annotated .noArgsConstructor
  refine ⟨consistent, listed.trans ?_, looks⟩
  refine congrArg (fun found => (Reply.annotated found, markedGarage)) ?_
  decide +kernel

end Session

end Augment
