import Augment.Event
import Augment.Maker

/-!
# Rounds

A round holds the compilation units that are worked on together, and the maker of their trees.
Each unit has a lock, which keeps two records: how its tree is borrowed, by any number of readers
or by a single writer, and whether the unit is checked out for a rewrite.  A checkout looks at both
records and sets both; a read looks at the borrow alone.

`read`, `checkout` and `edit` fail with a `RewriteError` and then yield no new round: a call that
fails changes nothing.
-/

namespace Augment

/-- How a tree is borrowed. -/
inductive Borrow where
  /-- By this many readers and no writer; without readers the tree is not borrowed. -/
  | shared (readers : Nat)
  /-- By a writer. -/
  | exclusive
deriving DecidableEq, Repr

/-- Who holds a unit. -/
structure Lock where
  borrow : Borrow := .shared 0
  /-- Whether a rewrite has the unit checked out. -/
  checkedOut : Bool := false
deriving DecidableEq, Repr

namespace Lock

/-- The lock of a unit that nobody holds. -/
def free : Lock := {}

/-- The lock of a unit that is checked out. -/
def held : Lock := { borrow := .exclusive, checkedOut := true }

end Lock

/-- A unit in a round. -/
structure Slot where
  tree : CompilationUnit Symbol
  lock : Lock

/-- The units that are worked on together. -/
structure Round where
  maker : Maker := {}
  slots : List Slot := []

namespace Round

instance : Inhabited Round := ⟨{}⟩

/-- The number of units. -/
def size (round : Round) : Nat :=
  round.slots.length

/-- The ids of all units, in order. -/
def unitIds (round : Round) : List UnitId :=
  (List.range round.size).map UnitId.mk

/-- Adds a unit, which nobody holds yet, after the others. -/
def addUnit (round : Round) (tree : CompilationUnit Symbol) : UnitId × Round :=
  (⟨round.size⟩, { round with slots := round.slots ++ [⟨tree, .free⟩] })

/-- The slot of a unit. -/
def slot (round : Round) (unit : UnitId) : Except RewriteError Slot :=
  match round.slots[unit.index]? with
  | some slot => .ok slot
  | none => .error (.unknownUnit unit)

/-- The round with the slot of a unit changed. -/
def modifySlot (round : Round) (unit : UnitId) (change : Slot → Slot) : Round :=
  { round with slots := round.slots.modify unit.index change }

/-- The round with the tree of a unit changed, whoever holds it. -/
def modifyTree (round : Round) (unit : UnitId)
    (change : CompilationUnit Symbol → CompilationUnit Symbol) : Round :=
  round.modifySlot unit fun slot => { slot with tree := change slot.tree }

/-- The round with the lock of a unit replaced. -/
def setLock (round : Round) (unit : UnitId) (lock : Lock) : Round :=
  round.modifySlot unit fun slot => { slot with lock }

/-! ### Reading -/

/-- The tree of a unit, unless a rewrite holds it. -/
def tree (round : Round) (unit : UnitId) : Except RewriteError (CompilationUnit Symbol) := do
  let slot ← round.slot unit
  match slot.lock.borrow with
  | .shared _ => .ok slot.tree
  | .exclusive => .error (.alreadyCheckedOut unit)

/-- The tree of a unit and the round in which one more reader holds it. -/
def read (round : Round) (unit : UnitId) :
    Except RewriteError (CompilationUnit Symbol × Round) := do
  let slot ← round.slot unit
  match slot.lock.borrow with
  | .shared readers =>
    .ok (slot.tree, round.setLock unit { slot.lock with borrow := .shared (readers + 1) })
  | .exclusive => .error (.alreadyCheckedOut unit)

/-- The round after one reader of a unit is done. -/
def unread (round : Round) (unit : UnitId) : Round :=
  round.modifySlot unit fun slot =>
    match slot.lock.borrow with
    | .shared readers => { slot with lock.borrow := .shared (readers - 1) }
    | .exclusive => slot

/-! ### Rewriting -/

/-- Whether a rewrite has the unit checked out. -/
def isCheckedOut (round : Round) (unit : UnitId) : Bool :=
  match round.slots[unit.index]? with
  | some slot => slot.lock.checkedOut
  | none => false

/-- The tree of a unit and the round in which a rewrite holds it. -/
def checkout (round : Round) (unit : UnitId) :
    Except RewriteError (CompilationUnit Symbol × Round) := do
  let slot ← round.slot unit
  if slot.lock.checkedOut then
    .error (.alreadyCheckedOut unit)
  else
    match slot.lock.borrow with
    | .shared 0 => .ok (slot.tree, round.setLock unit .held)
    | _ => .error (.borrowed unit)

/-- The round after the rewrite of a unit is done. -/
def release (round : Round) (unit : UnitId) : Round :=
  round.setLock unit .free

/-- What a change of a checked out unit leaves behind. -/
structure Edited (α : Type) where
  tree : CompilationUnit Symbol
  maker : Maker
  result : α

/-- Checks a unit out, changes its tree with the help of the maker, and releases the unit. -/
def edit {α : Type} (round : Round) (unit : UnitId)
    (change : CompilationUnit Symbol → Maker → Traced (Edited α)) :
    Except RewriteError (Traced (Round × α)) := do
  let (tree, held) ← round.checkout unit
  return do
    Traced.emit [.checkedOut unit]
    let edited ← change tree held.maker
    Traced.emit [.released unit]
    let written := { held.modifyTree unit (fun _ => edited.tree) with maker := edited.maker }
    return (written.release unit, edited.result)

end Round

end Augment
