import Augment.Rewriting

/-!
# Sessions

A session is a round together with what its users hold: a *guard* for each unit that is checked out
beyond a single call, and a *reader* for each read that is still going on.  The round itself only
knows the locks; the session knows the holders, and releases a unit only for a holder.
-/

namespace Augment

/-- A round in use. -/
structure Session where
  round : Round := {}
  /-- The units that are checked out by a holder. -/
  guards : List UnitId := []
  /-- The units that are being read, once for each reader. -/
  readers : List UnitId := []

namespace Session

instance : Inhabited Session := ⟨{}⟩

/-- The tree of a unit, and the session with one more reader of it. -/
def read (session : Session) (unit : UnitId) :
    Except RewriteError (CompilationUnit Symbol × Session) := do
  let (tree, round) ← session.round.read unit
  return (tree, { session with round, readers := unit :: session.readers })

/-- The session after one reader of a unit is done, if there is one. -/
def unread (session : Session) (unit : UnitId) : Session :=
  if unit ∈ session.readers then
    { session with
      round := session.round.unread unit
      readers := session.readers.erase unit }
  else
    session

/-- The session after all readers of a unit are done, and how many there were. -/
def unreadAll (session : Session) (unit : UnitId) : Session × Nat :=
  let count := session.readers.count unit
  (count.repeat (·.unread unit) session, count)

/-- The session with a guard for a unit. -/
def checkout (session : Session) (unit : UnitId) : Except RewriteError (Traced Session) := do
  let (_, round) ← session.round.checkout unit
  return do
    Traced.emit [.checkedOut unit]
    return { session with round, guards := unit :: session.guards }

/-- The session without the guard for a unit, and whether there was one. -/
def release (session : Session) (unit : UnitId) : Traced (Session × Bool) :=
  if unit ∈ session.guards then do
    Traced.emit [.released unit]
    return ({ session with
      round := session.round.release unit
      guards := session.guards.erase unit }, true)
  else
    return (session, false)

/-- The session in which nobody holds anything. -/
def releaseAll (session : Session) : Traced Session := do
  let released ← session.round.unitIds.foldlM (fun s unit => (·.1) <$> s.release unit) session
  return session.round.unitIds.foldl (fun s unit => (s.unreadAll unit).1) released

/-- The tree of a unit as its guard shows it, if there is one. -/
def guardedTree? (session : Session) (unit : UnitId) : Option (CompilationUnit Symbol) :=
  if unit ∈ session.guards then
    (session.round.slots[unit.index]?).map Slot.tree
  else
    none

/-- Changes the tree of a unit through its guard, or else through a checkout for this call. -/
def edit {α : Type} (session : Session) (unit : UnitId)
    (change : CompilationUnit Symbol → Maker → Traced (Round.Edited α)) :
    Except RewriteError (Traced (Session × α)) :=
  match session.guardedTree? unit with
  | some tree =>
    return do
      let edited ← change tree session.round.maker
      let written := session.round.modifyTree unit (fun _ => edited.tree)
      return ({ session with round := { written with maker := edited.maker } }, edited.result)
  | none => do
    let editing ← session.round.edit unit change
    return do
      let (round, result) ← editing
      return ({ session with round }, result)

end Session

end Augment
