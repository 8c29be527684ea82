import Augment.Tree.Declaration

/-!
# Elements and what becomes of them

An `Element` points at a declaration of a round.  Asking for the rewrite of an element either fails
with a `RewriteError`, which is always about the lock of its unit, or has one of four `Outcome`s.
-/

namespace Augment

/-- The place of a compilation unit in a round. -/
structure UnitId where
  index : Nat
deriving DecidableEq, Repr, Inhabited

/-- A pointer to a declaration. -/
structure Element where
  unit : UnitId
  decl : DeclId
  kind : ElementKind
  name : Symbol
deriving DecidableEq, Repr

/-- Whether the element is a class in the narrow sense, which is what can be augmented. -/
def Element.isClass (element : Element) : Bool :=
  element.kind = .type .classType

/-- Why a unit could not be used. -/
inductive RewriteError where
  /-- The round has no such unit. -/
  | unknownUnit (unit : UnitId)
  /-- A rewrite holds the unit. -/
  | alreadyCheckedOut (unit : UnitId)
  /-- A reader holds the unit. -/
  | borrowed (unit : UnitId)
deriving DecidableEq, Repr

namespace RewriteError

/-- How a unit is called in messages. -/
def unitText (unit : UnitId) : String :=
  s!"UnitId({unit.index})"

/-- The text of the error. -/
def message : RewriteError → String
  | unknownUnit unit => "unknown compilation unit " ++ unitText unit
  | alreadyCheckedOut unit =>
    "compilation unit " ++ unitText unit ++ " is already checked out for rewrite"
  | borrowed unit => "compilation unit " ++ unitText unit ++ " is borrowed for reading"

end RewriteError

/-- What the rewrite of an element did. -/
inductive Outcome where
  /-- No strategy was set, so nothing was looked at. -/
  | notConfigured
  /-- The unit is not source code. -/
  | skippedOrigin
  /-- No class of the unit has the id of the element. -/
  | notFound
  /-- The class of this name was rewritten, and members of these names were made. -/
  | rewritten (decl : Symbol) (generated : List Symbol)
deriving DecidableEq, Repr

/-- The name of the outcome. -/
def Outcome.text : Outcome → String
  | notConfigured => "NotConfigured"
  | skippedOrigin => "SkippedOrigin"
  | notFound => "NotFound"
  | rewritten .. => "Rewritten"

end Augment
