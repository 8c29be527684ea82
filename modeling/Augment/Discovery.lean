import Augment.Round
import Augment.Tree.Tour

/-!
# Discovery of marked declarations

`Round.annotated` lists the declarations that carry a marker of a kind: unit after unit, and within
a unit in the order in which a tour meets them, so a class comes before its members.  A unit that a
rewrite holds is passed over; where a unit comes from makes no difference.  A declaration that
carries several markers of the kind is listed once, with the first of them.
-/

namespace Augment

/-- A declaration and the marker that was found on it. -/
structure Annotated where
  element : Element
  marker : Marker
deriving DecidableEq, Repr

/-- The declaration that is met, if it carries a marker of the kind. -/
def Visit.annotated? (kind : MarkerKind) (unit : UnitId) : Visit Symbol → Option Annotated
  | enter decl => do
    let marker ← Marker.first? kind decl.markers
    return ⟨⟨unit, decl.id, decl.elementKind, decl.name⟩, marker⟩
  | field _ decl => do
    let marker ← Marker.first? kind decl.markers
    return ⟨⟨unit, decl.id, .field, decl.name⟩, marker⟩
  | method _ decl => do
    let marker ← Marker.first? kind decl.markers
    return ⟨⟨unit, decl.id, decl.elementKind, decl.name⟩, marker⟩
  | leave _ => none

/-- The marked declarations of a unit. -/
def CompilationUnit.annotated (kind : MarkerKind) (unit : UnitId) (tree : CompilationUnit Symbol) :
    List Annotated :=
  tree.tour.filterMap (Visit.annotated? kind unit)

/-- The marked declarations of a unit of the round; a unit that cannot be read has none. -/
def Round.annotatedIn (round : Round) (kind : MarkerKind) (unit : UnitId) :
    Traced (List Annotated) :=
  match round.tree unit with
  | .ok tree => return tree.annotated kind unit
  | .error error => do
    Traced.emit [.skippedUnit unit error]
    return []

/-- The marked declarations of the round. -/
def Round.annotated (round : Round) (kind : MarkerKind) : Traced (List Annotated) := do
  let found ← round.unitIds.mapM (round.annotatedIn kind)
  return found.flatten

end Augment
