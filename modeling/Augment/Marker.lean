import Augment.Modifiers

/-!
# Markers

A marker is a tag on a declaration that asks for one of three augmentations.  Its `MarkerKind` is
the marker without its parameters; discovery looks for kinds, and each kind has a processor.
-/

namespace Augment

/-- A marker without its parameters. -/
inductive MarkerKind where
  | getter
  | setter
  | noArgsConstructor
deriving DecidableEq, Repr

/-- A tag on a declaration. -/
inductive Marker where
  | getter
  | setter
  | noArgsConstructor (access : AccessLevel)
deriving DecidableEq, Repr

/-- The name of a kind in source text and in messages. -/
def MarkerKind.text : MarkerKind → String
  | getter => "@Getter"
  | setter => "@Setter"
  | noArgsConstructor => "@NoArgsConstructor"

namespace Marker

/-- The kind of a marker. -/
def kind : Marker → MarkerKind
  | getter => .getter
  | setter => .setter
  | noArgsConstructor _ => .noArgsConstructor

/-- A marker in source text. -/
def text (marker : Marker) : String :=
  match marker with
  | noArgsConstructor access => marker.kind.text ++ "(access = " ++ access.text ++ ")"
  | _ => marker.kind.text

/-- The first marker of a kind in a list: the one that counts. -/
def first? (kind : MarkerKind) (markers : List Marker) : Option Marker :=
  markers.find? (·.kind = kind)

@[simp] theorem kind_of_first? {kind : MarkerKind} {markers : List Marker} {marker : Marker}
    (h : first? kind markers = some marker) : marker.kind = kind := by
  simpa using List.find?_some h

/-- A list has a first marker of a kind exactly if it has one at all. -/
theorem isSome_first?_iff {kind : MarkerKind} {markers : List Marker} :
    (first? kind markers).isSome ↔ ∃ marker ∈ markers, marker.kind = kind := by
  simp [first?]

end Marker

end Augment
