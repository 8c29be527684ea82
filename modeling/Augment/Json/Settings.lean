import Augment.Json.Tree
import Augment.Processing
import Augment.Source.Layout

/-!
# Settings as JSON

The JSON form of layout options and of processing options.  Every option that is missing has its
default; an option that is there must have a value of its type.  An array gives the options in
order, and may leave out the last ones.
-/

namespace Augment

/-! ### Options -/

/-- The options of a record whose fields are known by name and order, and of which any may be
missing from an object and the last ones from an array. -/
def Json.options? (keys : List String) : Json → Option (String → Option Json)
  | obj fields => some fun key => fields.lookup key
  | arr items =>
    if items.length ≤ keys.length then some fun key => items[keys.idxOf key]? else none
  | _ => none

/-- Reads an option that has a default if it is missing. -/
def Json.orDefault? {α : Type} (read : Json → Option α) (default : α) : Option Json → Option α
  | none => some default
  | some option => read option

/-! ### Layout options -/

/-- Places of braces are written in lower case. -/
def BraceStyle.toJson : BraceStyle → Json
  | sameLine => .variant "same_line"
  | nextLine => .variant "next_line"

/-- Reads a place for braces. -/
def BraceStyle.ofJson? (j : Json) : Option BraceStyle :=
  j.choice? [("same_line", sameLine), ("next_line", nextLine)]

/-- Layout options are a record. -/
def Layout.toJson (layout : Layout) : Json :=
  .obj [("tab_spaces", .ofNat layout.tabSpaces.toNat), ("max_width", .ofNat layout.maxWidth.toNat),
    ("brace_style", layout.braceStyle.toJson)]

/-- Reads layout options. -/
def Layout.ofJson? (j : Json) : Option Layout := do
  let option ← j.options? ["tab_spaces", "max_width", "brace_style"]
  return {
    tabSpaces := ← Json.orDefault? Json.uint64? default.tabSpaces (option "tab_spaces")
    maxWidth := ← Json.orDefault? Json.uint64? default.maxWidth (option "max_width")
    braceStyle :=
      ← Json.orDefault? BraceStyle.ofJson? default.braceStyle (option "brace_style") }
where
  default : Layout := {}

/-! ### Processing options -/

/-- Processing options are a record. -/
def ProcessingConfig.toJson (config : ProcessingConfig) : Json :=
  .obj [("member_notes", .bool config.memberNotes),
    ("processors", .arr (config.processors.map MarkerKind.toJson))]

/-- Reads processing options. -/
def ProcessingConfig.ofJson? (j : Json) : Option ProcessingConfig := do
  let option ← j.options? ["member_notes", "processors"]
  return {
    memberNotes := ← Json.orDefault? Json.bool? default.memberNotes (option "member_notes")
    processors :=
      ← Json.orDefault? (Json.list? MarkerKind.ofJson?) default.processors
        (option "processors") }
where
  default : ProcessingConfig := {}

end Augment
