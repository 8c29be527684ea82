import Augment.Source.Document

/-!
# Layout options

Where braces go and how far the body of a class or method is indented.  `Layout.braces` is the only
place that looks at the options.
-/

namespace Augment

/-- Where the opening brace of a body stands. -/
inductive BraceStyle where
  /-- At the end of the line of the declaration. -/
  | sameLine
  /-- On a line of its own, below the first character of the declaration. -/
  | nextLine
deriving DecidableEq, Repr

/-- How source text is laid out. -/
structure Layout where
  /-- The spaces for one level of nesting. -/
  tabSpaces : UInt64 := 4
  /-- The column up to which lines would be filled.  Lines are never broken, so nothing depends
  on it. -/
  maxWidth : UInt64 := 100
  braceStyle : BraceStyle := .sameLine
deriving DecidableEq, Repr

namespace Layout

instance : Inhabited Layout := ⟨{}⟩

/-- The shift of one level of nesting.  The word is read as a signed number, so from 2⁶³ on the
shift is to the left, which moves nothing that stands at column zero. -/
def shift (layout : Layout) : Int :=
  layout.tabSpaces.toInt64.toInt

/-- What comes between a declaration and its body. -/
def openBrace (layout : Layout) : Document :=
  match layout.braceStyle with
  | .sameLine => .text " \x7b"
  | .nextLine => .newline ++ .text "\x7b"

/-- Items on lines of their own, one level deeper.  The line break in front of an empty last item
stands at the outer level, since there is nothing on its line to indent. -/
def body (layout : Layout) (items : List Document) : Document :=
  if items.getLast?.all Document.isEmpty then
    .nest layout.shift (.lined items.dropLast) ++ .newline
  else
    .nest layout.shift (.lined items)

/-- Items in braces, each on its own line; without items the braces close at once. -/
def braces (layout : Layout) (items : List Document) : Document :=
  if items.isEmpty then
    layout.openBrace ++ .text "\x7d"
  else
    layout.openBrace ++ layout.body items ++ .newline ++ .text "\x7d"

@[simp] theorem braces_nil (layout : Layout) :
    layout.braces [] = layout.openBrace ++ .text "\x7d" := rfl

/-- **Items that are not empty** are lined up at the inner level. -/
theorem body_of_not_isEmpty {layout : Layout} {items : List Document} (ne : items ≠ [])
    (h : ∀ item ∈ items, item.isEmpty = false) :
    layout.body items = .nest layout.shift (.lined items) := by
  have := h _ (List.getLast_mem ne)
  simp [body, List.getLast?_eq_some_getLast ne, this]

end Layout

end Augment
