/-!
# Documents

A document is text with line breaks whose indentation is not fixed yet.  `nest` shifts the
indentation of the line breaks inside it; shifts add up along the way down and saturate at column
zero and at the last column.  The characters of a text, line feeds among them, are written as they
are: only a `newline` is followed by indentation.
-/

namespace Augment

/-- Text with line breaks at relative depths. -/
inductive Document where
  | empty
  | text (content : String)
  | newline
  | nest (shift : Int) (body : Document)
  | append (left right : Document)
deriving Repr

namespace Document

instance : Append Document := ⟨append⟩

/-- The columns of a line are numbered by machine words. -/
def lastColumn : Nat := UInt64.size - 1

/-- The column that lies `shift` to the right of another, or the nearest one that exists. -/
def shifted (column : Nat) (shift : Int) : Nat :=
  min (column + shift).toNat lastColumn

/-- The characters of a document whose line breaks are followed by `column` spaces. -/
def chars (column : Nat) : Document → List Char
  | empty => []
  | text content => content.toList
  | newline => '\n' :: List.replicate column ' '
  | nest shift body => body.chars (shifted column shift)
  | append left right => left.chars column ++ right.chars column

/-- The document as a text that starts at column zero. -/
def layout (doc : Document) : String :=
  String.ofList (doc.chars 0)

/-- The documents one after the other. -/
def concat (docs : List Document) : Document :=
  docs.foldr (· ++ ·) empty

/-- The documents, each on a line of its own below what comes before. -/
def lined (docs : List Document) : Document :=
  concat (docs.map (newline ++ ·))

/-- The documents with a separator between neighbours. -/
def separated (separator : Document) : List Document → Document
  | [] => empty
  | [doc] => doc
  | doc :: rest => doc ++ separator ++ separated separator rest

/-- Whether the document has neither characters nor line breaks. -/
def isEmpty : Document → Bool
  | empty => true
  | text content => content.isEmpty
  | newline => false
  | nest _ body => body.isEmpty
  | append left right => left.isEmpty && right.isEmpty

/-! ### Characters of compound documents -/

@[simp] theorem chars_append (column : Nat) (left right : Document) :
    (left ++ right).chars column = left.chars column ++ right.chars column := rfl

@[simp] theorem chars_concat (column : Nat) (docs : List Document) :
    (concat docs).chars column = docs.flatMap (·.chars column) := by
  induction docs with
  | nil => rfl
  | cons doc rest ih => simpa [concat, chars] using ih

@[simp] theorem chars_lined (column : Nat) (docs : List Document) :
    (lined docs).chars column =
      docs.flatMap fun doc => '\n' :: (List.replicate column ' ' ++ doc.chars column) := by
  simp [lined, List.flatMap_map, chars]

/-- **No shift moves a line left of column zero.** -/
theorem shifted_of_nonpos {shift : Int} (h : shift ≤ 0) : shifted 0 shift = 0 := by
  simp only [shifted]
  omega

/-- Within the columns that exist, shifting is addition. -/
theorem shifted_natCast {column shift : Nat} (h : column + shift ≤ lastColumn) :
    shifted column shift = column + shift := by
  simp only [shifted]
  omega

end Document

end Augment
