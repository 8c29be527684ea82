import Augment.Source.Printer
import Mathlib.Data.List.Basic
import Mathlib.Data.List.Induction

/-!
# What the layout leaves alone

The *ink* of a text are its characters that are not blank.  A layout places line breaks,
indentation and opening braces, and trimming takes blanks away; none of it reaches the ink.  So the
ink of a document can be read off the document without a column (`Document.ink_chars`), and it is
the ink of the final text (`Document.ink_render`).

Two layouts print every tree alike, as far as a view of documents shows, if they put braces around
items alike (`Layout.Alike`).  There are two such views: the ink, for any two layouts, and the
document itself, for layouts that differ in their width only.  `Fragment.ink_source` says what
follows for the source text of everything that can be printed.
-/

namespace Augment

/-! ### Ink of texts -/

namespace Text

/-- The characters of a text that are not blank. -/
def ink (s : List Char) : List Char :=
  s.filter (!isBlank ·)

@[simp] theorem ink_nil : ink [] = [] := rfl

@[simp] theorem ink_append (s t : List Char) : ink (s ++ t) = ink s ++ ink t :=
  List.filter_append ..

theorem ink_cons_of_blank {c : Char} (h : isBlank c) (s : List Char) : ink (c :: s) = ink s := by
  rw [ink, List.filter_cons_of_neg (by simpa using h), ink]

/-- Line breaks hold no ink, so the ink of a text is that of its lines. -/
theorem flatMap_ink_lines (s : List Char) : (lines s).flatMap ink = ink s := by
  fun_induction lines s with
  | case1 => rfl
  | case2 rest ih =>
    rw [List.flatMap_cons, ih, ink_cons_of_blank isBlank_lineFeed]
    rfl
  | case3 rest ih =>
    rw [List.flatMap_cons, ih, ink_cons_of_blank isBlank_carriageReturn,
      ink_cons_of_blank isBlank_lineFeed]
    rfl
  | case4 c rest _ _ none ih =>
    -- a text without lines is empty
    obtain rfl : rest = [] := lines_eq_nil_iff.mp none
    simp
  | case5 c rest _ _ line later some ih =>
    have split : ink (c :: line) = ink [c] ++ ink line := ink_append [c] line
    rw [List.flatMap_cons, split, List.append_assoc, ← List.flatMap_cons, ← some, ih]
    exact (ink_append [c] rest).symm

theorem ink_trimEnd (line : List Char) : ink (trimEnd line) = ink line := by
  induction line using List.reverseRecOn with
  | nil => rfl
  | append_singleton line c ih =>
    rw [trimEnd_append_singleton]
    split
    · rename_i blank
      have empty : ink [c] = [] := ink_cons_of_blank blank []
      rw [ih, ink_append, empty, List.append_nil]
    · rfl

/-- **Trimming lines leaves the ink.** -/
theorem ink_cleanLines (s : List Char) : ink (cleanLines s) = ink s := by
  by_cases empty : s = []
  · subst empty
    exact ink_cons_of_blank isBlank_lineFeed []
  · have line : ∀ line : List Char, ink (trimEnd line ++ ['\n']) = ink line := by
      intro line
      have feed : ink ['\n'] = [] := ink_cons_of_blank isBlank_lineFeed []
      rw [ink_append, ink_trimEnd, feed, List.append_nil]
    have lines : ink ((lines s).flatMap fun line => trimEnd line ++ ['\n']) =
        (lines s).flatMap ink := by
      rw [ink, List.filter_flatMap]
      exact List.flatMap_congr fun l _ => line l
    rw [cleanLines_of_ne_nil empty, lines, flatMap_ink_lines]

end Text

/-! ### Ink of documents -/

namespace Document

/-- The characters of a document that are not blank.  Where its lines begin makes no difference. -/
def ink : Document → List Char
  | empty => []
  | text content => Text.ink content.toList
  | newline => []
  | nest _ body => body.ink
  | append left right => left.ink ++ right.ink

@[simp] theorem ink_newline : newline.ink = [] := rfl

@[simp] theorem ink_nest (shift : Int) (body : Document) : (nest shift body).ink = body.ink := rfl

@[simp] theorem ink_append (left right : Document) : (left ++ right).ink = left.ink ++ right.ink :=
  rfl

@[simp] theorem ink_concat (docs : List Document) : (concat docs).ink = docs.flatMap ink := by
  induction docs with
  | nil => rfl
  | cons doc rest ih =>
    rw [List.flatMap_cons, ← ih]
    rfl

@[simp] theorem ink_lined (docs : List Document) : (lined docs).ink = docs.flatMap ink := by
  rw [lined, ink_concat, List.flatMap_map]
  rfl

/-- **The ink of a document is the same at every column.** -/
theorem ink_chars (column : Nat) (doc : Document) : Text.ink (doc.chars column) = doc.ink := by
  induction doc generalizing column with
  | empty => rfl
  | text content => rfl
  | newline =>
    have spaces : Text.ink (List.replicate column ' ') = [] := by
      rw [Text.ink, List.filter_eq_nil_iff]
      intro c hc
      obtain rfl := List.eq_of_mem_replicate hc
      simp
    rw [chars, Text.ink_cons_of_blank Text.isBlank_lineFeed, spaces]
    rfl
  | nest shift body ih => exact ih _
  | append left right ihLeft ihRight => rw [chars, Text.ink_append, ihLeft, ihRight, ink]

/-- **The final text has the ink of its document.** -/
theorem ink_render (doc : Document) : Text.ink doc.render.toList = doc.ink := by
  rw [render, Text.toList_clean, Text.ink_cleanLines, layout, String.toList_ofList, ink_chars]

/-- An empty document has no characters. -/
theorem chars_of_isEmpty {doc : Document} (h : doc.isEmpty) (column : Nat) :
    doc.chars column = [] := by
  induction doc generalizing column with
  | empty => rfl
  | text content =>
    have none : content = "" := String.isEmpty_iff.mp h
    rw [none]
    rfl
  | newline => cases h
  | nest shift body ih => exact ih h _
  | append left right ihLeft ihRight =>
    rw [isEmpty, Bool.and_eq_true] at h
    rw [chars, ihLeft h.1, ihRight h.2]
    rfl

theorem ink_of_isEmpty {doc : Document} (h : doc.isEmpty) : doc.ink = [] := by
  rw [← ink_chars 0, chars_of_isEmpty h, Text.ink_nil]

end Document

/-! ### Layouts that print alike -/

namespace Layout

theorem ink_openBrace (layout : Layout) : layout.openBrace.ink = ['\x7b'] := by
  unfold openBrace
  split <;> rfl

/-- The body of a declaration has the ink of its items, whatever stands in front of the last. -/
theorem ink_body (layout : Layout) (items : List Document) :
    (layout.body items).ink = items.flatMap Document.ink := by
  unfold body
  split
  · rename_i last
    rw [Document.ink_append, Document.ink_nest, Document.ink_lined, Document.ink_newline,
      List.append_nil]
    -- the item that is left out is empty
    induction items using List.reverseRecOn with
    | nil => rfl
    | append_singleton items item _ =>
      have noInk : item.ink = [] := Document.ink_of_isEmpty (by simpa using last)
      simp [noInk]
  · rw [Document.ink_nest, Document.ink_lined]

/-- **Braces are the only ink that a layout adds.** -/
theorem ink_braces (layout : Layout) (items : List Document) :
    (layout.braces items).ink = '\x7b' :: (items.flatMap Document.ink ++ ['\x7d']) := by
  have close : (Document.text "\x7d").ink = ['\x7d'] := rfl
  unfold braces
  split
  · rename_i none
    obtain rfl := List.isEmpty_iff.mp none
    rw [Document.ink_append, ink_openBrace, close]
    rfl
  · simp only [Document.ink_append, ink_openBrace, ink_body, close]
    simp [Document.ink]

variable {α : Type}

/-- Two layouts put braces around items alike, as far as a view of documents shows. -/
structure Alike (view : Document → α) (layout layout' : Layout) : Prop where
  append : ∀ {left left' right right' : Document}, view left = view left' →
    view right = view right' → view (left ++ right) = view (left' ++ right')
  braces : ∀ {items items' : List Document}, items.map view = items'.map view →
    view (layout.braces items) = view (layout'.braces items')

/-- Any two layouts are alike in their ink. -/
theorem alike_ink (layout layout' : Layout) : Alike Document.ink layout layout' where
  append {left left' right right'} hl hr := by
    rw [Document.ink_append, Document.ink_append, hl, hr]
  braces {items items'} h := by
    rw [ink_braces, ink_braces, List.flatMap_def, List.flatMap_def, h]

/-- Nothing depends on the width. -/
theorem alike_maxWidth (layout : Layout) (maxWidth : UInt64) :
    Alike (fun doc => doc) layout { layout with maxWidth } where
  append := congrArg₂ _
  braces {items items'} h := by
    rw [List.map_id', List.map_id'] at h
    subst h
    rfl

namespace Alike

variable {view : Document → α} {layout layout' : Layout}

theorem block (h : Alike view layout layout') (body : Block String) :
    view (layout.block body) = view (layout'.block body) :=
  h.braces rfl

theorem method (h : Alike view layout layout') (className : String) (decl : MethodDecl String) :
    view (layout.method className decl) = view (layout'.method className decl) :=
  h.append rfl (h.block decl.body)

theorem member_of_type (h : Alike view layout layout') (className : String)
    (member : Member String)
    (type : ∀ decl, member = .nested decl → view (layout.type decl) = view (layout'.type decl)) :
    view (layout.member className member) = view (layout'.member className member) := by
  cases member with
  | field decl => rfl
  | method decl => exact h.method className decl
  | nested decl => exact type decl rfl

/-- **Layouts that are alike print classes alike,** at any depth. -/
theorem type (h : Alike view layout layout') (decl : ClassDecl String) :
    view (layout.type decl) = view (layout'.type decl) := by
  induction decl using ClassDecl.induction with
  | step decl ih =>
    rw [type_eq, type_eq]
    refine h.append rfl (h.braces ?_)
    rw [List.map_map, List.map_map]
    refine List.map_congr_left fun member hm => ?_
    refine h.member_of_type decl.name member ?_
    rintro inner rfl
    exact ih inner hm

theorem member (h : Alike view layout layout') (className : String) (member : Member String) :
    view (layout.member className member) = view (layout'.member className member) :=
  h.member_of_type className member fun decl _ => h.type decl

theorem separated (h : Alike view layout layout') (separator : Document)
    (types : List (ClassDecl String)) :
    view (.separated separator (types.map layout.type)) =
      view (.separated separator (types.map layout'.type)) := by
  induction types with
  | nil => rfl
  | cons decl rest ih =>
    cases rest with
    | nil => exact h.type decl
    | cons next others => exact h.append (h.append (h.type decl) rfl) ih

theorem unit (h : Alike view layout layout') (unit : CompilationUnit String) :
    view (layout.unit unit) = view (layout'.unit unit) :=
  h.append rfl (h.separated _ unit.types)

end Alike

end Layout

/-! ### Everything that can be printed -/

/-- A part of source code that can be printed.  Inside a class, a constructor is spelled with the
name of the class; a member that stands alone lends its own name. -/
inductive Fragment where
  | stmt (code : Stmt Symbol)
  | block (body : Block Symbol)
  | alone (member : Member Symbol)
  | inside (className : Symbol) (member : Member Symbol)
  | type (decl : ClassDecl Symbol)
  | unit (file : CompilationUnit Symbol)

namespace Fragment

/-- The source text. -/
def source (layout : Layout) (names : Names) : Fragment → String
  | .stmt code => code.source names
  | .block body => body.source layout names
  | .alone member => member.source layout names
  | .inside className member =>
    (layout.member (names.display className) (member.map names.display)).render
  | .type decl => decl.source layout names
  | .unit file => file.source layout names

/-- What a view of documents decides about source text is the same for layouts that are alike. -/
theorem read_source_of_alike {α β : Type} {view : Document → α} {layout layout' : Layout}
    (h : Layout.Alike view layout layout') (read : String → β)
    (render : ∀ {doc doc'}, view doc = view doc' → read doc.render = read doc'.render)
    (names : Names) (fragment : Fragment) :
    read (fragment.source layout names) = read (fragment.source layout' names) := by
  cases fragment with
  | stmt code => rfl
  | block body =>
    unfold source Block.source
    exact render (h.block _)
  | alone member =>
    unfold source Member.source
    exact render (h.member _ _)
  | inside className member =>
    unfold source
    exact render (h.member _ _)
  | type decl =>
    unfold source ClassDecl.source
    exact render (h.type _)
  | unit file =>
    unfold source CompilationUnit.source
    exact render (h.unit _)

/-- **Layout options are about layout only.** Under any two layouts, what is printed differs in
blanks alone, whatever the names are; and the width makes no difference at all. -/
theorem ink_source (layout layout' : Layout) (names : Names) (fragment : Fragment) :
    Text.ink (fragment.source layout names).toList =
        Text.ink (fragment.source layout' names).toList ∧
      ∀ maxWidth, fragment.source { layout with maxWidth } names =
        fragment.source layout names := by
  constructor
  · refine read_source_of_alike (Layout.alike_ink layout layout') (fun text => Text.ink text.toList)
      ?_ names fragment
    intro doc doc' same
    rw [Document.ink_render, Document.ink_render]
    exact same
  · intro maxWidth
    refine (read_source_of_alike (Layout.alike_maxWidth layout maxWidth) (fun text => text)
      ?_ names fragment).symm
    intro doc doc' same
    exact congrArg Document.render same

end Fragment

end Augment
