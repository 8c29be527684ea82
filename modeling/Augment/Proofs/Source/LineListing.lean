import Augment.Proofs.Source.Lines
import Augment.Proofs.Source.Listing

/-!
# The lines of printed trees

`CompilationUnit.lines` lists the lines of a unit, each with the number of bodies that it stands in.
The listing knows nothing of documents, shifts and trimming: a line is written as the indentation
for its depth, its text and a line feed (`Line.write`).  What is printed is that listing
(`CompilationUnit.source_eq_join`) if the names of the unit are *solid*, that is neither empty nor
with blanks in them, and no line is indented past the last column.

The proof has two halves.  A document *lays* lines if it writes them one below the other, from the
column of its depth on (`Document.Lays`); this needs the width of the indentation only.  The lines
of a tree with solid names are *tidy* (`Text.isTidy`), so that the text can be taken apart into them
again and trimming leaves them as they are.
-/

namespace Augment

/-! ### The listing -/

/-- A line of source text and the number of bodies that it stands in. -/
structure Line where
  depth : Nat
  text : String
deriving DecidableEq, Repr

namespace Line

/-- The empty line outside of all bodies. -/
def blank : Line := ⟨0, ""⟩

/-- The characters of the line, with `tab` spaces for one level. -/
def chars (tab : Nat) (line : Line) : List Char :=
  List.replicate (line.depth * tab) ' ' ++ line.text.toList

/-- The line as it is written, with `tab` spaces for one level. -/
def write (tab : Nat) (line : Line) : String :=
  String.ofList (List.replicate (line.depth * tab) ' ') ++ line.text ++ "\n"

/-- A header, and a brace where the style wants it. -/
def opened (style : BraceStyle) (depth : Nat) (header brace : String) : List Line :=
  match style with
  | .sameLine => [⟨depth, header ++ " " ++ brace⟩]
  | .nextLine => [⟨depth, header⟩, ⟨depth, brace⟩]

/-- A header and a body in braces.  The braces of an empty body are not taken apart. -/
def braces (style : BraceStyle) (depth : Nat) (header : String) (body : List Line) : List Line :=
  if body.isEmpty then opened style depth header "\x7b\x7d"
  else opened style depth header "\x7b" ++ body ++ [⟨depth, "\x7d"⟩]

end Line

/-- The lines of markers. -/
def Marker.lines (depth : Nat) (markers : List Marker) : List Line :=
  markers.map fun marker => ⟨depth, marker.text⟩

/-- The lines of the statements in a body. -/
def Block.lines (depth : Nat) (block : Block String) : List Line :=
  block.stmts.map fun stmt => ⟨depth, stmt.text⟩

/-- The lines of a field. -/
def FieldDecl.lines (depth : Nat) (decl : FieldDecl String) : List Line :=
  Marker.lines depth decl.markers ++ [⟨depth, decl.header⟩]

/-- The lines of a method or constructor of a class of the given name. -/
def MethodDecl.lines (style : BraceStyle) (depth : Nat) (className : String)
    (decl : MethodDecl String) : List Line :=
  Marker.lines depth decl.markers ++
    Line.braces style depth (decl.header className) (decl.body.lines (depth + 1))

mutual

/-- The lines of a class. -/
def ClassDecl.lines (style : BraceStyle) (depth : Nat) : ClassDecl String → List Line
  | ⟨id, name, kind, modifiers, markers, members⟩ =>
    let decl : ClassDecl String := ⟨id, name, kind, modifiers, markers, members⟩
    Marker.lines depth markers ++
      Line.braces style depth decl.header (ClassDecl.membersLines style (depth + 1) name members)

/-- The lines of members of a class of the given name. -/
def ClassDecl.membersLines (style : BraceStyle) (depth : Nat) (className : String) :
    List (Member String) → List Line
  | [] => []
  | .field decl :: rest => decl.lines depth ++ ClassDecl.membersLines style depth className rest
  | .method decl :: rest =>
    decl.lines style depth className ++ ClassDecl.membersLines style depth className rest
  | .nested decl :: rest =>
    decl.lines style depth ++ ClassDecl.membersLines style depth className rest

end

/-- The lines of a member of a class of the given name. -/
def Member.lines (style : BraceStyle) (depth : Nat) (className : String) :
    Member String → List Line
  | field decl => decl.lines depth
  | method decl => decl.lines style depth className
  | nested decl => decl.lines style depth

/-- The lines of a package. -/
def packageLines : Option String → List Line
  | none => []
  | some name => [⟨0, "package " ++ name ++ ";"⟩, Line.blank]

/-- **The lines of a unit.** A blank line follows the package and one stands between types. -/
def CompilationUnit.lines (style : BraceStyle) (unit : CompilationUnit String) : List Line :=
  packageLines unit.package ++ [Line.blank].intercalate (unit.types.map (ClassDecl.lines style 0))

theorem ClassDecl.membersLines_eq (style : BraceStyle) (depth : Nat) (className : String)
    (members : List (Member String)) :
    ClassDecl.membersLines style depth className members =
      members.flatMap (Member.lines style depth className) := by
  induction members with
  | nil => rfl
  | cons member rest ih =>
    cases member <;> rw [membersLines, ih] <;> rfl

theorem ClassDecl.lines_eq (style : BraceStyle) (depth : Nat) (decl : ClassDecl String) :
    decl.lines style depth = Marker.lines depth decl.markers ++ Line.braces style depth decl.header
      (decl.members.flatMap (Member.lines style (depth + 1) decl.name)) := by
  cases decl
  rw [lines, membersLines_eq]

/-! ### Indentation -/

namespace Layout

/-- The spaces for one level of nesting that are written.  A count that is read as a negative number
stands for none. -/
def tab (layout : Layout) : Nat :=
  if layout.tabSpaces.toNat < UInt64.size / 2 then layout.tabSpaces.toNat else 0

theorem shift_eq (layout : Layout) :
    layout.shift = if layout.tabSpaces.toNat < UInt64.size / 2 then (layout.tabSpaces.toNat : Int)
      else layout.tabSpaces.toNat - UInt64.size := by
  have word : layout.shift = layout.tabSpaces.toBitVec.toInt := rfl
  have value : layout.tabSpaces.toBitVec.toNat = layout.tabSpaces.toNat := rfl
  rw [word, BitVec.toInt_eq_toNat_cond, value]
  simp only [UInt64.size]
  split <;> split <;> omega

/-- **One level deeper** is one tab further to the right, as long as there are columns. -/
theorem shifted_shift (layout : Layout) {depth : Nat}
    (fits : (depth + 1) * layout.tab ≤ Document.lastColumn) :
    Document.shifted (depth * layout.tab) layout.shift = (depth + 1) * layout.tab := by
  have bound := layout.tabSpaces.toNat_lt
  rw [shift_eq]
  unfold tab at fits ⊢
  -- a count from 2⁶³ on shifts to the left, from column zero, where all lines then begin
  split
  · rename_i small
    rw [if_pos small, Nat.succ_mul] at fits
    rw [Nat.succ_mul]
    exact Document.shifted_natCast fits
  · rw [Nat.mul_zero, Nat.mul_zero]
    refine Document.shifted_of_nonpos ?_
    simp only [UInt64.size]
    omega

end Layout

/-! ### Documents that lay lines -/

namespace Document

/-- The document writes the lines one below the other, from the column of its depth on. -/
structure Lays (tab depth : Nat) (doc : Document) (lines : List Line) : Prop where
  chars_eq : (newline ++ doc).chars (depth * tab) = lines.flatMap ('\n' :: ·.chars tab)
  starts : lines.head?.map Line.depth = some depth

variable {tab depth : Nat} {doc doc' : Document} {lines lines' : List Line}

theorem lays_text (tab depth : Nat) (content : String) :
    (text content).Lays tab depth [⟨depth, content⟩] where
  chars_eq := by
    rw [List.flatMap_singleton]
    rfl
  starts := rfl

theorem Lays.starts_append (h : doc.Lays tab depth lines) (more : List Line) :
    (lines ++ more).head?.map Line.depth = some depth := by
  obtain ⟨first, head, _⟩ := Option.map_eq_some_iff.mp h.starts
  rw [List.head?_append, head, Option.some_or, ← head, h.starts]

theorem Lays.append (h : doc.Lays tab depth lines) (h' : doc'.Lays tab depth lines') :
    (doc ++ (newline ++ doc')).Lays tab depth (lines ++ lines') where
  chars_eq := by
    rw [List.flatMap_append, ← h.chars_eq, ← h'.chars_eq]
    simp only [chars_append, List.append_assoc]
  starts := h.starts_append lines'

/-- Only the characters of a document count. -/
theorem Lays.congr (h : doc.Lays tab depth lines)
    (same : doc'.chars (depth * tab) = doc.chars (depth * tab)) : doc'.Lays tab depth lines where
  chars_eq := by
    rw [← h.chars_eq, chars_append, chars_append, same]
  starts := h.starts

theorem Lays.markers_append (h : doc.Lays tab depth lines) (markers : List Marker) :
    (Layout.markers markers ++ doc).Lays tab depth (Marker.lines depth markers ++ lines) := by
  induction markers with
  | nil => exact h.congr rfl
  | cons marker rest ih =>
    refine ((lays_text tab depth marker.text).append ih).congr ?_
    simp [Layout.markers]

variable {α : Type} {items : List α} {each : α → Document} {listings : α → List Line}

/-- Items below each other lay the lines of each. -/
theorem chars_lined_of_lays (h : ∀ item ∈ items, (each item).Lays tab depth (listings item)) :
    (lined (items.map each)).chars (depth * tab) =
      (items.flatMap listings).flatMap ('\n' :: ·.chars tab) := by
  rw [chars_lined, List.flatMap_map, List.flatMap_assoc]
  exact List.flatMap_congr fun item hi => (h item hi).chars_eq

end Document

/-- The indentation of all lines ends on a column that exists. -/
def Layout.Fits (layout : Layout) (lines : List Line) : Prop :=
  ∀ line ∈ lines, line.depth * layout.tab ≤ Document.lastColumn

instance (layout : Layout) (lines : List Line) : Decidable (layout.Fits lines) :=
  inferInstanceAs (Decidable (∀ line ∈ lines, line.depth * layout.tab ≤ Document.lastColumn))

namespace Layout

open Document

variable {layout : Layout} {depth : Nat} {lines lines' : List Line}

theorem Fits.subset (h : layout.Fits lines) (subset : lines' ⊆ lines) : layout.Fits lines' :=
  fun line hl => h line (subset hl)

theorem Fits.of_braces {header : String} {body : List Line}
    (h : layout.Fits (Line.braces layout.braceStyle depth header body)) : layout.Fits body := by
  intro line hl
  refine h line ?_
  rw [Line.braces, if_neg (by simp [List.ne_nil_of_mem hl])]
  exact List.mem_append_left _ (List.mem_append_right _ hl)

/-- The opening brace stands where the style wants it, with what follows it on its line. -/
theorem lays_opened (layout : Layout) (depth : Nat) (header rest : String) :
    (text header ++ (layout.openBrace ++ text rest)).Lays layout.tab depth
      (Line.opened layout.braceStyle depth header ("\x7b" ++ rest)) := by
  unfold openBrace Line.opened
  cases layout.braceStyle with
  | sameLine =>
    refine (lays_text _ depth _).congr ?_
    simp [Document.chars]
  | nextLine =>
    refine ((lays_text _ depth header).append (lays_text _ depth _)).congr ?_
    simp [Document.chars]

variable {α : Type} {items : List α} {each : α → Document} {listings : α → List Line}

/-- **A header with a body lays its lines** if the items of the body lay theirs, one level
deeper. -/
theorem lays_braces (header : String)
    (h : ∀ item ∈ items, (each item).Lays layout.tab (depth + 1) (listings item))
    (visible : ∀ item ∈ items, (each item).isEmpty = false)
    (fits : layout.Fits (items.flatMap listings)) :
    (text header ++ layout.braces (items.map each)).Lays layout.tab depth
      (Line.braces layout.braceStyle depth header (items.flatMap listings)) := by
  by_cases none : items = []
  · subst none
    exact layout.lays_opened depth header "\x7d"
  · -- the first line of the body shows that there are columns for its depth
    obtain ⟨item, hi⟩ := List.exists_mem_of_ne_nil items none
    obtain ⟨first, hf, deeper⟩ : ∃ first ∈ listings item, first.depth = depth + 1 := by
      obtain ⟨first, head, deeper⟩ := Option.map_eq_some_iff.mp (h item hi).starts
      exact ⟨first, List.mem_of_head? head, deeper⟩
    have inside : first ∈ items.flatMap listings := List.mem_flatMap_of_mem hi hf
    have column := fits first inside
    rw [deeper] at column
    have body : (layout.body (items.map each)).chars (depth * layout.tab) =
        (items.flatMap listings).flatMap ('\n' :: ·.chars layout.tab) := by
      rw [body_of_not_isEmpty (by simpa using none) (by simpa using visible), Document.chars,
        layout.shifted_shift column, chars_lined_of_lays h]
    have opened := layout.lays_opened depth header ""
    rw [String.append_empty] at opened
    have closed := lays_text layout.tab depth "\x7d"
    have some : ¬(items.map each).isEmpty := by simpa using none
    have lined : ¬(items.flatMap listings).isEmpty := by simp [List.ne_nil_of_mem inside]
    rw [braces, if_neg some, Line.braces, if_neg lined, List.append_assoc]
    constructor
    · rw [List.flatMap_append, List.flatMap_append, ← opened.chars_eq, ← body, ← closed.chars_eq]
      simp [Document.chars]
    · exact opened.starts_append _

theorem lays_block (header : String) {block : Block String}
    (fits : layout.Fits (block.lines (depth + 1))) :
    (text header ++ layout.block block).Lays layout.tab depth
      (Line.braces layout.braceStyle depth header (block.lines (depth + 1))) := by
  unfold Block.lines at fits ⊢
  rw [List.map_eq_flatMap] at fits ⊢
  exact lays_braces header (fun stmt _ => lays_text layout.tab _ stmt.text)
    (fun stmt _ => stmt.closes.isEmpty_eq) fits

/-- **A class lays its lines,** at any depth. -/
theorem lays_type (decl : ClassDecl String)
    (fits : layout.Fits (decl.lines layout.braceStyle depth)) :
    (layout.type decl).Lays layout.tab depth (decl.lines layout.braceStyle depth) := by
  induction decl using ClassDecl.induction generalizing depth with
  | step decl ih =>
    rw [ClassDecl.lines_eq] at fits ⊢
    have body := (fits.subset (List.subset_append_right _ _)).of_braces
    -- members are laid one level deeper, nested classes by induction
    have members : ∀ member ∈ decl.members, (layout.member decl.name member).Lays layout.tab
        (depth + 1) (member.lines layout.braceStyle (depth + 1) decl.name) := by
      intro member hm
      have here : layout.Fits (member.lines layout.braceStyle (depth + 1) decl.name) :=
        body.subset fun line hl => List.mem_flatMap_of_mem hm hl
      cases member with
      | field field => exact (lays_text _ _ field.header).markers_append field.markers
      | method method =>
        have block := (here.subset (List.subset_append_right _ _)).of_braces
        refine ((lays_block (method.header decl.name) block).markers_append method.markers).congr ?_
        rw [member, Layout.method, chars_append, chars_append, chars_append, chars_append,
          List.append_assoc]
      | nested inner => exact ih inner hm here
    have visible : ∀ member ∈ decl.members, (layout.member decl.name member).isEmpty = false :=
      fun member _ => (layout.closes_member decl.name member).isEmpty_eq
    refine ((lays_braces decl.header members visible body).markers_append decl.markers).congr ?_
    rw [type_eq, chars_append, chars_append, chars_append, chars_append, List.append_assoc]

end Layout

/-! ### Texts that stay on their line -/

namespace Text

/-- Whether a text stays on its line: a space is the only blank in it. -/
def isInline (s : String) : Bool :=
  s.toList.all fun c => c = ' ' || !isBlank c

/-- Whether a text stays on its line and ends with a character that is not blank. -/
def isTidy (s : String) : Bool :=
  isInline s && s.toList.getLast?.any (!isBlank ·)

/-- Whether a text is neither empty nor has blanks in it. -/
def isSolid (s : String) : Bool :=
  !s.isEmpty && s.toList.all (!isBlank ·)

variable {s t : String}

theorem isInline_append (h : isInline s) (h' : isInline t) : isInline (s ++ t) := by
  rw [isInline, String.toList_append, List.all_append, Bool.and_eq_true]
  exact ⟨h, h'⟩

theorem isInline_of_isTidy (h : isTidy s) : isInline s :=
  (Bool.and_eq_true_iff.mp h).1

/-- Only the end of a text decides whether it is tidy, as long as it stays on its line. -/
theorem isTidy_append (h : isInline s) (h' : isTidy t) : isTidy (s ++ t) := by
  obtain ⟨inline, last⟩ := Bool.and_eq_true_iff.mp h'
  have ne : t.toList ≠ [] := by
    intro empty
    rw [empty] at last
    cases last
  rw [isTidy, isInline_append h inline, String.toList_append, List.getLast?_append_of_ne_nil _ ne,
    last]
  rfl

theorem isTidy_of_isSolid (h : isSolid s) : isTidy s := by
  simp only [isSolid, Bool.and_eq_true, List.all_eq_true, Bool.not_eq_true'] at h
  obtain ⟨ne, solid⟩ := h
  have ne : s.toList ≠ [] := by simpa using ne
  simp only [isTidy, isInline, Bool.and_eq_true, List.all_eq_true, List.getLast?_eq_some_getLast ne,
    Option.any_some, solid _ (List.getLast_mem ne), Bool.not_false, and_true]
  intro c hc
  rw [solid c hc, Bool.not_false, Bool.or_true]

theorem isInline_of_isSolid (h : isSolid s) : isInline s :=
  isInline_of_isTidy (isTidy_of_isSolid h)

theorem isInline_intercalate {sep : String} {texts : List String} (h : isInline sep)
    (each : ∀ s ∈ texts, isInline s) : isInline (sep.intercalate texts) := by
  simp only [isInline, List.all_eq_true] at h each ⊢
  rw [String.toList_intercalate]
  exact forall_mem_intercalate h (List.forall_mem_map.mpr each)

end Text

open Text

/-! ### Tidy texts -/

theorem TypeRef.isSolid_text {type : TypeRef String} (solid : ∀ n ∈ type.names, isSolid n) :
    isSolid type.text := by
  cases type with
  | void => decide
  | named name => exact solid name (List.mem_singleton_self name)

theorem Expr.isTidy_text {expr : Expr String} (solid : ∀ n ∈ expr.names, isSolid n) :
    isTidy expr.text := by
  induction expr with
  | receiver => decide
  | ident name => exact isTidy_of_isSolid (solid name (List.mem_singleton_self name))
  | select target name ih =>
    rw [Expr.names, List.forall_mem_append, List.forall_mem_singleton] at solid
    have start : isInline (target.text ++ ".") :=
      isInline_append (isInline_of_isTidy (ih solid.1)) (by decide)
    exact isTidy_append start (isTidy_of_isSolid solid.2)
  | assign target value ihTarget ihValue =>
    rw [Expr.names, List.forall_mem_append] at solid
    have start : isInline (target.text ++ " = ") :=
      isInline_append (isInline_of_isTidy (ihTarget solid.1)) (by decide)
    exact isTidy_append start (ihValue solid.2)

theorem Stmt.isTidy_text {stmt : Stmt String} (solid : ∀ n ∈ stmt.names, isSolid n) :
    isTidy stmt.text := by
  have semicolon : isTidy ";" := by decide
  cases stmt with
  | ret value =>
    have start : isInline ("return " ++ value.text) :=
      isInline_append (by decide) (isInline_of_isTidy (Expr.isTidy_text solid))
    exact isTidy_append start semicolon
  | exec effect => exact isTidy_append (isInline_of_isTidy (Expr.isTidy_text solid)) semicolon

theorem Param.isInline_text {param : Param String} (solid : ∀ n ∈ param.names, isSolid n) :
    isInline param.text := by
  rw [Param.names, List.forall_mem_cons] at solid
  have type := isInline_of_isSolid (TypeRef.isSolid_text solid.2)
  exact isInline_append (isInline_append type (by decide)) (isInline_of_isSolid solid.1)

theorem Marker.isTidy_text (marker : Marker) : isTidy marker.text := by
  cases marker with
  | getter => decide
  | setter => decide
  | noArgsConstructor access => cases access <;> decide

theorem Modifiers.isInline_text (modifiers : Modifiers) : isInline modifiers.text := by
  have words : ∀ word ∈ modifierWords, isInline (word ++ " ") := by decide
  have each : ∀ keywords ⊆ modifierWords, isInline (String.join (keywords.map (· ++ " "))) := by
    intro keywords known
    induction keywords with
    | nil => rfl
    | cons keyword rest ih =>
      rw [List.cons_subset] at known
      rw [List.map_cons, String.join_cons]
      exact isInline_append (words keyword known.1) (ih known.2)
  exact each _ modifiers.keywords_subset

theorem FieldDecl.isTidy_header {decl : FieldDecl String} (solid : ∀ n ∈ decl.names, isSolid n) :
    isTidy decl.header := by
  rw [FieldDecl.names, List.forall_mem_cons] at solid
  have type := isInline_of_isSolid (TypeRef.isSolid_text solid.2)
  have start := isInline_append decl.modifiers.isInline_text type
  refine isTidy_append ?_ (by decide)
  exact isInline_append (isInline_append start (by decide)) (isInline_of_isSolid solid.1)

theorem MethodDecl.isTidy_header {decl : MethodDecl String} (solid : ∀ n ∈ decl.names, isSolid n)
    {className : String} (owner : isSolid className) : isTidy (decl.header className) := by
  simp only [MethodDecl.names, List.forall_mem_cons, List.forall_mem_append,
    List.forall_mem_flatMap] at solid
  obtain ⟨name, ⟨returned, params⟩, -⟩ := solid
  have subject : isInline (if decl.isConstructor then className
      else (decl.returnType.getD .void).text ++ " " ++ decl.name) := by
    split
    · exact isInline_of_isSolid owner
    · have type : isSolid (decl.returnType.getD .void).text := by
        refine TypeRef.isSolid_text ?_
        cases type : decl.returnType with
        | none => simp
        | some type' => exact returned type' (by simp [type])
      have start := isInline_append (isInline_of_isSolid type) (t := " ") (by decide)
      exact isInline_append start (isInline_of_isSolid name)
  have list : isInline (", ".intercalate (decl.params.map Param.text)) := by
    refine isInline_intercalate (by decide) ?_
    rw [List.forall_mem_map]
    exact fun param hp => Param.isInline_text (params param hp)
  have start := isInline_append decl.modifiers.isInline_text subject
  refine isTidy_append ?_ (by decide)
  exact isInline_append (isInline_append start (by decide)) list

theorem ClassDecl.isTidy_header {decl : ClassDecl String} (name : isSolid decl.name) :
    isTidy decl.header := by
  have keyword : isInline decl.kind.keyword := by cases decl.kind <;> decide
  have start := isInline_append decl.modifiers.isInline_text keyword
  exact isTidy_append (isInline_append start (by decide)) (isTidy_of_isSolid name)

/-! ### Tidy lines -/

namespace Line

variable {line : Line} {lines : List Line}

theorem tidy_opened {header brace : String} (style : BraceStyle) (depth : Nat)
    (start : isTidy header) (closing : isTidy brace) :
    ∀ line ∈ opened style depth header brace, isTidy line.text := by
  cases style with
  | sameLine =>
    have inline : isInline (header ++ " ") :=
      isInline_append (isInline_of_isTidy start) (by decide)
    exact List.forall_mem_singleton.mpr (isTidy_append inline closing)
  | nextLine => exact List.forall_mem_cons.mpr ⟨start, List.forall_mem_singleton.mpr closing⟩

theorem tidy_braces {header : String} {body : List Line} (style : BraceStyle) (depth : Nat)
    (start : isTidy header) (inner : ∀ line ∈ body, isTidy line.text) :
    ∀ line ∈ braces style depth header body, isTidy line.text := by
  have closing : isTidy "\x7d" := by decide
  unfold braces
  split
  · exact tidy_opened style depth start (by decide)
  · rw [List.forall_mem_append, List.forall_mem_append, List.forall_mem_singleton]
    exact ⟨⟨tidy_opened style depth start (by decide), inner⟩, closing⟩

end Line

theorem Marker.tidy_lines (depth : Nat) (markers : List Marker) :
    ∀ line ∈ Marker.lines depth markers, isTidy line.text := by
  rw [lines, List.forall_mem_map]
  exact fun marker _ => marker.isTidy_text

theorem MethodDecl.tidy_lines {decl : MethodDecl String} (solid : ∀ n ∈ decl.names, isSolid n)
    {className : String} (owner : isSolid className) (style : BraceStyle) (depth : Nat) :
    ∀ line ∈ decl.lines style depth className, isTidy line.text := by
  have body : ∀ line ∈ decl.body.lines (depth + 1), isTidy line.text := by
    rw [Block.lines, List.forall_mem_map]
    intro stmt hs
    refine Stmt.isTidy_text fun n hn => solid n ?_
    refine List.mem_cons_of_mem _ (List.mem_append_right _ ?_)
    exact List.mem_flatMap_of_mem hs hn
  rw [lines, List.forall_mem_append]
  exact ⟨Marker.tidy_lines depth decl.markers,
    Line.tidy_braces style depth (isTidy_header solid owner) body⟩

/-- **The lines of a class are tidy,** at any depth. -/
theorem ClassDecl.tidy_lines {decl : ClassDecl String}
    (solid : ∀ node ∈ decl.nodes, ∀ n ∈ node.names, isSolid n) (style : BraceStyle) (depth : Nat) :
    ∀ line ∈ decl.lines style depth, isTidy line.text := by
  induction decl using ClassDecl.induction generalizing depth with
  | step decl ih =>
    rw [ClassDecl.nodes_eq, List.forall_mem_cons, List.forall_mem_flatMap] at solid
    have name : isSolid decl.name := solid.1 _ List.mem_cons_self
    rw [ClassDecl.lines_eq, List.forall_mem_append]
    refine ⟨Marker.tidy_lines depth decl.markers,
      Line.tidy_braces style depth (ClassDecl.isTidy_header name) ?_⟩
    rw [List.forall_mem_flatMap]
    intro member hm
    have here := solid.2 member hm
    cases member with
    | field field =>
      have header := FieldDecl.isTidy_header (here _ (List.mem_singleton_self _))
      exact List.forall_mem_append.mpr ⟨Marker.tidy_lines _ field.markers,
        List.forall_mem_singleton.mpr header⟩
    | method method =>
      exact MethodDecl.tidy_lines (here _ (List.mem_singleton_self _)) name style _
    | nested inner => exact ih inner hm here _

/-! ### Writing the lines of a unit -/

/-- All names of the unit, and its package, are neither empty nor have blanks in them. -/
structure CompilationUnit.Solid (unit : CompilationUnit String) : Prop where
  package : ∀ name ∈ unit.package, isSolid name
  names : ∀ node ∈ unit.nodes, ∀ n ∈ node.names, isSolid n

namespace Line

variable {tab : Nat} {line : Line}

theorem toList_write (tab : Nat) (line : Line) :
    (line.write tab).toList = line.chars tab ++ ['\n'] := by
  rw [write, String.toList_append, String.toList_append, String.toList_ofList]
  rfl

/-- A line can be told apart from its neighbours if it is tidy or blank. -/
def Apart (line : Line) : Prop :=
  isTidy line.text ∨ line = blank

theorem Apart.eq_space {c : Char} (h : line.Apart) (hc : c ∈ line.chars tab)
    (blank : isBlank c) : c = ' ' := by
  rcases List.mem_append.mp hc with inside | inside
  · exact List.eq_of_mem_replicate inside
  · rcases h with tidy | rfl
    · have inline := List.all_eq_true.mp (isInline_of_isTidy tidy) c inside
      simpa [blank] using inline
    · cases inside

theorem Apart.trimEnd_chars (h : line.Apart) : trimEnd (line.chars tab) = line.chars tab := by
  rcases h with tidy | rfl
  · obtain ⟨-, last⟩ := Bool.and_eq_true_iff.mp tidy
    obtain ⟨c, hc, ink⟩ : ∃ c, line.text.toList.getLast? = some c ∧ isBlank c = false := by
      simpa [Option.any_eq_true] using last
    obtain ⟨before, split⟩ := List.getLast?_eq_some_iff.mp hc
    rw [chars, split, ← List.append_assoc, trimEnd_append_singleton, ink]
    rfl
  · rw [chars, blank, Nat.zero_mul]
    rfl

end Line

/-- **A document that lays lines is rendered as these lines,** if they can be told apart. -/
theorem Document.render_of_lays {tab : Nat} {doc : Document} {lines : List Line}
    (h : doc.Lays tab 0 lines) (apart : ∀ line ∈ lines, line.Apart) (closes : doc.Closes) :
    doc.render = String.join (lines.map (Line.write tab)) := by
  have text : '\n' :: doc.chars 0 = (lines.map (Line.chars tab)).flatMap ('\n' :: ·) := by
    rw [List.flatMap_map, ← h.chars_eq, Nat.zero_mul]
    rfl
  obtain ⟨before, c, ends, closing⟩ := closes 0
  have without : ∀ c, isBlank c → c ≠ ' ' → ∀ line ∈ lines.map (Line.chars tab), c ∉ line := by
    intro c blank other
    rw [List.forall_mem_map]
    exact fun line hl hc => other ((apart line hl).eq_space hc blank)
  have noReturn : ∀ line ∈ lines.map (Line.chars tab), line.getLast? ≠ some '\r' := fun line hl h =>
    without '\r' isBlank_carriageReturn (by decide) line hl (List.mem_of_getLast? h)
  -- an empty last line would end the text with a line feed
  have last : (lines.map (Line.chars tab)).getLast? ≠ some [] := by
    intro empty
    obtain ⟨others, split⟩ := List.getLast?_eq_some_iff.mp empty
    rw [split, List.flatMap_append, List.flatMap_singleton, ends, ← List.cons_append] at text
    obtain rfl := List.singleton_inj.mp (List.append_inj_right' text rfl)
    revert closing
    decide
  have taken := lines_of_flatMap (without '\n' isBlank_lineFeed (by decide)) noReturn last text
  have trimmed : (lines.map (Line.chars tab)).flatMap (fun line => trimEnd line ++ ['\n']) =
      lines.flatMap fun line => line.chars tab ++ ['\n'] := by
    rw [List.flatMap_map]
    exact List.flatMap_congr fun line hl => by rw [(apart line hl).trimEnd_chars]
  have written : (String.join (lines.map (Line.write tab))).toList =
      lines.flatMap fun line => line.chars tab ++ ['\n'] := by
    rw [String.toList_join, List.flatMap_map]
    exact List.flatMap_congr fun line _ => line.toList_write tab
  rw [← String.toList_inj, written, render, toList_clean, layout, String.toList_ofList,
    cleanLines_of_ne_nil (by simp [ends]), taken, trimmed]

namespace Layout

variable {layout : Layout}

theorem lays_separated {types : List (ClassDecl String)} (ne : types ≠ [])
    (fits : layout.Fits
      ([Line.blank].intercalate (types.map (ClassDecl.lines layout.braceStyle 0)))) :
    (Document.separated (.newline ++ .newline) (types.map layout.type)).Lays layout.tab 0
      ([Line.blank].intercalate (types.map (ClassDecl.lines layout.braceStyle 0))) := by
  induction types with
  | nil => exact absurd rfl ne
  | cons decl rest ih =>
    cases rest with
    | nil =>
      simp only [List.map_singleton, List.intercalate_singleton] at fits ⊢
      exact lays_type decl fits
    | cons next others =>
      have below := ih (List.cons_ne_nil _ _)
      simp only [List.map_cons, List.intercalate_cons_cons] at fits below ⊢
      rw [List.append_assoc] at fits
      have first := lays_type decl (fits.subset (List.subset_append_left _ _))
      have later := below (fits.subset fun line hl =>
        List.mem_append_right _ (List.mem_append_right _ hl))
      -- two line breaks in a row are an empty line
      have blank := Document.lays_text layout.tab 0 ""
      refine ((first.append blank).append later).congr ?_
      simp [Document.separated, Document.chars]

theorem lays_unit {unit : CompilationUnit String} (types : unit.types ≠ [])
    (fits : layout.Fits (unit.lines layout.braceStyle)) :
    (layout.unit unit).Lays layout.tab 0 (unit.lines layout.braceStyle) := by
  have below := lays_separated types (fits.subset (List.subset_append_right _ _))
  unfold Layout.unit CompilationUnit.lines
  cases unit.package with
  | none => exact below.congr rfl
  | some name =>
    have blank := Document.lays_text layout.tab 0 ""
    have line := Document.lays_text layout.tab 0 ("package " ++ name ++ ";")
    refine ((line.append blank).append below).congr ?_
    simp [Document.chars]

end Layout

namespace CompilationUnit

variable {unit : CompilationUnit String}

theorem Solid.tidy_lines (solid : unit.Solid) (style : BraceStyle) :
    ∀ decl ∈ unit.types, ∀ line ∈ decl.lines style 0, isTidy line.text := by
  have names := solid.names
  rw [nodes_eq, List.forall_mem_flatMap] at names
  exact fun decl hd => ClassDecl.tidy_lines (names decl hd) style 0

theorem Solid.apart (solid : unit.Solid) (style : BraceStyle) :
    ∀ line ∈ unit.lines style, line.Apart := by
  have package : ∀ line ∈ packageLines unit.package, line.Apart := by
    cases package : unit.package with
    | none => simp [packageLines]
    | some name =>
      have start : isInline ("package " ++ name) :=
        isInline_append (by decide) (isInline_of_isSolid (solid.package name package))
      have line : isTidy ("package " ++ name ++ ";") := isTidy_append start (by decide)
      simp [packageLines, Line.Apart, line]
  have types : ∀ lines ∈ unit.types.map (ClassDecl.lines style 0),
      ∀ line ∈ lines, line.Apart := by
    rw [List.forall_mem_map]
    exact fun decl hd line hl => .inl (solid.tidy_lines style decl hd line hl)
  rw [CompilationUnit.lines, List.forall_mem_append]
  exact ⟨package, forall_mem_intercalate (List.forall_mem_singleton.mpr (.inr rfl)) types⟩

/-- **Source text is its listing.** A unit whose names are solid is written line by line, each line
with the indentation for its depth; and the only empty lines are those that follow the package and
separate the types. -/
theorem source_eq_join (layout : Layout) (names : Names) (unit : CompilationUnit Symbol)
    (types : unit.types ≠ []) (solid : (unit.map names.display).Solid)
    (fits : layout.Fits ((unit.map names.display).lines layout.braceStyle)) :
    unit.source layout names = String.join
        (((unit.map names.display).lines layout.braceStyle).map (Line.write layout.tab)) ∧
      ∀ decl ∈ (unit.map names.display).types, ∀ line ∈ decl.lines layout.braceStyle 0,
        line.text ≠ "" := by
  have some : (unit.map names.display).types ≠ [] := by simpa [CompilationUnit.map] using types
  refine ⟨Document.render_of_lays (Layout.lays_unit some fits) (solid.apart _)
    (layout.closes_unit some), ?_⟩
  intro decl hd line hl empty
  have tidy := solid.tidy_lines layout.braceStyle decl hd line hl
  rw [empty] at tidy
  revert tidy
  decide

/-- A class and an interface in a package.  The class has a class nested in it, and each of the two
has a constructor. -/
def engineUnit : CompilationUnit Symbol × Maker :=
  let program : Building (CompilationUnit Symbol) := do
    let power ← Building.name "power"
    let int ← Building.typeNamed "int"
    let field ← Building.field power int (.ofAccess .privateAccess) [.getter]
    let store : Stmt Symbol := .exec (.assign (.select .receiver power) (.ident power))
    let create ← Building.constructor .none [⟨power, int⟩] { stmts := [store] }
    let bare ← Building.constructor (.ofAccess .privateAccess)
    let valve ← Building.type (← Building.name "Valve") .classType .none [] [.method bare]
    let getPower ← Building.method (← Building.name "getPower") (some int)
      (.ofAccess .publicAccess) [] { stmts := [.ret (.ident power)] }
    let returning ← Building.method Names.init (some int)
    let race ← Building.method (← Building.name "race") (some .void) (Modifiers.none.withStatic)
      [⟨power, int⟩, ⟨← Building.name "rival", .named (← Building.name "Engine")⟩]
    let engine ← Building.type (← Building.name "Engine") .classType (.ofAccess .publicAccess)
      [.noArgsConstructor .packagePrivate]
      [.field field, .method create, .nested valve, .method getPower, .method returning,
        .method race]
    let hood ← Building.type (← Building.name "Hood") .interfaceType
    return {
      fileName := "Engine.java", package := some "com.app", origin := .source
      types := [engine, hood] }
  program {}

/-- The engine, two spaces for each level and with braces on lines of their own.  Each constructor
has the name of its own class; a method that returns something is no constructor. -/
theorem source_engineUnit :
    (engineUnit.1.types ≠ [] ∧ (engineUnit.1.map engineUnit.2.names.display).Solid ∧
      Layout.Fits ⟨2, 100, .nextLine⟩
        ((engineUnit.1.map engineUnit.2.names.display).lines .nextLine)) ∧
      engineUnit.1.source ⟨2, 100, .nextLine⟩ engineUnit.2.names = String.join
        (["package com.app;",
          "",
          "@NoArgsConstructor(access = package-private)",
          "public class Engine",
          "\x7b",
          "  @Getter",
          "  private int power;",
          "  Engine(int power)",
          "  \x7b",
          "    this.power = power;",
          "  \x7d",
          "  class Valve",
          "  \x7b",
          "    private Valve()",
          "    \x7b\x7d",
          "  \x7d",
          "  public int getPower()",
          "  \x7b",
          "    return power;",
          "  \x7d",
          "  int <init>()",
          "  \x7b\x7d",
          "  static void race(int power, Engine rival)",
          "  \x7b\x7d",
          "\x7d",
          "",
          "interface Hood",
          "\x7b\x7d"].map (· ++ "\n")) := by
  have types : engineUnit.1.types ≠ [] := List.cons_ne_nil _ _
  have solid : (engineUnit.1.map engineUnit.2.names.display).Solid :=
    ⟨by decide, by decide +kernel⟩
  have fits : Layout.Fits ⟨2, 100, .nextLine⟩
      ((engineUnit.1.map engineUnit.2.names.display).lines .nextLine) := by decide
  refine ⟨⟨types, solid, fits⟩, ?_⟩
  rw [(source_eq_join _ _ _ types solid fits).1]
  decide +kernel

end CompilationUnit

end Augment
