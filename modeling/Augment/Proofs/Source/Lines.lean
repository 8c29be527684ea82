import Augment.Proofs.Source.Ink

/-!
# Where rendered text comes apart

Rendering trims the lines of a text one by one, so a text can be trimmed in two parts if it is cut
at a line feed (`Text.cleanLines_append_lineFeed`).  The part before the cut must not end with a
carriage return, which would be taken for a part of the line break.

Everything that stands on lines of its own in a body ends with a semicolon or a brace
(`Document.Closes`), whatever the names in it are.  So the body of a declaration can be cut between
any two of its members.
-/

namespace Augment

namespace Text

/-! ### Cutting a text at a line feed -/

/-- A character that takes no part in a line break goes to the front of the first line. -/
theorem lines_cons {c : Char} {rest line : List Char} {later : List (List Char)} (noFeed : c ≠ '\n')
    (noBreak : c = '\r' → rest.head? ≠ some '\n') (h : lines rest = line :: later) :
    lines (c :: rest) = (c :: line) :: later := by
  rw [lines]
  · rw [h]
  · exact noFeed
  · rintro after isReturn rfl
    exact noBreak isReturn rfl

/-- **A line feed separates the lines before it from those after it.** -/
theorem lines_append_lineFeed {s : List Char} (noReturn : s.getLast? ≠ some '\r')
    (rest : List Char) : lines (s ++ '\n' :: rest) = lines (s ++ ['\n']) ++ lines rest := by
  fun_induction lines s with
  | case1 => simp
  | case2 s ih =>
    have noReturn' : s.getLast? ≠ some '\r' := by
      intro h
      exact noReturn (by rw [List.getLast?_cons, h]; rfl)
    rw [List.cons_append, List.cons_append, lines_lineFeed, lines_lineFeed, ih noReturn',
      List.cons_append]
  | case3 s ih =>
    have noReturn' : s.getLast? ≠ some '\r' := by
      intro h
      exact noReturn (by rw [List.getLast?_cons, List.getLast?_cons, h]; rfl)
    simp only [List.cons_append, lines_carriageReturn_lineFeed]
    rw [ih noReturn']
  | case4 c s noFeed noBreak none ih =>
    obtain rfl : s = [] := lines_eq_nil_iff.mp none
    have noReturn' : c ≠ '\r' := by
      rintro rfl
      exact noReturn rfl
    have feed : ∀ rest, lines ('\n' :: rest) = [] :: lines rest := lines_lineFeed
    rw [List.singleton_append, lines_cons noFeed (fun h => absurd h noReturn') (feed rest),
      List.singleton_append, lines_cons noFeed (fun h => absurd h noReturn') (feed [])]
    rfl
  | case5 c s noFeed noBreak line later starts ih =>
    have ne : s ≠ [] := by
      rintro rfl
      cases starts
    have noReturn' : s.getLast? ≠ some '\r' := by
      rwa [List.getLast?_cons_of_ne_nil ne] at noReturn
    -- a carriage return at the front is followed by something else, and goes on to be
    have noBreak' : ∀ rest, c = '\r' → (s ++ rest).head? ≠ some '\n' := by
      intro rest isReturn h
      rw [List.head?_append_of_ne_nil s ne] at h
      obtain ⟨after, feed⟩ := List.head?_eq_some_iff.mp h
      exact noBreak after isReturn feed
    obtain ⟨line', later', first⟩ : ∃ line' later', lines (s ++ ['\n']) = line' :: later' :=
      List.exists_cons_of_ne_nil (by simp)
    rw [first, List.cons_append] at ih
    rw [List.cons_append, List.cons_append, lines_cons noFeed (noBreak' _) (ih noReturn'),
      lines_cons noFeed (noBreak' _) first, List.cons_append]

/-- **A text is trimmed in two parts** if it is cut at a line feed, and something follows. -/
theorem cleanLines_append_lineFeed {s rest : List Char} (noReturn : s.getLast? ≠ some '\r')
    (ne : rest ≠ []) :
    cleanLines (s ++ '\n' :: rest) = cleanLines (s ++ ['\n']) ++ cleanLines rest := by
  rw [cleanLines_of_ne_nil (by simp), cleanLines_of_ne_nil (by simp), cleanLines_of_ne_nil ne,
    lines_append_lineFeed noReturn, List.flatMap_append]

/-- **A trimmed text ends with a line feed.** -/
theorem exists_cleanLines_eq_append (s : List Char) :
    ∃ before, cleanLines s = before ++ ['\n'] := by
  by_cases empty : s = []
  · exact ⟨[], by rw [empty, cleanLines_nil, List.nil_append]⟩
  · obtain ⟨others, last, split⟩ : ∃ others last, lines s = others ++ [last] :=
      ⟨_, _, (List.dropLast_concat_getLast (by simpa using empty)).symm⟩
    refine ⟨others.flatMap (fun line => trimEnd line ++ ['\n']) ++ trimEnd last, ?_⟩
    rw [cleanLines_of_ne_nil empty, split, List.flatMap_append, List.flatMap_singleton,
      List.append_assoc]

/-! ### Lines put together -/

/-- A text without line feeds is a single line. -/
theorem lines_eq_singleton {line : List Char} (noFeed : '\n' ∉ line) (ne : line ≠ []) :
    lines line = [line] := by
  induction line with
  | nil => exact absurd rfl ne
  | cons c rest ih =>
    rw [List.mem_cons, not_or] at noFeed
    by_cases last : rest = []
    · subst last
      rw [lines]
      · rfl
      · exact fun h => noFeed.1 h.symm
      · rintro _ _ ⟨⟩
    · refine lines_cons (Ne.symm noFeed.1) (fun _ h => ?_) (ih noFeed.2 last)
      exact noFeed.2 (List.mem_of_head? h)

/-- A text without line feeds is the first line of what goes on below it. -/
theorem lines_append_below {line : List Char} (noFeed : '\n' ∉ line)
    (noReturn : line.getLast? ≠ some '\r') (rest : List Char) :
    lines (line ++ '\n' :: rest) = line :: lines rest := by
  induction line with
  | nil => exact lines_lineFeed rest
  | cons c line ih =>
    rw [List.mem_cons, not_or] at noFeed
    cases line with
    | nil =>
      have other : c ≠ '\r' := by
        rintro rfl
        exact noReturn rfl
      exact lines_cons (Ne.symm noFeed.1) (fun h => absurd h other) (lines_lineFeed rest)
    | cons d line =>
      rw [List.getLast?_cons_cons] at noReturn
      refine lines_cons (Ne.symm noFeed.1) (fun _ h => ?_) (ih noFeed.2 noReturn)
      exact noFeed.2 (Option.some_inj.mp h ▸ List.mem_cons_self)

/-- Lines that were put below each other are told apart again, if no line has a line feed or ends
with a carriage return and the last one is not empty. -/
theorem lines_of_flatMap {all : List (List Char)} {s : List Char}
    (noFeed : ∀ line ∈ all, '\n' ∉ line) (noReturn : ∀ line ∈ all, line.getLast? ≠ some '\r')
    (last : all.getLast? ≠ some []) (text : '\n' :: s = all.flatMap ('\n' :: ·)) :
    lines s = all := by
  induction all generalizing s with
  | nil => cases text
  | cons line rest ih =>
    rw [List.forall_mem_cons] at noFeed noReturn
    rw [List.flatMap_cons, List.cons_append] at text
    have text := (List.cons.inj text).2
    cases rest with
    | nil =>
      have ne : line ≠ [] := by
        rintro rfl
        exact last rfl
      rw [text, List.flatMap_nil, List.append_nil, lines_eq_singleton noFeed.1 ne]
    | cons next others =>
      rw [List.getLast?_cons_cons] at last
      rw [List.flatMap_cons, List.cons_append] at text
      rw [text, lines_append_below noFeed.1 noReturn.1, ih noFeed.2 noReturn.2 last]
      rw [List.flatMap_cons, List.cons_append]

end Text

/-! ### Items of a body -/

namespace Document

/-- The document ends with a semicolon or a closing brace, wherever its lines begin. -/
def Closes (doc : Document) : Prop :=
  ∀ column, ∃ before c, doc.chars column = before ++ [c] ∧ c ∈ [';', '\x7d']

variable {doc : Document}

theorem closes_text {content : String} {before : List Char} {c : Char}
    (ends : content.toList = before ++ [c]) (closing : c ∈ [';', '\x7d']) :
    (text content).Closes :=
  fun _ => ⟨before, c, ends, closing⟩

theorem Closes.append (left : Document) (h : doc.Closes) : (left ++ doc).Closes := by
  intro column
  obtain ⟨before, c, ends, closing⟩ := h column
  exact ⟨left.chars column ++ before, c, by rw [chars_append, ends, List.append_assoc], closing⟩

theorem closes_separated (separator : Document) {docs : List Document} (ne : docs ≠ [])
    (each : ∀ doc ∈ docs, doc.Closes) : (separated separator docs).Closes := by
  induction docs with
  | nil => exact absurd rfl ne
  | cons doc rest ih =>
    rw [List.forall_mem_cons] at each
    cases rest with
    | nil => exact each.1
    | cons next others => exact (ih (List.cons_ne_nil _ _) each.2).append _

theorem Closes.isEmpty_eq (h : doc.Closes) : doc.isEmpty = false := by
  obtain ⟨before, c, ends, -⟩ := h 0
  by_contra empty
  rw [Bool.not_eq_false] at empty
  rw [chars_of_isEmpty empty] at ends
  simp at ends

/-- A line feed after the document is a line break of its own. -/
theorem Closes.getLast?_ne (h : doc.Closes) (column : Nat) :
    (doc.chars column).getLast? ≠ some '\r' := by
  obtain ⟨before, c, ends, closing⟩ := h column
  rw [ends, List.getLast?_concat]
  rintro ⟨⟩
  revert closing
  decide

end Document

theorem Stmt.closes (stmt : Stmt String) : (Document.text stmt.text).Closes := by
  cases stmt with
  | ret value =>
    have ends : (Stmt.ret value).text.toList = ("return " ++ value.text).toList ++ [';'] := by
      rw [text, String.toList_append]
      rfl
    exact Document.closes_text ends (by decide)
  | exec effect =>
    have ends : (Stmt.exec effect).text.toList = effect.text.toList ++ [';'] := by
      rw [text, String.toList_append]
      rfl
    exact Document.closes_text ends (by decide)

namespace Layout

theorem closes_braces (layout : Layout) (items : List Document) :
    (layout.braces items).Closes := by
  have ends : "\x7d".toList = [] ++ ['\x7d'] := rfl
  have brace := Document.closes_text ends (by decide)
  unfold braces
  split
  · exact brace.append _
  · exact brace.append _

theorem closes_type (layout : Layout) (decl : ClassDecl String) : (layout.type decl).Closes := by
  rw [type_eq]
  exact (layout.closes_braces _).append _

/-- **Every member ends with a semicolon or a brace.** -/
theorem closes_member (layout : Layout) (className : String) (member : Member String) :
    (layout.member className member).Closes := by
  cases member with
  | field decl =>
    have ends : decl.header.toList =
        (decl.modifiers.text ++ decl.type.text ++ " " ++ decl.name).toList ++ [';'] := by
      rw [FieldDecl.header, String.toList_append]
      rfl
    exact (Document.closes_text ends (by decide)).append _
  | method decl => exact (layout.closes_braces _).append _
  | nested decl => exact layout.closes_type decl

/-- A unit ends like its last type. -/
theorem closes_unit (layout : Layout) {unit : CompilationUnit String} (types : unit.types ≠ []) :
    (layout.unit unit).Closes := by
  have each : ∀ doc ∈ unit.types.map layout.type, doc.Closes := by
    rw [List.forall_mem_map]
    exact fun decl _ => layout.closes_type decl
  exact (Document.closes_separated _ (by simpa using types) each).append _

end Layout

end Augment
