import Augment.Proofs.Source.Lines

/-!
# Clean text

The last step of every rendering trims the lines of a text and closes each with a line feed.  A
trimmed line has neither a line feed inside nor a carriage return at its end, so the clean text is
split at exactly these line feeds again: its lines are the trimmed lines of the text
(`Text.lines_cleanLines`).  All else follows from this, also that a clean text is not changed by
another cleaning (`Text.cleanLines_cleanLines`).

`Text.Cleans` lists what can be relied on, and `Fragment.cleans_source` says that it holds for every
text and so for everything that is printed.
-/

namespace Augment

namespace Text

/-! ### Trimmed lines -/

/-- A line feed ends a line, so it lies on none. -/
theorem lineFeed_notMem_of_mem_lines {s line : List Char} (member : line ∈ lines s) :
    '\n' ∉ line := by
  fun_induction lines s generalizing line with
  | case1 => cases member
  | case2 rest ih =>
    obtain rfl | later := List.mem_cons.mp member
    · exact List.not_mem_nil
    · exact ih later
  | case3 rest ih =>
    obtain rfl | later := List.mem_cons.mp member
    · exact List.not_mem_nil
    · exact ih later
  | case4 c rest noFeed _ none ih =>
    obtain rfl := List.mem_singleton.mp member
    exact fun feed => noFeed (List.mem_singleton.mp feed).symm
  | case5 c rest noFeed _ first later some ih =>
    rw [some] at ih
    obtain rfl | after := List.mem_cons.mp member
    · rw [List.mem_cons, not_or]
      exact ⟨Ne.symm noFeed, ih List.mem_cons_self⟩
    · exact ih (List.mem_cons_of_mem first after)

/-- **Trimming takes blanks away,** and nothing but blanks at the end. -/
theorem exists_eq_trimEnd_append (line : List Char) :
    ∃ blanks, line = trimEnd line ++ blanks ∧ ∀ c ∈ blanks, isBlank c = true := by
  refine ⟨(line.reverse.takeWhile isBlank).reverse, ?_, ?_⟩
  · rw [trimEnd, ← List.reverse_append, List.takeWhile_append_dropWhile, List.reverse_reverse]
  · intro c member
    exact List.all_eq_true.mp List.all_takeWhile c (List.mem_reverse.mp member)

theorem isBlank_of_getLast?_trimEnd {line : List Char} {c : Char}
    (last : (trimEnd line).getLast? = some c) : isBlank c = false := by
  obtain ⟨ne, rfl⟩ := List.mem_getLast?_eq_getLast last
  exact isBlank_getLast_trimEnd ne

theorem lineFeed_notMem_trimEnd {line : List Char} (noFeed : '\n' ∉ line) :
    '\n' ∉ trimEnd line := by
  obtain ⟨blanks, split, -⟩ := exists_eq_trimEnd_append line
  rw [split, List.mem_append, not_or] at noFeed
  exact noFeed.1

/-! ### The lines of a clean text -/

/-- Lines that are closed with line feeds are told apart again, if no line has a line feed or ends
with a carriage return. -/
theorem lines_flatMap_append {all : List (List Char)} (noFeed : ∀ line ∈ all, '\n' ∉ line)
    (noReturn : ∀ line ∈ all, line.getLast? ≠ some '\r') :
    lines (all.flatMap (· ++ ['\n'])) = all := by
  induction all with
  | nil => rfl
  | cons line rest ih =>
    rw [List.forall_mem_cons] at noFeed noReturn
    rw [List.flatMap_cons, List.append_assoc, List.singleton_append,
      lines_append_below noFeed.1 noReturn.1, ih noFeed.2 noReturn.2]

/-- **The lines of a clean text are the trimmed lines** of what it was before; the empty text gets a
line of its own. -/
theorem lines_cleanLines (s : List Char) :
    lines (cleanLines s) = if s = [] then [[]] else (lines s).map trimEnd := by
  split
  · rename_i empty
    subst empty
    rfl
  · rename_i ne
    have closed : cleanLines s = ((lines s).map trimEnd).flatMap (· ++ ['\n']) := by
      rw [cleanLines_of_ne_nil ne, List.flatMap_map]
    rw [closed]
    apply lines_flatMap_append
    · rw [List.forall_mem_map]
      exact fun line member => lineFeed_notMem_trimEnd (lineFeed_notMem_of_mem_lines member)
    · -- a carriage return is blank, so it was trimmed away
      rw [List.forall_mem_map]
      intro line _ last
      have ink := isBlank_of_getLast?_trimEnd last
      rw [isBlank_carriageReturn] at ink
      cases ink

theorem cleanLines_ne_nil (s : List Char) : cleanLines s ≠ [] := by
  obtain ⟨before, ends⟩ := exists_cleanLines_eq_append s
  rw [ends]
  exact List.concat_ne_nil _ _

/-- **A clean text stays as it is.** -/
theorem cleanLines_cleanLines (s : List Char) : cleanLines (cleanLines s) = cleanLines s := by
  rw [cleanLines_of_ne_nil (cleanLines_ne_nil s), lines_cleanLines]
  split
  · rename_i empty
    subst empty
    rfl
  · rename_i full
    rw [cleanLines_of_ne_nil full, List.flatMap_map]
    simp only [trimEnd_trimEnd]

/-- A carriage return is a blank at the end of a line and a character inside of one. -/
example : cleanLines ['a', ' ', '\r', '\n', '\r', 'b', '\r'] = ['a', '\n', '\r', 'b', '\n'] := by
  decide

/-- Every line of a clean text was trimmed. -/
theorem exists_eq_trimEnd_of_mem {s line : List Char} (member : line ∈ lines (cleanLines s)) :
    ∃ whole, line = trimEnd whole := by
  rw [lines_cleanLines] at member
  split at member
  · exact ⟨[], List.mem_singleton.mp member⟩
  · obtain ⟨whole, -, rfl⟩ := List.mem_map.mp member
    exact ⟨whole, rfl⟩

/-! ### What can be relied on -/

/-- The second text is the first one with clean lines. -/
structure Cleans (s t : String) : Prop where
  ne_empty : t ≠ ""
  /-- The last line is closed. -/
  closed : t.toList.getLast? = some '\n'
  /-- No line ends with a blank. -/
  noBlank : ∀ line ∈ lines t.toList, ∀ c, line.getLast? = some c → isBlank c = false
  /-- There are as many lines as before, and one for the empty text. -/
  length_eq : (lines t.toList).length = if s = "" then 1 else (lines s.toList).length
  of_empty : s = "" → t = "\n"
  /-- Every line is kept, up to the blanks at its end. -/
  kept : ∀ (i : Nat) (line : List Char), (lines s.toList)[i]? = some line →
    ∃ start blanks : List Char, (lines t.toList)[i]? = some start ∧ line = start ++ blanks ∧
      ∀ c ∈ blanks, isBlank c = true
  /-- Cleaning once more changes nothing. -/
  fixed : clean t = t

theorem cleans_clean (s : String) : Cleans s (clean s) where
  ne_empty := by
    intro empty
    apply cleanLines_ne_nil s.toList
    rw [← toList_clean, empty, String.toList_empty]
  closed := by
    obtain ⟨before, ends⟩ := exists_cleanLines_eq_append s.toList
    rw [toList_clean, ends, List.getLast?_concat]
  noBlank line member c last := by
    rw [toList_clean] at member
    obtain ⟨whole, rfl⟩ := exists_eq_trimEnd_of_mem member
    exact isBlank_of_getLast?_trimEnd last
  length_eq := by
    rw [toList_clean, lines_cleanLines]
    simp only [String.toList_eq_nil_iff]
    split
    · rfl
    · exact List.length_map _
  of_empty empty := by
    rw [empty]
    rfl
  kept i line at_i := by
    obtain ⟨blanks, split, isBlanks⟩ := exists_eq_trimEnd_append line
    refine ⟨trimEnd line, blanks, ?_, split, isBlanks⟩
    have ne : s.toList ≠ [] := by
      intro empty
      rw [empty] at at_i
      cases at_i
    rw [toList_clean, lines_cleanLines, if_neg ne, List.getElem?_map, at_i, Option.map_some]
  fixed := by
    rw [clean, toList_clean, cleanLines_cleanLines]
    rfl

end Text

/-! ### Everything that is printed -/

/-- The document of a fragment. -/
def Fragment.document (layout : Layout) (names : Names) : Fragment → Document
  | .stmt code => .text (code.map names.display).text
  | .block body => layout.block (body.map names.display)
  | .alone member => layout.member (names.display member.name) (member.map names.display)
  | .inside className member =>
    layout.member (names.display className) (member.map names.display)
  | .type decl => layout.type (decl.map names.display)
  | .unit file => layout.unit (file.map names.display)

theorem Fragment.source_eq_render (layout : Layout) (names : Names) (fragment : Fragment) :
    fragment.source layout names = (fragment.document layout names).render := by
  cases fragment <;> rfl

/-- **What is printed has clean lines:** every text, however its lines are broken, is cleaned for
good; and so is the layout of every document, whatever layout options and names it comes from. -/
theorem Fragment.cleans_source :
    (∀ s, Text.Cleans s (Text.clean s)) ∧
      (∀ doc : Document, Text.Cleans doc.layout doc.render) ∧
      ∀ (layout : Layout) (names : Names) (fragment : Fragment),
        Text.Cleans (fragment.document layout names).layout (fragment.source layout names) := by
  refine ⟨Text.cleans_clean, fun doc => Text.cleans_clean doc.layout, ?_⟩
  intro layout names fragment
  rw [source_eq_render]
  exact Text.cleans_clean _

end Augment
