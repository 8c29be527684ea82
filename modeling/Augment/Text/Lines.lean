import Augment.Text.Blank

/-!
# Lines of a text

A line ends at a line feed, which does not belong to it; a carriage return right before that line
feed belongs to the line break as well.  What follows the last line feed is a line of its own only
if it is not empty, so a final line feed closes the last line and opens none (`lines`).

`clean` is the last step of every rendering: each line loses its trailing blanks and ends with one
line feed, and the empty text becomes a single empty line.
-/

namespace Augment.Text

/-! ### Splitting -/

/-- The lines of a text, without their line breaks. -/
def lines : List Char → List (List Char)
  | [] => []
  | '\n' :: rest => [] :: lines rest
  | '\r' :: '\n' :: rest => [] :: lines rest
  | c :: rest =>
    match lines rest with
    | [] => [[c]]
    | line :: later => (c :: line) :: later

@[simp] theorem lines_nil : lines [] = [] := rfl

@[simp] theorem lines_lineFeed (rest : List Char) : lines ('\n' :: rest) = [] :: lines rest := by
  rw [lines]

@[simp] theorem lines_carriageReturn_lineFeed (rest : List Char) :
    lines ('\r' :: '\n' :: rest) = [] :: lines rest := by
  rw [lines]

/-- **A text without lines is empty.** Every character lies on some line or ends one. -/
@[simp] theorem lines_eq_nil_iff {s : List Char} : lines s = [] ↔ s = [] := by
  fun_cases lines s <;> simp_all

/-! ### Trailing blanks -/

/-- A line without the blanks at its end. -/
def trimEnd (line : List Char) : List Char :=
  (line.reverse.dropWhile isBlank).reverse

@[simp] theorem trimEnd_nil : trimEnd [] = [] := rfl

theorem trimEnd_append_singleton (line : List Char) (c : Char) :
    trimEnd (line ++ [c]) = if isBlank c then trimEnd line else line ++ [c] := by
  by_cases h : isBlank c <;> simp [trimEnd, h]

/-- **Trimming leaves no blank at the end.** -/
theorem isBlank_getLast_trimEnd {line : List Char} (h : trimEnd line ≠ []) :
    isBlank ((trimEnd line).getLast h) = false := by
  simp only [trimEnd, List.getLast_reverse]
  exact List.head_dropWhile_not isBlank _

@[simp] theorem trimEnd_trimEnd (line : List Char) : trimEnd (trimEnd line) = trimEnd line := by
  by_cases h : trimEnd line = []
  · simp [h]
  · have hlast := trimEnd_append_singleton (trimEnd line).dropLast ((trimEnd line).getLast h)
    simpa [isBlank_getLast_trimEnd h, List.dropLast_concat_getLast] using hlast

/-! ### The cleaned text -/

/-- Every line of a text, trimmed and closed by a line feed; for the empty text, one empty line. -/
def cleanLines (s : List Char) : List Char :=
  if s.isEmpty then ['\n'] else (lines s).flatMap fun line => trimEnd line ++ ['\n']

/-- A text whose lines are trimmed, with a line feed at its end. -/
def clean (s : String) : String :=
  String.ofList (cleanLines s.toList)

@[simp] theorem toList_clean (s : String) : (clean s).toList = cleanLines s.toList := by
  simp [clean]

@[simp] theorem cleanLines_nil : cleanLines [] = ['\n'] := rfl

theorem cleanLines_of_ne_nil {s : List Char} (h : s ≠ []) :
    cleanLines s = (lines s).flatMap fun line => trimEnd line ++ ['\n'] := by
  simp [cleanLines, h]

/-- A carriage return inside a line stays, one before a line feed goes with the break. -/
example : lines ['a', '\r', 'b', '\r', '\n', '\n', 'c'] = [['a', '\r', 'b'], [], ['c']] := by decide

end Augment.Text
