/-!
# Blank characters

`isBlank` is the Unicode property *White_Space*: the characters that are trimmed from the end of a
line.  It is wider than the class of `Char.isWhitespace`, which knows only part of ASCII
(`isBlank_of_isWhitespace`).
-/

namespace Augment.Text

/-- The ranges of code points with the property White_Space, in order. -/
def blankRanges : List (Nat × Nat) := [
  (0x09, 0x0D), (0x20, 0x20), (0x85, 0x85), (0xA0, 0xA0), (0x1680, 0x1680), (0x2000, 0x200A),
  (0x2028, 0x2029), (0x202F, 0x202F), (0x205F, 0x205F), (0x3000, 0x3000)]

/-- Whether a character is white space in the sense of Unicode. -/
def isBlank (c : Char) : Bool :=
  blankRanges.any fun range => range.1 ≤ c.toNat && c.toNat ≤ range.2

/-- Twenty-five characters are blank. -/
example : (blankRanges.map fun range => range.2 + 1 - range.1).sum = 25 := by decide

/-- The ranges are in order and do not touch, so no code point is counted twice. -/
example : blankRanges.Pairwise fun low high => low.2 + 1 < high.1 := by decide

/-- Every character that core calls white space is blank. -/
theorem isBlank_of_isWhitespace {c : Char} (h : c.isWhitespace) : isBlank c := by
  simp only [Char.isWhitespace, Bool.or_eq_true, decide_eq_true_eq] at h
  rcases h with ((h | h) | h) | h <;> subst h <;> decide

@[simp] theorem isBlank_space : isBlank ' ' = true := by decide

@[simp] theorem isBlank_lineFeed : isBlank '\n' = true := by decide

@[simp] theorem isBlank_carriageReturn : isBlank '\r' = true := by decide

end Augment.Text
