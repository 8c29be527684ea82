import Augment.Proofs.Source.Ink

/-!
# Tokens

Source text consists of words and signs, and of blanks, which keep words apart and mean nothing
else.  `Text.tokens` reads the words and signs of a text.  A word goes on until a blank or a sign
ends it, so two texts can be read one after the other if no word runs over the seam
(`Text.tokens_append`).

Trimming lines never touches a token (`Text.tokens_cleanLines`), so a rendered document reads like
the document itself.  `Document.Reads` says what a document reads like on its own, wherever its
lines begin and whatever follows it.
-/

namespace Augment

/-- A word or a sign. -/
inductive Token where
  | word (spelling : List Char)
  | sign (c : Char)
deriving DecidableEq, Repr

/-- The characters of a token. -/
def Token.chars : Token → List Char
  | word spelling => spelling
  | sign c => [c]

namespace Text

/-- The characters that are tokens of their own. -/
def signs : List Char :=
  ['.', ',', ';', '=', '@', '(', ')', '\x7b', '\x7d']

/-- Whether a word ends before this character. -/
def separates (c : Char) : Bool :=
  isBlank c || c ∈ signs

/-- A word, if there is one, and the tokens after it. -/
def withWord (word : List Char) (later : List Token) : List Token :=
  if word = [] then later else .word word :: later

/-- The word that a text starts with, which may be empty, and the tokens after it. -/
def split : List Char → List Char × List Token
  | [] => ([], [])
  | c :: rest =>
    if isBlank c then ([], withWord (split rest).1 (split rest).2)
    else if c ∈ signs then ([], .sign c :: withWord (split rest).1 (split rest).2)
    else (c :: (split rest).1, (split rest).2)

/-- **The words and signs of a text.** -/
def tokens (s : List Char) : List Token :=
  withWord (split s).1 (split s).2

@[simp] theorem withWord_nil (later : List Token) : withWord [] later = later := if_pos rfl

theorem withWord_of_ne_nil {word : List Char} (h : word ≠ []) (later : List Token) :
    withWord word later = .word word :: later := if_neg h

theorem withWord_append (word : List Char) (first later : List Token) :
    withWord word (first ++ later) = withWord word first ++ later := by
  unfold withWord
  split <;> rfl

/-! ### Reading character by character -/

section Characters

variable {c : Char}

@[simp] theorem tokens_nil : tokens [] = [] := rfl

theorem split_cons_of_blank (h : isBlank c) (rest : List Char) :
    split (c :: rest) = ([], tokens rest) := by
  rw [split, if_pos h]
  rfl

theorem split_cons_of_sign (h : c ∈ signs) (rest : List Char) :
    split (c :: rest) = ([], .sign c :: tokens rest) := by
  have ink : ¬isBlank c := by
    revert h
    simp only [signs, List.mem_cons, List.not_mem_nil, or_false]
    rintro (rfl | rfl | rfl | rfl | rfl | rfl | rfl | rfl | rfl) <;> decide
  rw [split, if_neg ink, if_pos h]
  rfl

theorem split_cons_of_not_separates (h : separates c = false) (rest : List Char) :
    split (c :: rest) = (c :: (split rest).1, (split rest).2) := by
  simp only [separates, Bool.or_eq_false_iff, decide_eq_false_iff_not] at h
  rw [split, if_neg (by simp [h.1]), if_neg h.2]

/-- No word starts with a blank or a sign. -/
theorem split_cons_of_separates (h : separates c) (rest : List Char) :
    split (c :: rest) = ([], tokens (c :: rest)) := by
  have first : (split (c :: rest)).1 = [] := by
    simp only [separates, Bool.or_eq_true, decide_eq_true_eq] at h
    rcases h with blank | sign
    · rw [split_cons_of_blank blank]
    · rw [split_cons_of_sign sign]
  rw [tokens, first, withWord_nil, ← first]

/-- Blanks are no tokens. -/
theorem tokens_cons_of_blank (h : isBlank c) (rest : List Char) :
    tokens (c :: rest) = tokens rest := by
  rw [tokens, split_cons_of_blank h, withWord_nil]

theorem tokens_cons_of_sign (h : c ∈ signs) (rest : List Char) :
    tokens (c :: rest) = .sign c :: tokens rest := by
  rw [tokens, split_cons_of_sign h, withWord_nil]

end Characters

/-! ### Reading one text after the other -/

/-- The text does not go on with the word of a text before it. -/
def Clear (s : List Char) : Prop :=
  ∀ c ∈ s.head?, separates c

theorem clear_cons {c : Char} (h : separates c) (rest : List Char) : Clear (c :: rest) := by
  intro d hd
  cases hd
  exact h

theorem split_of_clear {s : List Char} (clear : Clear s) : split s = ([], tokens s) := by
  cases s with
  | nil => rfl
  | cons c rest => exact split_cons_of_separates (clear c rfl) rest

theorem split_append {rest : List Char} (clear : Clear rest) (s : List Char) :
    split (s ++ rest) = ((split s).1, (split s).2 ++ tokens rest) := by
  induction s with
  | nil => exact split_of_clear clear
  | cons c s ih =>
    have tail : tokens (s ++ rest) = tokens s ++ tokens rest := by
      rw [tokens, ih, withWord_append]
      rfl
    rw [List.cons_append]
    by_cases sep : separates c
    · -- what comes before this character and what follows it are read apart
      simp only [separates, Bool.or_eq_true, decide_eq_true_eq] at sep
      rcases sep with blank | sign
      · rw [split_cons_of_blank blank, split_cons_of_blank blank, tail]
      · rw [split_cons_of_sign sign, split_cons_of_sign sign, tail]
        rfl
    · have inside : separates c = false := by simpa using sep
      rw [split_cons_of_not_separates inside, split_cons_of_not_separates inside, ih]

/-- **Two texts are read one after the other** if no word runs over the seam. -/
theorem tokens_append {rest : List Char} (clear : Clear rest) (s : List Char) :
    tokens (s ++ rest) = tokens s ++ tokens rest := by
  rw [tokens, split_append clear, withWord_append]
  rfl

theorem tokens_append_blank {c : Char} (h : isBlank c) (s rest : List Char) :
    tokens (s ++ c :: rest) = tokens s ++ tokens rest := by
  have sep : separates c := by simp [separates, h]
  rw [tokens_append (clear_cons sep rest), tokens_cons_of_blank h]

theorem tokens_append_sign {c : Char} (h : c ∈ signs) (s rest : List Char) :
    tokens (s ++ c :: rest) = tokens s ++ .sign c :: tokens rest := by
  have sep : separates c := by simp [separates, h]
  rw [tokens_append (clear_cons sep rest), tokens_cons_of_sign h]

/-! ### Words -/

/-- Whether a text is a word: it has no blanks and no signs, and is not empty. -/
def isWord (s : List Char) : Bool :=
  !s.isEmpty && s.all (!separates ·)

/-- **A word reads as itself.** -/
theorem tokens_word {word : List Char} (h : isWord word) : tokens word = [.word word] := by
  simp only [isWord, Bool.and_eq_true, Bool.not_eq_true', List.isEmpty_eq_false_iff,
    List.all_eq_true] at h
  have inside : ∀ s : List Char, (∀ c ∈ s, separates c = false) → split s = (s, []) := by
    intro s
    induction s with
    | nil => exact fun _ => rfl
    | cons c rest ih =>
      intro h
      rw [List.forall_mem_cons] at h
      rw [split_cons_of_not_separates h.1, ih h.2]
  rw [tokens, inside word h.2, withWord_of_ne_nil h.1]

/-! ### What is lost in reading -/

theorem flatMap_chars_withWord (word : List Char) (later : List Token) :
    (withWord word later).flatMap Token.chars = word ++ later.flatMap Token.chars := by
  unfold withWord
  split
  · rename_i none
    rw [none, List.nil_append]
  · rfl

theorem flatMap_chars_split (s : List Char) :
    (split s).1 ++ (split s).2.flatMap Token.chars = ink s := by
  induction s with
  | nil => rfl
  | cons c rest ih =>
    by_cases blank : isBlank c
    · rw [split_cons_of_blank blank, ink_cons_of_blank blank, List.nil_append, tokens,
        flatMap_chars_withWord, ih]
    · have kept : ink (c :: rest) = c :: ink rest := by
        rw [ink, List.filter_cons_of_pos (by simpa using blank), ink]
      by_cases sign : c ∈ signs
      · rw [split_cons_of_sign sign, kept, List.nil_append, List.flatMap_cons, tokens,
          flatMap_chars_withWord, ih]
        rfl
      · have inside : separates c = false := by simp [separates, blank, sign]
        rw [split_cons_of_not_separates inside, kept, ← ih]
        rfl

/-- **Reading loses nothing but blanks.** -/
theorem flatMap_chars_tokens (s : List Char) : (tokens s).flatMap Token.chars = ink s := by
  rw [tokens, flatMap_chars_withWord, flatMap_chars_split]

/-- A sign among the tokens stands in the text. -/
theorem mem_of_sign_mem_tokens {c : Char} {s : List Char} (h : .sign c ∈ tokens s) : c ∈ s := by
  have here : c ∈ (tokens s).flatMap Token.chars :=
    List.mem_flatMap.mpr ⟨.sign c, h, List.mem_singleton_self c⟩
  rw [flatMap_chars_tokens] at here
  exact (List.mem_filter.mp here).1

/-! ### Trimming -/

theorem trimEnd_cons (c : Char) (line : List Char) :
    trimEnd (c :: line) =
      if trimEnd line = [] ∧ isBlank c then [] else c :: trimEnd line := by
  induction line using List.reverseRecOn with
  | nil =>
    have single := trimEnd_append_singleton [] c
    rw [List.nil_append, trimEnd_nil] at single
    rw [single, trimEnd_nil]
    simp
  | append_singleton line d ih =>
    rw [← List.cons_append, trimEnd_append_singleton, trimEnd_append_singleton]
    split
    · exact ih
    · simp

theorem split_trimEnd_singleton (c : Char) : split (trimEnd [c] ++ ['\n']) = split [c] := by
  by_cases blank : isBlank c
  · rw [trimEnd_cons, trimEnd_nil, if_pos ⟨rfl, blank⟩, split_cons_of_blank blank]
    exact split_cons_of_blank isBlank_lineFeed []
  · rw [trimEnd_cons, trimEnd_nil, if_neg fun h => blank h.2,
      split_append (clear_cons (by decide) []), tokens_cons_of_blank isBlank_lineFeed,
      tokens_nil, List.append_nil]

/-- Trimmed lines start with the same word, and the same tokens follow it.  Words and tokens are
compared apart, since a character that goes before the text may go on with its first word. -/
theorem split_trimmed_lines (s : List Char) :
    split ((lines s).flatMap fun line => trimEnd line ++ ['\n']) = split s := by
  fun_induction lines s with
  | case1 => rfl
  | case2 rest ih =>
    have same := congrArg (fun parts => withWord parts.1 parts.2) ih
    rw [List.flatMap_cons, trimEnd_nil, List.nil_append, List.singleton_append,
      split_cons_of_blank isBlank_lineFeed, split_cons_of_blank isBlank_lineFeed]
    exact congrArg (Prod.mk []) same
  | case3 rest ih =>
    have same := congrArg (fun parts => withWord parts.1 parts.2) ih
    rw [List.flatMap_cons, trimEnd_nil, List.nil_append, List.singleton_append,
      split_cons_of_blank isBlank_lineFeed, split_cons_of_blank isBlank_carriageReturn,
      tokens_cons_of_blank isBlank_lineFeed]
    exact congrArg (Prod.mk []) same
  | case4 c rest _ _ none ih =>
    obtain rfl : rest = [] := lines_eq_nil_iff.mp none
    rw [List.flatMap_singleton]
    exact split_trimEnd_singleton c
  | case5 c rest _ _ line later some ih =>
    rw [some, List.flatMap_cons] at ih
    rw [List.flatMap_cons]
    have step : split (c :: (trimEnd line ++ ['\n'] ++
        later.flatMap fun line => trimEnd line ++ ['\n'])) = split (c :: rest) := by
      unfold split
      rw [ih]
    rw [trimEnd_cons]
    split
    · -- the line is blank from here on, and its line feed separates just as well
      rename_i blank
      rw [blank.1, List.nil_append, split_cons_of_blank blank.2] at step
      rw [List.nil_append, ← step, List.singleton_append, split_cons_of_blank isBlank_lineFeed,
        tokens_cons_of_blank isBlank_lineFeed]
    · exact step

/-- **Trimming lines leaves the tokens.** -/
theorem tokens_cleanLines (s : List Char) : tokens (cleanLines s) = tokens s := by
  by_cases empty : s = []
  · subst empty
    exact tokens_cons_of_blank isBlank_lineFeed []
  · rw [cleanLines_of_ne_nil empty, tokens, split_trimmed_lines, tokens]

end Text

/-! ### Documents -/

namespace Document

/-- The document reads like this, wherever its lines begin and whatever comes after it. -/
def Reads (doc : Document) (listing : List Token) : Prop :=
  ∀ column rest, Text.tokens (doc.chars column ++ rest) = listing ++ Text.tokens rest

/-- The document starts with a line break, a blank or a sign. -/
def Clear (doc : Document) : Prop :=
  ∀ column, ∃ c rest, doc.chars column = c :: rest ∧ Text.separates c

variable {doc left right : Document} {listing listing' : List Token}

theorem Reads.nil_of_isEmpty (h : doc.Reads listing) (empty : doc.isEmpty) : listing = [] := by
  have here := h 0 []
  rw [chars_of_isEmpty empty, List.append_nil, Text.tokens_nil, List.append_nil] at here
  exact here.symm

theorem reads_empty : empty.Reads [] := fun _ _ => rfl

theorem reads_newline : newline.Reads [] := by
  intro column rest
  have spaces : ∀ count, Text.tokens (List.replicate count ' ' ++ rest) = Text.tokens rest := by
    intro count
    induction count with
    | zero => rfl
    | succ count ih =>
      rw [List.replicate_succ, List.cons_append, Text.tokens_cons_of_blank Text.isBlank_space, ih]
  rw [chars, List.cons_append, Text.tokens_cons_of_blank Text.isBlank_lineFeed, spaces]
  rfl

theorem Reads.nest (h : doc.Reads listing) (shift : Int) : (nest shift doc).Reads listing :=
  fun _ rest => h _ rest

theorem Reads.append (h : left.Reads listing) (h' : right.Reads listing') :
    (left ++ right).Reads (listing ++ listing') := by
  intro column rest
  rw [chars_append, List.append_assoc, h, h', List.append_assoc]

theorem Reads.assoc {middle : Document} (h : (left ++ (middle ++ right)).Reads listing) :
    (left ++ middle ++ right).Reads listing := by
  intro column rest
  rw [← h column rest]
  simp only [chars_append, List.append_assoc]

/-- A text that ends with a sign reads alike before anything. -/
theorem reads_text_of_sign {content : String} {body : List Char} {c : Char}
    (sign : c ∈ Text.signs) (ends : content.toList = body ++ [c]) :
    (text content).Reads (Text.tokens body ++ [.sign c]) := by
  intro column rest
  rw [chars, ends, List.append_assoc, List.singleton_append, Text.tokens_append_sign sign,
    List.append_assoc]
  rfl

/-- Any text reads alike before a document that no word runs into. -/
theorem Reads.text_append (h : right.Reads listing) (clear : right.Clear) (content : String) :
    (text content ++ right).Reads (Text.tokens content.toList ++ listing) := by
  intro column rest
  obtain ⟨c, later, starts, separates⟩ := clear column
  have seam : Text.Clear (right.chars column ++ rest) := by
    rw [starts]
    exact Text.clear_cons separates _
  rw [chars_append, List.append_assoc, chars, Text.tokens_append seam, h, List.append_assoc]

theorem clear_newline : newline.Clear :=
  fun _ => ⟨_, _, rfl, by decide⟩

theorem Clear.append (h : left.Clear) (right : Document) : (left ++ right).Clear := by
  intro column
  obtain ⟨c, rest, starts, separates⟩ := h column
  exact ⟨c, _, by rw [chars_append, starts, List.cons_append], separates⟩

section Lists

variable {α : Type} {items : List α} {each : α → Document} {listings : α → List Token}

theorem reads_concat (h : ∀ item ∈ items, (each item).Reads (listings item)) :
    (concat (items.map each)).Reads (items.flatMap listings) := by
  induction items with
  | nil => exact reads_empty
  | cons item rest ih =>
    rw [List.forall_mem_cons] at h
    exact h.1.append (ih h.2)

theorem reads_lined (h : ∀ item ∈ items, (each item).Reads (listings item)) :
    (lined (items.map each)).Reads (items.flatMap listings) := by
  rw [lined, List.map_map]
  exact reads_concat fun item hi => reads_newline.append (h item hi)

theorem reads_separated {separator : Document} (blank : separator.Reads [])
    (h : ∀ item ∈ items, (each item).Reads (listings item)) :
    (separated separator (items.map each)).Reads (items.flatMap listings) := by
  induction items with
  | nil => exact reads_empty
  | cons item rest ih =>
    rw [List.forall_mem_cons] at h
    cases rest with
    | nil =>
      rw [List.flatMap_cons, List.flatMap_nil, List.append_nil]
      exact h.1
    | cons next others =>
      have first := h.1.append blank
      rw [List.append_nil] at first
      exact first.append (ih h.2)

end Lists

/-- **A rendered document reads like the document.** -/
theorem Reads.tokens_render (h : doc.Reads listing) :
    Text.tokens doc.render.toList = listing := by
  have all := h 0 []
  rw [List.append_nil, Text.tokens_nil, List.append_nil] at all
  rw [render, Text.toList_clean, Text.tokens_cleanLines, layout, String.toList_ofList, all]

end Document

/-! ### Braces -/

namespace Layout

theorem reads_openBrace (layout : Layout) : layout.openBrace.Reads [.sign '\x7b'] := by
  have sign : '\x7b' ∈ Text.signs := by decide
  unfold openBrace
  split
  · have ends : " \x7b".toList = [' '] ++ ['\x7b'] := rfl
    exact Document.reads_text_of_sign sign ends
  · have ends : "\x7b".toList = [] ++ ['\x7b'] := rfl
    exact Document.reads_newline.append (Document.reads_text_of_sign sign ends)

theorem clear_openBrace (layout : Layout) : layout.openBrace.Clear := by
  unfold openBrace
  split
  · exact fun _ => ⟨_, _, rfl, by decide⟩
  · exact Document.clear_newline.append _

theorem clear_braces (layout : Layout) (items : List Document) : (layout.braces items).Clear := by
  unfold braces
  split
  · exact layout.clear_openBrace.append _
  · exact ((layout.clear_openBrace.append _).append _).append _

variable {α : Type} {items : List α} {each : α → Document} {listings : α → List Token}

theorem reads_body (layout : Layout) (h : ∀ item ∈ items, (each item).Reads (listings item)) :
    (layout.body (items.map each)).Reads (items.flatMap listings) := by
  unfold body
  split
  · rename_i last
    induction items using List.reverseRecOn with
    | nil => exact (Document.reads_empty.nest _).append Document.reads_newline
    | append_singleton items item _ =>
      -- the item that is left out has no tokens
      have empty : (each item).isEmpty := by simpa using last
      have none := (h item (by simp)).nil_of_isEmpty empty
      have others := Document.reads_lined fun item hi => h item (List.mem_append_left _ hi)
      have read := (others.nest layout.shift).append Document.reads_newline
      rw [List.map_append, List.map_singleton, List.dropLast_concat, List.flatMap_append,
        List.flatMap_singleton, none]
      exact read
  · exact (Document.reads_lined h).nest _

/-- **Items in braces** read one after the other. -/
theorem reads_braces (layout : Layout) (h : ∀ item ∈ items, (each item).Reads (listings item)) :
    (layout.braces (items.map each)).Reads
      (.sign '\x7b' :: (items.flatMap listings ++ [.sign '\x7d'])) := by
  have sign : '\x7d' ∈ Text.signs := by decide
  have ends : "\x7d".toList = [] ++ ['\x7d'] := rfl
  have close := Document.reads_text_of_sign sign ends
  unfold braces
  split
  · rename_i none
    obtain rfl : items = [] := by simpa using none
    exact layout.reads_openBrace.append close
  · have read := ((layout.reads_openBrace.append (layout.reads_body h)).append
      Document.reads_newline).append close
    rw [List.append_nil] at read
    exact read

end Layout

end Augment
