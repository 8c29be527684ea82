import Augment.InternTable

/-!
# Names

Every identifier of a round is interned once and is a `Symbol` from then on.  The spelling
`<init>`, which stands for the name of a constructor, is interned before all others, so it is
symbol `0` in every table (`Names.init_resolves` is part of the type).

`Names.display` spells any symbol, also one that the table does not know: symbol `7` of another
table is shown as `<symbol:7>`.
-/

namespace Augment

/-- An interned identifier. -/
structure Symbol where
  key : Nat
deriving DecidableEq, Repr, Inhabited

/-- The spelling that constructors carry as their name. -/
def initName : String := "<init>"

/-- The identifiers of a round. -/
structure Names where
  table : InternTable String
  init_resolves : table.resolve? 0 = some initName

namespace Names

/-- The symbol of the constructor name. -/
def init : Symbol := ⟨0⟩

/-- The table that knows the constructor name only. -/
def initial : Names where
  table := (InternTable.empty.intern initName).2
  init_resolves := by
    have h : (InternTable.empty : InternTable String).keyOf? initName = none := by
      simp [InternTable.keyOf?, InternTable.empty]
    simp [InternTable.intern_of_new h, InternTable.resolve?_push]

instance : Inhabited Names := ⟨initial⟩

/-- The symbol of a spelling, which is entered if it is new. -/
def intern (names : Names) (spelling : String) : Symbol × Names :=
  let entry := names.table.intern spelling
  (⟨entry.1⟩, ⟨entry.2, InternTable.resolve?_intern_of_some names.init_resolves⟩)

/-- The spelling of a symbol, if the table knows it. -/
def resolve? (names : Names) (symbol : Symbol) : Option String :=
  names.table.resolve? symbol.key

/-- The spelling of a symbol, or a placeholder that shows its number. -/
def display (names : Names) (symbol : Symbol) : String :=
  (names.resolve? symbol).getD s!"<symbol:{symbol.key}>"

/-! ### What interning does to `resolve?` -/

@[simp] theorem resolve?_init (names : Names) : names.resolve? init = some initName :=
  names.init_resolves

@[simp] theorem display_init (names : Names) : names.display init = initName := by
  simp [display]

theorem display_of_resolve? {names : Names} {symbol : Symbol} {spelling : String}
    (h : names.resolve? symbol = some spelling) : names.display symbol = spelling := by
  simp [display, h]

/-- **The symbol that is handed out resolves to the spelling at once.** -/
@[simp] theorem resolve?_intern (names : Names) (spelling : String) :
    (names.intern spelling).2.resolve? (names.intern spelling).1 = some spelling :=
  names.table.resolve?_intern spelling

/-- **No symbol ever changes its meaning.** -/
theorem resolve?_intern_of_some {names : Names} {spelling other : String} {symbol : Symbol}
    (h : names.resolve? symbol = some other) :
    (names.intern spelling).2.resolve? symbol = some other :=
  InternTable.resolve?_intern_of_some h

/-- **Two symbols with one spelling are equal.** -/
theorem symbol_unique {names : Names} {spelling : String} {s t : Symbol}
    (hs : names.resolve? s = some spelling) (ht : names.resolve? t = some spelling) : s = t := by
  cases s; cases t
  exact congrArg Symbol.mk (InternTable.key_unique hs ht)

/-- Interning the constructor name gives its symbol and changes nothing. -/
theorem intern_initName (names : Names) : names.intern initName = (init, names) := by
  have h := InternTable.intern_of_keyOf?
    (InternTable.keyOf?_eq_some_iff.2 names.init_resolves)
  simp [intern, init, h]

end Names

end Augment
