import Augment.Maker
import Augment.Proofs.Interning
import Mathlib.Data.List.Basic
import Mathlib.Order.Basic

/-!
# Growing tables of names

A table of names only ever grows: `names ≤ names'` says that every symbol that `names` can spell is
spelled in the same way by `names'`.  Interning goes up in this order (`Names.le_intern`), and what
is spelled by a table stays as it is above the table (`Names.display_of_le`).

Which symbol a spelling gets is said by `Names.intern_fst`: the one that it has, and otherwise
`Names.next`, which no older table could spell.  What becomes of the table as a whole is said on the
list of its spellings, where the key of a symbol is an index (`Names.resolve?_eq`): interning many
spellings appends those that are new, each once and in order of first need
(`Names.spellings_internAll`).

The order of `Maker` adds that the next declaration id does not fall, so an id that was given out
below a maker is never given out by it again.
-/

namespace Augment

namespace Names

instance : Preorder Names where
  le names names' := ∀ symbol spelling,
    names.resolve? symbol = some spelling → names'.resolve? symbol = some spelling
  le_refl _ _ _ h := h
  le_trans _ _ _ h h' symbol spelling hs := h' symbol spelling (h symbol spelling hs)

variable {names names' : Names} {s t : Symbol}

theorem resolve?_of_le (h : names ≤ names') {spelling : String}
    (hs : names.resolve? s = some spelling) : names'.resolve? s = some spelling :=
  h s spelling hs

theorem le_intern (names : Names) (spelling : String) : names ≤ (names.intern spelling).2 :=
  fun _ _ => resolve?_intern_of_some

/-- The table can spell the symbol. -/
def Knows (names : Names) (s : Symbol) : Prop :=
  (names.resolve? s).isSome

instance (names : Names) (s : Symbol) : Decidable (names.Knows s) :=
  inferInstanceAs (Decidable ((names.resolve? s).isSome = true))

theorem knows_init (names : Names) : names.Knows init := by
  simp [Knows]

theorem knows_intern (names : Names) (spelling : String) :
    (names.intern spelling).2.Knows (names.intern spelling).1 := by
  simp [Knows]

theorem Knows.mono (hs : names.Knows s) (h : names ≤ names') : names'.Knows s := by
  obtain ⟨spelling, hs⟩ := Option.isSome_iff_exists.mp hs
  exact Option.isSome_iff_exists.mpr ⟨spelling, resolve?_of_le h hs⟩

theorem Knows.resolve? (hs : names.Knows s) : names.resolve? s = some (names.display s) := by
  obtain ⟨spelling, hs⟩ := Option.isSome_iff_exists.mp hs
  rw [hs, display_of_resolve? hs]

/-- **A spelling is never revised.** -/
theorem display_of_le (h : names ≤ names') (hs : names.Knows s) :
    names'.display s = names.display s :=
  display_of_resolve? (resolve?_of_le h hs.resolve?)

/-- Known symbols with one spelling are equal. -/
theorem display_inj (hs : names.Knows s) (ht : names.Knows t)
    (h : names.display s = names.display t) : s = t :=
  symbol_unique hs.resolve? (h ▸ ht.resolve?)

/-- The symbol of a spelling, if the table has one. -/
def symbolOf? (names : Names) (spelling : String) : Option Symbol :=
  (names.table.keyOf? spelling).map Symbol.mk

/-- The symbol that the next new spelling will get. -/
def next (names : Names) : Symbol :=
  ⟨names.table.size⟩

theorem resolve?_of_symbolOf? {spelling : String} (h : names.symbolOf? spelling = some s) :
    names.resolve? s = some spelling := by
  unfold symbolOf? at h
  obtain ⟨key, entered, rfl⟩ := Option.map_eq_some_iff.mp h
  exact InternTable.keyOf?_eq_some_iff.mp entered

theorem Knows.ne_next (hs : names.Knows s) : s ≠ names.next := by
  rintro rfl
  have unknown : names.resolve? names.next = none :=
    InternTable.resolve?_eq_none_iff.mpr (Nat.le_refl names.table.size)
  simp [Knows, unknown] at hs

/-- **The symbol that a spelling gets:** the one that it has, and otherwise the next one. -/
theorem intern_fst (names : Names) (spelling : String) :
    (names.intern spelling).1 = (names.symbolOf? spelling).getD names.next := by
  unfold symbolOf? next intern
  cases entered : names.table.keyOf? spelling with
  | some key => simp [InternTable.intern_of_keyOf? entered]
  | none => simp [InternTable.intern_of_new entered]

/-- The constructor name is spelled by one symbol only. -/
theorem display_eq_initName_iff (hs : names.Knows s) : names.display s = initName ↔ s = init := by
  constructor
  · intro h
    exact display_inj hs names.knows_init (h.trans names.display_init.symm)
  · rintro rfl
    exact names.display_init

/-! ### The list of spellings -/

/-- The spellings of the table, in the order in which they were interned. -/
def spellings (names : Names) : List String :=
  names.table.items.toList

/-- The key of a symbol is the index of its spelling. -/
theorem resolve?_eq (names : Names) (s : Symbol) :
    names.resolve? s = names.spellings[s.key]? :=
  names.table.resolve?_eq_getElem? s.key

/-- The table after some spellings were interned, one after another. -/
def internAll (names : Names) (needed : List String) : Names :=
  needed.foldl (fun names spelling => (names.intern spelling).2) names

theorem internAll_append (names : Names) (first later : List String) :
    names.internAll (first ++ later) = (names.internAll first).internAll later :=
  List.foldl_append

theorem table_internAll (names : Names) (needed : List String) :
    (names.internAll needed).table = names.table.internAll needed := by
  induction needed generalizing names with
  | nil => rfl
  | cons spelling rest ih => exact ih _

/-- **Interning appends what is new,** each spelling once and in the order of first need. -/
theorem spellings_internAll (names : Names) (needed : List String) :
    (names.internAll needed).spellings =
      names.spellings ++ (needed.removeAll names.spellings).eraseDups := by
  have distinct : names.spellings.Nodup := names.table.nodup_items
  rw [spellings, table_internAll, InternTable.toList_items_internAll, List.eraseDups_append,
    ← spellings, eraseDups_of_nodup distinct]

end Names

namespace Maker

instance : Preorder Maker where
  le maker maker' := maker.names ≤ maker'.names ∧ maker.nextDecl ≤ maker'.nextDecl
  le_refl maker := ⟨le_refl maker.names, Nat.le_refl _⟩
  le_trans _ _ _ h h' := ⟨le_trans h.1 h'.1, Nat.le_trans h.2 h'.2⟩

variable {maker maker' : Maker}

theorem names_le (h : maker ≤ maker') : maker.names ≤ maker'.names := h.1

theorem nextDecl_le (h : maker ≤ maker') : maker.nextDecl ≤ maker'.nextDecl := h.2

end Maker

end Augment
