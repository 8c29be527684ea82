import Std.Data.TreeMap

/-!
# Intern tables

An intern table gives each distinct item a small number, its *key*, in the order in which the items
first arrive: `0`, `1`, `2` and so on.  It keeps the items in an array, for the way from a key to
its item, and a search tree for the way back.  That the two are inverse to each other is part of
the type (`InternTable.inverse`), so every operation keeps it and no other invariant is needed.

`intern` is characterised by what it does to `resolve?`: the returned key resolves to the item
(`resolve?_intern`), every older key keeps its meaning (`resolve?_intern_of_some`), and the table
grows by at most one (`size_intern`).
-/

namespace Augment

/-- Distinct items and their keys, in both directions. -/
structure InternTable (α : Type) [Ord α] [Std.TransOrd α] [Std.LawfulEqOrd α] where
  /-- The items, each at the index that is its key. -/
  items : Array α
  /-- The key of each item. -/
  keys : Std.TreeMap α Nat
  /-- **The two directions agree.** In particular no item occurs twice. -/
  inverse : ∀ (item : α) (key : Nat), keys[item]? = some key ↔ items[key]? = some item

namespace InternTable

variable {α : Type} [Ord α] [Std.TransOrd α] [Std.LawfulEqOrd α]

/-- The table without items. -/
def empty : InternTable α where
  items := #[]
  keys := ∅
  inverse := by simp

/-- The item of a key, if the key was given out. -/
def resolve? (table : InternTable α) (key : Nat) : Option α :=
  table.items[key]?

/-- The key of an item, if the item is in the table. -/
def keyOf? (table : InternTable α) (item : α) : Option Nat :=
  table.keys[item]?

/-- The number of items. -/
def size (table : InternTable α) : Nat :=
  table.items.size

/-- Whether the table has no items. -/
def isEmpty (table : InternTable α) : Bool :=
  table.items.isEmpty

theorem keyOf?_eq_some_iff {table : InternTable α} {item : α} {key : Nat} :
    table.keyOf? item = some key ↔ table.resolve? key = some item :=
  table.inverse item key

/-- Adds an item that is not there yet under the next free key. -/
def push (table : InternTable α) (item : α) (new : table.keyOf? item = none) : InternTable α where
  items := table.items.push item
  keys := table.keys.insert item table.size
  inverse := by
    have old := table.inverse
    have absent : ∀ key : Nat, table.items[key]? ≠ some item := fun key h => by
      simp [keyOf?, (old item key).2 h] at new
    intro other key
    rw [Std.TreeMap.getElem?_insert]
    grind [size, Std.LawfulEqOrd.compare_eq_iff_eq]

/-- The key of an item, and the table in which that key resolves to it. -/
def intern (table : InternTable α) (item : α) : Nat × InternTable α :=
  match h : table.keyOf? item with
  | some key => (key, table)
  | none => (table.size, table.push item h)

/-! ### What the operations do to `resolve?` -/

@[simp] theorem resolve?_empty (key : Nat) : (empty : InternTable α).resolve? key = none := by
  simp [resolve?, empty]

@[simp] theorem size_empty : (empty : InternTable α).size = 0 := rfl

theorem resolve?_push {table : InternTable α} {item : α} (new : table.keyOf? item = none)
    (key : Nat) : (table.push item new).resolve? key =
      if key = table.size then some item else table.resolve? key := by
  simp only [resolve?, push, Array.getElem?_push]
  rfl

@[simp] theorem size_push {table : InternTable α} {item : α} (new : table.keyOf? item = none) :
    (table.push item new).size = table.size + 1 := by
  simp [size, push]

/-- **A known item keeps its key** and the table stays as it is. -/
theorem intern_of_keyOf? {table : InternTable α} {item : α} {key : Nat}
    (h : table.keyOf? item = some key) : table.intern item = (key, table) := by
  unfold intern
  split <;> simp_all

/-- **A new item gets the next free key.** -/
theorem intern_of_new {table : InternTable α} {item : α} (h : table.keyOf? item = none) :
    table.intern item = (table.size, table.push item h) := by
  unfold intern
  split <;> simp_all

theorem resolve?_eq_none_iff {table : InternTable α} {key : Nat} :
    table.resolve? key = none ↔ table.size ≤ key := by
  simp [resolve?, size]

/-- **The key that is handed out resolves to the item at once.** -/
@[simp] theorem resolve?_intern (table : InternTable α) (item : α) :
    (table.intern item).2.resolve? (table.intern item).1 = some item := by
  cases h : table.keyOf? item with
  | some key => simpa [intern_of_keyOf? h] using keyOf?_eq_some_iff.1 h
  | none => simp [intern_of_new h, resolve?_push]

/-- **No key ever changes its meaning.** -/
theorem resolve?_intern_of_some {table : InternTable α} {item other : α} {key : Nat}
    (h : table.resolve? key = some other) :
    (table.intern item).2.resolve? key = some other := by
  cases new : table.keyOf? item with
  | some _ => simpa [intern_of_keyOf? new] using h
  | none =>
    have : key ≠ table.size := fun he => by
      simp [resolve?_eq_none_iff.2 (Nat.le_of_eq he.symm)] at h
    simpa [intern_of_new new, resolve?_push, this] using h

/-- Interning adds one item exactly if the item is new. -/
theorem size_intern (table : InternTable α) (item : α) :
    (table.intern item).2.size =
      if (table.keyOf? item).isSome then table.size else table.size + 1 := by
  cases new : table.keyOf? item with
  | some _ => simp [intern_of_keyOf? new]
  | none => simp [intern_of_new new]

/-- **Keys are injective on items:** two keys that resolve to one item are equal. -/
theorem key_unique {table : InternTable α} {item : α} {k l : Nat}
    (hk : table.resolve? k = some item) (hl : table.resolve? l = some item) : k = l := by
  have := (keyOf?_eq_some_iff.2 hk).symm.trans (keyOf?_eq_some_iff.2 hl)
  simpa using this

end InternTable

end Augment
