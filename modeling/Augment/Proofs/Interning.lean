import Augment.Names
import Mathlib.Data.Finset.Card

/-!
# Interning as a growing bijection

The items of an intern table are a list without repetitions in which the key of an item is its
index.  Interning leaves this list alone or puts one new item at its end
(`InternTable.toList_items_intern`), so after any number of items the list has the items that were
there first and then the new ones, each once and in the order in which they first came
(`InternTable.toList_items_internAll`).

A user of a table interns items and resolves keys, in any order (`InternTable.Call`).
`InternTable.GrowingBijection` says what holds after any calls and of all replies; it is shown for
every table to start from.  Names are a table that knows the constructor name from the beginning,
and a user of names can see no difference to a user of this table.
-/

namespace Augment

/-- A list without repetitions has none to lose. -/
theorem eraseDups_of_nodup {α : Type} [DecidableEq α] {items : List α} (distinct : items.Nodup) :
    items.eraseDups = items := by
  induction items with
  | nil => rfl
  | cons item rest ih =>
    rw [List.nodup_cons] at distinct
    have others : rest.filter (!· == item) = rest := by
      rw [List.filter_eq_self]
      intro other member
      simpa using ne_of_mem_of_not_mem member distinct.1
    rw [List.eraseDups_cons, others, ih distinct.2]

namespace InternTable

variable {α : Type} [Ord α] [Std.TransOrd α] [Std.LawfulEqOrd α] {table : InternTable α} {item : α}

/-! ### The items as a list -/

theorem resolve?_eq_getElem? (table : InternTable α) (key : Nat) :
    table.resolve? key = table.items.toList[key]? := by
  simp [resolve?]

theorem nodup_items (table : InternTable α) : table.items.toList.Nodup := by
  rw [List.nodup_iff_getElem?_ne_getElem?]
  intro i j before known same
  obtain ⟨item, at_j⟩ : ∃ item, table.items.toList[j]? = some item :=
    ⟨_, List.getElem?_eq_getElem known⟩
  rw [at_j, ← resolve?_eq_getElem?] at same
  rw [← resolve?_eq_getElem?] at at_j
  exact before.ne (key_unique same at_j)

theorem keyOf?_eq_none_iff : table.keyOf? item = none ↔ item ∉ table.items.toList := by
  simp only [Option.eq_none_iff_forall_ne_some, ne_eq, keyOf?_eq_some_iff, resolve?_eq_getElem?,
    List.mem_iff_getElem?, not_exists]

theorem mem_items_of_resolve? {key : Nat} (resolves : table.resolve? key = some item) :
    item ∈ table.items.toList := by
  rw [resolve?_eq_getElem?] at resolves
  exact List.mem_of_getElem? resolves

section Lists

variable [DecidableEq α]

/-- **A new item goes to the end,** and a known one changes nothing. -/
theorem toList_items_intern (table : InternTable α) (item : α) :
    (table.intern item).2.items.toList =
      if item ∈ table.items.toList then table.items.toList else table.items.toList ++ [item] := by
  cases entered : table.keyOf? item with
  | some key =>
    have known := mem_items_of_resolve? (keyOf?_eq_some_iff.mp entered)
    rw [if_pos known, intern_of_keyOf? entered]
  | none =>
    have new := keyOf?_eq_none_iff.mp entered
    rw [if_neg new, intern_of_new entered, push, Array.toList_push]

/-- The table after some items were interned, one after another. -/
def internAll (table : InternTable α) (items : List α) : InternTable α :=
  items.foldl (fun table item => (table.intern item).2) table

/-- **The items after interning** are those from before and the new ones, each once and in the order
in which they came first. -/
theorem toList_items_internAll (table : InternTable α) (items : List α) :
    (table.internAll items).items.toList = (table.items.toList ++ items).eraseDups := by
  induction items generalizing table with
  | nil => rw [List.append_nil, eraseDups_of_nodup table.nodup_items, internAll, List.foldl_nil]
  | cons item rest ih =>
    have first : table.internAll (item :: rest) = (table.intern item).2.internAll rest := rfl
    rw [first, ih, toList_items_intern]
    split
    · -- an item that is known is struck out of what is interned in any case
      rename_i known
      simp [List.eraseDups_append, List.cons_removeAll, known]
    · rw [List.append_assoc, List.singleton_append]

end Lists

/-! ### Calls of a user -/

/-- A call of a user. -/
inductive Call (α : Type) where
  | intern (item : α)
  | resolve (key : Nat)

/-- What a user gets for a call. -/
inductive Reply (α : Type) where
  | key (key : Nat)
  | item (found : Option α)
deriving DecidableEq

/-- The item that a call interns. -/
def Call.interned? : Call α → Option α
  | intern item => some item
  | resolve _ => none

/-- The items that are interned by some calls, in order and with repetitions. -/
def interned (calls : List (Call α)) : List α :=
  calls.filterMap Call.interned?

/-- The reply to a call, and the table after it. -/
def perform (table : InternTable α) : Call α → Reply α × InternTable α
  | .intern item => (.key (table.intern item).1, (table.intern item).2)
  | .resolve key => (.item (table.resolve? key), table)

section Runs

variable {β σ τ : Type}

/-- The state after some calls. -/
def after (perform : σ → Call β → Reply β × σ) (state : σ) (calls : List (Call β)) : σ :=
  calls.foldl (fun state call => (perform state call).2) state

/-- The replies to some calls. -/
def replies (perform : σ → Call β → Reply β × σ) (state : σ) : List (Call β) → List (Reply β)
  | [] => []
  | call :: rest => (perform state call).1 :: replies perform (perform state call).2 rest

variable (perform : σ → Call β → Reply β × σ) (state : σ)

theorem after_append (before later : List (Call β)) :
    after perform state (before ++ later) = after perform (after perform state before) later :=
  List.foldl_append

theorem replies_append (before later : List (Call β)) :
    replies perform state (before ++ later) =
      replies perform state before ++ replies perform (after perform state before) later := by
  induction before generalizing state with
  | nil => rfl
  | cons call rest ih => exact congrArg _ (ih _)

@[simp] theorem length_replies (calls : List (Call β)) :
    (replies perform state calls).length = calls.length := by
  induction calls generalizing state with
  | nil => rfl
  | cons call rest ih => exact congrArg _ (ih _)

/-- The reply to a call is that of the state which the calls before it have led to. -/
theorem getElem?_replies (before : List (Call β)) (call : Call β) (later : List (Call β)) :
    (replies perform state (before ++ call :: later))[before.length]? =
      some (perform (after perform state before) call).1 := by
  have here : before.length = (replies perform state before).length + 0 := by simp
  rw [replies_append, here, List.getElem?_append_right (Nat.le_add_right _ _)]
  simp [replies]

variable {perform} {perform' : τ → Call β → Reply β × τ} {view : σ → τ}

/-- Users cannot tell a state from a view of it, if they cannot by one call. -/
theorem replies_eq_of_view
    (same : ∀ state call, perform' (view state) call = (perform state call).map id view)
    (calls : List (Call β)) :
    replies perform' (view state) calls = replies perform state calls ∧
      after perform' (view state) calls = view (after perform state calls) := by
  induction calls generalizing state with
  | nil => exact ⟨rfl, rfl⟩
  | cons call rest ih =>
    obtain ⟨later, last⟩ := ih (perform state call).2
    constructor
    · rw [replies, same]
      exact congrArg _ later
    · rw [after, List.foldl_cons, same]
      exact last

end Runs

/-! ### Runs of calls on a table -/

/-- Resolving keys leaves the table as it is. -/
theorem after_perform (table : InternTable α) (calls : List (Call α)) :
    after perform table calls = table.internAll (interned calls) := by
  induction calls generalizing table with
  | nil => rfl
  | cons call rest ih => cases call <;> exact ih _

/-- **A key, once given, never changes its meaning.** -/
theorem resolve?_after {key : Nat} (resolves : table.resolve? key = some item)
    (calls : List (Call α)) : (after perform table calls).resolve? key = some item := by
  induction calls generalizing table with
  | nil => exact resolves
  | cons call rest ih =>
    cases call with
    | intern other => exact ih (resolve?_intern_of_some resolves)
    | resolve other => exact ih resolves

/-- **The key that is handed out for an item resolves to it** after all calls. -/
theorem exists_key_of_intern (table : InternTable α) {calls : List (Call α)} {i : Nat}
    (call : calls[i]? = some (.intern item)) :
    ∃ key, (replies perform table calls)[i]? = some (.key key) ∧
      (after perform table calls).resolve? key = some item := by
  induction calls generalizing table i with
  | nil => cases call
  | cons first rest ih =>
    cases i with
    | zero =>
      -- the key resolves right after the call, and no later call takes this back
      obtain rfl := Option.some_inj.mp call
      exact ⟨_, rfl, resolve?_after (table.resolve?_intern item) rest⟩
    | succ i => exact ih _ call

/-! ### The growing bijection -/

section Bijection

variable [DecidableEq α]

/-- What a user can rely on, where `replies` and `table` are what any calls come to and `known` are
the items that are there at first. -/
structure GrowingBijection (known : List α) (replies : List (Call α) → List (Reply α))
    (table : List (Call α) → InternTable α) : Prop where
  /-- Keys are handed out densely, in the order in which items first come. -/
  items_eq : ∀ calls, (table calls).items.toList = (known ++ interned calls).eraseDups
  nodup : ∀ calls, (table calls).items.toList.Nodup
  inverse : ∀ calls (item : α) (key : Nat),
    (table calls).keys[item]? = some key ↔ (table calls).items[key]? = some item
  key_lt : ∀ calls (item : α) (key : Nat),
    (table calls).keys[item]? = some key → key < (table calls).size
  size_eq : ∀ calls, (table calls).size = (known ++ interned calls).toFinset.card
  resolve?_eq_none_iff : ∀ calls key, (table calls).resolve? key = none ↔ (table calls).size ≤ key
  /-- A key never changes its meaning. -/
  stable : ∀ before later key item, (table before).resolve? key = some item →
    (table (before ++ later)).resolve? key = some item
  /-- There is a reply to each call, which no later call revises. -/
  length_eq : ∀ calls, (replies calls).length = calls.length
  isPrefix : ∀ before later, replies before <+: replies (before ++ later)
  /-- A new item gets the next key. -/
  new : ∀ before item later, item ∉ known ++ interned before →
    (replies (before ++ .intern item :: later))[before.length]? = some (.key (table before).size)
  /-- The key of an item resolves to it at once and after all later calls. -/
  resolves : ∀ before item later, ∃ key,
    (replies (before ++ .intern item :: later))[before.length]? = some (.key key) ∧
      (table (before ++ .intern item :: later)).resolve? key = some item
  /-- Two items get one key exactly if they are equal. -/
  injective : ∀ (calls : List (Call α)) (i j : Nat) (item other : α),
    calls[i]? = some (.intern item) → calls[j]? = some (.intern other) →
      ((replies calls)[i]? = (replies calls)[j]? ↔ item = other)
  resolve : ∀ before key later,
    (replies (before ++ .resolve key :: later))[before.length]? =
      some (.item ((table before).resolve? key))

theorem toList_items_after (table : InternTable α) (calls : List (Call α)) :
    (after perform table calls).items.toList =
      (table.items.toList ++ interned calls).eraseDups := by
  rw [after_perform, toList_items_internAll]

/-- **Every table is a growing bijection,** whatever it has at first. -/
theorem growingBijection_after (table : InternTable α) :
    GrowingBijection table.items.toList (replies perform table) (after perform table) where
  items_eq := table.toList_items_after
  nodup calls := (after perform table calls).nodup_items
  inverse calls := (after perform table calls).inverse
  key_lt calls item key entered := by
    have resolves := ((after perform table calls).inverse item key).mp entered
    exact (Array.getElem?_eq_some_iff.mp resolves).1
  size_eq calls := by
    -- the items have no repetitions, so they are counted by the set of them
    have same : (table.items.toList ++ interned calls).toFinset =
        (after perform table calls).items.toList.toFinset := by
      rw [toList_items_after]
      ext item
      simp
    rw [same, List.toFinset_card_of_nodup (nodup_items _), size, Array.length_toList]
  resolve?_eq_none_iff calls key := InternTable.resolve?_eq_none_iff
  stable before later key item resolves := by
    rw [after_append]
    exact resolve?_after resolves later
  length_eq := length_replies perform table
  isPrefix before later := by
    rw [replies_append]
    exact List.prefix_append _ _
  new before item later new := by
    have absent : (after perform table before).keyOf? item = none := by
      rw [keyOf?_eq_none_iff, toList_items_after, List.mem_eraseDups]
      exact new
    rw [getElem?_replies, perform, intern_of_new absent]
  resolves before item later := by
    apply exists_key_of_intern
    rw [List.getElem?_append_right (Nat.le_refl _), Nat.sub_self, List.getElem?_cons_zero]
  injective calls i j item other at_i at_j := by
    obtain ⟨key, reply, resolves⟩ := table.exists_key_of_intern at_i
    obtain ⟨key', reply', resolves'⟩ := table.exists_key_of_intern at_j
    rw [reply, reply', Option.some_inj, Reply.key.injEq]
    constructor
    · rintro rfl
      exact Option.some_inj.mp (resolves.symm.trans resolves')
    · rintro rfl
      exact key_unique resolves resolves'
  resolve before key later := by
    rw [getElem?_replies, perform]

end Bijection

end InternTable

/-! ### Names -/

namespace Names

open InternTable (Call Reply GrowingBijection after replies)

/-- The reply to a call, and the names after it. -/
def perform (names : Names) : Call String → Reply String × Names
  | .intern spelling => (.key (names.intern spelling).1.key, (names.intern spelling).2)
  | .resolve key => (.item (names.resolve? ⟨key⟩), names)

/-- **Names are a growing bijection,** as the table of their spellings is. -/
theorem growingBijection_after (names : Names) :
    GrowingBijection names.table.items.toList (replies perform names)
      fun calls => (after perform names calls).table := by
  have same : ∀ (names : Names) (call : Call String),
      names.table.perform call = (names.perform call).map id Names.table := by
    rintro names (spelling | key) <;> rfl
  have run := InternTable.replies_eq_of_view names same
  have replies_eq : replies perform names = replies InternTable.perform names.table :=
    funext fun calls => (run calls).1.symm
  have tables_eq : (fun calls => (after perform names calls).table) =
      after InternTable.perform names.table :=
    funext fun calls => (run calls).2.symm
  rw [replies_eq, tables_eq]
  exact names.table.growingBijection_after

theorem toList_items_initial : initial.table.items.toList = [initName] := by
  have empty : (InternTable.empty : InternTable String).items.toList = [] := rfl
  rw [initial, InternTable.toList_items_intern, empty, if_neg List.not_mem_nil, List.nil_append]

/-- **The symbol of the constructor name** is that of no other spelling. -/
theorem eq_init_iff {names : Names} {symbol : Symbol} {spelling : String}
    (resolves : names.resolve? symbol = some spelling) : symbol = init ↔ spelling = initName := by
  constructor
  · rintro rfl
    rw [resolve?_init] at resolves
    exact (Option.some_inj.mp resolves).symm
  · rintro rfl
    exact symbol_unique resolves names.resolve?_init

end Names

namespace InternTable

variable {α : Type} [Ord α] [Std.TransOrd α] [Std.LawfulEqOrd α]

/-- **Interning is a growing bijection** on a fresh table of any items and on fresh names, where the
constructor name is there already; and in all names the symbol `0` is kept for the constructor
name. -/
theorem growingBijection_fresh [DecidableEq α] :
    GrowingBijection [] (replies perform (empty : InternTable α)) (after perform empty) ∧
      GrowingBijection [initName] (replies Names.perform Names.initial)
        (fun calls => (after Names.perform Names.initial calls).table) ∧
      ∀ names : Names, names.intern initName = (⟨0⟩, names) ∧
        (∀ spelling, (names.intern spelling).1 = Names.init ↔ spelling = initName) ∧
        ∀ symbol spelling, names.resolve? symbol = some spelling →
          (symbol = Names.init ↔ spelling = initName) := by
  refine ⟨empty.growingBijection_after, ?_, fun names => ⟨names.intern_initName, ?_, ?_⟩⟩
  · rw [← Names.toList_items_initial]
    exact Names.initial.growingBijection_after
  · exact fun spelling => Names.eq_init_iff (names.resolve?_intern spelling)
  · exact fun symbol spelling => Names.eq_init_iff

/-- Spellings are interned twice, also that of constructors, and keys are resolved before and after
they are handed out. -/
theorem growingBijection_fresh_repeats :
    Std.TransOrd String ∧ Std.LawfulEqOrd String ∧
      let calls : List (Call String) :=
        [.intern "b", .resolve 1, .intern "<init>", .intern "b", .resolve 1]
      (replies perform (empty : InternTable String) calls =
          [.key 0, .item none, .key 1, .key 0, .item (some "<init>")] ∧
        (after perform (empty : InternTable String) calls).items.toList = ["b", "<init>"]) ∧
      replies Names.perform Names.initial calls =
          [.key 1, .item (some "b"), .key 0, .key 1, .item (some "b")] ∧
        (after Names.perform Names.initial calls).table.items.toList = ["<init>", "b"] := by
  obtain ⟨table, names, -⟩ := @growingBijection_fresh String _ _ _ _
  refine ⟨inferInstance, inferInstance, ⟨?_, ?_⟩, ?_, ?_⟩
  · decide +kernel
  · rw [table.items_eq]
    decide
  · decide +kernel
  · rw [names.items_eq]
    decide

end InternTable

end Augment
