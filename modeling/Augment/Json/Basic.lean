/-!
# JSON values

Values of the JSON data format and the three shapes in which typed values appear in it.

* A **word** is an integer of 64 bits (`Json.word?`).
* A **record** is an object whose keys name the fields, or an array of all the fields in order
  (`Json.field?`).  Keys that name no field are ignored.
* A **variant** is an object with one key, the name of the variant, and its payload as the value.
  The name on its own stands for a variant whose payload is `null` (`Json.variant?`).

Each view hands out its results as a `Json.Part`, together with the fact that they weigh less than
the value they were taken from, which is why readers that recurse through parts end.
-/

namespace Augment

/-- A JSON value. -/
inductive Json where
  | null
  | bool (value : Bool)
  | int (value : Int)
  /-- A number that was written with a fraction or an exponent: `mantissa / 10 ^ places`.  It is no
  integer, whatever its value. -/
  | decimal (mantissa : Int) (places : Nat)
  | str (value : String)
  | arr (items : List Json)
  | obj (fields : List (String × Json))
deriving Repr, Inhabited

namespace Json

/-! ### Words -/

/-- The number of machine words. -/
def wordLimit : Nat := UInt64.size

/-- A natural number. -/
def ofNat (n : Nat) : Json :=
  int n

/-- The value of an integer of 64 bits without sign. -/
def word? : Json → Option Nat
  | int (.ofNat n) => if n < wordLimit then some n else none
  | _ => none

/-- **Words are read back.** -/
theorem word?_ofNat {n : Nat} (h : n < wordLimit) : (ofNat n).word? = some n :=
  if_pos h

/-- What is read as a word is one. -/
theorem lt_of_word? {j : Json} {n : Nat} (h : j.word? = some n) : n < wordLimit := by
  unfold word? at h
  split at h
  · split at h <;> simp_all
  · simp at h

/-- A word of flags or a size. -/
def uint64? (j : Json) : Option UInt64 :=
  j.word?.map UInt64.ofNat

/-- **Machine words are read back.** -/
@[simp] theorem uint64?_ofNat (n : UInt64) : (ofNat n.toNat).uint64? = some n := by
  simp [uint64?, word?_ofNat n.toNat_lt]

/-! ### Scalars and lists -/

/-- The value of a boolean. -/
def bool? : Json → Option Bool
  | bool value => some value
  | _ => none

/-- The value of a string. -/
def str? : Json → Option String
  | str value => some value
  | _ => none

/-- A value that may be absent; `null` stands for absence. -/
def ofOption {α : Type} (write : α → Json) : Option α → Json
  | none => null
  | some value => write value

/-- Reads a value that may be absent. -/
def option? {α : Type} (read : Json → Option α) : Json → Option (Option α)
  | null => some none
  | j => (read j).map some

/-- Reads every item of an array. -/
def list? {α : Type} (read : Json → Option α) : Json → Option (List α)
  | arr items => items.mapM read
  | _ => none

/-- **Lists are read back** if their items are. -/
theorem list?_map {α : Type} {read : Json → Option α} {write : α → Json} {values : List α}
    (h : ∀ value ∈ values, read (write value) = some value) :
    list? read (arr (values.map write)) = some values := by
  simp only [list?]
  induction values with
  | nil => rfl
  | cons value rest ih =>
    simp only [List.mem_cons, forall_eq_or_imp] at h
    simp [List.mapM_cons, h.1, ih h.2]

/-! ### Parts -/

mutual

/-- How much there is to read in a value: one for itself, unless it is `null`, and what its parts
come to. -/
def weight : Json → Nat
  | null => 0
  | bool _ | int _ | decimal _ _ | str _ => 1
  | arr items => itemsWeight items + 1
  | obj fields => fieldsWeight fields + 1

/-- How much there is to read in the items of an array. -/
def itemsWeight : List Json → Nat
  | [] => 0
  | item :: rest => item.weight + itemsWeight rest

/-- How much there is to read in the values of an object. -/
def fieldsWeight : List (String × Json) → Nat
  | [] => 0
  | (_, value) :: rest => value.weight + fieldsWeight rest

end

theorem weight_le_of_mem {item : Json} {items : List Json} (h : item ∈ items) :
    item.weight ≤ itemsWeight items := by
  induction items with
  | nil => simp at h
  | cons first rest ih =>
    rw [itemsWeight]
    rcases List.mem_cons.1 h with rfl | later
    · exact Nat.le_add_right _ _
    · exact Nat.le_trans (ih later) (Nat.le_add_left _ _)

/-- A value of less weight than another, in which it was found. -/
abbrev Part (whole : Nat) := { part : Json // part.weight < whole }

/-- A part of something is a part of anything heavier. -/
def Part.widen {small large : Nat} (h : small ≤ large) (part : Part small) : Part large :=
  ⟨part.1, Nat.lt_of_lt_of_le part.2 h⟩

@[simp] theorem Part.val_widen {small large : Nat} (h : small ≤ large) (part : Part small) :
    (part.widen h).1 = part.1 := rfl

/-- The value of the first field of a name. -/
def find? (key : String) : (fields : List (String × Json)) → Option (Part (fieldsWeight fields + 1))
  | [] => none
  | (name, value) :: rest =>
    if name = key then
      some ⟨value, by rw [fieldsWeight]; omega⟩
    else
      (find? key rest).map (.widen (by rw [fieldsWeight]; omega))

/-- The item at an index. -/
def item? : Nat → (items : List Json) → Option (Part (itemsWeight items + 1))
  | _, [] => none
  | 0, item :: _ => some ⟨item, by rw [itemsWeight]; omega⟩
  | index + 1, _ :: rest => (item? index rest).map (.widen (by rw [itemsWeight]; omega))

theorem find?_eq_lookup (key : String) (fields : List (String × Json)) :
    (find? key fields).map Subtype.val = fields.lookup key := by
  induction fields with
  | nil => rfl
  | cons field rest ih =>
    obtain ⟨name, value⟩ := field
    by_cases h : name = key
    · simp [find?, h, List.lookup_cons_self]
    · have apart : (key == name) = false := by simpa using Ne.symm h
      simpa [find?, h, List.lookup_cons, apart, Function.comp_def] using ih

theorem item?_eq_getElem? (index : Nat) (items : List Json) :
    (item? index items).map Subtype.val = items[index]? := by
  induction items generalizing index with
  | nil => cases index <;> rfl
  | cons item rest ih =>
    cases index with
    | zero => rfl
    | succ index => simpa [item?, Function.comp_def] using ih index

/-! ### Records -/

/-- The value of a field of an object. -/
def key? (j : Json) (key : String) : Option (Part j.weight) :=
  match j with
  | obj fields => (find? key fields).map (.widen (Nat.le_of_eq (by rw [weight])))
  | _ => none

/-- The value of a field of a record whose fields are known by name and order. -/
def field? (keys : List String) (j : Json) (key : String) : Option (Part j.weight) :=
  match j with
  | arr items =>
    if items.length = keys.length then
      (item? (keys.idxOf key) items).map (.widen (Nat.le_of_eq (by rw [weight])))
    else
      none
  | j => j.key? key

/-- The items of an array. -/
def items? (j : Json) : Option (List (Part j.weight)) :=
  match j with
  | arr items => some <| items.attach.map fun item =>
      ⟨item.1, by rw [weight]; exact Nat.lt_succ_of_le (weight_le_of_mem item.2)⟩
  | _ => none

/-- **Reading the parts of an array is reading its items.** -/
theorem items?_bind_mapM {α : Type} (read : Json → Option α) (j : Json) :
    (j.items?.bind fun items => items.mapM fun item => read item.1) = list? read j := by
  cases j with
  | arr items =>
    have parts : items.attach.map Subtype.val = items := by simp
    have read_parts : items.mapM read = items.attach.mapM (read ∘ Subtype.val) := by
      rw [← List.mapM_map, parts]
    simp only [items?, list?, Option.bind_some, List.mapM_map, read_parts]
    rfl
  | _ => rfl

/-- The value of a field that may be missing. -/
def orNull {whole : Nat} (part : Option (Part whole)) : Json :=
  (part.map Subtype.val).getD null

/-! ### Variants -/

/-- A variant without payload. -/
def variant (name : String) : Json :=
  str name

/-- A variant with payload. -/
def variantOf (name : String) (payload : Json) : Json :=
  obj [(name, payload)]

/-- The name and the payload of a variant. -/
def variant? (j : Json) : Option (String × Part j.weight) :=
  match j with
  | str name => some (name, ⟨null, by rw [weight, weight]; exact Nat.zero_lt_one⟩)
  | obj [(name, payload)] =>
    some (name, ⟨payload, by
      rw [weight, fieldsWeight, fieldsWeight]; exact Nat.lt_succ_self _⟩)
  | _ => none

/-- Reads a variant without payload from a list of names. -/
def choice? {α : Type} (names : List (String × α)) (j : Json) : Option α :=
  match j.variant? with
  | some (name, ⟨null, _⟩) => names.lookup name
  | _ => none

end Json

end Augment
