import Augment.Proofs.NormalForm

/-!
# What accessor strategies append

`Strategy.Appends` says all that a strategy does that makes one method for each field: to the class,
to the ids and to the names.  Names of fields, of other members and of accessors may coincide, so a
spelling that is needed can be there already; the new spellings are therefore those needed, *less*
those that are known, each once (`Names.spellings_internAll`).

A single method for a field is described by `Synthesizes`: what is made, and which spellings are
taken for it, in which order.  While the fields are gone through, the table that their names are
read from is the very table that grows.  As a name that is known is never revised, the spellings
that are needed can be read off the table at the start (`Synthesizes.names_mapM`).

`Strategy.appends_accessors` is the account for getters and setters.
-/

namespace Augment

/-! ### One method for a field -/

/-- A method for a field is made like this: what `Is` says of it, after the spellings in `needs`
were interned, in order. -/
structure Synthesizes (Is : Names → FieldDecl Symbol → MethodDecl Symbol → Prop)
    (needs : String → List String)
    (synthesize : FieldDecl Symbol → Building (MethodDecl Symbol)) : Prop where
  makes : ∀ field maker, Makes maker (synthesize field maker).2 [(synthesize field maker).1]
  is : ∀ field maker, maker.names.Knows field.name →
    Is (synthesize field maker).2.names field (synthesize field maker).1
  /-- What is made stays what it is when more names come up. -/
  mono : ∀ names names' field decl, Is names field decl → names ≤ names' →
    names.Knows field.name → Is names' field decl
  interns : ∀ field maker, (synthesize field maker).2.names =
    maker.names.internAll (needs (maker.names.display field.name))

/-- The spellings that a getter takes. -/
def Naming.getterNeeds (field : String) : List String :=
  ["get" ++ capitalized field]

/-- The spellings that a setter takes: that of its parameter comes first. -/
def Naming.setterNeeds (field : String) : List String :=
  ["_" ++ field, "set" ++ capitalized field]

theorem Building.synthesizes_getter :
    Synthesizes MethodDecl.IsGetter Naming.getterNeeds Building.getter where
  makes := Building.makes_getter
  is := Building.isGetter_getter
  mono _ _ _ _ is le known := is.mono le known
  interns _ _ := by
    rw [Naming.getterNeeds, ← Naming.getter_eq]
    rfl

theorem Building.synthesizes_setter :
    Synthesizes MethodDecl.IsSetter Naming.setterNeeds Building.setter where
  makes := Building.makes_setter
  is := Building.isSetter_setter
  mono _ _ _ _ is le known := is.mono le known
  interns _ _ := by
    rw [Naming.setterNeeds, ← Naming.setterParam_eq, ← Naming.setter_eq]
    rfl

/-! ### One method for each field -/

section PerField

variable {Is : Names → FieldDecl Symbol → MethodDecl Symbol → Prop} {needs : String → List String}
  {synthesize : FieldDecl Symbol → Building (MethodDecl Symbol)}

/-- **The names that are taken for all fields** are those that each field needs, by the spelling
that it has at the start. -/
theorem Synthesizes.names_mapM (h : Synthesizes Is needs synthesize)
    (fields : List (FieldDecl Symbol)) (maker : Maker)
    (known : ∀ field ∈ fields, maker.names.Knows field.name) :
    (fields.mapM synthesize maker).2.names =
      maker.names.internAll
        (fields.flatMap fun field => needs (maker.names.display field.name)) := by
  induction fields generalizing maker with
  | nil => rfl
  | cons field rest ih =>
    rw [List.forall_mem_cons] at known
    have le := Maker.names_le (h.makes field maker).grows
    have later := ih (synthesize field maker).2 fun other ho => (known.2 other ho).mono le
    -- the first field has extended the table, which spells the other fields as before
    have same : (rest.flatMap fun other =>
          needs ((synthesize field maker).2.names.display other.name)) =
        rest.flatMap fun other => needs (maker.names.display other.name) :=
      List.flatMap_congr fun other ho => by rw [Names.display_of_le le (known.2 other ho)]
    rw [mapM_cons_apply, later, same, h.interns, List.flatMap_cons, Names.internAll_append]

/-- **All that a strategy does that makes one method for each field,** where `Is` tells which method
a field gets, and `needs` which spellings are taken for it. -/
structure Strategy.Appends (Is : Names → FieldDecl Symbol → MethodDecl Symbol → Prop)
    (needs : String → List String) (strategy : Strategy) (decl : ClassDecl Symbol) (maker : Maker)
    (made : List (MethodDecl Symbol)) : Prop where
  /-- The new methods come after all members, and nothing else about the class changes. -/
  decl_eq : (strategy decl maker).1.decl =
    { decl with members := decl.members ++ made.map .method }
  /-- Each field of the class itself gets one method, in order. -/
  each : List.Forall₂ (Is (strategy decl maker).2.names) decl.fields made
  /-- The only flag of a new method is `public`. -/
  bits : ∀ method ∈ made, method.modifiers.bits = 1
  /-- The names of the new methods are handed back, in order. -/
  generated : (strategy decl maker).1.generated = made.map (·.name)
  /-- The ids of the new methods are the next free ones, in order. -/
  ids : made.map (·.id.index) = List.range' maker.nextDecl decl.fields.length
  nextDecl : (strategy decl maker).2.nextDecl = maker.nextDecl + decl.fields.length
  /-- Spellings that are needed and were not there come after those that were, each once. -/
  spellings : (strategy decl maker).2.names.spellings =
    maker.names.spellings ++
      ((decl.fields.flatMap fun field => needs (maker.names.display field.name)).removeAll
        maker.names.spellings).eraseDups
  /-- No symbol changes its meaning. -/
  grows : maker.names ≤ (strategy decl maker).2.names

/-- What the new methods are called can be read off the names that are handed back. -/
theorem Strategy.Appends.map_name_made {strategy : Strategy} {decl : ClassDecl Symbol}
    {maker : Maker} {made : List (MethodDecl Symbol)}
    (h : strategy.Appends Is needs decl maker made) {spell : Symbol → String} :
    made.map (fun method => spell method.name) = (strategy decl maker).1.generated.map spell := by
  rw [h.generated, List.map_map]
  rfl

theorem Synthesizes.appends (h : Synthesizes Is needs synthesize)
    (isPublic : ∀ names field decl, Is names field decl → decl.modifiers.bits = 1)
    (event : Nat → Event) (decl : ClassDecl Symbol) (maker : Maker)
    (known : ∀ field ∈ decl.fields, maker.names.Knows field.name) :
    Strategy.Appends Is needs (Strategy.perField synthesize event) decl maker
      (decl.fields.mapM synthesize maker).1 := by
  have makes := makes_mapM h.makes decl.fields maker
  have each := forall₂_mapM h.makes h.is h.mono decl.fields maker known
  have length := each.length_eq
  exact
    { decl_eq := rfl
      each := each
      bits := forall_mem_of_forall₂ each (isPublic _)
      generated := rfl
      ids := length ▸ makes.ids
      nextDecl := length ▸ makes.nextDecl
      spellings := by
        have names := h.names_mapM decl.fields maker known
        rw [← Names.spellings_internAll, ← names]
        rfl
      grows := Maker.names_le makes.grows }

end PerField

/-! ### Getters and setters -/

namespace Strategy

/-- **What getters and setters do to a class whose fields have known names,** and to nothing else.
The types of the fields are passed on, known or not, and classes inside are not looked at. -/
theorem appends_accessors (decl : ClassDecl Symbol) (maker : Maker)
    (known : ∀ field ∈ decl.fields, maker.names.Knows field.name) :
    (∃ made, Appends MethodDecl.IsGetter Naming.getterNeeds getters decl maker made) ∧
      ∃ made, Appends MethodDecl.IsSetter Naming.setterNeeds setters decl maker made := by
  constructor
  · refine ⟨_, Building.synthesizes_getter.appends (fun _ _ method is => ?_) _ decl maker known⟩
    rw [is.modifiers]
    rfl
  · refine ⟨_, Building.synthesizes_setter.appends (fun _ _ method is => ?_) _ decl maker known⟩
    rw [is.modifiers]
    rfl

/-- The fields `x` and `X` share the names of their accessors, one of which a method of the class
has already; a class inside has a field of its own. -/
theorem appends_accessors_shared :
    ∃ (decl : ClassDecl Symbol) (maker : Maker),
      (∀ field ∈ decl.fields, maker.names.Knows field.name) ∧
      maker.names.spellings = ["<init>", "x", "X", "price", "getX", "y", "B", "A"] ∧
      (∃ made, Appends MethodDecl.IsGetter Naming.getterNeeds getters decl maker made ∧
        made.map (fun method => (getters decl maker).2.names.display method.name) =
          ["getX", "getX", "getPrice"]) ∧
      (getters decl maker).2.names.spellings = maker.names.spellings ++ ["getPrice"] ∧
      (∃ made, Appends MethodDecl.IsSetter Naming.setterNeeds setters decl maker made ∧
        made.map (fun method => (setters decl maker).2.names.display method.name) =
          ["setX", "setX", "setPrice"]) ∧
      (setters decl maker).2.names.spellings =
        maker.names.spellings ++ ["_x", "setX", "_X", "_price", "setPrice"] := by
  let program : Building (ClassDecl Symbol) := do
    let x ← Building.field (← Building.name "x") (.named ⟨77⟩)
    let x' ← Building.field (← Building.name "X") .void
    let price ← Building.field (← Building.name "price") .void
    let old ← Building.method (← Building.name "getX") (some .void)
    let y ← Building.field (← Building.name "y") .void
    let inner ← Building.type (← Building.name "B") .classType .none [] [.field y]
    Building.type (← Building.name "A") .classType .none []
      [.field x, .method old, .nested inner, .field x', .field price]
  let made := program {}
  have known : ∀ field ∈ made.1.fields, made.2.names.Knows field.name := by decide
  have spellings : made.2.names.spellings =
      ["<init>", "x", "X", "price", "getX", "y", "B", "A"] := by decide +kernel
  obtain ⟨⟨got, gets⟩, set, sets⟩ := appends_accessors made.1 made.2 known
  -- the names that are handed back are those of the new methods
  have getterNames :
      (getters made.1 made.2).1.generated.map (getters made.1 made.2).2.names.display =
        ["getX", "getX", "getPrice"] := by decide +kernel
  have setterNames :
      (setters made.1 made.2).1.generated.map (setters made.1 made.2).2.names.display =
        ["setX", "setX", "setPrice"] := by decide +kernel
  refine ⟨made.1, made.2, known, spellings, ⟨got, gets, gets.map_name_made.trans getterNames⟩, ?_,
    ⟨set, sets, sets.map_name_made.trans setterNames⟩, ?_⟩
  · rw [gets.spellings, spellings]
    decide +kernel
  · rw [sets.spellings, spellings]
    decide +kernel

end Strategy

end Augment
