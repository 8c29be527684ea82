import Augment.Proofs.Synthesis

/-!
# Single accessors, part by part

`Spells` describes what is made for a class all of whose names are known.  Here nothing but the
name of a field needs to be known, and its type is passed on as it is, known or not:

* `MethodDecl.IsGetter`, `MethodDecl.IsSetter` and `MethodDecl.IsEmptyConstructor` say of a method
  with symbols which parts it has, its id apart;
* `Building.isGetter_getter` and its siblings say that the methods that are made have these parts;
* `Building.setter_captures_iff` says for *every* field when the parameter of a setter is the field
  that it assigns: never for a field whose name is known (`Building.setter_param_ne`), but for an
  unknown one, in a single case.
-/

namespace Augment

/-! ### The parts of a method that is made -/

/-- The getter of a field. -/
structure MethodDecl.IsGetter (names : Names) (field : FieldDecl Symbol)
    (decl : MethodDecl Symbol) : Prop where
  name : names.resolve? decl.name = some ("get" ++ Naming.capitalized (names.display field.name))
  modifiers : decl.modifiers = .ofAccess .publicAccess
  returnType : decl.returnType = some field.type
  params : decl.params = []
  body : decl.body = { indent := 1, stmts := [.ret (.ident field.name)] }
  markers : decl.markers = []

/-- The setter of a field.  Its parameter has the type of the field and a name of its own. -/
structure MethodDecl.IsSetter (names : Names) (field : FieldDecl Symbol)
    (decl : MethodDecl Symbol) : Prop where
  name : names.resolve? decl.name = some ("set" ++ Naming.capitalized (names.display field.name))
  modifiers : decl.modifiers = .ofAccess .publicAccess
  returnType : decl.returnType = some .void
  assigns : ∃ param : Symbol,
    names.resolve? param = some ("_" ++ names.display field.name) ∧
      decl.params = [{ name := param, type := field.type }] ∧
      decl.body =
        { indent := 1, stmts := [.exec (.assign (.ident field.name) (.ident param))] }
  markers : decl.markers = []

/-- The constructor without parameters that does nothing. -/
structure MethodDecl.IsEmptyConstructor (access : AccessLevel) (decl : MethodDecl Symbol) :
    Prop where
  name : decl.name = Names.init
  modifiers : decl.modifiers = .ofAccess access
  returnType : decl.returnType = none
  params : decl.params = []
  body : decl.body = {}
  markers : decl.markers = []

namespace MethodDecl

variable {names names' : Names} {field : FieldDecl Symbol} {decl : MethodDecl Symbol}
  {access : AccessLevel}

/-- A getter goes on to be one when the table of names grows. -/
theorem IsGetter.mono (h : decl.IsGetter names field) (le : names ≤ names')
    (known : names.Knows field.name) : decl.IsGetter names' field where
  name := by
    rw [Names.display_of_le le known]
    exact Names.resolve?_of_le le h.name
  modifiers := h.modifiers
  returnType := h.returnType
  params := h.params
  body := h.body
  markers := h.markers

/-- A setter goes on to be one when the table of names grows. -/
theorem IsSetter.mono (h : decl.IsSetter names field) (le : names ≤ names')
    (known : names.Knows field.name) : decl.IsSetter names' field where
  name := by
    rw [Names.display_of_le le known]
    exact Names.resolve?_of_le le h.name
  modifiers := h.modifiers
  returnType := h.returnType
  assigns := by
    obtain ⟨param, resolved, params, body⟩ := h.assigns
    rw [Names.display_of_le le known]
    exact ⟨param, Names.resolve?_of_le le resolved, params, body⟩
  markers := h.markers

/-- **No getter is taken for a constructor,** whatever its name is, because it returns something. -/
theorem IsGetter.not_isNullary (h : decl.IsGetter names field) :
    ¬(Member.method decl).IsNullary := by
  rintro ⟨-, returns, -⟩
  exact Option.some_ne_none _ (h.returnType.symm.trans returns)

theorem IsSetter.not_isNullary (h : decl.IsSetter names field) :
    ¬(Member.method decl).IsNullary := by
  rintro ⟨-, returns, -⟩
  exact Option.some_ne_none _ (h.returnType.symm.trans returns)

theorem IsEmptyConstructor.isNullary (h : decl.IsEmptyConstructor access) :
    (Member.method decl).IsNullary :=
  ⟨h.name, h.returnType, h.params⟩

end MethodDecl

/-! ### Methods with these parts are made -/

namespace Building

variable (field : FieldDecl Symbol) (maker : Maker)

theorem isGetter_getter (known : maker.names.Knows field.name) :
    (getter field maker).1.IsGetter (getter field maker).2.names field := by
  have le := Maker.names_le (makes_getter field maker).grows
  obtain ⟨entry, hentry⟩ : ∃ entry,
      maker.names.intern (Naming.getter (maker.names.display field.name)) = entry := ⟨_, rfl⟩
  have same := Names.display_of_le le known
  rw [getter_eq field maker hentry] at same ⊢
  refine ⟨?_, rfl, rfl, rfl, rfl, rfl⟩
  rw [same, ← hentry, ← Naming.getter_eq]
  exact Names.resolve?_intern _ _

theorem isSetter_setter (known : maker.names.Knows field.name) :
    (setter field maker).1.IsSetter (setter field maker).2.names field := by
  have le := Maker.names_le (makes_setter field maker).grows
  obtain ⟨param, hparam⟩ : ∃ param,
      maker.names.intern (Naming.setterParam (maker.names.display field.name)) = param := ⟨_, rfl⟩
  obtain ⟨entry, hentry⟩ : ∃ entry,
      param.2.intern (Naming.setter (maker.names.display field.name)) = entry := ⟨_, rfl⟩
  have same := Names.display_of_le le known
  rw [setter_eq field maker hparam hentry] at same ⊢
  refine ⟨?_, rfl, rfl, ⟨param.1, ?_, rfl, rfl⟩, rfl⟩
  · rw [same, ← hentry, ← Naming.setter_eq]
    exact Names.resolve?_intern _ _
  · -- the name of the method is interned later, which does not touch the parameter
    have resolved : param.2.resolve? param.1 =
        some (Naming.setterParam (maker.names.display field.name)) :=
      hparam ▸ Names.resolve?_intern _ _
    rw [same, ← hentry, ← Naming.setterParam_eq]
    exact Names.resolve?_of_le (Names.le_intern _ _) resolved

theorem isEmptyConstructor_noArgsConstructor (access : AccessLevel) :
    (noArgsConstructor access maker).1.IsEmptyConstructor access :=
  ⟨rfl, rfl, rfl, rfl, rfl, rfl⟩

end Building

/-! ### Parameters and the fields that they are assigned to -/

/-- **When the parameter for a symbol is that symbol.** The spelling of the parameter is longer, so
it is not an older name of the symbol; but a symbol without a name may be the next to get one. -/
theorem Names.intern_setterParam_eq_iff (names : Names) (s : Symbol) :
    (names.intern (Naming.setterParam (names.display s))).1 = s ↔
      s = names.next ∧ names.symbolOf? (Naming.setterParam (names.display s)) = none := by
  rw [intern_fst]
  cases entered : names.symbolOf? (Naming.setterParam (names.display s)) with
  | none => simp [eq_comm]
  | some symbol =>
    have apart : symbol ≠ s := by
      rintro rfl
      have spelled := display_of_resolve? (resolve?_of_symbolOf? entered)
      exact Naming.setterParam_ne _ spelled.symm
    simp [apart]

namespace Building

variable (field : FieldDecl Symbol) (maker : Maker)

/-- **When a setter assigns its own parameter to itself.** A setter has one parameter and assigns
it to the field.  The two are the same symbol in one case only: the table cannot spell the name of
the field, this name is the very next symbol, and the placeholder that stands for it has not been
used for a parameter before.  The parameter is then interned as that symbol. -/
theorem setter_captures_iff :
    ∃ param : Symbol,
      (setter field maker).1.params = [{ name := param, type := field.type }] ∧
      (setter field maker).1.body =
        { indent := 1, stmts := [.exec (.assign (.ident field.name) (.ident param))] } ∧
      (param = field.name ↔ field.name = maker.names.next ∧
        maker.names.symbolOf? ("_" ++ maker.names.display field.name) = none) := by
  obtain ⟨param, hparam⟩ : ∃ param,
      maker.names.intern (Naming.setterParam (maker.names.display field.name)) = param := ⟨_, rfl⟩
  refine ⟨param.1, ?_, ?_, ?_⟩
  · rw [setter_eq field maker hparam rfl]
  · rw [setter_eq field maker hparam rfl]
  · rw [← hparam]
    exact maker.names.intern_setterParam_eq_iff field.name

/-- The parameter is not kept apart from every field: at the start, symbol `1` is the next one, and
the setter of a field of that name has it for its parameter. -/
theorem not_forall_setter_param_ne :
    ¬∀ (field : FieldDecl Symbol) (maker : Maker), ∃ param : Symbol,
      (setter field maker).1.params = [{ name := param, type := field.type }] ∧
      (setter field maker).1.body.stmts =
        [.exec (.assign (.ident field.name) (.ident param))] ∧
      param ≠ field.name := by
  intro apart
  obtain ⟨param, params, -, ne⟩ := apart
    { id := ⟨0⟩, name := ⟨1⟩, type := .void, modifiers := .none, markers := [] } {}
  have fresh : (Names.initial.intern "_<symbol:1>").1 = ⟨1⟩ := by decide +kernel
  apply ne
  rw [setter_eq _ _ rfl rfl] at params
  injection params with param _
  injection param with param _
  exact param.symm.trans fresh

/-- **A field whose name is known is not hidden by the parameter of its setter.** -/
theorem setter_param_ne (known : maker.names.Knows field.name) :
    ∀ param ∈ (setter field maker).1.params, param.name ≠ field.name := by
  rw [setter_eq field maker rfl rfl, List.forall_mem_singleton]
  intro same
  exact known.ne_next ((maker.names.intern_setterParam_eq_iff field.name).mp same).1

end Building

end Augment
