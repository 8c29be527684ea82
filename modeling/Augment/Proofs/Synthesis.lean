import Augment.Proofs.Augmentation

/-!
# What the making of members leaves behind

The strategies make methods while a maker gives out names and ids.  What they make has two sides.
`Makes` holds for every class, known names or not: the maker grows, and the new methods have the
next free ids in order and no markers.  `Spells` needs the names of the fields to be known: the new
methods then read as the ones that the marker asks for (`Marker.additions`), and all their names are
known.

`Marker.strategy_spec` puts both together for the three strategies: of the members some are kept
(`Marker.kept`), and the new methods come after them.
-/

namespace Augment

/-- The methods `made` were made between two states of the maker. -/
structure Makes (maker maker' : Maker) (made : List (MethodDecl Symbol)) : Prop where
  grows : maker ≤ maker'
  ids : made.map (·.id.index) = List.range' maker.nextDecl made.length
  nextDecl : maker'.nextDecl = maker.nextDecl + made.length
  unmarked : ∀ decl ∈ made, decl.markers = []

/-- The methods `made` have known names only, and read as `expected`. -/
structure Spells (names : Names) (made : List (MethodDecl Symbol))
    (expected : List (MethodDecl String)) : Prop where
  known : ∀ decl ∈ made, ∀ s ∈ decl.names, names.Knows s
  spelled : made.map (fun decl => (decl.map names.display).withoutId) = expected

namespace Makes

variable {maker maker' maker'' : Maker}

theorem nil (maker : Maker) : Makes maker maker [] :=
  ⟨le_refl maker, rfl, rfl, by simp⟩

theorem cons {decl : MethodDecl Symbol} {rest : List (MethodDecl Symbol)}
    (first : Makes maker maker' [decl]) (later : Makes maker' maker'' rest) :
    Makes maker maker'' (decl :: rest) where
  grows := le_trans first.grows later.grows
  ids := by
    have h := first.ids
    have hn := first.nextDecl
    simp only [List.map_cons, List.map_nil, List.length_singleton, List.range'_one,
      List.cons.injEq, and_true] at h hn
    rw [List.map_cons, later.ids, h, hn, List.length_cons, List.range'_succ]
  nextDecl := by
    have h := first.nextDecl
    have h' := later.nextDecl
    simp only [List.length_cons, List.length_nil] at h h' ⊢
    omega
  unmarked := List.forall_mem_cons.mpr
    ⟨first.unmarked _ (List.mem_singleton_self _), later.unmarked⟩

end Makes

namespace Spells

variable {names names' : Names} {made : List (MethodDecl Symbol)}
  {expected : List (MethodDecl String)}

theorem nil (names : Names) : Spells names [] [] :=
  ⟨by simp, rfl⟩

/-- Methods go on to read the same when the table of names grows. -/
theorem mono (h : Spells names made expected) (le : names ≤ names') :
    Spells names' made expected where
  known decl hd s hs := (h.known decl hd s hs).mono le
  spelled := by
    rw [← h.spelled]
    refine List.map_congr_left fun decl hd => ?_
    have same : decl.map names'.display = decl.map names.display :=
      MethodDecl.map_congr fun s hs => Names.display_of_le le (h.known decl hd s hs)
    rw [same]

theorem cons {decl : MethodDecl Symbol} {expected' : MethodDecl String}
    (first : Spells names [decl] [expected']) (later : Spells names made expected) :
    Spells names (decl :: made) (expected' :: expected) where
  known := List.forall_mem_cons.mpr
    ⟨first.known _ (List.mem_singleton_self _), later.known⟩
  spelled := by
    have h := first.spelled
    simp only [List.map_cons, List.map_nil, List.cons.injEq, and_true] at h
    rw [List.map_cons, h, later.spelled]

end Spells

/-! ### Single members -/

namespace Building

variable (field : FieldDecl Symbol) (maker : Maker)

theorem getter_eq {entry : Symbol × Names}
    (h : maker.names.intern (Naming.getter (maker.names.display field.name)) = entry) :
    getter field maker =
      ({ id := ⟨maker.nextDecl⟩
         name := entry.1
         modifiers := .ofAccess .publicAccess
         returnType := some field.type
         params := []
         body := { indent := 1, stmts := [.ret (.ident field.name)] }
         markers := [] },
        { names := entry.2, nextDecl := maker.nextDecl + 1 }) := by
  subst h
  rfl

theorem makes_getter : Makes maker (getter field maker).2 [(getter field maker).1] where
  grows := ⟨Names.le_intern _ _, Nat.le_succ _⟩
  ids := rfl
  nextDecl := rfl
  unmarked := by simp [getter_eq field maker rfl]

theorem spells_getter (known : ∀ s ∈ field.names, maker.names.Knows s) :
    Spells (getter field maker).2.names [(getter field maker).1]
      [(field.map maker.names.display).getter] := by
  simp only [FieldDecl.names, List.forall_mem_cons] at known
  obtain ⟨nameKnown, typeKnown⟩ := known
  obtain ⟨entry, hentry⟩ : ∃ entry,
      maker.names.intern (Naming.getter (maker.names.display field.name)) = entry := ⟨_, rfl⟩
  have le : maker.names ≤ entry.2 := hentry ▸ Names.le_intern _ _
  have resolved : entry.2.resolve? entry.1 =
      some (Naming.getter (maker.names.display field.name)) := hentry ▸ Names.resolve?_intern _ _
  have type : field.type.map entry.2.display = field.type.map maker.names.display :=
    TypeRef.map_congr fun s hs => Names.display_of_le le (typeKnown s hs)
  rw [getter_eq field maker hentry]
  constructor
  · simp only [List.forall_mem_singleton, MethodDecl.names, Block.names, Option.toList_some,
      List.flatMap_cons, List.flatMap_nil, List.append_nil, Stmt.names, Expr.names,
      List.forall_mem_cons, List.forall_mem_append, List.not_mem_nil, false_implies, implies_true,
      and_true]
    exact ⟨by simp [Names.Knows, resolved], fun s hs => (typeKnown s hs).mono le,
      nameKnown.mono le⟩
  · simp [MethodDecl.map, MethodDecl.withoutId, FieldDecl.getter, FieldDecl.map, Block.map,
      Stmt.map, Expr.map, type, Names.display_of_resolve? resolved,
      Names.display_of_le le nameKnown, Naming.getter_eq]

theorem setter_eq {param entry : Symbol × Names}
    (hparam : maker.names.intern (Naming.setterParam (maker.names.display field.name)) = param)
    (hentry : param.2.intern (Naming.setter (maker.names.display field.name)) = entry) :
    setter field maker =
      ({ id := ⟨maker.nextDecl⟩
         name := entry.1
         modifiers := .ofAccess .publicAccess
         returnType := some .void
         params := [{ name := param.1, type := field.type }]
         body := { indent := 1, stmts := [.exec (.assign (.ident field.name) (.ident param.1))] }
         markers := [] },
        { names := entry.2, nextDecl := maker.nextDecl + 1 }) := by
  subst hentry hparam
  rfl

theorem makes_setter : Makes maker (setter field maker).2 [(setter field maker).1] where
  grows := ⟨le_trans (Names.le_intern _ _) (Names.le_intern _ _), Nat.le_succ _⟩
  ids := rfl
  nextDecl := rfl
  unmarked := by simp [setter_eq field maker rfl rfl]

theorem spells_setter (known : ∀ s ∈ field.names, maker.names.Knows s) :
    Spells (setter field maker).2.names [(setter field maker).1]
      [(field.map maker.names.display).setter] := by
  simp only [FieldDecl.names, List.forall_mem_cons] at known
  obtain ⟨nameKnown, typeKnown⟩ := known
  obtain ⟨param, hparam⟩ : ∃ param,
      maker.names.intern (Naming.setterParam (maker.names.display field.name)) = param := ⟨_, rfl⟩
  obtain ⟨entry, hentry⟩ : ∃ entry,
      param.2.intern (Naming.setter (maker.names.display field.name)) = entry := ⟨_, rfl⟩
  have leParam : param.2 ≤ entry.2 := hentry ▸ Names.le_intern _ _
  have le : maker.names ≤ entry.2 := le_trans (hparam ▸ Names.le_intern _ _) leParam
  have resolvedParam : entry.2.resolve? param.1 =
      some (Naming.setterParam (maker.names.display field.name)) :=
    Names.resolve?_of_le leParam (hparam ▸ Names.resolve?_intern _ _)
  have resolved : entry.2.resolve? entry.1 =
      some (Naming.setter (maker.names.display field.name)) := hentry ▸ Names.resolve?_intern _ _
  have type : field.type.map entry.2.display = field.type.map maker.names.display :=
    TypeRef.map_congr fun s hs => Names.display_of_le le (typeKnown s hs)
  rw [setter_eq field maker hparam hentry]
  constructor
  · have paramKnown : entry.2.Knows param.1 := by simp [Names.Knows, resolvedParam]
    simp only [List.forall_mem_singleton, MethodDecl.names, Block.names, Option.toList_some,
      List.flatMap_cons, List.flatMap_nil, List.append_nil, List.nil_append, Stmt.names, Expr.names,
      Param.names, TypeRef.names_void, List.cons_append, List.forall_mem_cons,
      List.forall_mem_append, List.not_mem_nil, false_implies, implies_true, true_and]
    exact ⟨by simp [Names.Knows, resolved],
      ⟨paramKnown, fun s hs => (typeKnown s hs).mono le⟩, nameKnown.mono le, paramKnown⟩
  · simp [MethodDecl.map, MethodDecl.withoutId, FieldDecl.setter, FieldDecl.map, Block.map,
      Stmt.map, Expr.map, Param.map, type, Names.display_of_resolve? resolved,
      Names.display_of_resolve? resolvedParam, Names.display_of_le le nameKnown, Naming.setter_eq,
      Naming.setterParam_eq]

theorem noArgsConstructor_eq (access : AccessLevel) :
    noArgsConstructor access maker =
      ({ id := ⟨maker.nextDecl⟩
         name := Names.init
         modifiers := .ofAccess access
         returnType := none
         params := []
         body := {}
         markers := [] },
        { maker with nextDecl := maker.nextDecl + 1 }) := rfl

theorem makes_noArgsConstructor (access : AccessLevel) :
    Makes maker (noArgsConstructor access maker).2 [(noArgsConstructor access maker).1] where
  grows := ⟨le_refl maker.names, Nat.le_succ _⟩
  ids := rfl
  nextDecl := rfl
  unmarked := by simp [noArgsConstructor_eq]

theorem spells_noArgsConstructor (access : AccessLevel) :
    Spells (noArgsConstructor access maker).2.names [(noArgsConstructor access maker).1]
      [.emptyConstructor access] := by
  rw [noArgsConstructor_eq]
  constructor
  · simp [MethodDecl.names, Block.names, Names.knows_init]
  · simp [MethodDecl.map, MethodDecl.withoutId, MethodDecl.emptyConstructor, Block.map]

end Building

/-! ### One member for each field -/

section PerField

variable {synthesize : FieldDecl Symbol → Building (MethodDecl Symbol)}

theorem mapM_cons_apply (field : FieldDecl Symbol) (rest : List (FieldDecl Symbol))
    (maker : Maker) :
    (field :: rest).mapM synthesize maker =
      ((synthesize field maker).1 :: (rest.mapM synthesize (synthesize field maker).2).1,
        (rest.mapM synthesize (synthesize field maker).2).2) := by
  rw [List.mapM_cons]
  rfl

theorem makes_mapM
    (one : ∀ field maker, Makes maker (synthesize field maker).2 [(synthesize field maker).1])
    (fields : List (FieldDecl Symbol)) (maker : Maker) :
    Makes maker (fields.mapM synthesize maker).2 (fields.mapM synthesize maker).1 := by
  induction fields generalizing maker with
  | nil => exact Makes.nil maker
  | cons field rest ih =>
    rw [mapM_cons_apply]
    exact (one field maker).cons (ih _)

theorem spells_mapM {expected : FieldDecl String → MethodDecl String}
    (one : ∀ field maker, Makes maker (synthesize field maker).2 [(synthesize field maker).1])
    (reads : ∀ field maker, (∀ s ∈ field.names, maker.names.Knows s) →
      Spells (synthesize field maker).2.names [(synthesize field maker).1]
        [expected (field.map maker.names.display)])
    (fields : List (FieldDecl Symbol)) (maker : Maker)
    (known : ∀ field ∈ fields, ∀ s ∈ field.names, maker.names.Knows s) :
    Spells (fields.mapM synthesize maker).2.names (fields.mapM synthesize maker).1
      (fields.map fun field => expected (field.map maker.names.display)) := by
  induction fields generalizing maker with
  | nil => exact Spells.nil maker.names
  | cons field rest ih =>
    -- later fields are read with a table that has grown, which makes no difference
    rw [List.forall_mem_cons] at known
    have le := Maker.names_le (one field maker).grows
    have later := ih (synthesize field maker).2 fun f hf s hs => (known.2 f hf s hs).mono le
    have same : rest.map (fun f => expected (f.map (synthesize field maker).2.names.display)) =
        rest.map (fun f => expected (f.map maker.names.display)) :=
      List.map_congr_left fun f hf => congrArg expected <|
        FieldDecl.map_congr fun s hs => Names.display_of_le le (known.2 f hf s hs)
    have le' := Maker.names_le (makes_mapM one rest (synthesize field maker).2).grows
    rw [mapM_cons_apply, List.map_cons]
    exact ((reads field maker known.1).mono le').cons (same ▸ later)

end PerField

/-! ### Strategies -/

/-- **What the strategy of a marker makes of a class.** Some members are kept, new methods come
after them, and if the names of the fields are known, the new methods are those asked for. -/
theorem Marker.strategy_spec (marker : Marker) (decl : ClassDecl Symbol) (maker : Maker) :
    ∃ made, Makes maker (marker.strategy decl maker).2 made ∧
      (marker.strategy decl maker).1.decl.members =
        marker.kept decl.members ++ made.map Member.method ∧
      (marker.strategy decl maker).1.generated = made.map (·.name) ∧
      ((∀ field ∈ decl.fields, ∀ s ∈ field.names, maker.names.Knows s) →
        Spells (marker.strategy decl maker).2.names made
          (marker.additions (decl.fields.map (·.map maker.names.display)))) := by
  cases marker with
  | getter =>
    refine ⟨(decl.fields.mapM Building.getter maker).1,
      makes_mapM Building.makes_getter decl.fields maker, rfl, rfl, fun known => ?_⟩
    rw [additions, List.map_map]
    exact spells_mapM Building.makes_getter Building.spells_getter decl.fields maker known
  | setter =>
    refine ⟨(decl.fields.mapM Building.setter maker).1,
      makes_mapM Building.makes_setter decl.fields maker, rfl, rfl, fun known => ?_⟩
    rw [additions, List.map_map]
    exact spells_mapM Building.makes_setter Building.spells_setter decl.fields maker known
  | noArgsConstructor access =>
    refine ⟨[(Building.noArgsConstructor access maker).1],
      Building.makes_noArgsConstructor maker access, ?_, rfl,
      fun _ => Building.spells_noArgsConstructor maker access⟩
    rw [kept_noArgsConstructor]
    rfl

/-! ### Declarations of a class after a strategy -/

section Members

variable {ν : Type} [DecidableEq ν] [InitName ν]

theorem Marker.kept_sublist (marker : Marker) (members : List (Member ν)) :
    (marker.kept members).Sublist members := by
  cases marker with
  | getter => exact .refl _
  | setter => exact .refl _
  | noArgsConstructor access => exact List.filter_sublist

/-- The members that a strategy takes away are methods, so a choice of members that are no methods
does not miss them. -/
theorem Marker.kept_filterMap {α : Type} {choose : Member ν → Option α}
    (h : ∀ decl, choose (.method decl) = none) (marker : Marker) (members : List (Member ν)) :
    (marker.kept members).filterMap choose = members.filterMap choose := by
  cases marker with
  | getter => rfl
  | setter => rfl
  | noArgsConstructor access =>
    rw [kept, List.filterMap_filter]
    refine List.filterMap_congr fun member _ => ?_
    cases member with
    | field decl => rfl
    | nested decl => rfl
    | method decl =>
      rw [h]
      exact ite_self none

theorem Marker.kept_flatMap_postorder (marker : Marker) (members : List (Member ν)) :
    (marker.kept members).flatMap Member.postorder = members.flatMap Member.postorder := by
  rw [← ClassDecl.nested_flatMap_postorder, Marker.kept_filterMap fun _ => rfl,
    ClassDecl.nested_flatMap_postorder]

/-- **A strategy leaves the classes in a class alone.** -/
theorem ClassDecl.persistAll_kept (marker : Marker) (decl : ClassDecl ν)
    (made : List (MethodDecl ν)) (kind : decl.kind = .classType) :
    PersistAll decl.postorder
      ({ decl with members := marker.kept decl.members ++ made.map .method } :
        ClassDecl ν).postorder := by
  have methods : (made.map Member.method).flatMap Member.postorder = [] := by
    simp [Member.postorder]
  rw [postorder_eq_members, postorder_eq_members, List.flatMap_append,
    Marker.kept_flatMap_postorder, methods, List.append_nil]
  exact List.rel_append (PersistAll.refl _) (.cons ⟨rfl, fun other => absurd kind other⟩ .nil)

theorem ClassDecl.nodes_kept (marker : Marker) (decl : ClassDecl ν) (made : List (MethodDecl ν)) :
    ({ decl with members := marker.kept decl.members ++ made.map .method } : ClassDecl ν).nodes =
      decl.node :: ((marker.kept decl.members).flatMap Member.nodes ++ made.map .method) := by
  have methods : (made.map Member.method).flatMap Member.nodes = made.map .method := by
    rw [List.flatMap_map]
    exact List.flatMap_pure_eq_map _ _
  rw [ClassDecl.nodes_eq, List.flatMap_append, methods]
  rfl

end Members

end Augment
