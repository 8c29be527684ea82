import Augment.Json.Settings
import Augment.Proofs.Tree.Nodes

/-!
# Reading back what was written

Trees and settings are not changed by a trip through JSON (`Json.roundTrips_forms`).  The trip has
two directions.  What is written for a value is read as that value, if its ids and symbols are
words: in a tree they are natural numbers, of which JSON takes those below 2⁶⁴.  And whatever is
read, from any of the spellings that a reader accepts, is such a value; so writing it once settles
how it is spelled.

Both directions are kept together as a *faithful* form (`Json.Faithful`), which passes from the
parts of a type to the type: to lists and optional values (`Faithful.list`, `Faithful.option`), and
from node to node.  Expressions and classes hold parts of their own type.  There the first direction
is an induction over the tree, the second one over the reader, whose calls go to lighter values.
-/

namespace Augment

/-! ### Ranges -/

/-- All of the symbols are words. -/
def Symbol.Words (symbols : List Symbol) : Prop :=
  ∀ symbol ∈ symbols, symbol.key < Json.wordLimit

/-- All ids and symbols of the declarations are words. -/
def Node.Words (nodes : List (Node Symbol)) : Prop :=
  ∀ node ∈ nodes, node.id.index < Json.wordLimit ∧ Symbol.Words node.names

instance (symbols : List Symbol) : Decidable (Symbol.Words symbols) :=
  inferInstanceAs (Decidable (∀ symbol ∈ symbols, symbol.key < Json.wordLimit))

instance (nodes : List (Node Symbol)) : Decidable (Node.Words nodes) :=
  inferInstanceAs (Decidable (∀ node ∈ nodes,
    node.id.index < Json.wordLimit ∧ Symbol.Words node.names))

/-! ### Faithful forms -/

/-- Every value of a list that was read was read from some item. -/
theorem exists_of_mem_mapM {α β : Type} {read : α → Option β} {items : List α} {values : List β}
    (h : items.mapM read = some values) :
    ∀ value ∈ values, ∃ item ∈ items, read item = some value := by
  induction items generalizing values with
  | nil =>
    obtain rfl : values = [] := by simpa [eq_comm] using h
    simp
  | cons item rest ih =>
    rw [List.mapM_cons] at h
    obtain ⟨first, hf, h⟩ := Option.bind_eq_some_iff.mp h
    obtain ⟨others, ho, h⟩ := Option.bind_eq_some_iff.mp h
    obtain rfl := Option.some.inj h
    intro value hv
    rcases List.mem_cons.mp hv with rfl | hv
    · exact ⟨item, List.mem_cons_self, hf⟩
    · obtain ⟨later, hl, hr⟩ := ih ho value hv
      exact ⟨later, List.mem_cons_of_mem _ hl, hr⟩

namespace Json

/-- **A faithful form** of the values in a range: each of them is read back, and no others are
read. -/
structure Faithful {α : Type} (write : α → Json) (read : Json → Option α) (range : α → Prop) :
    Prop where
  read_write : ∀ value, range value → read (write value) = some value
  range_of_read : ∀ j value, read j = some value → range value

/-- **A round trip.** What is written for a value in the range is read as that value.  What was
read from any spelling is read again as the same value once it is written, and written again in
the same way. -/
structure RoundTrips {α : Type} (write : α → Json) (read : Json → Option α) (range : α → Prop) :
    Prop where
  read_write : ∀ value, range value → read (write value) = some value
  reread : ∀ j value, read j = some value → read (write value) = some value
  rewrite : ∀ j value, read j = some value → (read (write value)).map write = some (write value)

namespace Faithful

variable {α : Type} {write : α → Json} {read : Json → Option α} {range : α → Prop}

/-- Faithful forms make round trips, because no more is read than can be written. -/
theorem roundTrips (h : Faithful write read range) : RoundTrips write read range where
  read_write := h.read_write
  reread j value hr := h.read_write value (h.range_of_read j value hr)
  rewrite j value hr := by
    rw [h.read_write value (h.range_of_read j value hr)]
    rfl

/-- A form in which every value is written so that it is read back. -/
theorem of_all (h : ∀ value, read (write value) = some value) :
    Faithful write read fun _ => True :=
  ⟨fun value _ => h value, fun _ _ _ => trivial⟩

/-- An array of faithful forms. -/
theorem list (h : Faithful write read range) :
    Faithful (fun values => arr (values.map write)) (list? read)
      fun values => ∀ value ∈ values, range value where
  read_write values hv := list?_map fun value hm => h.read_write value (hv value hm)
  range_of_read j values hr value hm := by
    cases j with
    | arr items =>
      obtain ⟨item, -, hi⟩ := exists_of_mem_mapM hr value hm
      exact h.range_of_read item value hi
    | _ => cases hr

/-- A faithful form or `null`, if no value is written as `null`. -/
theorem option (h : Faithful write read range) (ne : ∀ value, write value ≠ null) :
    Faithful (ofOption write) (option? read) fun value? => ∀ value ∈ value?, range value where
  read_write value? hv := by
    cases value? with
    | none => rfl
    | some value =>
      have back := h.read_write value (hv value rfl)
      rw [ofOption]
      cases written : write value with
      | null => exact absurd written (ne value)
      | _ =>
        rw [written] at back
        simp [option?, back]
  range_of_read j value? hr value hm := by
    cases j with
    | null =>
      obtain rfl : value? = none := by simpa [option?, eq_comm] using hr
      cases hm
    | _ =>
      obtain ⟨read, hv, rfl⟩ := Option.map_eq_some_iff.mp hr
      obtain rfl : read = value := Option.some.inj hm
      exact h.range_of_read _ _ hv

end Faithful

end Json

open Json

/-! ### Words and choices -/

theorem Symbol.faithful : Faithful toJson ofJson? fun symbol => symbol.key < wordLimit where
  read_write symbol h := by simp [toJson, ofJson?, word?_ofNat h]
  range_of_read j symbol h := by
    obtain ⟨n, hn, rfl⟩ := Option.map_eq_some_iff.mp h
    exact lt_of_word? hn

theorem DeclId.faithful : Faithful toJson ofJson? fun id => id.index < wordLimit where
  read_write id h := by simp [toJson, ofJson?, word?_ofNat h]
  range_of_read j id h := by
    obtain ⟨n, hn, rfl⟩ := Option.map_eq_some_iff.mp h
    exact lt_of_word? hn

theorem Json.faithful_str : Faithful str str? fun _ => True :=
  .of_all fun _ => rfl

theorem Modifiers.faithful : Faithful toJson ofJson? fun _ => True :=
  .of_all fun modifiers => by simp [toJson, ofJson?]

theorem MarkerKind.faithful : Faithful toJson ofJson? fun _ => True :=
  .of_all fun kind => by cases kind <;> rfl

theorem TypeKind.faithful : Faithful toJson ofJson? fun _ => True :=
  .of_all fun kind => by cases kind <;> rfl

theorem Origin.faithful : Faithful toJson ofJson? fun _ => True :=
  .of_all fun origin => by cases origin <;> rfl

theorem BraceStyle.faithful : Faithful toJson ofJson? fun _ => True :=
  .of_all fun style => by cases style <;> rfl

theorem Marker.faithful : Faithful toJson ofJson? fun _ => True :=
  .of_all fun marker => by
    cases marker with
    | getter => rfl
    | setter => rfl
    | noArgsConstructor access => cases access <;> rfl

/-! ### Types, expressions and bodies -/

theorem TypeRef.faithful : Faithful toJson ofJson? fun type => Symbol.Words type.names where
  read_write type h := by
    cases type with
    | void => rfl
    | named name =>
      have back := Symbol.faithful.read_write name (h name (by simp [names]))
      simp [toJson, ofJson?, variantOf, variant?, back]
  range_of_read j type h := by
    unfold ofJson? at h
    obtain ⟨entry, -, h⟩ := Option.bind_eq_some_iff.mp h
    split at h
    · cases h
      simp [Symbol.Words]
    · obtain ⟨name, hn, h⟩ := Option.bind_eq_some_iff.mp h
      cases h
      simpa [Symbol.Words, names] using Symbol.faithful.range_of_read _ _ hn
    · cases h

theorem TypeRef.toJson_ne_null (type : TypeRef Symbol) : type.toJson ≠ .null := by
  cases type <;> rintro ⟨⟩

namespace Expr

theorem ofJson?_toJson (expr : Expr Symbol) (h : Symbol.Words expr.names) :
    ofJson? expr.toJson = some expr := by
  induction expr with
  | receiver =>
    rw [toJson, ofJson?]
    rfl
  | ident name =>
    have back := Symbol.faithful.read_write name (h name (by simp [names]))
    rw [toJson, ofJson?]
    simp [variantOf, variant?, back]
  | select target name ih =>
    rw [Symbol.Words, names, List.forall_mem_append, List.forall_mem_singleton] at h
    have back := Symbol.faithful.read_write name h.2
    rw [toJson, ofJson?]
    simp [variantOf, variant?, key?, find?, ih h.1, back]
  | assign target value ihTarget ihValue =>
    rw [Symbol.Words, names, List.forall_mem_append] at h
    rw [toJson, ofJson?]
    simp [variantOf, variant?, key?, find?, ihTarget h.1, ihValue h.2]

theorem words_of_ofJson? (j : Json) (expr : Expr Symbol) (h : ofJson? j = some expr) :
    Symbol.Words expr.names := by
  fun_induction ofJson? j generalizing expr with
  | case1 j ih =>
    obtain ⟨⟨tag, payload⟩, -, h⟩ := Option.bind_eq_some_iff.mp h
    dsimp only at h
    -- one case for each name of a variant that is accepted
    split at h
    · split at h <;> cases h
      simp [Symbol.Words, names]
    · obtain ⟨name, hn, h⟩ := Option.bind_eq_some_iff.mp h
      cases h
      simpa [Symbol.Words, names] using Symbol.faithful.range_of_read _ _ hn
    · obtain ⟨part, -, h⟩ := Option.bind_eq_some_iff.mp h
      obtain ⟨_, -, h⟩ := Option.bind_eq_some_iff.mp h
      obtain ⟨target, ht, h⟩ := Option.bind_eq_some_iff.mp h
      obtain ⟨name, hn, h⟩ := Option.bind_eq_some_iff.mp h
      cases h
      rw [Symbol.Words, names, List.forall_mem_append, List.forall_mem_singleton]
      exact ⟨ih payload part target ht, Symbol.faithful.range_of_read _ _ hn⟩
    · obtain ⟨part, -, h⟩ := Option.bind_eq_some_iff.mp h
      obtain ⟨other, -, h⟩ := Option.bind_eq_some_iff.mp h
      obtain ⟨target, ht, h⟩ := Option.bind_eq_some_iff.mp h
      obtain ⟨value, hv, h⟩ := Option.bind_eq_some_iff.mp h
      cases h
      rw [Symbol.Words, names, List.forall_mem_append]
      exact ⟨ih payload part target ht, ih payload other value hv⟩
    · cases h

theorem faithful : Faithful toJson ofJson? fun expr => Symbol.Words expr.names :=
  ⟨ofJson?_toJson, words_of_ofJson?⟩

end Expr

theorem Stmt.faithful : Faithful toJson ofJson? fun stmt => Symbol.Words stmt.names where
  read_write stmt h := by
    cases stmt with
    | ret value =>
      simp [toJson, ofJson?, variantOf, variant?, Expr.faithful.read_write value h]
    | exec effect =>
      simp [toJson, ofJson?, variantOf, variant?, Expr.faithful.read_write effect h]
  range_of_read j stmt h := by
    obtain ⟨entry, -, h⟩ := Option.bind_eq_some_iff.mp h
    split at h
    · obtain ⟨value, hv, h⟩ := Option.bind_eq_some_iff.mp h
      cases h
      exact Expr.faithful.range_of_read _ _ hv
    · obtain ⟨effect, he, h⟩ := Option.bind_eq_some_iff.mp h
      cases h
      exact Expr.faithful.range_of_read _ _ he
    · cases h

theorem Block.faithful : Faithful toJson ofJson? fun block => Symbol.Words block.names where
  read_write block h := by
    rw [Symbol.Words, names, List.forall_mem_flatMap] at h
    have stmts := Stmt.faithful.list.read_write block.stmts h
    simp [toJson, ofJson?, field?, key?, find?, stmts]
  range_of_read j block h := by
    simp only [ofJson?, Option.bind_eq_bind, Option.bind_eq_some_iff, pure, Option.some.injEq] at h
    obtain ⟨_, -, indent, -, _, -, stmts, hs, rfl⟩ := h
    rw [Symbol.Words, names, List.forall_mem_flatMap]
    exact Stmt.faithful.list.range_of_read _ _ hs

/-! ### Members -/

theorem Param.faithful : Faithful toJson ofJson? fun param => Symbol.Words param.names where
  read_write param h := by
    rw [Symbol.Words, names, List.forall_mem_cons] at h
    have name := Symbol.faithful.read_write param.name h.1
    have type := TypeRef.faithful.read_write param.type h.2
    simp [toJson, ofJson?, field?, key?, find?, name, type]
  range_of_read j param h := by
    simp only [ofJson?, Option.bind_eq_bind, Option.bind_eq_some_iff, pure, Option.some.injEq] at h
    obtain ⟨_, -, name, hn, _, -, type, ht, rfl⟩ := h
    rw [Symbol.Words, names, List.forall_mem_cons]
    exact ⟨Symbol.faithful.range_of_read _ _ hn, TypeRef.faithful.range_of_read _ _ ht⟩

theorem FieldDecl.faithful : Faithful toJson ofJson? fun decl => Node.Words [.field decl] where
  read_write decl h := by
    obtain ⟨hid, h⟩ := h _ (List.mem_singleton_self _)
    rw [Symbol.Words, Node.names_field, names, List.forall_mem_cons] at h
    have id := DeclId.faithful.read_write decl.id hid
    have name := Symbol.faithful.read_write decl.name h.1
    have type := TypeRef.faithful.read_write decl.type h.2
    have modifiers := Modifiers.faithful.read_write decl.modifiers trivial
    have markers := Marker.faithful.list.read_write decl.markers fun _ _ => trivial
    simp [toJson, ofJson?, field?, key?, find?, id, name, type, modifiers, markers]
  range_of_read j decl h := by
    simp only [ofJson?, Option.bind_eq_bind, Option.bind_eq_some_iff, pure, Option.some.injEq] at h
    obtain ⟨_, -, id, hid, _, -, name, hn, _, -, type, ht, _, -, modifiers, -, _, -, markers, -,
      rfl⟩ := h
    rw [Node.Words, List.forall_mem_singleton, Symbol.Words, Node.names_field, names,
      List.forall_mem_cons]
    exact ⟨DeclId.faithful.range_of_read _ _ hid, Symbol.faithful.range_of_read _ _ hn,
      TypeRef.faithful.range_of_read _ _ ht⟩

/-- The words of a method, part by part. -/
theorem MethodDecl.words_iff (decl : MethodDecl Symbol) :
    Node.Words [.method decl] ↔ decl.id.index < wordLimit ∧ decl.name.key < wordLimit ∧
      (∀ type ∈ decl.returnType, Symbol.Words type.names) ∧
      (∀ param ∈ decl.params, Symbol.Words param.names) ∧ Symbol.Words decl.body.names := by
  simp only [Node.Words, List.forall_mem_singleton, Symbol.Words, Node.names_method, names,
    List.forall_mem_cons, List.forall_mem_append, List.forall_mem_flatMap, Option.mem_toList,
    and_assoc]
  rfl

theorem MethodDecl.faithful : Faithful toJson ofJson? fun decl => Node.Words [.method decl] where
  read_write decl h := by
    obtain ⟨hid, hn, ht, hp, hb⟩ := decl.words_iff.mp h
    have id := DeclId.faithful.read_write decl.id hid
    have name := Symbol.faithful.read_write decl.name hn
    have modifiers := Modifiers.faithful.read_write decl.modifiers trivial
    have returnType :=
      (TypeRef.faithful.option TypeRef.toJson_ne_null).read_write decl.returnType ht
    have params := Param.faithful.list.read_write decl.params hp
    have body := Block.faithful.read_write decl.body hb
    have markers := Marker.faithful.list.read_write decl.markers fun _ _ => trivial
    simp [toJson, ofJson?, field?, key?, find?, orNull, id, name, modifiers, returnType, params,
      body, markers]
  range_of_read j decl h := by
    simp only [ofJson?, Option.bind_eq_bind, Option.bind_eq_some_iff, pure, Option.some.injEq] at h
    obtain ⟨_, -, id, hid, _, -, name, hn, _, -, modifiers, -, returnType, ht, _, -, params, hp,
      _, -, body, hb, _, -, markers, -, rfl⟩ := h
    rw [MethodDecl.words_iff]
    exact ⟨DeclId.faithful.range_of_read _ _ hid, Symbol.faithful.range_of_read _ _ hn,
      (TypeRef.faithful.option TypeRef.toJson_ne_null).range_of_read _ _ ht,
      Param.faithful.list.range_of_read _ _ hp, Block.faithful.range_of_read _ _ hb⟩

/-! ### Classes and units -/

/-- The words of a class, part by part. -/
theorem ClassDecl.words_iff (decl : ClassDecl Symbol) :
    Node.Words decl.nodes ↔ decl.id.index < wordLimit ∧ decl.name.key < wordLimit ∧
      ∀ member ∈ decl.members, Node.Words member.nodes := by
  have name : Symbol.Words decl.node.names ↔ decl.name.key < wordLimit := by
    simp [Symbol.Words, ClassDecl.node, Node.names]
  rw [Node.Words, ClassDecl.nodes_eq, List.forall_mem_cons, List.forall_mem_flatMap, and_assoc,
    name]
  rfl

/-- A class is read field by field, and its members like a list of any other values. -/
theorem ClassDecl.ofJson?_eq (j : Json) : ofJson? j = do
    let field := j.field? ["id", "name", "kind", "modifiers", "markers", "members"]
    return {
      id := ← DeclId.ofJson? (← field "id")
      name := ← Symbol.ofJson? (← field "name")
      kind := ← TypeKind.ofJson? (← field "kind")
      modifiers := ← Modifiers.ofJson? (← field "modifiers")
      markers := ← Json.list? Marker.ofJson? (← field "markers")
      members := ← Json.list? Member.ofJson? (← field "members") } := by
  rw [ofJson?]
  simp only [← items?_bind_mapM, Option.bind_assoc, Option.bind_eq_bind]

/-- A member is read back if that holds of it when it is a class. -/
theorem Member.ofJson?_toJson (member : Member Symbol)
    (nested : ∀ decl, member = .nested decl → Node.Words decl.nodes →
      ClassDecl.ofJson? decl.toJson = some decl)
    (h : Node.Words member.nodes) : ofJson? member.toJson = some member := by
  cases member with
  | field decl =>
    rw [toJson, ofJson?]
    simp [variantOf, variant?, FieldDecl.faithful.read_write decl h]
  | method decl =>
    rw [toJson, ofJson?]
    simp [variantOf, variant?, MethodDecl.faithful.read_write decl h]
  | nested decl =>
    rw [toJson, ofJson?]
    simp [variantOf, variant?, nested decl rfl h]

theorem ClassDecl.toJson_eq (decl : ClassDecl Symbol) :
    decl.toJson = .obj [("id", decl.id.toJson), ("name", decl.name.toJson),
      ("kind", decl.kind.toJson), ("modifiers", decl.modifiers.toJson),
      ("markers", .arr (decl.markers.map Marker.toJson)),
      ("members", .arr (decl.members.map Member.toJson))] := by
  cases decl
  rw [toJson, ClassDecl.membersToJson_eq]

theorem ClassDecl.ofJson?_toJson (decl : ClassDecl Symbol) (h : Node.Words decl.nodes) :
    ofJson? decl.toJson = some decl := by
  induction decl using ClassDecl.induction with
  | step decl ih =>
    obtain ⟨hid, hn, hm⟩ := decl.words_iff.mp h
    have members : Json.list? Member.ofJson? (.arr (decl.members.map Member.toJson)) =
        some decl.members := by
      refine Json.list?_map fun member hmem => ?_
      apply Member.ofJson?_toJson member _ (hm member hmem)
      rintro inner rfl
      exact ih inner hmem
    have id := DeclId.faithful.read_write decl.id hid
    have name := Symbol.faithful.read_write decl.name hn
    have kind := TypeKind.faithful.read_write decl.kind trivial
    have modifiers := Modifiers.faithful.read_write decl.modifiers trivial
    have markers := Marker.faithful.list.read_write decl.markers fun _ _ => trivial
    rw [ClassDecl.toJson_eq, ClassDecl.ofJson?_eq]
    simp only [field?, key?, find?, Option.bind_eq_bind]
    simp [id, name, kind, modifiers, markers, members]
    cases decl
    rfl

/-- What is read as a class or as a member consists of words.  The induction is on the calls of the
two readers. -/
theorem ClassDecl.words_of_ofJson? :
    (∀ j decl, ofJson? j = some decl → Node.Words decl.nodes) ∧
      ∀ j member, Member.ofJson? j = some member → Node.Words member.nodes := by
  apply ClassDecl.ofJson?.mutual_induct
  · intro j ih decl h
    rw [ofJson?] at h
    simp only [Option.bind_eq_bind, Option.bind_eq_some_iff, pure, Option.some.injEq] at h
    obtain ⟨_, -, id, hid, _, -, name, hn, _, -, kind, -, _, -, modifiers, -, _, -, markers, -,
      body, -, items, -, members, hm, rfl⟩ := h
    rw [ClassDecl.words_iff]
    refine ⟨DeclId.faithful.range_of_read _ _ hid, Symbol.faithful.range_of_read _ _ hn, ?_⟩
    intro member hmem
    obtain ⟨item, -, hi⟩ := exists_of_mem_mapM hm member hmem
    exact ih body item member hi
  · intro j ih member h
    rw [Member.ofJson?] at h
    obtain ⟨⟨tag, payload⟩, -, h⟩ := Option.bind_eq_some_iff.mp h
    dsimp only at h
    split at h
    · obtain ⟨decl, hd, h⟩ := Option.bind_eq_some_iff.mp h
      cases h
      exact FieldDecl.faithful.range_of_read _ _ hd
    · obtain ⟨decl, hd, h⟩ := Option.bind_eq_some_iff.mp h
      cases h
      exact MethodDecl.faithful.range_of_read _ _ hd
    · obtain ⟨decl, hd, h⟩ := Option.bind_eq_some_iff.mp h
      cases h
      exact ih payload decl hd
    · cases h

theorem ClassDecl.faithful : Faithful toJson ofJson? fun decl => Node.Words decl.nodes :=
  ⟨ofJson?_toJson, words_of_ofJson?.1⟩

theorem Member.faithful : Faithful toJson ofJson? fun member => Node.Words member.nodes :=
  ⟨fun member => ofJson?_toJson member fun decl _ => decl.ofJson?_toJson,
    ClassDecl.words_of_ofJson?.2⟩

theorem CompilationUnit.faithful : Faithful toJson ofJson? fun unit => Node.Words unit.nodes where
  read_write unit h := by
    rw [Node.Words, nodes_eq, List.forall_mem_flatMap] at h
    have package :=
      (Json.faithful_str.option fun _ => nofun).read_write unit.package fun _ _ => trivial
    have origin := Origin.faithful.read_write unit.origin trivial
    have types := ClassDecl.faithful.list.read_write unit.types h
    simp [toJson, ofJson?, field?, key?, find?, orNull, str?, package, origin, types]
  range_of_read j unit h := by
    simp only [ofJson?, Option.bind_eq_bind, Option.bind_eq_some_iff, pure, Option.some.injEq] at h
    obtain ⟨_, -, fileName, -, package, -, _, -, origin, -, _, -, types, ht, rfl⟩ := h
    rw [Node.Words, nodes_eq, List.forall_mem_flatMap]
    exact ClassDecl.faithful.list.range_of_read _ _ ht

/-! ### Settings -/

theorem Layout.faithful : Faithful toJson ofJson? fun _ => True :=
  .of_all fun layout => by
    have braceStyle := BraceStyle.faithful.read_write layout.braceStyle trivial
    simp [toJson, ofJson?, options?, orDefault?, List.lookup_cons, braceStyle]

theorem ProcessingConfig.faithful : Faithful toJson ofJson? fun _ => True :=
  .of_all fun config => by
    have processors := MarkerKind.faithful.list.read_write config.processors fun _ _ => trivial
    simp [toJson, ofJson?, options?, orDefault?, List.lookup_cons, bool?, processors]

/-! ### All forms -/

/-- **Every tree and every setting makes the round trip through JSON.** -/
theorem Json.roundTrips_forms :
    RoundTrips CompilationUnit.toJson CompilationUnit.ofJson? (fun unit => Node.Words unit.nodes) ∧
    RoundTrips ClassDecl.toJson ClassDecl.ofJson? (fun decl => Node.Words decl.nodes) ∧
    RoundTrips Member.toJson Member.ofJson? (fun member => Node.Words member.nodes) ∧
    RoundTrips FieldDecl.toJson FieldDecl.ofJson? (fun decl => Node.Words [.field decl]) ∧
    RoundTrips MethodDecl.toJson MethodDecl.ofJson? (fun decl => Node.Words [.method decl]) ∧
    RoundTrips Param.toJson Param.ofJson? (fun param => Symbol.Words param.names) ∧
    RoundTrips Block.toJson Block.ofJson? (fun block => Symbol.Words block.names) ∧
    RoundTrips Stmt.toJson Stmt.ofJson? (fun stmt => Symbol.Words stmt.names) ∧
    RoundTrips Expr.toJson Expr.ofJson? (fun expr => Symbol.Words expr.names) ∧
    RoundTrips TypeRef.toJson TypeRef.ofJson? (fun type => Symbol.Words type.names) ∧
    RoundTrips Marker.toJson Marker.ofJson? (fun _ => True) ∧
    RoundTrips Modifiers.toJson Modifiers.ofJson? (fun _ => True) ∧
    RoundTrips Layout.toJson Layout.ofJson? (fun _ => True) ∧
    RoundTrips ProcessingConfig.toJson ProcessingConfig.ofJson? (fun _ => True) :=
  ⟨CompilationUnit.faithful.roundTrips, ClassDecl.faithful.roundTrips, Member.faithful.roundTrips,
    FieldDecl.faithful.roundTrips, MethodDecl.faithful.roundTrips, Param.faithful.roundTrips,
    Block.faithful.roundTrips, Stmt.faithful.roundTrips, Expr.faithful.roundTrips,
    TypeRef.faithful.roundTrips, Marker.faithful.roundTrips, Modifiers.faithful.roundTrips,
    Layout.faithful.roundTrips, ProcessingConfig.faithful.roundTrips⟩

/-- A method in spellings that are read but never written: a parameter and a body as arrays, a type
without payload as an object, and no key for the return type. -/
def Json.looseMethod : Json :=
  .obj [("Method", .obj [("markers", .arr []), ("id", .int 3), ("name", .int 8),
    ("modifiers", .int 0), ("params", .arr [.arr [.int 9, .obj [("Void", .null)]]]),
    ("body", .arr [.int 1, .arr []])])]

/-- A class in such spellings, as an array and with the greatest of all ids. -/
def Json.looseClass : Json :=
  .arr [.int 18446744073709551615, .int 7, .obj [("Interface", .null)], .int 512,
    .arr [.obj [("Getter", .null)]], .arr [looseMethod]]

/-- A unit in such spellings, with a key that names no field. -/
def Json.looseUnit : Json :=
  .obj [("file_name", .str "Shape.java"), ("lines", .int 3), ("origin", .obj [("Library", .null)]),
    ("types", .arr [looseClass])]

/-- What `looseMethod` spells. -/
def Json.shapeMethod : MethodDecl Symbol where
  id := ⟨3⟩
  name := ⟨8⟩
  modifiers := .none
  returnType := none
  params := [{ name := ⟨9⟩, type := .void }]
  body := { indent := 1, stmts := [] }
  markers := []

/-- What `looseClass` spells. -/
def Json.shapeClass : ClassDecl Symbol :=
  ⟨⟨18446744073709551615⟩, ⟨7⟩, .interfaceType, ⟨512⟩, [.getter], [.method shapeMethod]⟩

/-- What `looseUnit` spells. -/
def Json.shape : CompilationUnit Symbol where
  fileName := "Shape.java"
  package := none
  origin := .library
  types := [shapeClass]

theorem Json.roundTrips_forms_looseShape :
    CompilationUnit.ofJson? looseUnit = some shape ∧
      CompilationUnit.ofJson? shape.toJson = some shape ∧
      (CompilationUnit.ofJson? shape.toJson).map CompilationUnit.toJson = some shape.toJson ∧
    Node.Words shape.nodes ∧ CompilationUnit.ofJson? shape.toJson = some shape := by
  have member : Member.ofJson? looseMethod = some (.method shapeMethod) := by
    rw [Member.ofJson?]
    rfl
  have decl : ClassDecl.ofJson? looseClass = some shapeClass := by
    have id : DeclId.ofJson? (.int 18446744073709551615) = some ⟨18446744073709551615⟩ := rfl
    have name : Symbol.ofJson? (.int 7) = some ⟨7⟩ := rfl
    have kind : TypeKind.ofJson? (.obj [("Interface", .null)]) = some .interfaceType := rfl
    have modifiers : Modifiers.ofJson? (.int 512) = some ⟨512⟩ := rfl
    have markers : list? Marker.ofJson? (.arr [.obj [("Getter", .null)]]) = some [.getter] := rfl
    rw [ClassDecl.ofJson?]
    simp [looseClass, shapeClass, field?, item?, items?, id, name, kind, modifiers, markers, member]
  have loose : CompilationUnit.ofJson? looseUnit = some shape := by
    have origin : Origin.ofJson? (.obj [("Library", .null)]) = some .library := rfl
    simp [CompilationUnit.ofJson?, looseUnit, shape, field?, key?, find?, str?, option?, orNull,
      list?, origin, decl]
  have words : Node.Words shape.nodes := by decide
  exact ⟨loose, roundTrips_forms.1.reread _ _ loose, roundTrips_forms.1.rewrite _ _ loose,
    words, roundTrips_forms.1.read_write _ words⟩

end Augment
