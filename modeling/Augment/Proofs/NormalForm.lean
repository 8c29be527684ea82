import Augment.Proofs.Accessors
import Augment.Source.Outline
import Mathlib.Data.List.Forall2

/-!
# Strategies one after another

`ClassDecl.answerAll` applies the strategies of any list of markers to a class, one after another.
What is left at the end has a simple form (`ClassDecl.NormalForm`): accessors pile up in the order
of the markers, and of the constructors without parameters only the last one asked for is there.

The proof goes along the list.

* Each strategy adds its own methods after what it keeps, and what it adds stays what it is while
  more names are interned (`Marker.strategy_answers`, `Marker.Answers.mono`).
* A run of accessors only appends (`ClassDecl.members_answerAll_of_accessors`).
* Without the constructors without parameters, *every* run only appends: what a strategy takes away
  is out of sight (`ClassDecl.filter_not_isNullary_answerAll`).

The last two are one induction (`ClassDecl.filter_members_answerAll`), and put together before and
after the last constructor they make up `ClassDecl.normalForm_answerAll`.
-/

namespace Augment

/-- An entry of the second list has what its partner in the first list gives it. -/
theorem forall_mem_of_forall₂ {α β : Type} {R : α → β → Prop} {P : β → Prop} {left : List α}
    {right : List β} (h : List.Forall₂ R left right) (imp : ∀ a b, R a b → P b) :
    ∀ b ∈ right, P b := by
  induction h with
  | nil => simp
  | cons first _ ih => exact List.forall_mem_cons.mpr ⟨imp _ _ first, ih⟩

/-! ### What a marker is answered with -/

namespace Marker

/-- Whether the marker asks for accessors. -/
def isAccessor : Marker → Bool
  | noArgsConstructor _ => false
  | _ => true

/-- The methods are those that a marker asks for in a class with these fields. -/
def Answers (names : Names) (fields : List (FieldDecl Symbol)) (marker : Marker)
    (made : List (MethodDecl Symbol)) : Prop :=
  match marker with
  | getter => List.Forall₂ (MethodDecl.IsGetter names) fields made
  | setter => List.Forall₂ (MethodDecl.IsSetter names) fields made
  | noArgsConstructor access => ∃ decl, made = [decl] ∧ decl.IsEmptyConstructor access

variable {names names' : Names} {fields : List (FieldDecl Symbol)} {marker : Marker}
  {made : List (MethodDecl Symbol)}

/-- An answer stays one when the table of names grows, even if the types of the fields are unknown
at first. -/
theorem Answers.mono (h : marker.Answers names fields made) (le : names ≤ names')
    (known : ∀ field ∈ fields, names.Knows field.name) : marker.Answers names' fields made := by
  cases marker with
  | getter =>
    exact ((List.forall₂_and_left _ _).mpr ⟨known, h⟩).imp fun field decl ⟨k, is⟩ => is.mono le k
  | setter =>
    exact ((List.forall₂_and_left _ _).mpr ⟨known, h⟩).imp fun field decl ⟨k, is⟩ => is.mono le k
  | noArgsConstructor access => exact h

theorem Answers.isNullary_iff (h : marker.Answers names fields made) :
    ∀ decl ∈ made, (Member.method decl).IsNullary ↔ ¬marker.isAccessor := by
  cases marker with
  | getter => exact forall_mem_of_forall₂ h fun _ _ is => iff_of_false is.not_isNullary (by decide)
  | setter => exact forall_mem_of_forall₂ h fun _ _ is => iff_of_false is.not_isNullary (by decide)
  | noArgsConstructor access =>
    obtain ⟨decl, rfl, is⟩ := h
    rw [List.forall_mem_singleton]
    exact iff_of_true is.isNullary Bool.false_ne_true

end Marker

/-! ### One strategy -/

section PerField

variable {synthesize : FieldDecl Symbol → Building (MethodDecl Symbol)}
  {Is : Names → FieldDecl Symbol → MethodDecl Symbol → Prop}

/-- Each field gets its own method, and later fields do not spoil earlier methods. -/
theorem forall₂_mapM
    (one : ∀ field maker, Makes maker (synthesize field maker).2 [(synthesize field maker).1])
    (is : ∀ field maker, maker.names.Knows field.name →
      Is (synthesize field maker).2.names field (synthesize field maker).1)
    (mono : ∀ names names' field decl, Is names field decl → names ≤ names' →
      names.Knows field.name → Is names' field decl)
    (fields : List (FieldDecl Symbol)) (maker : Maker)
    (known : ∀ field ∈ fields, maker.names.Knows field.name) :
    List.Forall₂ (Is (fields.mapM synthesize maker).2.names) fields
      (fields.mapM synthesize maker).1 := by
  induction fields generalizing maker with
  | nil => exact .nil
  | cons field rest ih =>
    rw [List.forall_mem_cons] at known
    have le := Maker.names_le (one field maker).grows
    have later := Maker.names_le (makes_mapM one rest (synthesize field maker).2).grows
    rw [mapM_cons_apply]
    refine .cons ?_ (ih _ fun other ho => (known.2 other ho).mono le)
    exact mono _ _ field _ (is field maker known.1) later (known.1.mono le)

end PerField

/-- **What the strategy of a marker makes of a class,** part by part.  The answer is the right one
if the names of the fields are known, whatever is known of their types. -/
theorem Marker.strategy_answers (marker : Marker) (decl : ClassDecl Symbol) (maker : Maker) :
    ∃ made, Makes maker (marker.strategy decl maker).2 made ∧
      (marker.strategy decl maker).1.decl =
        { decl with members := marker.kept decl.members ++ made.map .method } ∧
      ((∀ field ∈ decl.fields, maker.names.Knows field.name) →
        marker.Answers (marker.strategy decl maker).2.names decl.fields made) := by
  cases marker with
  | getter =>
    exact ⟨(decl.fields.mapM Building.getter maker).1,
      makes_mapM Building.makes_getter decl.fields maker, rfl,
      forall₂_mapM Building.makes_getter Building.isGetter_getter
        (fun _ _ _ _ is le known => is.mono le known) decl.fields maker⟩
  | setter =>
    exact ⟨(decl.fields.mapM Building.setter maker).1,
      makes_mapM Building.makes_setter decl.fields maker, rfl,
      forall₂_mapM Building.makes_setter Building.isSetter_setter
        (fun _ _ _ _ is le known => is.mono le known) decl.fields maker⟩
  | noArgsConstructor access =>
    refine ⟨[(Building.noArgsConstructor access maker).1],
      Building.makes_noArgsConstructor maker access, ?_,
      fun _ => ⟨_, rfl, Building.isEmptyConstructor_noArgsConstructor maker access⟩⟩
    rw [kept_noArgsConstructor]
    rfl

theorem Marker.kept_of_isAccessor {marker : Marker} (h : marker.isAccessor)
    (members : List (Member Symbol)) : marker.kept members = members := by
  cases marker with
  | getter => rfl
  | setter => rfl
  | noArgsConstructor access => cases h

/-- **No strategy adds or removes a field.** -/
theorem ClassDecl.fields_kept (marker : Marker) (decl : ClassDecl Symbol)
    (made : List (MethodDecl Symbol)) :
    ({ decl with members := marker.kept decl.members ++ made.map .method } :
      ClassDecl Symbol).fields = decl.fields := by
  have methods : (made.map Member.method).filterMap Member.field? = [] := by
    simp [Member.field?]
  show (marker.kept decl.members ++ made.map Member.method).filterMap Member.field? = _
  rw [List.filterMap_append, Marker.kept_filterMap fun _ => rfl, methods, List.append_nil]
  rfl

/-! ### Members but constructors without parameters -/

namespace Member

theorem filter_filter_not_isNullary (members : List (Member Symbol)) :
    (members.filter (¬·.IsNullary)).filter (·.IsNullary) = [] := by
  rw [List.filter_filter, List.filter_eq_nil_iff]
  simp

variable {names : Names} {fields : List (FieldDecl Symbol)} {made : List (MethodDecl Symbol)}

/-- Of an answer to a marker, accessors stay and a constructor goes. -/
theorem filter_not_isNullary_of_answers {marker : Marker} (h : marker.Answers names fields made) :
    (made.map method).filter (¬·.IsNullary) =
      if marker.isAccessor then made.map method else [] := by
  split_ifs with accessor
  · rw [List.filter_eq_self, List.forall_mem_map]
    intro decl hd
    simp [h.isNullary_iff decl hd, accessor]
  · rw [List.filter_eq_nil_iff, List.forall_mem_map]
    intro decl hd
    simp [h.isNullary_iff decl hd, accessor]

section Blocks

variable {markers : List Marker} {blocks : List (List (MethodDecl Symbol))}

/-- Of the answers to some markers, those to accessors stay and constructors go. -/
theorem filter_not_isNullary_blocks
    (h : List.Forall₂ (Marker.Answers names fields) markers blocks) :
    ∃ accessors,
      List.Forall₂ (Marker.Answers names fields) (markers.filter Marker.isAccessor) accessors ∧
      (blocks.flatten.map method).filter (¬·.IsNullary) = accessors.flatten.map method := by
  induction h with
  | nil => exact ⟨[], .nil, rfl⟩
  | @cons marker made rest blocks answers later ih =>
    obtain ⟨accessors, ih, eq⟩ := ih
    rw [List.flatten_cons, List.map_append, List.filter_append, eq,
      filter_not_isNullary_of_answers answers, List.filter_cons]
    split_ifs with accessor
    · refine ⟨made :: accessors, .cons answers ih, ?_⟩
      rw [List.flatten_cons, List.map_append]
    · exact ⟨accessors, ih, rfl⟩

theorem filter_blocks_of_accessors
    (h : List.Forall₂ (Marker.Answers names fields) markers blocks)
    (accessors : ∀ marker ∈ markers, marker.isAccessor) :
    (blocks.flatten.map method).filter (·.IsNullary) = [] := by
  have none : ∀ made ∈ blocks, ∀ decl ∈ made, ¬(method decl).IsNullary := by
    refine forall_mem_of_forall₂ ((List.forall₂_and_left _ _).mpr ⟨accessors, h⟩) ?_
    rintro marker made ⟨accessor, answer⟩ decl hd nullary
    exact (answer.isNullary_iff decl hd).mp nullary accessor
  rw [List.filter_eq_nil_iff, List.forall_mem_map]
  intro decl hd
  obtain ⟨made, hm, hd⟩ := List.mem_flatten.mp hd
  simp [none made hm decl hd]

end Blocks

end Member

/-! ### Runs of strategies -/

namespace ClassDecl

/-- The class after the strategies of some markers, one after another. -/
def answerAll : List Marker → ClassDecl Symbol → Building (ClassDecl Symbol)
  | [], decl => return decl
  | marker :: rest, decl => do
    let staged ← marker.strategy decl
    answerAll rest staged.decl

theorem answerAll_nil (decl : ClassDecl Symbol) (maker : Maker) :
    answerAll [] decl maker = (decl, maker) := rfl

theorem answerAll_cons (marker : Marker) (rest : List Marker) (decl : ClassDecl Symbol)
    (maker : Maker) :
    answerAll (marker :: rest) decl maker =
      answerAll rest (marker.strategy decl maker).1.decl (marker.strategy decl maker).2 := rfl

theorem answerAll_append (before after : List Marker) (decl : ClassDecl Symbol) (maker : Maker) :
    answerAll (before ++ after) decl maker =
      answerAll after (answerAll before decl maker).1 (answerAll before decl maker).2 := by
  induction before generalizing decl maker with
  | nil => rfl
  | cons marker rest ih => exact ih _ _

/-- **A run changes nothing about the class but its methods,** and the names only grow. -/
theorem frame_answerAll (markers : List Marker) (decl : ClassDecl Symbol) (maker : Maker) :
    (answerAll markers decl maker).1.node = decl.node ∧
      (answerAll markers decl maker).1.fields = decl.fields ∧
      maker ≤ (answerAll markers decl maker).2 := by
  induction markers generalizing decl maker with
  | nil => exact ⟨rfl, rfl, le_refl maker⟩
  | cons marker rest ih =>
    obtain ⟨made, makes, left, -⟩ := marker.strategy_answers decl maker
    obtain ⟨node, fields, grows⟩ :=
      ih (marker.strategy decl maker).1.decl (marker.strategy decl maker).2
    rw [answerAll_cons]
    refine ⟨?_, ?_, le_trans makes.grows grows⟩
    · rw [node, left]
      rfl
    · rw [fields, left, fields_kept]

/-- **What a run never takes away comes first, and then the answers to all markers.** Members that
a strategy may take away have to be out of sight, so only those are compared that `seen` lets
through.  The induction is on the markers; the class passes from one strategy to the next. -/
theorem filter_members_answerAll (seen : Member Symbol → Bool) (markers : List Marker)
    (spared : ∀ marker ∈ markers, ∀ members : List (Member Symbol),
      (marker.kept members).filter seen = members.filter seen)
    (decl : ClassDecl Symbol) (maker : Maker)
    (known : ∀ field ∈ decl.fields, maker.names.Knows field.name) :
    ∃ blocks,
      List.Forall₂ (Marker.Answers (answerAll markers decl maker).2.names decl.fields)
        markers blocks ∧
      (answerAll markers decl maker).1.members.filter seen =
        decl.members.filter seen ++ (blocks.flatten.map .method).filter seen := by
  induction markers generalizing decl maker with
  | nil => exact ⟨[], .nil, by simp [answerAll_nil]⟩
  | cons marker rest ih =>
    obtain ⟨made, makes, left, answers⟩ := marker.strategy_answers decl maker
    obtain ⟨decl', maker', next⟩ : ∃ decl' maker', (marker.strategy decl maker).1.decl = decl' ∧
      (marker.strategy decl maker).2 = maker' := ⟨_, _, rfl, rfl⟩
    rw [answerAll_cons, next.1, next.2]
    rw [next.1] at left
    rw [next.2] at makes answers
    -- the next class has the same fields, whose names are still known
    have fields : decl'.fields = decl.fields := by rw [left, fields_kept]
    have known' : ∀ field ∈ decl.fields, maker'.names.Knows field.name :=
      fun field hf => (known field hf).mono (Maker.names_le makes.grows)
    rw [List.forall_mem_cons] at spared
    obtain ⟨blocks, later, members⟩ := ih spared.2 decl' maker' (by rwa [fields])
    rw [fields] at later
    have grows := Maker.names_le (frame_answerAll rest decl' maker').2.2
    refine ⟨made :: blocks, .cons ((answers known).mono grows known') later, ?_⟩
    rw [members, left, List.filter_append, spared.1, List.flatten_cons, List.map_append,
      List.filter_append, List.append_assoc]

/-- A run of accessors only appends. -/
theorem members_answerAll_of_accessors {markers : List Marker}
    (accessors : ∀ marker ∈ markers, marker.isAccessor) (decl : ClassDecl Symbol) (maker : Maker)
    (known : ∀ field ∈ decl.fields, maker.names.Knows field.name) :
    ∃ blocks,
      List.Forall₂ (Marker.Answers (answerAll markers decl maker).2.names decl.fields)
        markers blocks ∧
      (answerAll markers decl maker).1.members = decl.members ++ blocks.flatten.map .method := by
  obtain ⟨blocks, answers, members⟩ := filter_members_answerAll (fun _ => true) markers
    (fun marker hm members => by rw [Marker.kept_of_isAccessor (accessors marker hm)])
    decl maker known
  simp only [List.filter_true] at members
  exact ⟨blocks, answers, members⟩

/-- **Any run only appends,** apart from the constructors without parameters. -/
theorem filter_not_isNullary_answerAll (markers : List Marker) (decl : ClassDecl Symbol)
    (maker : Maker) (known : ∀ field ∈ decl.fields, maker.names.Knows field.name) :
    ∃ blocks,
      List.Forall₂ (Marker.Answers (answerAll markers decl maker).2.names decl.fields)
        (markers.filter Marker.isAccessor) blocks ∧
      (answerAll markers decl maker).1.members.filter (¬·.IsNullary) =
        decl.members.filter (¬·.IsNullary) ++ blocks.flatten.map .method := by
  obtain ⟨all, answers, members⟩ := filter_members_answerAll (¬·.IsNullary) markers
    (fun marker _ => marker.filter_kept) decl maker known
  obtain ⟨blocks, accessors, eq⟩ := Member.filter_not_isNullary_blocks answers
  exact ⟨blocks, accessors, members.trans (congrArg _ eq)⟩

/-! ### The normal form -/

/-- **What the strategies of some markers make of a class,** as a form that can be read off the
markers.  Accessors pile up in the order of the markers; a constructor without parameters makes an
end of all such constructors before it, so the last one that is asked for is the only one. -/
structure NormalForm (names : Names) (markers : List Marker) (decl decl' : ClassDecl Symbol) :
    Prop where
  /-- Only the members change. -/
  node : decl'.node = decl.node
  /-- No field comes or goes. -/
  fields : decl'.fields = decl.fields
  /-- Accessors come after all members, one block for each marker. -/
  accessors : (∀ marker ∈ markers, marker.isAccessor) →
    ∃ blocks, List.Forall₂ (Marker.Answers names decl.fields) markers blocks ∧
      decl'.members = decl.members ++ blocks.flatten.map .method
  /-- With a constructor among the markers, the last of them decides.  It comes after the accessors
  of the markers before it, and before those of the markers after it. -/
  constructors : ∀ before access after, markers = before ++ .noArgsConstructor access :: after →
    (∀ marker ∈ after, marker.isAccessor) →
    ∃ blocks constructor blocks',
      List.Forall₂ (Marker.Answers names decl.fields) (before.filter Marker.isAccessor) blocks ∧
      constructor.IsEmptyConstructor access ∧
      List.Forall₂ (Marker.Answers names decl.fields) after blocks' ∧
      decl'.members = decl.members.filter (¬·.IsNullary) ++
        (blocks.flatten ++ constructor :: blocks'.flatten).map .method ∧
      decl'.members.filter (·.IsNullary) = [.method constructor]

/-- The last constructor stands between what the runs before and after it have appended. -/
theorem members_answerAll_of_constructor (before : List Marker) (access : AccessLevel)
    {after : List Marker} (accessors : ∀ marker ∈ after, marker.isAccessor)
    (decl : ClassDecl Symbol) (maker : Maker)
    (known : ∀ field ∈ decl.fields, maker.names.Knows field.name) {final : ClassDecl Symbol × Maker}
    (run : answerAll (before ++ .noArgsConstructor access :: after) decl maker = final) :
    ∃ blocks constructor blocks',
      List.Forall₂ (Marker.Answers final.2.names decl.fields) (before.filter Marker.isAccessor)
        blocks ∧
      constructor.IsEmptyConstructor access ∧
      List.Forall₂ (Marker.Answers final.2.names decl.fields) after blocks' ∧
      final.1.members = decl.members.filter (¬·.IsNullary) ++
        (blocks.flatten ++ constructor :: blocks'.flatten).map .method := by
  obtain ⟨blocks, answers, kept⟩ := filter_not_isNullary_answerAll before decl maker known
  obtain ⟨-, fields, grows⟩ := frame_answerAll before decl maker
  obtain ⟨⟨decl₁, maker₁⟩, first⟩ : ∃ state, answerAll before decl maker = state := ⟨_, rfl⟩
  rw [answerAll_append, answerAll_cons, first] at run
  rw [first] at answers kept fields grows
  dsimp only at answers kept fields grows run
  have known₁ : ∀ field ∈ decl.fields, maker₁.names.Knows field.name :=
    fun field hf => (known field hf).mono (Maker.names_le grows)
  -- the constructor takes the place of all that were there
  obtain ⟨made, makes, left, answer⟩ :=
    (Marker.noArgsConstructor access).strategy_answers decl₁ maker₁
  obtain ⟨constructor, rfl, is⟩ := answer (by rwa [fields])
  obtain ⟨⟨staged, maker₂⟩, second⟩ : ∃ state,
      (Marker.noArgsConstructor access).strategy decl₁ maker₁ = state := ⟨_, rfl⟩
  rw [second] at run left makes
  dsimp only at run left makes
  have fields₂ : staged.decl.fields = decl.fields := by rw [left, fields_kept, fields]
  have known₂ : ∀ field ∈ decl.fields, maker₂.names.Knows field.name :=
    fun field hf => (known₁ field hf).mono (Maker.names_le makes.grows)
  -- and from then on there are only accessors
  obtain ⟨blocks', answers', members⟩ :=
    members_answerAll_of_accessors accessors staged.decl maker₂ (by rwa [fields₂])
  obtain ⟨-, -, grows'⟩ := frame_answerAll after staged.decl maker₂
  rw [run] at answers' members grows'
  rw [fields₂] at answers'
  have le : maker₁.names ≤ final.2.names := Maker.names_le (le_trans makes.grows grows')
  refine ⟨blocks, constructor, blocks', ?_, is, answers', ?_⟩
  · exact answers.imp fun marker made answer => answer.mono le known₁
  · rw [members, left]
    show decl₁.members.filter (¬·.IsNullary) ++ [Member.method constructor] ++ _ = _
    rw [kept]
    simp

/-- **A run of strategies comes to its normal form,** in which the fields are spelled as they were
before the run. -/
theorem normalForm_answerAll (markers : List Marker) (decl : ClassDecl Symbol) (maker : Maker)
    (known : ∀ field ∈ decl.fields, maker.names.Knows field.name) :
    NormalForm (answerAll markers decl maker).2.names markers decl
        (answerAll markers decl maker).1 ∧
      ∀ field ∈ decl.fields, (answerAll markers decl maker).2.names.display field.name =
        maker.names.display field.name := by
  obtain ⟨node, fields, grows⟩ := frame_answerAll markers decl maker
  refine ⟨⟨node, fields, fun accessors => ?_, fun before access after split accessors => ?_⟩,
    fun field hf => Names.display_of_le (Maker.names_le grows) (known field hf)⟩
  · exact members_answerAll_of_accessors accessors decl maker known
  · obtain ⟨blocks, constructor, blocks', answers, is, answers', members⟩ :=
      members_answerAll_of_constructor before access accessors decl maker known
        (congrArg (answerAll · decl maker) split.symm)
    refine ⟨blocks, constructor, blocks', answers, is, answers', members, ?_⟩
    -- neither what was kept nor an accessor is a constructor without parameters
    have first := Member.filter_blocks_of_accessors answers
      fun marker hm => (List.mem_filter.mp hm).2
    have second := Member.filter_blocks_of_accessors answers' accessors
    have own : decide (Member.method constructor).IsNullary = true := decide_eq_true is.isNullary
    rw [members, List.filter_append, Member.filter_filter_not_isNullary, List.map_append,
      List.filter_append, first, List.map_cons, List.filter_cons, if_pos own, second]
    rfl

/-- A class with fields of unknown type, two constructors, one of them without parameters, and a
method that has the name of constructors but returns something: only the constructor without
parameters gives way. -/
theorem normalForm_answerAll_untyped :
    ∃ (decl : ClassDecl Symbol) (maker : Maker),
      (∀ field ∈ decl.fields, maker.names.Knows field.name) ∧
      decl.outline maker.names = ["x", "<init>/0", "<init>", "<init>/1", "price"] ∧
      ∃ final, answerAll [.setter, .noArgsConstructor .privateAccess, .getter] decl maker = final ∧
        final.1.outline final.2.names = ["x", "<init>", "<init>/1", "price", "setX", "setPrice",
          "<init>/0", "getX", "getPrice"] ∧
        ∃ constructor : MethodDecl Symbol, constructor.IsEmptyConstructor .privateAccess ∧
          final.1.members.filter (·.IsNullary) = [.method constructor] := by
  let program : Building (ClassDecl Symbol) := do
    let x ← Building.field (← Building.name "x") (.named ⟨77⟩)
    let old ← Building.constructor (.ofAccess .publicAccess)
    let returning ← Building.method Names.init (some .void)
    let taking ← Building.constructor .none [⟨x.name, x.type⟩]
    let price ← Building.field (← Building.name "price") (.named ⟨78⟩)
    Building.type (← Building.name "A") .classType .none []
      [.field x, .method old, .method returning, .method taking, .field price]
  let made := program {}
  have known : ∀ field ∈ made.1.fields, made.2.names.Knows field.name := by decide
  obtain ⟨_, constructor, _, -, is, -, -, only⟩ := (normalForm_answerAll
    [.setter, .noArgsConstructor .privateAccess, .getter] made.1 made.2 known).1.constructors
      [.setter] .privateAccess [.getter] rfl (by decide)
  exact ⟨made.1, made.2, known, by decide +kernel, _, rfl, by decide +kernel, constructor, is, only⟩

end ClassDecl

end Augment
