import Augment.Proofs.Rewriting
import Augment.Proofs.Synthesis
import Mathlib.Data.List.Flatten
import Mathlib.Data.List.Nodup

/-!
# Well-formed rounds

A round is well-formed if no two declarations in it share an id, if all ids are below the next one
and if all names can be spelled.  Between rounds and their maker trees are built by hand, so what is
looked at is a `Workshop`: a round and the loose declarations that were made for it but are not part
of it yet.

Whatever is done in a workshop, the list of its declarations changes in one way (`Supply`): some of
them go, and new ones come with the next ids.  So well-formedness is preserved for one reason
(`WellFormed.of_supply`), and no id is ever given twice.
-/

namespace Augment

open scoped List

/-- The declarations of all units. -/
def Round.nodes (round : Round) : List (Node Symbol) :=
  round.slots.flatMap fun slot => slot.tree.nodes

/-- No two declarations share an id, the maker is past all ids, and it can spell all names. -/
structure WellFormed (maker : Maker) (nodes : List (Node Symbol)) : Prop where
  distinct : (nodes.map Node.id).Nodup
  bounded : ∀ node ∈ nodes, node.id.index < maker.nextDecl
  covers : maker.names.Covers nodes

/-- Between two states of the maker, some declarations went and new ones came with the next ids. -/
structure Supply (maker maker' : Maker) (nodes nodes' : List (Node Symbol)) : Prop where
  grows : maker ≤ maker'
  made : ∃ kept made : List (Node Symbol), nodes'.Perm (kept ++ made) ∧ kept.Sublist nodes ∧
    made.map (·.id.index) = List.range' maker.nextDecl made.length ∧
    maker'.nextDecl = maker.nextDecl + made.length ∧
    ∀ node ∈ made, ∀ s ∈ node.names, maker'.names.Knows s

section Supply

variable {maker maker' : Maker} {nodes nodes' : List (Node Symbol)}

namespace Supply

/-- Only the maker changed, and the order of the declarations. -/
theorem of_perm (grows : maker ≤ maker') (nextDecl : maker'.nextDecl = maker.nextDecl)
    (perm : nodes'.Perm nodes) : Supply maker maker' nodes nodes' :=
  ⟨grows, nodes, [], by simpa using perm, .refl _, rfl, nextDecl, by simp⟩

/-- **New declarations are told from all old ones by their ids.** -/
theorem new (h : Supply maker maker' nodes nodes') {node : Node Symbol} (hn : node ∈ nodes') :
    node ∈ nodes ∨ maker.nextDecl ≤ node.id.index := by
  obtain ⟨kept, made, perm, sublist, ids, -, -⟩ := h.made
  rcases List.mem_append.mp (perm.mem_iff.mp hn) with hk | hm
  · exact .inl (sublist.subset hk)
  · have index : node.id.index ∈ made.map (·.id.index) := List.mem_map_of_mem hm
    rw [ids, List.mem_range'_1] at index
    exact .inr index.1

/-- Names stay known. -/
theorem covers (h : Supply maker maker' nodes nodes') (known : maker.names.Covers nodes) :
    maker'.names.Covers nodes' := by
  obtain ⟨kept, made, perm, sublist, -, -, covers⟩ := h.made
  intro node hn
  rcases List.mem_append.mp (perm.mem_iff.mp hn) with hk | hm
  · exact (known.mono (Maker.names_le h.grows)) node (sublist.subset hk)
  · exact covers node hm

/-- Declarations around those that change make no difference. -/
theorem context (h : Supply maker maker' nodes nodes') (before after : List (Node Symbol)) :
    Supply maker maker' (before ++ nodes ++ after) (before ++ nodes' ++ after) := by
  obtain ⟨kept, made, perm, sublist, ids, nextDecl, covers⟩ := h.made
  refine ⟨h.grows, before ++ kept ++ after, made, ?_, ?_, ids, nextDecl, covers⟩
  · calc before ++ nodes' ++ after
      _ ~ before ++ (kept ++ made) ++ after := (perm.append_left before).append_right after
      _ ~ before ++ kept ++ after ++ made := by
        simp only [List.append_assoc]
        exact ((List.perm_append_comm).append_left kept).append_left before
  · exact ((List.Sublist.refl before).append sublist).append (.refl after)

end Supply

/-- **Well-formedness is preserved.** -/
theorem WellFormed.of_supply (h : WellFormed maker nodes)
    (supply : Supply maker maker' nodes nodes') : WellFormed maker' nodes' := by
  obtain ⟨kept, made, perm, sublist, ids, nextDecl, -⟩ := supply.made
  -- the next id of the first maker divides the ids of what was kept from those of what was made
  have old : ∀ node ∈ kept, node.id.index < maker.nextDecl :=
    fun node hn => h.bounded node (sublist.subset hn)
  have new : ∀ node ∈ made, maker.nextDecl ≤ node.id.index ∧ node.id.index < maker'.nextDecl := by
    intro node hn
    have index : node.id.index ∈ made.map (·.id.index) := List.mem_map_of_mem hn
    rw [ids, List.mem_range'_1] at index
    omega
  constructor
  · rw [(perm.map Node.id).nodup_iff, List.map_append, List.nodup_append]
    refine ⟨h.distinct.sublist (sublist.map Node.id), ?_, ?_⟩
    · have indices : ((made.map Node.id).map DeclId.index).Nodup := by
        rw [List.map_map]
        exact ids ▸ List.nodup_range'
      exact indices.of_map _
    · intro id hold id' hnew same
      obtain ⟨node, hn, rfl⟩ := List.mem_map.mp hold
      obtain ⟨node', hn', rfl⟩ := List.mem_map.mp hnew
      have below := old node hn
      have above := (new node' hn').1
      rw [same] at below
      omega
  · intro node hn
    rcases List.mem_append.mp (perm.mem_iff.mp hn) with hk | hm
    · exact Nat.lt_of_lt_of_le (old node hk) (Maker.nextDecl_le supply.grows)
    · exact (new node hm).2
  · exact supply.covers h.covers

end Supply

/-! ### Rewrites -/

/-- **What a strategy does to the declarations of a class.** -/
theorem Strategy.supply_replaced (marker : Marker) (decl : ClassDecl Symbol) {maker : Maker}
    (covers : maker.names.Covers decl.nodes) :
    Supply maker (marker.strategy decl maker).2 decl.nodes
      (marker.strategy.replaced maker decl).nodes := by
  obtain ⟨made, makes, members, -, spells⟩ := marker.strategy_spec decl maker
  have fields : ∀ field ∈ decl.fields, ∀ s ∈ field.names, maker.names.Knows s := by
    intro field hf s hs
    exact covers (.field field) (ClassDecl.field_mem_nodes hf) s hs
  refine ⟨makes.grows, decl.node :: (marker.kept decl.members).flatMap Member.nodes,
    made.map .method, ?_, ?_, ?_, ?_, ?_⟩
  · rw [Strategy.replaced, members, ClassDecl.nodes_kept]
    exact .refl _
  · rw [ClassDecl.nodes_eq]
    exact ((marker.kept_sublist decl.members).flatMap _).cons_cons _
  · rw [List.map_map, List.length_map]
    exact makes.ids
  · rw [List.length_map]
    exact makes.nextDecl
  · intro node hn s hs
    obtain ⟨decl, hd, rfl⟩ := List.mem_map.mp hn
    exact (spells fields).known decl hd s hs

namespace Round

variable {round round' : Round} {marker : Marker} {element : Element}

/-- **What a rewrite does to the declarations of a round.** -/
theorem Rewrites.supply (h : Rewrites marker.strategy element round round')
    (covers : round.maker.names.Covers round.nodes) :
    Supply round.maker round'.maker round.nodes round'.nodes := by
  cases h with
  | kept => exact .of_perm (le_refl _) rfl (.refl _)
  | @replaced tree tree' old slot source replaces =>
    obtain ⟨bound, get⟩ := List.getElem?_eq_some_iff.mp slot
    obtain ⟨left, right, slots, -, set⟩ : ∃ left right,
        round.slots = left ++ round.slots[element.unit.index] :: right ∧
        left.length = element.unit.index ∧
        round.slots.set element.unit.index ⟨tree', .free⟩ = left ++ ⟨tree', .free⟩ :: right :=
      List.exists_of_set bound
    obtain ⟨before, after, nodes, nodes'⟩ := replaces.nodes_eq
    -- around the declarations of the class are those of its unit, and around these the other units
    have split : round.nodes = (left.flatMap fun slot => slot.tree.nodes) ++ before ++ old.nodes ++
        (after ++ right.flatMap fun slot => slot.tree.nodes) := by
      rw [Round.nodes, slots, get]
      simp [nodes]
    have here : round.maker.names.Covers old.nodes :=
      covers.subset fun node hn => by simp [split, hn]
    have supply := (Strategy.supply_replaced marker old here).context
      ((left.flatMap fun slot => slot.tree.nodes) ++ before)
      (after ++ right.flatMap fun slot => slot.tree.nodes)
    rw [← split] at supply
    have result : ({ maker := (marker.strategy old round.maker).2
                     slots := round.slots.set element.unit.index ⟨tree', .free⟩ } : Round).nodes =
        (left.flatMap fun slot => slot.tree.nodes) ++ before ++
          (marker.strategy.replaced round.maker old).nodes ++
          (after ++ right.flatMap fun slot => slot.tree.nodes) := by
      rw [Round.nodes, set]
      simp [nodes']
    rw [result]
    exact supply

end Round

/-! ### Workshops -/

/-- A round, and the declarations that were made for it but are not part of it yet. -/
structure Workshop where
  round : Round := {}
  loose : List (Member Symbol) := []

namespace Workshop

/-- The declarations of the round and the loose ones. -/
def nodes (workshop : Workshop) : List (Node Symbol) :=
  workshop.round.nodes ++ workshop.loose.flatMap Member.nodes

/-- The workshop with its round replaced. -/
def withRound (workshop : Workshop) (round : Round) : Workshop :=
  { workshop with round }

/-- The workshop after a building program, which decides on the loose declarations. -/
def make {α : Type} (workshop : Workshop) (program : Building α)
    (loose : α → List (Member Symbol)) : Workshop where
  round := { workshop.round with maker := (program workshop.round.maker).2 }
  loose := loose (program workshop.round.maker).1

/-- The names are known to the maker. -/
def Knows (workshop : Workshop) (names : List Symbol) : Prop :=
  ∀ s ∈ names, workshop.round.maker.names.Knows s

/-- What can be done in a workshop.  Each declaration is made by the maker, from known names, and
is used once: a class takes its members, and a unit takes its classes, from the loose ones. -/
inductive Step : Workshop → Workshop → Prop where
  | intern (workshop : Workshop) (spelling : String) :
      Step workshop (workshop.make (Building.name spelling) fun _ => workshop.loose)
  | field (workshop : Workshop) (name : Symbol) (type : TypeRef Symbol) (modifiers : Modifiers)
      (markers : List Marker) (known : workshop.Knows (name :: type.names)) :
      Step workshop <| workshop.make (Building.field name type modifiers markers)
        fun decl => .field decl :: workshop.loose
  | method (workshop : Workshop) (name : Symbol) (returnType : Option (TypeRef Symbol))
      (modifiers : Modifiers) (params : List (Param Symbol)) (body : Block Symbol)
      (markers : List Marker)
      (known : workshop.Knows (name :: (returnType.toList.flatMap TypeRef.names ++
        params.flatMap Param.names ++ body.names))) :
      Step workshop <| workshop.make
        (Building.method name returnType modifiers params body markers)
        fun decl => .method decl :: workshop.loose
  | type (workshop : Workshop) (name : Symbol) (kind : TypeKind) (modifiers : Modifiers)
      (markers : List Marker) (members rest : List (Member Symbol))
      (known : workshop.Knows [name]) (taken : workshop.loose.Perm (members ++ rest)) :
      Step workshop <| workshop.make (Building.type name kind modifiers markers members)
        fun decl => .nested decl :: rest
  | addUnit (workshop : Workshop) (tree : CompilationUnit Symbol) (rest : List (Member Symbol))
      (taken : workshop.loose.Perm (tree.types.map .nested ++ rest)) :
      Step workshop { round := (workshop.round.addUnit tree).2, loose := rest }
  | rewrite (workshop : Workshop) (marker : Marker) (element : Element) :
      Step workshop <| workshop.withRound (workshop.round.rewritten marker.strategy element)
  | run (workshop : Workshop) (config : ProcessingConfig) :
      Step workshop <| workshop.withRound (workshop.round.run config).value

/-- Some steps, one after the other. -/
abbrev History : Workshop → Workshop → Prop :=
  Relation.ReflTransGen Step

/-- The workshop is past all its declarations, which are told apart and spelled. -/
def WellFormed (workshop : Workshop) : Prop :=
  Augment.WellFormed workshop.round.maker workshop.nodes

/-- Between two moments the maker grew, and what is new has an id that was not given before. -/
structure Since (past now : Workshop) : Prop where
  grows : past.round.maker ≤ now.round.maker
  new : ∀ node ∈ now.nodes, node ∈ past.nodes ∨ past.round.maker.nextDecl ≤ node.id.index

variable {workshop past now next : Workshop}

namespace Since

theorem refl (workshop : Workshop) : Since workshop workshop :=
  ⟨le_refl _, fun _ h => .inl h⟩

theorem trans (h : Since past now) (h' : Since now next) : Since past next where
  grows := le_trans h.grows h'.grows
  new node hn := by
    rcases h'.new node hn with old | new
    · exact h.new node old
    · exact .inr (Nat.le_trans (Maker.nextDecl_le h.grows) new)

theorem of_supply
    (h : Supply past.round.maker now.round.maker past.nodes now.nodes) : Since past now :=
  ⟨h.grows, fun _ => h.new⟩

end Since

/-! ### What a step does -/

/-- A declaration that was just made is a supply, whatever loose ones went into it. -/
theorem supply_make {α : Type} {program : Building α} {made : α → Member Symbol}
    {rest : List (Member Symbol)} (node : Node Symbol)
    (grows : workshop.round.maker ≤ (program workshop.round.maker).2)
    (nextDecl : (program workshop.round.maker).2.nextDecl = workshop.round.maker.nextDecl + 1)
    (id : node.id.index = workshop.round.maker.nextDecl)
    (known : ∀ s ∈ node.names, (program workshop.round.maker).2.names.Knows s)
    (nodes : ((made (program workshop.round.maker).1).nodes ++ rest.flatMap Member.nodes).Perm
      (node :: workshop.loose.flatMap Member.nodes)) :
    Supply workshop.round.maker (program workshop.round.maker).2 workshop.nodes
      (workshop.make program fun decl => made decl :: rest).nodes := by
  refine ⟨grows, workshop.nodes, [node], ?_, .refl _, by simp [id], nextDecl, by simpa using known⟩
  calc (workshop.make program fun decl => made decl :: rest).nodes
    _ = workshop.round.nodes ++
        ((made (program workshop.round.maker).1).nodes ++ rest.flatMap Member.nodes) := rfl
    _ ~ workshop.round.nodes ++ (node :: workshop.loose.flatMap Member.nodes) :=
      nodes.append_left _
    _ ~ node :: workshop.nodes := List.perm_middle
    _ ~ workshop.nodes ++ [node] := (List.perm_append_singleton _ _).symm

theorem nodes_addUnit (workshop : Workshop) (tree : CompilationUnit Symbol)
    (rest : List (Member Symbol)) :
    ({ round := (workshop.round.addUnit tree).2, loose := rest } : Workshop).nodes =
      workshop.round.nodes ++ ((tree.types.map Member.nested ++ rest).flatMap Member.nodes) := by
  simp only [nodes, Round.nodes, Round.addUnit, List.flatMap_append, List.flatMap_cons,
    List.flatMap_nil, List.append_nil, List.append_assoc, List.flatMap_map, Member.nodes_nested,
    CompilationUnit.nodes_eq]

/-- Rewrites of the round keep a workshop well-formed. -/
theorem since_of_rewrites {round : Round} (wf : workshop.WellFormed)
    (steps : Relation.ReflTransGen Round.Step workshop.round round) :
    (workshop.withRound round).WellFormed ∧ Since workshop (workshop.withRound round) := by
  induction steps with
  | refl => exact ⟨wf, .refl workshop⟩
  | @tail middle last _ step ih =>
    obtain ⟨wf', since⟩ := ih
    obtain ⟨marker, element, rewrites⟩ := step
    have supply := (rewrites.supply (wf'.covers.subset (List.subset_append_left _ _))).context
      [] (workshop.loose.flatMap Member.nodes)
    exact ⟨wf'.of_supply supply, since.trans (.of_supply supply)⟩

/-- **One step** keeps a workshop well-formed and gives no id that was given before. -/
theorem Step.since (step : Step past now) (wf : past.WellFormed) :
    now.WellFormed ∧ Since past now := by
  have of_supply : Supply past.round.maker now.round.maker past.nodes now.nodes →
      now.WellFormed ∧ Since past now := fun h => ⟨wf.of_supply h, .of_supply h⟩
  cases step with
  | intern spelling =>
    exact of_supply (.of_perm ⟨Names.le_intern _ _, Nat.le_refl _⟩ rfl (.refl _))
  | field name type modifiers markers known =>
    exact of_supply (supply_make
      (.field (Building.field name type modifiers markers past.round.maker).1)
      ⟨le_refl _, Nat.le_succ _⟩ rfl rfl known (.refl _))
  | method name returnType modifiers params body markers known =>
    exact of_supply (supply_make (.method
      (Building.method name returnType modifiers params body markers past.round.maker).1)
      ⟨le_refl _, Nat.le_succ _⟩ rfl rfl known (.refl _))
  | type name kind modifiers markers members rest known taken =>
    refine of_supply (supply_make
      (Building.type name kind modifiers markers members past.round.maker).1.node
      ⟨le_refl _, Nat.le_succ _⟩ rfl rfl known ?_)
    rw [Member.nodes, ClassDecl.nodes_eq, List.cons_append, ← List.flatMap_append]
    exact (taken.symm.flatMap_right Member.nodes).cons _
  | addUnit tree rest taken =>
    refine of_supply (.of_perm ⟨le_refl _, Nat.le_refl _⟩ rfl ?_)
    rw [nodes_addUnit]
    exact (taken.symm.flatMap_right Member.nodes).append_left _
  | rewrite marker element =>
    exact since_of_rewrites wf (.single ⟨marker, element, Round.rewrites_rewritten _ _ _⟩)
  | run config => exact since_of_rewrites wf (Round.steps_run config past.round)

theorem since_of_history (wf : past.WellFormed) (history : History past now) :
    now.WellFormed ∧ Since past now := by
  induction history with
  | refl => exact ⟨wf, .refl past⟩
  | tail _ step ih =>
    obtain ⟨wf', since⟩ := ih
    obtain ⟨wf'', since'⟩ := step.since wf'
    exact ⟨wf'', since.trans since'⟩

/-- One rewrite of a class in the round. -/
def RewriteStep (past now : Workshop) : Prop :=
  ∃ (marker : Marker) (element : Element),
    now = past.withRound (past.round.rewritten marker.strategy element)

theorem rewriteSteps_of_steps {round : Round} (workshop : Workshop)
    (steps : Relation.ReflTransGen Round.Step workshop.round round) :
    Relation.ReflTransGen RewriteStep workshop (workshop.withRound round) := by
  induction steps with
  | refl => exact .refl
  | tail _ step ih =>
    obtain ⟨marker, element, rewrites⟩ := step
    rcases rewrites.eq_or_eq_rewritten with rfl | rfl
    · exact ih
    · exact ih.tail ⟨marker, element, rfl⟩

/-- **Well-formedness of a round is an invariant.** It outlasts every history of building, adding
units, rewriting and running.  Names keep their spelling.  A declaration that a step brings has an
id that no declaration ever had, at any moment before; and since a run is a history of rewrites,
the moments between two rewrites of a run are among those. -/
theorem wellFormed_of_history {round : Round} (wf : Augment.WellFormed round.maker round.nodes)
    {now : Workshop} (history : History { round } now) :
    Augment.WellFormed now.round.maker now.round.nodes ∧
      (∀ s spelling, round.maker.names.resolve? s = some spelling →
        now.round.maker.names.resolve? s = some spelling) ∧
      (∀ next, Step now next → ∀ node ∈ next.nodes, node ∉ now.nodes →
        ∀ past, History { round } past → History past now → ∀ old ∈ past.nodes,
          old.id ≠ node.id) ∧
      ∀ config, Relation.ReflTransGen RewriteStep now
        (now.withRound (now.round.run config).value) := by
  have start : ({ round } : Workshop).WellFormed := by
    rw [WellFormed, nodes, List.flatMap_nil, List.append_nil]
    exact wf
  obtain ⟨wf', since⟩ := since_of_history start history
  refine ⟨?_, ?_, ?_, ?_⟩
  · exact
      { distinct := by
          have distinct := wf'.distinct
          rw [nodes, List.map_append] at distinct
          exact distinct.of_append_left
        bounded := fun node hn => wf'.bounded node (List.mem_append_left _ hn)
        covers := wf'.covers.subset (List.subset_append_left _ _) }
  · exact Maker.names_le since.grows
  · intro next step node hn new past before after old ho same
    -- an old id is below the next id of its own time, and a new one is above that of today
    have past' := since_of_history start before
    have below : old.id.index < past.round.maker.nextDecl := past'.1.bounded old ho
    have grown := Maker.nextDecl_le (since_of_history past'.1 after).2.grows
    rcases (step.since wf').2.new node hn with present | above
    · exact new present
    · rw [same] at below
      omega
  · exact fun config => rewriteSteps_of_steps now (Round.steps_run config now.round)

/-- The history of a class with a marker, which is made, added in a unit and run on. -/
theorem wellFormed_after_run_on_car :
    ∃ now : Workshop, History { round := {} } now ∧ now.round.nodes.length = 2 ∧
      Augment.WellFormed now.round.maker now.round.nodes := by
  have empty : Augment.WellFormed ({} : Round).maker ({} : Round).nodes :=
    ⟨List.nodup_nil, by simp [Round.nodes], by simp [Round.nodes, Names.Covers]⟩
  have named : History { round := {} } _ := .single (.intern _ "Car")
  have made := named.tail (.type _ ⟨1⟩ .classType .none [.noArgsConstructor .privateAccess] [] []
    (List.forall_mem_singleton.mpr (Names.knows_intern _ "Car")) (.refl _))
  have added := made.tail (.addUnit _
    { fileName := "Car.java", package := none, origin := .source
      types := [⟨⟨0⟩, ⟨1⟩, .classType, .none, [.noArgsConstructor .privateAccess], []⟩] }
    [] (.refl _))
  have ran := added.tail (.run _ {})
  exact ⟨_, ran, rfl, (wellFormed_of_history empty ran).1⟩

end Workshop

end Augment
