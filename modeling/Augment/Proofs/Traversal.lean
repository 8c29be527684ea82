import Augment.Proofs.Rewriting
import Mathlib.Data.List.Induction
import Mathlib.Data.Nat.SuccPred

/-!
# Walks over all classes

Two walks go through the classes of a unit and leave a class after the classes nested in it: the
tour, which only looks at them, and the change from the bottom up, which may give every class other
members on the way.  What they visit is compared with a third thing, the *addresses* of the classes.
An address says where a class stands, by its number among the types of the unit and its numbers
among the classes declared directly in each other (`CompilationUnit.at?`).  In post-order an address
comes after those that go on from it, and otherwise addresses are ordered like words
(`Address.Precedes`).

Both walks visit the classes at all addresses, in that order and each once
(`CompilationUnit.walks_agree`).  A change is asked for every class of the unit as it was, whatever
it does to them (`CompilationUnit.tell_bottomUp`): the members that a class is given are not walked
through any more.  So a rewrite counts the classes that were there before it.
-/

namespace Augment

variable {ν σ τ : Type}

/-! ### Addresses -/

/-- Where a class stands: the numbers on the way down to it. -/
abbrev Address := List Nat

/-- **Post-order on addresses.** -/
inductive Address.Precedes : Address → Address → Prop where
  /-- What stands in a class precedes the class. -/
  | inside (index : Nat) (rest : Address) : Precedes (index :: rest) []
  | left {index index' : Nat} (h : index < index') (rest rest' : Address) :
    Precedes (index :: rest) (index' :: rest')
  | deeper (index : Nat) {rest rest' : Address} (h : Precedes rest rest') :
    Precedes (index :: rest) (index :: rest')

namespace Address

theorem precedes_append (address : Address) {inner : Address} (ne : inner ≠ []) :
    Precedes (address ++ inner) address := by
  induction address with
  | nil =>
    obtain ⟨index, rest, rfl⟩ := List.exists_cons_of_ne_nil ne
    exact .inside index rest
  | cons index rest ih => exact .deeper index ih

theorem Precedes.asymm {address address' : Address} (h : Precedes address address') :
    ¬Precedes address' address := by
  induction h with
  | inside index rest => exact nofun
  | left less rest rest' =>
    intro h'
    cases h' with
    | left less' => exact Nat.lt_asymm less less'
    | deeper => exact Nat.lt_irrefl _ less
  | deeper index h ih =>
    intro h'
    cases h' with
    | left less => exact Nat.lt_irrefl index less
    | deeper _ h' => exact ih h'

/-- An address never precedes itself or an address that goes on from it. -/
theorem Precedes.not_isPrefix {address address' : Address} (h : Precedes address address') :
    ¬address <+: address' := by
  rintro ⟨inner, rfl⟩
  by_cases ne : inner = []
  · subst ne
    rw [List.append_nil] at h
    exact h.asymm h
  · exact h.asymm (precedes_append address ne)

end Address

/-- The class at an address that starts from a class. -/
def ClassDecl.at? (decl : ClassDecl ν) : Address → Option (ClassDecl ν)
  | [] => some decl
  | index :: rest => decl.nested[index]?.bind (·.at? rest)

/-- The class at an address that starts with a number among some classes. -/
def ClassDecl.amongAt? (classes : List (ClassDecl ν)) : Address → Option (ClassDecl ν)
  | [] => none
  | index :: rest => classes[index]?.bind (·.at? rest)

/-- The class at an address in a unit. -/
def CompilationUnit.at? (unit : CompilationUnit ν) : Address → Option (ClassDecl ν) :=
  ClassDecl.amongAt? unit.types

/-- The classes stand at the addresses, which are all there are, in post-order. -/
structure Enumerates (at? : Address → Option (ClassDecl ν)) (addresses : List Address)
    (classes : List (ClassDecl ν)) : Prop where
  located : addresses.map at? = classes.map some
  complete : ∀ address, (at? address).isSome → address ∈ addresses
  ordered : addresses.Pairwise Address.Precedes

namespace Enumerates

variable {at? : Address → Option (ClassDecl ν)} {addresses addresses' : List Address}
  {classes classes' types : List (ClassDecl ν)} {decl : ClassDecl ν}

/-- No class is listed before a class that stands in it. -/
theorem nested_first (h : Enumerates at? addresses classes) :
    addresses.Pairwise fun address later => ¬address <+: later :=
  h.ordered.imp Address.Precedes.not_isPrefix

/-- **No class is listed twice.** -/
theorem nodup (h : Enumerates at? addresses classes) : addresses.Nodup := by
  refine h.nested_first.imp ?_
  rintro address _ other rfl
  exact other (List.prefix_refl address)

theorem isSome (h : Enumerates at? addresses classes) {address : Address}
    (ha : address ∈ addresses) : (at? address).isSome := by
  have found := List.mem_map_of_mem (f := at?) ha
  rw [h.located] at found
  obtain ⟨decl, -, eq⟩ := List.mem_map.mp found
  rw [← eq, Option.isSome_some]

theorem length_eq (h : Enumerates at? addresses classes) : addresses.length = classes.length := by
  have length := congrArg List.length h.located
  rwa [List.length_map, List.length_map] at length

/-- Addresses among some classes start with a number that stands for one of them. -/
theorem exists_eq_cons (h : Enumerates (ClassDecl.amongAt? types) addresses classes)
    {address : Address} (ha : address ∈ addresses) :
    ∃ index rest, address = index :: rest ∧ index < types.length := by
  have found := h.isSome ha
  cases address with
  | nil => cases found
  | cons index rest =>
    refine ⟨index, rest, rfl, ?_⟩
    by_contra beyond
    rw [ClassDecl.amongAt?, List.getElem?_eq_none (Nat.le_of_not_lt beyond)] at found
    cases found

theorem amongAt?_append {index : Nat} (bound : index < types.length) (more : List (ClassDecl ν))
    (rest : Address) :
    ClassDecl.amongAt? (types ++ more) (index :: rest) =
      ClassDecl.amongAt? types (index :: rest) := by
  rw [ClassDecl.amongAt?, ClassDecl.amongAt?, List.getElem?_append_left bound]

theorem amongAt?_concat (types : List (ClassDecl ν)) (last : ClassDecl ν) (rest : Address) :
    ClassDecl.amongAt? (types ++ [last]) (types.length :: rest) = last.at? rest := by
  rw [ClassDecl.amongAt?, List.getElem?_concat_length, Option.bind_some]

/-- One more class: its addresses go on from its number, and they come last. -/
theorem concat {last : ClassDecl ν} (h : Enumerates (ClassDecl.amongAt? types) addresses classes)
    (h' : Enumerates last.at? addresses' classes') :
    Enumerates (ClassDecl.amongAt? (types ++ [last]))
      (addresses ++ addresses'.map (types.length :: ·)) (classes ++ classes') where
  located := by
    have first : addresses.map (ClassDecl.amongAt? (types ++ [last])) =
        addresses.map (ClassDecl.amongAt? types) := by
      refine List.map_congr_left fun address ha => ?_
      obtain ⟨index, rest, rfl, bound⟩ := h.exists_eq_cons ha
      exact amongAt?_append bound [last] rest
    have later : (addresses'.map (types.length :: ·)).map
        (ClassDecl.amongAt? (types ++ [last])) = addresses'.map last.at? := by
      rw [List.map_map]
      exact List.map_congr_left fun address _ => amongAt?_concat types last address
    rw [List.map_append, List.map_append, first, later, h.located, h'.located]
  complete := by
    intro address found
    cases address with
    | nil => cases found
    | cons index rest =>
      -- the number is that of an old class, of the new one, or of none
      rcases Nat.lt_trichotomy index types.length with bound | rfl | beyond
      · rw [amongAt?_append bound] at found
        exact List.mem_append_left _ (h.complete _ found)
      · rw [amongAt?_concat] at found
        exact List.mem_append_right _ (List.mem_map_of_mem (h'.complete rest found))
      · have none : (types ++ [last])[index]? = none := by
          rw [List.getElem?_eq_none_iff, List.length_append, List.length_singleton]
          exact beyond
        rw [ClassDecl.amongAt?, none] at found
        cases found
  ordered := by
    rw [List.pairwise_append, List.pairwise_map]
    refine ⟨h.ordered, h'.ordered.imp fun precedes => .deeper types.length precedes, ?_⟩
    rintro address ha _ later
    obtain ⟨rest', -, rfl⟩ := List.mem_map.mp later
    obtain ⟨index, rest, rfl, bound⟩ := h.exists_eq_cons ha
    exact .left bound rest rest'

/-- A class comes after the classes in it. -/
theorem close (h : Enumerates (ClassDecl.amongAt? decl.nested) addresses classes) :
    Enumerates decl.at? (addresses ++ [[]]) (classes ++ [decl]) where
  located := by
    have inner : addresses.map decl.at? =
        addresses.map (ClassDecl.amongAt? decl.nested) := by
      refine List.map_congr_left fun address ha => ?_
      obtain ⟨index, rest, rfl, -⟩ := h.exists_eq_cons ha
      rfl
    rw [List.map_append, List.map_append, inner, h.located]
    rfl
  complete := by
    intro address found
    cases address with
    | nil => exact List.mem_append_right _ (List.mem_singleton_self _)
    | cons index rest => exact List.mem_append_left _ (h.complete _ found)
  ordered := by
    rw [List.pairwise_append]
    refine ⟨h.ordered, List.pairwise_singleton _ _, ?_⟩
    rintro address ha _ last
    obtain rfl := List.mem_singleton.mp last
    obtain ⟨index, rest, rfl, -⟩ := h.exists_eq_cons ha
    exact .inside index rest

theorem exists_among (types : List (ClassDecl ν))
    (each : ∀ decl ∈ types, ∃ addresses, Enumerates decl.at? addresses decl.postorder) :
    ∃ addresses,
      Enumerates (ClassDecl.amongAt? types) addresses (types.flatMap ClassDecl.postorder) := by
  induction types using List.reverseRecOn with
  | nil =>
    refine ⟨[], ⟨rfl, fun address found => ?_, .nil⟩⟩
    cases address <;> cases found
  | append_singleton types last ih =>
    rw [List.forall_mem_append, List.forall_mem_singleton] at each
    obtain ⟨addresses, h⟩ := ih each.1
    obtain ⟨addresses', h'⟩ := each.2
    rw [List.flatMap_append, List.flatMap_singleton]
    exact ⟨_, h.concat h'⟩

end Enumerates

/-- **Post-order lists all classes in a class,** and the class. -/
theorem ClassDecl.exists_enumerates (decl : ClassDecl ν) :
    ∃ addresses, Enumerates decl.at? addresses decl.postorder := by
  induction decl using ClassDecl.induction with
  | step decl ih =>
    obtain ⟨addresses, h⟩ := Enumerates.exists_among decl.nested fun inner hi =>
      ih inner (ClassDecl.mem_nested.mp hi)
    refine ⟨addresses ++ [[]], ?_⟩
    rw [ClassDecl.postorder_eq]
    exact h.close

theorem CompilationUnit.exists_enumerates (unit : CompilationUnit ν) :
    ∃ addresses, Enumerates unit.at? addresses unit.postorder := by
  rw [CompilationUnit.postorder_eq]
  exact Enumerates.exists_among unit.types fun decl _ => decl.exists_enumerates

/-! ### What a change is asked for -/

section Walk

variable {α : Type} {change : ClassDecl ν → σ → ClassDecl ν × σ} (view : ClassDecl ν → α)
  (tell : σ → τ) (step : τ → α → τ)

/-- **A change is asked for each class of the tree as it was,** in post-order.  What is seen of a
class must not depend on what became of the classes nested in it; and a part of the state that
keeps up with the classes that the change is asked for keeps up with the whole walk. -/
theorem ClassDecl.tell_bottomUp
    (sees : ∀ decl state,
      view { decl with members := (ClassDecl.bottomUpMembers change decl.members state).1 } =
        view decl)
    (tells : ∀ decl state, tell (change decl state).2 = step (tell state) (view decl))
    (decl : ClassDecl ν) (state : σ) :
    tell (decl.bottomUp change state).2 = (decl.postorder.map view).foldl step (tell state) := by
  induction decl using ClassDecl.induction generalizing state with
  | step decl ih =>
    have members : ∀ members : List (Member ν), members ⊆ decl.members → ∀ state,
        tell (ClassDecl.bottomUpMembers change members state).2 =
          ((members.flatMap Member.postorder).map view).foldl step (tell state) := by
      intro members
      induction members with
      | nil => exact fun _ _ => rfl
      | cons member rest later =>
        intro subset state
        rw [List.cons_subset] at subset
        have others := later subset.2
        cases member with
        | field field => exact others state
        | method method => exact others state
        | nested inner =>
          rw [ClassDecl.bottomUpMembers_nested, others, ih inner subset.1, List.flatMap_cons,
            List.map_append, List.foldl_append]
          rfl
    -- the class itself is asked for last, with other members than it had
    rw [ClassDecl.bottomUp_eq, tells, sees, members decl.members (List.Subset.refl _),
      ClassDecl.postorder_eq_members, List.map_append, List.foldl_append]
    rfl

theorem CompilationUnit.tell_bottomUp
    (sees : ∀ decl state,
      view { decl with members := (ClassDecl.bottomUpMembers change decl.members state).1 } =
        view decl)
    (tells : ∀ decl state, tell (change decl state).2 = step (tell state) (view decl))
    (unit : CompilationUnit ν) (state : σ) :
    tell (unit.bottomUp change state).2 = (unit.postorder.map view).foldl step (tell state) := by
  have types : ∀ (types : List (ClassDecl ν)) (state : σ),
      tell (ClassDecl.bottomUpTypes change types state).2 =
        ((types.flatMap ClassDecl.postorder).map view).foldl step (tell state) := by
    intro types
    induction types with
    | nil => exact fun _ => rfl
    | cons decl rest ih =>
      intro state
      rw [ClassDecl.bottomUpTypes_cons, ih, decl.tell_bottomUp view tell step sees tells,
        List.flatMap_cons, List.map_append, List.foldl_append]
  rw [CompilationUnit.postorder_eq, CompilationUnit.bottomUp]
  exact types unit.types state

/-- A change that keeps every class, with the state left out. -/
theorem simulates_keep (keeps : ∀ decl state, (change decl state).1 = decl) :
    Simulates (fun _ => ()) change fun decl _ => (decl, ()) :=
  fun decl state => Prod.ext (keeps decl state) rfl

theorem passesBy_keep :
    PassesBy (fun (decl : ClassDecl ν) (_ : Unit) => (decl, ())) id (fun _ => True)
      fun _ => True where
  stays _ _ := trivial
  keeps _ _ _ _ := rfl

theorem CompilationUnit.bottomUp_fst_of_keeps (keeps : ∀ decl state, (change decl state).1 = decl)
    (unit : CompilationUnit ν) (state : σ) : (unit.bottomUp change state).1 = unit := by
  have same := (simulates_keep keeps).bottomUp_unit unit state
  rw [passesBy_keep.bottomUp_unit unit (fun _ _ => trivial) trivial] at same
  exact congrArg Prod.fst same

/-- A change that keeps every class sees the classes as they are. -/
theorem ClassDecl.sees_of_keeps (keeps : ∀ decl state, (change decl state).1 = decl)
    (decl : ClassDecl ν) (state : σ) :
    { decl with members := (ClassDecl.bottomUpMembers change decl.members state).1 } = decl := by
  have same := (simulates_keep keeps).bottomUp decl state
  rw [passesBy_keep.bottomUp decl (fun _ _ => trivial) trivial] at same
  have first : (decl.bottomUp change state).1 = decl := congrArg Prod.fst same
  rwa [ClassDecl.bottomUp_eq, keeps] at first

end Walk

/-! ### Records -/

/-- The record of a visitor that looks at a unit and records each class when it leaves it. -/
def Visit.recordLeft (seen : List (ClassDecl ν)) (visit : Visit ν) : List (ClassDecl ν) :=
  seen ++ visit.left?.toList

/-- The record of a visitor that may change a unit and records each class when it is asked to
change it, but leaves it as it is. -/
def ClassDecl.recordAsked (decl : ClassDecl ν) (seen : List (ClassDecl ν)) :
    ClassDecl ν × List (ClassDecl ν) :=
  (decl, seen ++ [decl])

/-- A change that also records the classes it is asked for, without their members. -/
def ClassDecl.recording (change : ClassDecl ν → σ → ClassDecl ν × σ) (decl : ClassDecl ν)
    (state : σ × List (Node ν)) : ClassDecl ν × σ × List (Node ν) :=
  let changed := change decl state.1
  (changed.1, changed.2, state.2 ++ [decl.node])

theorem foldl_concat {α : Type} (items seen : List α) :
    items.foldl (fun seen item => seen ++ [item]) seen = seen ++ items := by
  rw [List.foldl_append_eq_append, ← List.flatMap_def, List.flatMap_singleton']

namespace CompilationUnit

variable (unit : CompilationUnit ν)

theorem foldl_recordLeft : unit.tour.foldl Visit.recordLeft [] = unit.postorder := by
  have record : unit.tour.foldl Visit.recordLeft [] =
      [] ++ (unit.tour.map fun visit => visit.left?.toList).flatten := List.foldl_append_eq_append
  rw [record, List.nil_append, ← List.flatMap_def, ← List.filterMap_eq_flatMap_toList]
  rfl

theorem bottomUp_recordAsked : unit.bottomUp ClassDecl.recordAsked [] = (unit, unit.postorder) := by
  have keeps : ∀ (decl : ClassDecl ν) seen, (decl.recordAsked seen).1 = decl := fun _ _ => rfl
  have record := unit.tell_bottomUp id id (fun seen decl => seen ++ [decl])
    (ClassDecl.sees_of_keeps keeps) (fun _ _ => rfl) []
  rw [foldl_concat, List.map_id] at record
  exact Prod.ext (unit.bottomUp_fst_of_keeps keeps []) record

/-- **A record lists the classes of the unit as it was,** and does not get in the way of the
change. -/
theorem bottomUp_recording (change : ClassDecl ν → σ → ClassDecl ν × σ) (state : σ) :
    unit.bottomUp (ClassDecl.recording change) (state, []) =
      ((unit.bottomUp change state).1, (unit.bottomUp change state).2,
        unit.postorder.map ClassDecl.node) := by
  have simulates : Simulates Prod.fst (ClassDecl.recording change) change := fun _ _ => rfl
  have same := simulates.bottomUp_unit unit (state, [])
  have tells : ∀ decl (seen : σ × List (Node ν)),
      (ClassDecl.recording change decl seen).2.2 = seen.2 ++ [decl.node] := fun _ _ => rfl
  have record := unit.tell_bottomUp ClassDecl.node Prod.snd (fun seen node => seen ++ [node])
    (fun _ _ => rfl) tells (state, [])
  rw [foldl_concat, List.nil_append] at record
  rw [← same, ← record]
  rfl

end CompilationUnit

/-! ### The count of a rewrite -/

/-- Every visit of a search counts one class. -/
theorem Search.visited_visit (target : DeclId) (strategy : Strategy) (decl : ClassDecl Symbol)
    (search : Search) : (visit target strategy decl search).2.visited = search.visited + 1 := by
  by_cases hit : decl.id = target ∧ search.outcome = .notFound
  · rw [visit_of_found hit.1 hit.2]
    rfl
  · rw [visit_of_passed fun seeking id => hit ⟨id, seeking⟩]
    rfl

namespace CompilationUnit

/-- **A rewrite counts the classes of the unit as it was.** -/
theorem exists_events_rewrite {unit : CompilationUnit Symbol} (source : unit.isPrimarySource)
    (strategy : Strategy) (target : DeclId) (maker : Maker) :
    ∃ own, (unit.rewrite strategy target maker).events =
      own ++ [.visited unit.fileName unit.postorder.length] := by
  have count := unit.tell_bottomUp ClassDecl.node Search.visited (fun count _ => count.succ)
    (fun _ _ => rfl) (Search.visited_visit target strategy) { maker }
  rw [List.foldl_const, Nat.succ_iterate, List.length_map, Nat.zero_add] at count
  refine ⟨(unit.bottomUp (Search.visit target strategy) { maker }).2.events, ?_⟩
  unfold rewrite
  rw [if_pos source, ← count]
  simp [Traced.emit, Bind.bind, Pure.pure]

/-- **Walks agree, and visit each class once.** The classes that a visitor sees when it leaves them
stand at all addresses of the unit, in post-order: none comes twice, and none before a class that
stands in it.  A visitor that may change the unit is asked for the same classes, also if it does
change them.  And their number is what a rewrite reports at last, for any element of the unit and
any strategy. -/
theorem walks_agree (unit : CompilationUnit Symbol) :
    ∃ addresses classes, Enumerates unit.at? addresses classes ∧ addresses.Nodup ∧
      (addresses.Pairwise fun address later => ¬address <+: later) ∧
      unit.tour.foldl Visit.recordLeft [] = classes ∧
      unit.bottomUp ClassDecl.recordAsked [] = (unit, classes) ∧
      (∀ {σ : Type} (change : ClassDecl Symbol → σ → ClassDecl Symbol × σ) (state : σ),
        unit.bottomUp (ClassDecl.recording change) (state, []) =
          ((unit.bottomUp change state).1, (unit.bottomUp change state).2,
            classes.map ClassDecl.node)) ∧
      ∀ (round : Round) (element : Element) (strategy : Strategy),
        round.slots[element.unit.index]? = some ⟨unit, .free⟩ → unit.isPrimarySource →
          ∃ result own, round.rewrite (some strategy) element = .ok result ∧
            result.events = .checkedOut element.unit :: (own ++
              [.visited unit.fileName addresses.length, .released element.unit]) := by
  obtain ⟨addresses, enumerates⟩ := unit.exists_enumerates
  refine ⟨addresses, unit.postorder, enumerates, enumerates.nodup, enumerates.nested_first,
    unit.foldl_recordLeft, unit.bottomUp_recordAsked,
    fun change state => unit.bottomUp_recording change state, ?_⟩
  intro round element strategy slot source
  obtain ⟨own, events⟩ := unit.exists_events_rewrite source strategy element.decl round.maker
  refine ⟨_, own, Round.rewrite_of_free slot rfl, ?_⟩
  rw [events, enumerates.length_eq]
  simp

/-- A class with two classes in it, on which a strategy can be tried. -/
def crowded : CompilationUnit Symbol × Maker :=
  let program : Building (CompilationUnit Symbol) := do
    let inner ← Building.type (← Building.name "Inner")
    let other ← Building.type (← Building.name "Other") .enumType
    let outer ← Building.type (← Building.name "Outer") .classType .none []
      [.nested inner, .nested other]
    return { fileName := "Outer.java", package := none, origin := .source, types := [outer] }
  program {}

/-- Three classes are counted, although the strategy takes the first two out of the third. -/
theorem walks_agree_crowded :
    let round : Round := { maker := crowded.2, slots := [⟨crowded.1, .free⟩] }
    let element : Element := { unit := ⟨0⟩, decl := ⟨2⟩, kind := .field, name := ⟨0⟩ }
    let clear : Strategy := fun decl => return ⟨{ decl with members := [] }, [], []⟩
    round.slots[element.unit.index]? = some ⟨crowded.1, .free⟩ ∧ crowded.1.isPrimarySource ∧
      crowded.1.postorder.map (·.id.index) = [0, 1, 2] ∧
      ∃ addresses, Enumerates crowded.1.at? addresses crowded.1.postorder ∧
        ∃ result own, round.rewrite (some clear) element = .ok result ∧
          result.events = .checkedOut element.unit :: (own ++
            [.visited "Outer.java" addresses.length, .released element.unit]) := by
  intro round element clear
  have slot : round.slots[element.unit.index]? = some ⟨crowded.1, .free⟩ := rfl
  have source : crowded.1.isPrimarySource := rfl
  obtain ⟨addresses, _, enumerates, -, -, rfl, -, -, reported⟩ := walks_agree crowded.1
  rw [foldl_recordLeft] at enumerates
  exact ⟨slot, source, rfl, addresses, enumerates, reported round element clear slot source⟩

end CompilationUnit

end Augment
