import Augment.Proofs.Rewriting

/-!
# A rewrite is the update of one class

`Round.rewrite_updates_first` says all that the rewrite of an element does in a free source unit,
whatever the strategy is: if some class of the unit has the id of the element, the first such class
in post-order gets new members, and if none has, nothing happens at all.

That a strategy is called once, or not at all, cannot be seen from what a rewrite leaves behind, as
a strategy may have no effect.  So the calls are recorded: `Search.visitRecording` is `Search.visit`
with a list of calls beside it, which does not change what is done
(`CompilationUnit.bottomUp_visitRecording`).  What counts as a call is justified by
`Search.visit_congr`: a visit depends on what the strategy does in these calls and on nothing else.
-/

namespace Augment

/-- What a strategy is called with. -/
structure Strategy.Call where
  decl : ClassDecl Symbol
  maker : Maker

namespace Search

/-- The calls of the strategy when a class is visited. -/
def calls (target : DeclId) (decl : ClassDecl Symbol) (search : Search) : List Strategy.Call :=
  if decl.id = target ∧ search.outcome = .notFound then [⟨decl, search.maker⟩] else []

/-- Visits a class and records the calls of the strategy. -/
def visitRecording (target : DeclId) (strategy : Strategy) (decl : ClassDecl Symbol)
    (state : Search × List Strategy.Call) : ClassDecl Symbol × Search × List Strategy.Call :=
  let visited := visit target strategy decl state.1
  (visited.1, visited.2, state.2 ++ calls target decl state.1)

variable {target : DeclId} {strategy strategy' : Strategy} {decl : ClassDecl Symbol}
  {search : Search}

/-- **A visit depends on the strategy through its calls only.** -/
theorem visit_congr (agree : ∀ call ∈ calls target decl search,
      strategy call.decl call.maker = strategy' call.decl call.maker) :
    visit target strategy decl search = visit target strategy' decl search := by
  by_cases hit : decl.id = target ∧ search.outcome = .notFound
  · have same : strategy decl search.maker = strategy' decl search.maker := by
      apply agree ⟨decl, search.maker⟩
      simp [calls, hit]
    rw [visit_of_found hit.1 hit.2, visit_of_found hit.1 hit.2]
    unfold Strategy.replaced found
    rw [same]
  · have passed : search.outcome = .notFound → decl.id ≠ target :=
      fun seeking id => hit ⟨id, seeking⟩
    rw [visit_of_passed passed, visit_of_passed passed]

theorem simulates_visitRecording (target : DeclId) (strategy : Strategy) :
    Simulates Prod.fst (visitRecording target strategy) (visit target strategy) :=
  fun _ _ => rfl

theorem visitRecording_of_passed (h : search.outcome = .notFound → decl.id ≠ target)
    (recorded : List Strategy.Call) :
    visitRecording target strategy decl (search, recorded) = (decl, search.pass 1, recorded) := by
  have none : calls target decl search = [] := if_neg fun ⟨id, seeking⟩ => h seeking id
  unfold visitRecording
  simp [visit_of_passed h, none]

theorem visitRecording_of_found (id : decl.id = target) (seeking : search.outcome = .notFound)
    (recorded : List Strategy.Call) :
    visitRecording target strategy decl (search, recorded) =
      (strategy.replaced search.maker decl, search.found strategy decl,
        recorded ++ [⟨decl, search.maker⟩]) := by
  have one : calls target decl search = [⟨decl, search.maker⟩] := if_pos ⟨id, seeking⟩
  unfold visitRecording
  simp [visit_of_found id seeking, one]

/-- The record of a visit that only counts. -/
def passRecording (state : Search × List Strategy.Call) : Search × List Strategy.Call :=
  (state.1.pass 1, state.2)

/-- The record of the visit that finds the class `old`. -/
def foundRecording (strategy : Strategy) (old : ClassDecl Symbol)
    (state : Search × List Strategy.Call) : Search × List Strategy.Call :=
  (state.1.found strategy old, state.2 ++ [⟨old, state.1.maker⟩])

theorem iterate_passRecording (recorded : List Strategy.Call) (n : Nat) :
    passRecording^[n] (search, recorded) = (search.pass n, recorded) := by
  induction n with
  | zero => rfl
  | succ n ih =>
    rw [Function.iterate_succ_apply', ih]
    rfl

theorem passesBy_visitRecording (target : DeclId) (strategy : Strategy) (maker : Maker) :
    PassesBy (visitRecording target strategy) passRecording (fun state => Seeking maker state.1)
      (·.id ≠ target) where
  stays _ seeking := seeking
  keeps _ state _ other := visitRecording_of_passed (fun _ => other) state.2

/-- A search records the class that it finds, and nothing before or after it. -/
theorem changesFirst_visitRecording (strategy : Strategy) (maker : Maker) {old : ClassDecl Symbol}
    (id : old.id = target) :
    ChangesFirst (visitRecording target strategy) passRecording (foundRecording strategy old)
      (fun state => Seeking maker state.1) (fun state => state.1.outcome ≠ .notFound) target old
      (strategy.replaced maker old) where
  before := passesBy_visitRecording target strategy maker
  exchanges := by
    rintro ⟨search, recorded⟩ ⟨seeking, rfl⟩
    exact visitRecording_of_found id seeking recorded
  finds state _ := outcome_found state.1 strategy old
  after :=
    { stays := fun _ ended => ended
      keeps := fun _ state ended _ =>
        visitRecording_of_passed (fun seeking => absurd seeking ended) state.2 }

end Search

/-! ### The calls of a rewrite -/

namespace CompilationUnit

variable {strategy : Strategy} {target : DeclId} {tree tree' : CompilationUnit Symbol}
  {maker : Maker} {old : ClassDecl Symbol}

/-- The calls of the strategy when the class with some id is rewritten. -/
def calls (strategy : Strategy) (target : DeclId) (tree : CompilationUnit Symbol) (maker : Maker) :
    List Strategy.Call :=
  if tree.isPrimarySource then
    (tree.bottomUp (Search.visitRecording target strategy) ({ maker }, [])).2.2
  else []

/-- **The record does not change what is done.** -/
theorem bottomUp_visitRecording (strategy : Strategy) (target : DeclId)
    (tree : CompilationUnit Symbol) (maker : Maker) :
    Prod.map id Prod.fst (tree.bottomUp (Search.visitRecording target strategy) ({ maker }, [])) =
      tree.bottomUp (Search.visit target strategy) { maker } :=
  (Search.simulates_visitRecording target strategy).bottomUp_unit tree ({ maker }, [])

/-- A strategy is not called if there is no class for it. -/
theorem calls_of_absent (strategy : Strategy) (maker : Maker)
    (h : ∀ c ∈ tree.postorder, c.id ≠ target) : tree.calls strategy target maker = [] := by
  unfold calls
  split_ifs
  · rw [(Search.passesBy_visitRecording target strategy maker).bottomUp_unit tree h
      (Search.seeking_start maker), Search.iterate_passRecording]
  · rfl

/-- **A strategy is called once,** with the class as it was and the maker as it was. -/
theorem calls_of_replacesFirst (source : tree.isPrimarySource)
    (h : ReplacesFirst target old (strategy.replaced maker old) tree tree') :
    tree.calls strategy target maker = [⟨old, maker⟩] := by
  have start : Search.Seeking maker (({ maker }, []) : Search × List Strategy.Call).1 :=
    Search.seeking_start maker
  obtain ⟨before, after, -, eq⟩ :=
    (Search.changesFirst_visitRecording strategy maker h.id_old).bottomUp_unit h start
  unfold calls
  rw [if_pos source, eq, Search.iterate_passRecording, Search.foundRecording,
    Search.iterate_passRecording]
  rfl

end CompilationUnit

/-! ### The update of one class -/

namespace Round

/-- **A rewrite updates the first class with the id of its element, and nothing else.** If no class
of a free source unit has the id, the round stays as it is and the strategy is not called.
Otherwise the strategy is called once, with the first such class in post-order and the maker of the
round.  This class then has the members that the strategy gives it, the maker is the one that the
strategy leaves behind, and all else stays as it is. -/
theorem rewrite_updates_first {round : Round} (strategy : Strategy) {element : Element}
    {tree : CompilationUnit Symbol}
    (slot : round.slots[element.unit.index]? = some ⟨tree, .free⟩)
    (source : tree.isPrimarySource) :
    match tree.postorder.find? (·.id = element.decl) with
    | none =>
      round.rewrite (some strategy) element = .ok
        ⟨(round, .notFound), [.checkedOut element.unit,
          .visited tree.fileName tree.postorder.length, .released element.unit]⟩ ∧
      tree.calls strategy element.decl round.maker = []
    | some old => ∃ tree',
      tree.ReplacesFirst element.decl old
        { old with members := (strategy old round.maker).1.decl.members } tree' ∧
      round.rewrite (some strategy) element = .ok
        ⟨({ maker := (strategy old round.maker).2
            slots := round.slots.set element.unit.index ⟨tree', .free⟩ },
          .rewritten old.name (strategy old round.maker).1.generated),
          .checkedOut element.unit :: ((strategy old round.maker).1.events ++
            [.visited tree.fileName tree.postorder.length, .released element.unit])⟩ ∧
      tree.calls strategy element.decl round.maker = [⟨old, round.maker⟩] := by
  split
  · rename_i absent
    have none : ∀ c ∈ tree.postorder, c.id ≠ element.decl := by
      simpa using List.find?_eq_none.mp absent
    refine ⟨?_, CompilationUnit.calls_of_absent strategy round.maker none⟩
    rw [rewrite_of_free slot (CompilationUnit.rewrite_of_absent strategy round.maker source none)]
    simp [slots_set_of_getElem? slot]
  · rename_i old present
    have some : ∃ c ∈ tree.postorder, c.id = element.decl :=
      ⟨old, List.mem_of_find?_eq_some present, by simpa using List.find?_some present⟩
    obtain ⟨first, tree', replaces⟩ :=
      CompilationUnit.exists_replacesFirst (strategy.replaced round.maker) tree some
    -- the class that is replaced is the one that was found
    obtain rfl : first = old := Option.some.inj (replaces.find?_postorder.symm.trans present)
    refine ⟨tree', replaces, ?_, CompilationUnit.calls_of_replacesFirst source replaces⟩
    rw [rewrite_of_free slot (CompilationUnit.rewrite_of_replacesFirst source replaces)]
    simp

end Round

/-- A strategy that writes over all of its class. -/
def Strategy.scribble : Strategy := fun _ => do
  let name ← Building.name "mess"
  let id ← Building.declId
  return {
    decl := { id, name, kind := .enumType, modifiers := ⟨31⟩, markers := [.setter], members := [] }
    generated := [name, name]
    events := [] }

namespace Round

/-- Two of three classes have the id, which a field element points at. -/
theorem rewrite_updates_first_scribble :
    ∃ (round : Round) (element : Element) (tree tree' : CompilationUnit Symbol)
      (old : ClassDecl Symbol),
      round.slots[element.unit.index]? = some ⟨tree, .free⟩ ∧ tree.isPrimarySource ∧
      tree.postorder.map (·.id.index) = [7, 7, 5] ∧ old.id.index = 7 ∧
      old.members.length = 1 ∧
      tree.ReplacesFirst element.decl old { old with members := [] } tree' ∧
      tree.calls Strategy.scribble element.decl round.maker = [⟨old, round.maker⟩] ∧
      ∃ result, round.rewrite (some Strategy.scribble) element = .ok result ∧
        result.value.2 = .rewritten ⟨2⟩ [⟨1⟩, ⟨1⟩] := by
  let method : MethodDecl Symbol :=
    { id := ⟨3⟩, name := ⟨4⟩, modifiers := .none, returnType := none, params := [], body := {},
      markers := [] }
  let old : ClassDecl Symbol := ⟨⟨7⟩, ⟨2⟩, .interfaceType, .none, [.getter], [.method method]⟩
  let twin : ClassDecl Symbol := ⟨⟨7⟩, ⟨3⟩, .classType, .none, [], []⟩
  let outer : ClassDecl Symbol :=
    ⟨⟨5⟩, ⟨6⟩, .classType, .none, [], [.method method, .nested old, .nested twin]⟩
  let tree : CompilationUnit Symbol :=
    { fileName := "A.java", package := none, origin := .source, types := [outer] }
  let element : Element := { unit := ⟨0⟩, decl := ⟨7⟩, kind := .field, name := ⟨9⟩ }
  let round : Round := { slots := [⟨tree, .free⟩] }
  have slot : round.slots[element.unit.index]? = some ⟨tree, .free⟩ := rfl
  have found : tree.postorder.find? (·.id = element.decl) = some old := rfl
  have generated : (Strategy.scribble old round.maker).1.generated = [⟨1⟩, ⟨1⟩] := by
    decide +kernel
  have point := rewrite_updates_first Strategy.scribble slot rfl
  rw [found] at point
  obtain ⟨tree', replaces, rewritten, calls⟩ := point
  exact ⟨round, element, tree, tree', old, slot, rfl, rfl, rfl, rfl, replaces, calls, _, rewritten,
    congrArg (Outcome.rewritten old.name) generated⟩

end Round

end Augment
