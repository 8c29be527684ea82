import Augment.Processing
import Augment.Proofs.Round
import Augment.Proofs.Tree.FirstMatch
import Mathlib.Logic.Relation

/-!
# What a rewrite does

A rewrite visits all classes of a unit but changes one at most.  Until the class is found, and from
then on, a visit only counts (`Search.changesFirst_visit`), so a unit with a class of the id ends
with its first such class replaced (`CompilationUnit.rewrite_of_replacesFirst`) and any other unit
stays as it is (`CompilationUnit.rewrite_of_absent`).

For a round, `Round.Rewrites` lists all that can become of it.  A whole run is a sequence of such
rewrites (`Round.steps_run`), so a property of rounds that every rewrite preserves is preserved by
every run.
-/

namespace Augment

/-- The class with the members that a strategy gives it. -/
def Strategy.replaced (strategy : Strategy) (maker : Maker) (decl : ClassDecl Symbol) :
    ClassDecl Symbol :=
  { decl with members := (strategy decl maker).1.decl.members }

namespace Search

/-- The search after some more classes that were only counted. -/
def pass (search : Search) (count : Nat) : Search :=
  { search with visited := search.visited + count }

/-- The search after the class `old` was found. -/
def found (search : Search) (strategy : Strategy) (old : ClassDecl Symbol) : Search where
  maker := (strategy old search.maker).2
  visited := search.visited + 1
  outcome := .rewritten old.name (strategy old search.maker).1.generated
  events := (strategy old search.maker).1.events

theorem iterate_pass (search : Search) (n : Nat) :
    (fun search : Search => search.pass 1)^[n] search = search.pass n := by
  induction n with
  | zero => rfl
  | succ n ih =>
    rw [Function.iterate_succ_apply', ih]
    rfl

theorem outcome_found (search : Search) (strategy : Strategy) (old : ClassDecl Symbol) :
    (search.found strategy old).outcome ≠ .notFound := by
  simp [found]

variable {target : DeclId} {strategy : Strategy} {decl : ClassDecl Symbol} {search : Search}

theorem visit_of_passed (h : search.outcome = .notFound → decl.id ≠ target) :
    visit target strategy decl search = (decl, search.pass 1) := by
  have skip : ¬(decl.id = target ∧ search.outcome = .notFound) := fun ⟨id, open'⟩ => h open' id
  unfold visit
  exact if_neg skip

theorem visit_of_found (id : decl.id = target) (open' : search.outcome = .notFound) :
    visit target strategy decl search =
      (strategy.replaced search.maker decl, search.found strategy decl) := by
  unfold visit
  exact if_pos ⟨id, open'⟩

/-- The search has not found its class yet, and the maker is still this one. -/
def Seeking (maker : Maker) (search : Search) : Prop :=
  search.outcome = .notFound ∧ search.maker = maker

theorem passesBy_visit (target : DeclId) (strategy : Strategy) (maker : Maker) :
    PassesBy (visit target strategy) (·.pass 1) (Seeking maker) (·.id ≠ target) where
  stays _ seeking := seeking
  keeps _ _ _ other := visit_of_passed fun _ => other

/-- **A search changes the first class with the id,** and the strategy is given the maker that the
search started with. -/
theorem changesFirst_visit (strategy : Strategy) (maker : Maker) {old : ClassDecl Symbol}
    (id : old.id = target) :
    ChangesFirst (visit target strategy) (·.pass 1) (·.found strategy old) (Seeking maker)
      (·.outcome ≠ .notFound) target old (strategy.replaced maker old) where
  before := passesBy_visit target strategy maker
  exchanges := by
    rintro search ⟨seeking, rfl⟩
    exact visit_of_found id seeking
  finds search _ := outcome_found search strategy old
  after :=
    { stays := fun _ ended => ended
      keeps := fun _ _ ended _ => visit_of_passed fun seeking => absurd seeking ended }

theorem seeking_start (maker : Maker) : Seeking maker { maker } :=
  ⟨rfl, rfl⟩

end Search

namespace CompilationUnit

variable {strategy : Strategy} {target : DeclId} {tree tree' : CompilationUnit Symbol}
  {maker : Maker} {old : ClassDecl Symbol}

theorem rewrite_of_not_source (strategy : Strategy) (target : DeclId) (maker : Maker)
    (h : tree.isPrimarySource = false) :
    tree.rewrite strategy target maker =
      ⟨{ tree, maker, result := .skippedOrigin }, [.notSource tree.fileName tree.origin]⟩ := by
  unfold rewrite
  rw [h]
  rfl

/-- **Nothing changes in a unit without the class.** -/
theorem rewrite_of_absent (strategy : Strategy) (maker : Maker) (source : tree.isPrimarySource)
    (h : ∀ c ∈ tree.postorder, c.id ≠ target) :
    tree.rewrite strategy target maker =
      ⟨{ tree, maker, result := .notFound }, [.visited tree.fileName tree.postorder.length]⟩ := by
  have passed : tree.bottomUp (Search.visit target strategy) { maker } =
      (tree, ({ maker } : Search).pass tree.postorder.length) := by
    rw [(Search.passesBy_visit target strategy maker).bottomUp_unit tree h
      (Search.seeking_start maker), Search.iterate_pass]
  unfold rewrite
  rw [if_pos source]
  simp only [passed, Search.pass, Nat.zero_add, List.nil_append]
  rfl

/-- **The first class with the id is replaced by what the strategy makes of it.** -/
theorem rewrite_of_replacesFirst (source : tree.isPrimarySource)
    (h : ReplacesFirst target old (strategy.replaced maker old) tree tree') :
    tree.rewrite strategy target maker =
      ⟨{ tree := tree'
         maker := (strategy old maker).2
         result := .rewritten old.name (strategy old maker).1.generated },
        (strategy old maker).1.events ++ [.visited tree.fileName tree.postorder.length]⟩ := by
  obtain ⟨before, after, length, eq⟩ :=
    (Search.changesFirst_visit strategy maker h.id_old).bottomUp_unit h
      (Search.seeking_start maker)
  rw [Search.iterate_pass, Search.iterate_pass] at eq
  unfold rewrite
  rw [if_pos source]
  simp only [eq]
  rw [length]
  simp [Search.pass, Search.found, Traced.emit, Bind.bind, Pure.pure]

end CompilationUnit

/-! ### Rounds -/

/-- What can become of the slot at some place by rewrites: it stays, or it is free and its tree,
which is source code, is exchanged for another such tree. -/
def Slot.Rewritten (slot? slot?' : Option Slot) : Prop :=
  slot?' = slot? ∨ ∃ tree tree' : CompilationUnit Symbol,
    slot? = some ⟨tree, .free⟩ ∧ tree.isPrimarySource ∧
      slot?' = some ⟨tree', .free⟩ ∧ tree'.isPrimarySource

theorem Slot.Rewritten.trans {first second third : Option Slot} (h : Slot.Rewritten first second)
    (h' : Slot.Rewritten second third) : Slot.Rewritten first third := by
  rcases h with rfl | ⟨tree, tree', free, source, free', source'⟩
  · exact h'
  · rcases h' with rfl | ⟨_, tree'', -, -, free'', source''⟩
    · exact .inr ⟨tree, tree', free, source, free', source'⟩
    · exact .inr ⟨tree, tree'', free, source, free'', source''⟩

theorem Slot.Rewritten.lock_eq {slot? slot?' : Option Slot} (h : Slot.Rewritten slot? slot?') :
    slot?'.map Slot.lock = slot?.map Slot.lock := by
  rcases h with rfl | ⟨_, _, rfl, -, rfl, -⟩ <;> rfl

namespace Round

/-- What can become of a round when the class of an element is to be rewritten.  The maker and the
tree change together, and no lock changes. -/
inductive Rewrites (strategy : Strategy) (element : Element) (round : Round) : Round → Prop where
  | kept : Rewrites strategy element round round
  | replaced {tree tree' : CompilationUnit Symbol} {old : ClassDecl Symbol}
      (slot : round.slots[element.unit.index]? = some ⟨tree, .free⟩)
      (source : tree.isPrimarySource)
      (replaces : tree.ReplacesFirst element.decl old (strategy.replaced round.maker old) tree') :
      Rewrites strategy element round
        { maker := (strategy old round.maker).2
          slots := round.slots.set element.unit.index ⟨tree', .free⟩ }

variable {round : Round} {strategy : Strategy} {element : Element} {tree : CompilationUnit Symbol}

theorem rewrite_of_free (h : round.slots[element.unit.index]? = some ⟨tree, .free⟩)
    {edited : Traced (Edited Outcome)}
    (change : tree.rewrite strategy element.decl round.maker = edited) :
    round.rewrite (some strategy) element = .ok
      ⟨({ maker := edited.value.maker
          slots := round.slots.set element.unit.index ⟨edited.value.tree, .free⟩ },
          edited.value.result),
        .checkedOut element.unit :: (edited.events ++ [.released element.unit])⟩ := by
  subst change
  exact edit_of_free h _

/-- A slot that is written back as it was changes nothing. -/
theorem slots_set_of_getElem? {index : Nat} {slot : Slot} (h : round.slots[index]? = some slot) :
    round.slots.set index slot = round.slots := by
  obtain ⟨bound, rfl⟩ := List.getElem?_eq_some_iff.mp h
  exact List.set_getElem_self bound

/-- **A rewrite fails like a checkout of its unit.** -/
theorem rewrite_of_error {error : RewriteError} (h : round.checkout element.unit = .error error) :
    round.rewrite (some strategy) element = .error error :=
  edit_of_error h _

/-- The round after a strategy was applied to the class of an element, if that could be done. -/
def rewritten (round : Round) (strategy : Strategy) (element : Element) : Round :=
  match round.rewrite (some strategy) element with
  | .ok rewriting => rewriting.value.1
  | .error _ => round

theorem rewritten_of_error {error : RewriteError} (h : round.checkout element.unit = .error error) :
    round.rewritten strategy element = round := by
  rw [rewritten, rewrite_of_error h]

/-- **What becomes of a free unit:** it stays if it has no class to be rewritten, and otherwise the
first class with the id is replaced. -/
theorem rewritten_of_free (strategy : Strategy)
    (slot : round.slots[element.unit.index]? = some ⟨tree, .free⟩) :
    (tree.isPrimarySource → ∀ c ∈ tree.postorder, c.id ≠ element.decl) ∧
        round.rewritten strategy element = round ∨
      tree.isPrimarySource ∧ ∃ old tree',
        tree.ReplacesFirst element.decl old (strategy.replaced round.maker old) tree' ∧
          round.rewritten strategy element =
            { maker := (strategy old round.maker).2
              slots := round.slots.set element.unit.index ⟨tree', .free⟩ } := by
  have unchanged := slots_set_of_getElem? slot
  by_cases source : tree.isPrimarySource
  · -- the search looks through all classes, so it fails only if none of them has the id
    by_cases present : ∃ c ∈ tree.postorder, c.id = element.decl
    · obtain ⟨old, tree', replaces⟩ :=
        CompilationUnit.exists_replacesFirst (strategy.replaced round.maker) tree present
      refine .inr ⟨source, old, tree', replaces, ?_⟩
      rw [rewritten, rewrite_of_free slot
        (CompilationUnit.rewrite_of_replacesFirst source replaces)]
    · have absent : ∀ c ∈ tree.postorder, c.id ≠ element.decl := by simpa using present
      refine .inl ⟨fun _ => absent, ?_⟩
      rw [rewritten, rewrite_of_free slot
        (CompilationUnit.rewrite_of_absent strategy round.maker source absent)]
      exact congrArg (Round.mk round.maker) unchanged
  · refine .inl ⟨fun h => absurd h source, ?_⟩
    rw [rewritten, rewrite_of_free slot (CompilationUnit.rewrite_of_not_source strategy
      element.decl round.maker (by simpa using source))]
    exact congrArg (Round.mk round.maker) unchanged

/-- **What a rewrite can do.** -/
theorem rewrites_rewritten (round : Round) (strategy : Strategy) (element : Element) :
    Rewrites strategy element round (round.rewritten strategy element) := by
  cases checkout : round.checkout element.unit with
  | error error =>
    rw [rewritten_of_error checkout]
    exact .kept
  | ok entry =>
    obtain ⟨slot, -⟩ := checkout_eq_ok_iff.mp checkout
    rcases rewritten_of_free strategy slot with
      ⟨-, kept⟩ | ⟨source, old, tree', replaces, replaced⟩
    · rw [kept]
      exact .kept
    · rw [replaced]
      exact .replaced slot source replaces

theorem rewrites_of_rewrite {result : Traced (Round × Outcome)}
    (h : round.rewrite (some strategy) element = .ok result) :
    Rewrites strategy element round result.value.1 := by
  have eq : round.rewritten strategy element = result.value.1 := by rw [rewritten, h]
  exact eq ▸ rewrites_rewritten round strategy element

/-- A rewrite that changes something has only one result. -/
theorem Rewrites.eq_or_eq_rewritten {round' : Round}
    (h : Rewrites strategy element round round') :
    round' = round ∨ round' = round.rewritten strategy element := by
  cases h with
  | kept => exact .inl rfl
  | replaced slot source replaces =>
    refine .inr ?_
    rw [rewritten, rewrite_of_free slot
      (CompilationUnit.rewrite_of_replacesFirst source replaces)]

/-- **A rewrite touches one slot at most.** -/
theorem Rewrites.slot_eq {round' : Round} (h : Rewrites strategy element round round')
    {index : Nat} (other : element.unit.index ≠ index) :
    round'.slots[index]? = round.slots[index]? := by
  cases h with
  | kept => rfl
  | replaced _ _ _ => exact List.getElem?_set_ne other

theorem Rewrites.slot_rewritten {round' : Round} (h : Rewrites strategy element round round')
    (index : Nat) : Slot.Rewritten round.slots[index]? round'.slots[index]? := by
  by_cases same : element.unit.index = index
  · cases h with
    | kept => exact .inl rfl
    | @replaced tree tree' old slot source replaces =>
      subst same
      have bound : element.unit.index < round.slots.length := (List.getElem?_eq_some_iff.mp slot).1
      refine .inr ⟨tree, tree', slot, source, List.getElem?_set_self bound, ?_⟩
      rw [CompilationUnit.isPrimarySource, replaces.origin_eq]
      exact source
  · exact .inl (h.slot_eq same)

/-! ### Runs -/

/-- One step of a run: a rewrite that some marker asks for. -/
def Step (round round' : Round) : Prop :=
  ∃ (marker : Marker) (element : Element), Rewrites marker.strategy element round round'

/-- **Rewrites change no lock,** and the tree of no unit but of free source units. -/
theorem slot_rewritten_of_steps {round round' : Round} (h : Relation.ReflTransGen Step round round')
    (index : Nat) : Slot.Rewritten round.slots[index]? round'.slots[index]? := by
  induction h with
  | refl => exact .inl rfl
  | tail _ step ih =>
    obtain ⟨marker, element, rewrites⟩ := step
    exact ih.trans (rewrites.slot_rewritten index)

/-- **An accepted declaration is rewritten,** and any other changes nothing. -/
theorem value_handle (memberNotes : Bool) (round : Round) (found : Annotated) :
    (round.handle memberNotes found).value =
      if found.accepted then round.rewritten found.marker.strategy found.element else round := by
  unfold handle
  rw [Traced.value_bind]
  change (if found.accepted then round.augment memberNotes found else return round).value = _
  split
  · unfold augment rewritten
    cases round.rewrite (some found.marker.strategy) found.element <;> rfl
  · rfl

theorem step_handle (memberNotes : Bool) (round : Round) (found : Annotated) :
    Step round (round.handle memberNotes found).value := by
  refine ⟨found.marker, found.element, ?_⟩
  rw [value_handle]
  split
  · exact rewrites_rewritten _ _ _
  · exact .kept

/-- Steps on the way through a list make up one sequence. -/
theorem steps_foldl {α : Type} {next : Round → α → Round}
    (each : ∀ round item, Relation.ReflTransGen Step round (next round item))
    (items : List α) (round : Round) :
    Relation.ReflTransGen Step round (items.foldl next round) := by
  induction items generalizing round with
  | nil => exact .refl
  | cons item rest ih => exact (each round item).trans (ih (next round item))

theorem steps_process (config : ProcessingConfig) (round : Round) (kind : MarkerKind) :
    Relation.ReflTransGen Step round (round.process config kind).value := by
  unfold process
  rw [Traced.value_bind, Traced.value_foldlM]
  exact steps_foldl (fun round found => .single (step_handle _ round found)) _ round

/-- **A run is a sequence of rewrites.** -/
theorem steps_run (config : ProcessingConfig) (round : Round) :
    Relation.ReflTransGen Step round (round.run config).value := by
  unfold run
  rw [Traced.value_bind, Traced.value_foldlM]
  exact steps_foldl (fun round kind => steps_process config round kind) _ round

end Round

end Augment
