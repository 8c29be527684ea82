import Augment.Proofs.Diagnostics
import Augment.Proofs.Session

/-!
# Runs around units that are held

While a run goes on, some of the units may be held by others, for reading or for a rewrite.  Such a
run keeps pace with another one, on a round in which each held unit is replaced by a free unit
without types: `Session.Alongside` relates the two rounds, and every step of the run keeps them
related.  At a unit that nobody holds both runs do the same.  At a held unit the second run has
nothing to do, and the first one fails without a trace in the round; all that it leaves are the
lines in `Session.inserted`.

To say where these lines stand among the others, a run is cut into turns: a `Turn` is what one
processor does about one unit.
-/

namespace Augment

/-! ### Turns -/

/-- What a processor has to say about a unit. -/
structure Turn where
  kind : MarkerKind
  unit : UnitId
  /-- The names that are known when the turn starts. -/
  names : Names
  diagnostics : List Diagnostic

theorem foldlM_flatMap {m : Type → Type} [Monad m] [LawfulMonad m] {α β σ : Type}
    (f : α → List β) (step : σ → β → m σ) (items : List α) (start : σ) :
    (items.flatMap f).foldlM step start =
      items.foldlM (fun state item => (f item).foldlM step state) start := by
  induction items generalizing start with
  | nil => rfl
  | cons item rest ih =>
    rw [List.flatMap_cons, List.foldlM_append, List.foldlM_cons]
    exact bind_congr fun state => ih state

namespace Round

/-- Deals with the marked declarations of a unit that were found when the processor started. -/
def visit (memberNotes : Bool) (kind : MarkerKind) (start round : Round) (unit : UnitId) :
    Traced Round :=
  (start.annotatedIn kind unit).value.foldlM (handle memberNotes) round

/-- The turns of a processor at some units. -/
def turnsAt (memberNotes : Bool) (kind : MarkerKind) (start : Round) :
    List UnitId → Round → List Turn
  | [], _ => []
  | unit :: rest, round =>
    let visited := visit memberNotes kind start round unit
    ⟨kind, unit, round.maker.names, visited.diagnostics⟩ ::
      turnsAt memberNotes kind start rest visited.value

/-- The turns of processors for these kinds, each at all units in order. -/
def turnsOf (config : ProcessingConfig) : List MarkerKind → Round → List Turn
  | [], _ => []
  | kind :: rest, round =>
    turnsAt (config.memberNotes && kind ≠ .noArgsConstructor) kind round round.unitIds round ++
      turnsOf config rest (round.process config kind).value

/-- **The turns of a run.** -/
def turns (round : Round) (config : ProcessingConfig) : List Turn :=
  turnsOf config config.processors round

/-- **A processor visits unit after unit.** -/
theorem process_eq_visits (config : ProcessingConfig) (round : Round) (kind : MarkerKind) :
    (round.process config kind).value =
        (round.unitIds.foldlM
          (visit (config.memberNotes && kind ≠ .noArgsConstructor) kind round) round).value ∧
      (round.process config kind).diagnostics =
        (round.unitIds.foldlM
          (visit (config.memberNotes && kind ≠ .noArgsConstructor) kind round)
          round).diagnostics := by
  have visits := foldlM_flatMap (fun unit => (round.annotatedIn kind unit).value)
    (handle (config.memberNotes && kind ≠ .noArgsConstructor)) round.unitIds round
  rw [process, Traced.value_bind, Traced.diagnostics_bind, diagnostics_annotated, List.nil_append,
    value_annotated, visits]
  exact ⟨rfl, rfl⟩

theorem diagnostics_foldlM_visit (memberNotes : Bool) (kind : MarkerKind) (start : Round)
    (units : List UnitId) (round : Round) :
    (units.foldlM (visit memberNotes kind start) round).diagnostics =
      (turnsAt memberNotes kind start units round).flatMap Turn.diagnostics := by
  induction units generalizing round with
  | nil => rfl
  | cons unit rest ih =>
    rw [List.foldlM_cons, Traced.diagnostics_bind, ih]
    rfl

/-- **A run says what it says in its turns,** one after the other. -/
theorem diagnostics_run_eq_turns (round : Round) (config : ProcessingConfig) :
    (report config (round.run config)).diagnostics =
      (round.turns config).flatMap Turn.diagnostics := by
  have processors : ∀ (kinds : List MarkerKind) (round : Round),
      (kinds.foldlM (runProcessor config) round).diagnostics =
        (turnsOf config kinds round).flatMap Turn.diagnostics := by
    intro kinds
    induction kinds with
    | nil => exact fun _ => rfl
    | cons kind rest ih =>
      intro round
      have first : (round.runProcessor config kind).diagnostics =
          (turnsAt (config.memberNotes && kind ≠ .noArgsConstructor) kind round round.unitIds
            round).flatMap Turn.diagnostics :=
        (process_eq_visits config round kind).2.trans (diagnostics_foldlM_visit ..)
      rw [List.foldlM_cons, Traced.diagnostics_bind, first, ih, turnsOf, List.flatMap_append]
      rfl
  exact processors config.processors round

/-- The declarations that are found in a unit are decided by its slot. -/
theorem annotatedIn_congr {round round' : Round} {unit : UnitId}
    (h : round'.slots[unit.index]? = round.slots[unit.index]?) (kind : MarkerKind) :
    round'.annotatedIn kind unit = round.annotatedIn kind unit := by
  have same : round'.tree unit = round.tree unit := by rw [tree_eq, tree_eq, h]
  rw [annotatedIn, annotatedIn, same]

theorem diagnostics_augment_of_error {round : Round} {found : Annotated} {error : RewriteError}
    (memberNotes : Bool) (h : round.checkout found.element.unit = .error error) :
    (round.augment memberNotes found).diagnostics =
      [.error ("failed to rewrite `" ++ round.maker.names.display found.element.name ++ "`: " ++
        error.message)] := by
  unfold augment
  rw [rewrite_of_error h]
  rfl

end Round

/-! ### What is said about a unit that is being read -/

/-- The lines about a marked declaration of a unit that is being read: a class is announced all the
same, but its rewrite fails. -/
def Annotated.barred (names : Names) (found : Annotated) : List Diagnostic :=
  if found.element.kind = .type .classType then
    [found.announcement names,
      .error ("failed to rewrite `" ++ names.display found.element.name ++ "`: " ++
        (RewriteError.borrowed found.element.unit).message)]
  else
    [found.misplaced names]

namespace Session

/-- Somebody holds the unit, for a rewrite or for reading. -/
def Holds (session : Session) (unit : UnitId) : Prop :=
  unit ∈ session.guards ∨ unit ∈ session.readers

/-- **Nothing is found in a unit with a guard,** and all marked declarations in any other unit. -/
theorem Consistent.value_annotatedIn {session : Session} (consistent : session.Consistent)
    (kind : MarkerKind) (unit : UnitId) :
    (session.round.annotatedIn kind unit).value =
      if unit ∈ session.guards then []
      else (session.round.tree? unit).toList.flatMap (CompilationUnit.annotated kind unit) := by
  cases known : session.round.slots[unit.index]? with
  | none =>
    have nothing : (session.round.annotatedIn kind unit).value = [] := by
      rw [Round.annotatedIn, Round.tree_eq, known]
      rfl
    rw [nothing, Round.tree?, known]
    exact (ite_self []).symm
  | some slot =>
    rw [Round.value_annotatedIn_of_some kind known, Round.tree?, known]
    by_cases held : unit ∈ session.guards
    · rw [(consistent.lock_of_guard known held).1, if_pos held]
      rfl
    · rw [consistent.lock_of_no_guard known held, if_neg held, if_neg (by simp)]
      exact (List.append_nil _).symm

/-- **The lines that a held unit adds** to those of a turn. There are none for a unit with a guard,
and for one with readers there are some lines for each marked declaration. -/
def inserted (session : Session) (turn : Turn) : List Diagnostic :=
  if turn.unit ∈ session.readers then
    (session.round.tree? turn.unit).toList.flatMap fun tree =>
      (tree.annotated turn.kind turn.unit).flatMap (Annotated.barred turn.names)
  else
    []

/-- What has become of the round of a session, beside another round without the trees that are held:
the held units and all locks are as they were in the session, and the other round has the same
maker, the same other units, and free units without types in place of those that are held. -/
structure Alongside (session : Session) (round alone : Round) : Prop where
  maker : alone.maker = round.maker
  lock : ∀ unit, round.lock? unit = session.round.lock? unit
  unheld : ∀ unit, ¬session.Holds unit → alone.slots[unit.index]? = round.slots[unit.index]?
  kept : ∀ unit, session.Holds unit →
    round.slots[unit.index]? = session.round.slots[unit.index]?
  emptied : ∀ unit, session.Holds unit →
    ∃ tree, alone.slots[unit.index]? = some ⟨tree, .free⟩ ∧ tree.types = []

variable {session : Session} {round alone : Round} {unit : UnitId}

/-- A unit that nobody holds is free. -/
theorem Consistent.free_of_unheld (consistent : session.Consistent) {slot : Slot}
    (unheld : ¬session.Holds unit) (known : session.round.slots[unit.index]? = some slot) :
    slot.lock = .free :=
  consistent.lock_free known (fun held => unheld (.inl held)) fun held => unheld (.inr held)

/-- A unit that somebody holds is not free. -/
theorem Consistent.not_free_of_holds (consistent : session.Consistent) {slot : Slot}
    (holds : session.Holds unit) (known : session.round.slots[unit.index]? = some slot) :
    slot.lock ≠ .free := by
  rcases holds with held | reading
  · rw [(consistent.lock_of_guard known held).1]
    decide
  · have noGuard : unit ∉ session.guards := fun held => consistent.excludes held reading
    have positive := List.count_pos_iff.mpr reading
    rw [consistent.lock_of_no_guard known noGuard]
    intro free
    injection free with borrow
    injection borrow with none
    omega

/-- The round of a session with each held unit replaced by a free one without types. -/
def emptied (session : Session) : Round where
  maker := session.round.maker
  slots := session.round.slots.map fun slot =>
    if slot.lock = .free then slot else ⟨{ slot.tree with types := [] }, .free⟩

/-- **There is always a round without the trees that are held.** -/
theorem Consistent.alongside_emptied (consistent : session.Consistent) :
    session.Alongside session.round session.emptied := by
  constructor
  · rfl
  · exact fun _ => rfl
  · intro unit unheld
    rw [emptied, List.getElem?_map]
    cases known : session.round.slots[unit.index]? with
    | none => rfl
    | some slot => exact congrArg some (if_pos (consistent.free_of_unheld unheld known))
  · exact fun _ _ => rfl
  · intro unit holds
    obtain ⟨slot, known⟩ := consistent.known holds
    refine ⟨{ slot.tree with types := [] }, ?_, rfl⟩
    rw [emptied, List.getElem?_map, known]
    exact congrArg some (if_neg (consistent.not_free_of_holds holds known))

/-! ### Lockstep -/

namespace Alongside

/-- The slot of a unit that nobody holds is free in the round. -/
theorem free_of_unheld (h : session.Alongside round alone) (consistent : session.Consistent)
    (unheld : ¬session.Holds unit) {slot : Slot} (known : round.slots[unit.index]? = some slot) :
    slot.lock = .free := by
  have lock := h.lock unit
  rw [Round.lock?, Round.lock?, known, Option.map_some] at lock
  obtain ⟨slot', known', same⟩ := Option.map_eq_some_iff.mp lock.symm
  rw [← same]
  exact consistent.free_of_unheld unheld known'

/-- Writing to a unit that nobody holds, the same in both rounds. -/
theorem set (h : session.Alongside round alone) (unheld : ¬session.Holds unit)
    {tree : CompilationUnit Symbol} (slot : round.slots[unit.index]? = some ⟨tree, .free⟩)
    (tree' : CompilationUnit Symbol) (maker : Maker) :
    session.Alongside { maker, slots := round.slots.set unit.index ⟨tree', .free⟩ }
      { maker, slots := alone.slots.set unit.index ⟨tree', .free⟩ } := by
  have aloneSlot : alone.slots[unit.index]? = some ⟨tree, .free⟩ :=
    (h.unheld unit unheld).trans slot
  have bound := (List.getElem?_eq_some_iff.mp slot).1
  have aloneBound := (List.getElem?_eq_some_iff.mp aloneSlot).1
  -- a held unit is another one
  have elsewhere : ∀ other, session.Holds other → unit.index ≠ other.index := by
    intro other held
    exact UnitId.index_ne fun same => unheld (same ▸ held)
  constructor
  · rfl
  · intro other
    rw [← h.lock other, Round.lock?, Round.lock?]
    by_cases same : unit.index = other.index
    · rw [← same, List.getElem?_set_self bound, slot]
      rfl
    · rw [List.getElem?_set_ne same]
  · intro other held
    by_cases same : unit.index = other.index
    · rw [← same, List.getElem?_set_self bound, List.getElem?_set_self aloneBound]
    · rw [List.getElem?_set_ne same, List.getElem?_set_ne same]
      exact h.unheld other held
  · intro other held
    rw [List.getElem?_set_ne (elsewhere other held)]
    exact h.kept other held
  · intro other held
    rw [List.getElem?_set_ne (elsewhere other held)]
    exact h.emptied other held

variable {found : Annotated}

/-- **A class of a unit that nobody holds** is rewritten alike in both rounds. -/
theorem augment (h : session.Alongside round alone) (consistent : session.Consistent)
    (memberNotes : Bool) (unheld : ¬session.Holds found.element.unit) :
    session.Alongside (round.augment memberNotes found).value
        (alone.augment memberNotes found).value ∧
      (round.augment memberNotes found).diagnostics =
        (alone.augment memberNotes found).diagnostics := by
  have same := h.unheld found.element.unit unheld
  cases slot : round.slots[found.element.unit.index]? with
  | none =>
    -- no such unit in either round, and so the same error
    have error : round.checkout found.element.unit = .error (.unknownUnit found.element.unit) := by
      rw [Round.checkout_eq, slot]
    have aloneError : alone.checkout found.element.unit =
        .error (.unknownUnit found.element.unit) := by
      rw [Round.checkout_eq, same, slot]
    rw [Round.diagnostics_augment_of_error memberNotes error,
      Round.diagnostics_augment_of_error memberNotes aloneError, h.maker]
    refine ⟨?_, rfl⟩
    unfold Round.augment
    rw [Round.rewrite_of_error error, Round.rewrite_of_error aloneError]
    exact h
  | some found' =>
    obtain ⟨tree, lock⟩ := found'
    obtain rfl : lock = .free := h.free_of_unheld consistent unheld slot
    rw [Round.augment_of_free memberNotes slot rfl,
      Round.augment_of_free memberNotes (same.trans slot) rfl, h.maker]
    exact ⟨h.set unheld slot _ _, rfl⟩

theorem handle (h : session.Alongside round alone) (consistent : session.Consistent)
    (memberNotes : Bool) (unheld : ¬session.Holds found.element.unit) :
    session.Alongside (round.handle memberNotes found).value
        (alone.handle memberNotes found).value ∧
      (round.handle memberNotes found).diagnostics =
        (alone.handle memberNotes found).diagnostics := by
  have augmented := h.augment consistent memberNotes unheld
  have value : ∀ round : Round, (round.handle memberNotes found).value =
      if found.accepted then (round.augment memberNotes found).value else round := by
    intro round
    rw [Round.handle, Traced.value_bind]
    change (if found.accepted then round.augment memberNotes found else return round).value = _
    split <;> rfl
  rw [value, value, Round.diagnostics_handle, Round.diagnostics_handle, h.maker, augmented.2]
  refine ⟨?_, rfl⟩
  split
  · exact augmented.1
  · exact h

theorem foldlM_handle (h : session.Alongside round alone) (consistent : session.Consistent)
    (memberNotes : Bool) (all : List Annotated)
    (unheld : ∀ found ∈ all, ¬session.Holds found.element.unit) :
    session.Alongside (all.foldlM (Round.handle memberNotes) round).value
        (all.foldlM (Round.handle memberNotes) alone).value ∧
      (all.foldlM (Round.handle memberNotes) round).diagnostics =
        (all.foldlM (Round.handle memberNotes) alone).diagnostics := by
  induction all generalizing round alone with
  | nil => exact ⟨h, rfl⟩
  | cons found rest ih =>
    rw [List.forall_mem_cons] at unheld
    obtain ⟨next, said⟩ := h.handle consistent memberNotes unheld.1
    obtain ⟨last, saidLater⟩ := ih next unheld.2
    rw [List.foldlM_cons, List.foldlM_cons, Traced.value_bind, Traced.value_bind,
      Traced.diagnostics_bind, Traced.diagnostics_bind, said, saidLater]
    exact ⟨last, rfl⟩

/-- A unit that is being read cannot be checked out. -/
theorem checkout_of_reader (h : session.Alongside round alone) (consistent : session.Consistent)
    (reading : unit ∈ session.readers) : round.checkout unit = .error (.borrowed unit) := by
  obtain ⟨slot, known⟩ := consistent.known (.inr reading)
  have noGuard : unit ∉ session.guards := fun held => consistent.excludes held reading
  have lock := consistent.lock_of_no_guard known noGuard
  obtain ⟨readers, count⟩ : ∃ readers, session.readers.count unit = readers + 1 :=
    Nat.exists_eq_add_one.mpr (List.count_pos_iff.mpr reading)
  rw [Round.checkout_eq, h.kept unit (.inr reading), known]
  simp [lock, count]

/-- **Declarations of a unit that is being read** are talked about, and nothing else happens. -/
theorem foldlM_handle_of_reader (h : session.Alongside round alone)
    (consistent : session.Consistent) (memberNotes : Bool) (reading : unit ∈ session.readers)
    (all : List Annotated) (on : ∀ found ∈ all, found.element.unit = unit) :
    (all.foldlM (Round.handle memberNotes) round).value = round ∧
      (all.foldlM (Round.handle memberNotes) round).diagnostics =
        all.flatMap (Annotated.barred round.maker.names) := by
  induction all with
  | nil => exact ⟨rfl, rfl⟩
  | cons found rest ih =>
    rw [List.forall_mem_cons] at on
    obtain ⟨value, diagnostics⟩ := ih on.2
    have error : round.checkout found.element.unit = .error (.borrowed found.element.unit) := by
      rw [on.1]
      exact h.checkout_of_reader consistent reading
    have stays : (round.handle memberNotes found).value = round := by
      rw [Round.value_handle, Round.rewritten_of_error error, ite_self]
    have said : (round.handle memberNotes found).diagnostics =
        found.barred round.maker.names := by
      rw [Round.diagnostics_handle, Annotated.resolution_eq,
        Round.diagnostics_augment_of_error memberNotes error, Annotated.barred]
      by_cases accepted : found.accepted
      · rw [if_pos accepted, if_pos accepted, if_pos (Annotated.accepted_iff.mp accepted)]
      · rw [if_neg accepted, if_neg accepted, if_neg (mt Annotated.accepted_iff.mpr accepted)]
    rw [List.foldlM_cons, Traced.value_bind, Traced.diagnostics_bind, stays, said, value,
      diagnostics, List.flatMap_cons]
    exact ⟨rfl, rfl⟩

/-! ### Turns in lockstep -/

/-- Nothing is found in place of a held unit. -/
theorem annotatedIn_alone (h : session.Alongside round alone) (held : session.Holds unit)
    (kind : MarkerKind) : (alone.annotatedIn kind unit).value = [] := by
  obtain ⟨tree, slot, types⟩ := h.emptied unit held
  rw [Round.value_annotatedIn kind slot, CompilationUnit.annotated, CompilationUnit.tour, types]
  rfl

/-- Nothing is found in a unit with a guard. -/
theorem annotatedIn_of_guard (h : session.Alongside round alone) (consistent : session.Consistent)
    (held : unit ∈ session.guards) (kind : MarkerKind) :
    (round.annotatedIn kind unit).value = [] := by
  rw [Round.annotatedIn_congr (h.kept unit (.inl held)), consistent.value_annotatedIn,
    if_pos held]

/-- All marked declarations are found in a unit with readers. -/
theorem annotatedIn_of_reader (h : session.Alongside round alone) (consistent : session.Consistent)
    (reading : unit ∈ session.readers) (kind : MarkerKind) :
    (round.annotatedIn kind unit).value =
      (session.round.tree? unit).toList.flatMap (CompilationUnit.annotated kind unit) := by
  have noGuard : unit ∉ session.guards := fun held => consistent.excludes held reading
  rw [Round.annotatedIn_congr (h.kept unit (.inr reading)), consistent.value_annotatedIn,
    if_neg noGuard]

variable {start startAlone : Round}

/-- **A turn in lockstep.** -/
theorem visit (starts : session.Alongside start startAlone) (h : session.Alongside round alone)
    (consistent : session.Consistent) (memberNotes : Bool) (kind : MarkerKind) (unit : UnitId) :
    session.Alongside (Round.visit memberNotes kind start round unit).value
        (Round.visit memberNotes kind startAlone alone unit).value ∧
      (Round.visit memberNotes kind start round unit).diagnostics =
        (Round.visit memberNotes kind startAlone alone unit).diagnostics ++
          session.inserted ⟨kind, unit, alone.maker.names,
            (Round.visit memberNotes kind startAlone alone unit).diagnostics⟩ ∧
      (session.Holds unit →
        (Round.visit memberNotes kind startAlone alone unit).diagnostics = []) := by
  unfold Round.visit
  by_cases holds : session.Holds unit
  · rw [starts.annotatedIn_alone holds kind]
    by_cases reading : unit ∈ session.readers
    · -- the first run talks about all marked declarations of the unit
      have on : ∀ found ∈ (start.annotatedIn kind unit).value, found.element.unit = unit :=
        fun found hf => Round.unit_of_annotatedIn hf
      obtain ⟨value, said⟩ := h.foldlM_handle_of_reader consistent memberNotes reading _ on
      rw [value, said, starts.annotatedIn_of_reader consistent reading, List.flatMap_assoc]
      refine ⟨h, ?_, fun _ => rfl⟩
      rw [inserted, if_pos reading, h.maker]
      rfl
    · -- the unit has a guard, so the first run has nothing to do either
      have held : unit ∈ session.guards := holds.resolve_right reading
      rw [starts.annotatedIn_of_guard consistent held kind]
      refine ⟨h, ?_, fun _ => rfl⟩
      rw [inserted, if_neg reading]
      rfl
  · have found : (startAlone.annotatedIn kind unit).value =
        (start.annotatedIn kind unit).value :=
      congrArg Traced.value (Round.annotatedIn_congr (starts.unheld unit holds) kind)
    have unheld : ∀ found ∈ (start.annotatedIn kind unit).value,
        ¬session.Holds found.element.unit := by
      intro found hf
      rw [Round.unit_of_annotatedIn hf]
      exact holds
    have notReading : unit ∉ session.readers := fun reading => holds (.inr reading)
    obtain ⟨next, said⟩ := h.foldlM_handle consistent memberNotes _ unheld
    rw [found, inserted, if_neg notReading, List.append_nil]
    exact ⟨next, said, fun held => absurd held holds⟩

/-- The turns of a processor in lockstep. -/
theorem foldlM_visit (starts : session.Alongside start startAlone)
    (h : session.Alongside round alone) (consistent : session.Consistent) (memberNotes : Bool)
    (kind : MarkerKind) (units : List UnitId) :
    session.Alongside (units.foldlM (Round.visit memberNotes kind start) round).value
        (units.foldlM (Round.visit memberNotes kind startAlone) alone).value ∧
      (units.foldlM (Round.visit memberNotes kind start) round).diagnostics =
        ((Round.turnsAt memberNotes kind startAlone units alone).flatMap fun turn =>
          turn.diagnostics ++ session.inserted turn) ∧
      (∀ turn ∈ Round.turnsAt memberNotes kind startAlone units alone,
        session.Holds turn.unit → turn.diagnostics = []) ∧
      (Round.turnsAt memberNotes kind startAlone units alone).map
          (fun turn => (turn.kind, turn.unit)) = units.map (kind, ·) := by
  induction units generalizing round alone with
  | nil => exact ⟨h, rfl, by simp [Round.turnsAt], rfl⟩
  | cons unit rest ih =>
    obtain ⟨next, said, silent⟩ := starts.visit h consistent memberNotes kind unit
    obtain ⟨last, saidLater, silentLater, order⟩ := ih next
    rw [List.foldlM_cons, List.foldlM_cons, Traced.value_bind, Traced.value_bind,
      Traced.diagnostics_bind, said, saidLater, Round.turnsAt]
    refine ⟨last, rfl, ?_, ?_⟩
    · rw [List.forall_mem_cons]
      exact ⟨silent, silentLater⟩
    · rw [List.map_cons, List.map_cons, order]

/-- Both rounds have the units of the session. -/
theorem unitIds_eq (h : session.Alongside round alone) (consistent : session.Consistent) :
    round.unitIds = session.round.unitIds ∧ alone.unitIds = session.round.unitIds := by
  have sizes : ∀ round' : Round, (∀ index : Nat,
      round'.slots[index]? = none ↔ session.round.slots[index]? = none) →
        round'.unitIds = session.round.unitIds := by
    intro round' same
    simp only [List.getElem?_eq_none_iff] at same
    have size : round'.slots.length = session.round.slots.length :=
      Nat.le_antisymm ((same _).mpr (Nat.le_refl _)) ((same _).mp (Nat.le_refl _))
    rw [Round.unitIds, Round.unitIds, Round.size, size, Round.size]
  have here : ∀ index : Nat, round.slots[index]? = none ↔ session.round.slots[index]? = none := by
    intro index
    have lock := h.lock ⟨index⟩
    rw [Round.lock?, Round.lock?] at lock
    rw [← Option.map_eq_none_iff, lock, Option.map_eq_none_iff]
  refine ⟨sizes round here, sizes alone fun index => ?_⟩
  by_cases holds : session.Holds ⟨index⟩
  · obtain ⟨tree, slot, -⟩ := h.emptied _ holds
    obtain ⟨slot', known⟩ := consistent.known holds
    rw [slot, known]
    exact iff_of_false (Option.some_ne_none _) (Option.some_ne_none _)
  · have same : alone.slots[index]? = round.slots[index]? := h.unheld ⟨index⟩ holds
    rw [same, here]

end Alongside

/-! ### Runs in lockstep -/

/-- What a run does with the units of a session that are held, compared with a run on another round
that does without them. -/
structure Isolates (session : Session) (alone : Round) (config : ProcessingConfig) : Prop where
  /-- No held unit and no lock has changed, and everything else is as in the other run. -/
  state : session.Alongside (session.round.run config).value (alone.run config).value
  /-- All kinds are claimed, as always. -/
  claimed : (Round.report config (session.round.run config)).claimed = config.processors
  /-- The turns of the other run take the units in order, once for each processor. -/
  order : (alone.turns config).map (fun turn => (turn.kind, turn.unit)) =
    config.processors.flatMap fun kind => session.round.unitIds.map (kind, ·)
  /-- What the other run says. -/
  said : (Round.report config (alone.run config)).diagnostics =
    (alone.turns config).flatMap Turn.diagnostics
  /-- The other run says nothing about the held units. -/
  silent : ∀ turn ∈ alone.turns config, session.Holds turn.unit → turn.diagnostics = []
  /-- What the run itself says: the same, and more about units that are being read. -/
  inserted : (Round.report config (session.round.run config)).diagnostics =
    (alone.turns config).flatMap fun turn => turn.diagnostics ++ session.inserted turn

/-- **Held units are isolated.** Whatever units are held while a run goes on, the run completes; it
leaves the held units and all locks alone and does with the rest what it does without the held
units.  To the diagnostics of a run without them it adds those about the declarations of units that
are being read, at their place. -/
theorem isolates_run (consistent : session.Consistent)
    (h : session.Alongside session.round alone) (config : ProcessingConfig) :
    session.Isolates alone config := by
  have processors : ∀ (kinds : List MarkerKind) (round alone : Round),
      session.Alongside round alone →
        session.Alongside (kinds.foldlM (Round.runProcessor config) round).value
            (kinds.foldlM (Round.runProcessor config) alone).value ∧
          (kinds.foldlM (Round.runProcessor config) round).diagnostics =
            ((Round.turnsOf config kinds alone).flatMap fun turn =>
              turn.diagnostics ++ session.inserted turn) ∧
          (∀ turn ∈ Round.turnsOf config kinds alone,
            session.Holds turn.unit → turn.diagnostics = []) ∧
          (Round.turnsOf config kinds alone).map (fun turn => (turn.kind, turn.unit)) =
            kinds.flatMap fun kind => session.round.unitIds.map (kind, ·) := by
    intro kinds
    induction kinds with
    | nil => exact fun round alone h => ⟨h, rfl, by simp [Round.turnsOf], rfl⟩
    | cons kind rest ih =>
      intro round alone h
      obtain ⟨next, said, silent, order⟩ := h.foldlM_visit h consistent
        (config.memberNotes && kind ≠ .noArgsConstructor) kind session.round.unitIds
      obtain ⟨units, unitsAlone⟩ := h.unitIds_eq consistent
      have visits := Round.process_eq_visits config round kind
      have visitsAlone := Round.process_eq_visits config alone kind
      rw [units] at visits
      rw [unitsAlone] at visitsAlone
      rw [← visits.1, ← visitsAlone.1] at next
      rw [← visits.2] at said
      obtain ⟨last, saidLater, silentLater, orderLater⟩ := ih _ _ next
      have first : (round.runProcessor config kind).diagnostics =
          (round.process config kind).diagnostics := rfl
      rw [List.foldlM_cons, List.foldlM_cons, Traced.value_bind, Traced.value_bind,
        Traced.diagnostics_bind, first, said, Round.turnsOf, unitsAlone, List.flatMap_append,
        List.map_append, List.flatMap_cons, order, orderLater]
      refine ⟨last, congrArg _ saidLater, ?_, rfl⟩
      rw [List.forall_mem_append]
      exact ⟨silent, silentLater⟩
  obtain ⟨state, inserted, silent, order⟩ := processors config.processors session.round alone h
  exact { state, claimed := rfl, order, silent, inserted
          said := alone.diagnostics_run_eq_turns config }

/-- A class that nobody holds, a class and an interface that are being read, and a class that is
checked out, all with getter markers. -/
def heldShapes : Session :=
  let program : Building (List (CompilationUnit Symbol)) := do
    let car ← Building.type (← Building.name "Car") .classType .none [.getter]
      [.field (← Building.field (← Building.name "price") (← Building.typeNamed "int"))]
    let engine ← Building.type (← Building.name "Engine") .classType .none [.getter]
    let part ← Building.type (← Building.name "Part") .interfaceType .none [.getter]
    let wheel ← Building.type (← Building.name "Wheel") .classType .none [.getter]
    return [[car], [engine, part], [wheel]].map fun types =>
      { fileName := "Shapes.java", package := none, origin := .source, types }
  (opened (program {}).2 (program {}).1).performAll [.read ⟨1⟩, .checkout ⟨2⟩]

theorem consistent_heldShapes : heldShapes.Consistent :=
  (consistent_opened _ _).performAll _

/-- The class that is being read is announced and cannot be rewritten, the interface is refused, and
nothing is said about the class that is checked out. -/
theorem isolates_run_heldShapes :
    heldShapes.Consistent ∧ heldShapes.Alongside heldShapes.round heldShapes.emptied ∧
      (Round.report { processors := [.getter] }
          (heldShapes.round.run { processors := [.getter] })).diagnostics =
        [.note "Processing >> Car", .note "getPrice", .note "Processing >> Engine",
          .error ("failed to rewrite `Engine`: " ++
            "compilation unit UnitId(1) is borrowed for reading"),
          .error ("annotation not supported: @Getter on interface `Part`, " ++
            "only classes can be augmented")] := by
  have alongside := consistent_heldShapes.alongside_emptied
  refine ⟨consistent_heldShapes, alongside, ?_⟩
  rw [(isolates_run consistent_heldShapes alongside { processors := [.getter] }).inserted]
  decide +kernel

end Session

end Augment
