import Augment.Proofs.Rewriting
import Augment.Session
import Mathlib.Data.List.Count

/-!
# Checkouts over a session

A round keeps two records for each unit, how its tree is borrowed and whether it is checked out; a
session keeps the holders.  `Session.Consistent` says how they fit: a unit with a guard has the lock
of a checkout and nothing else, and without a guard its lock counts the readers.

A user of a session makes calls (`Session.Call`), one after the other and on any units, known or
not.  Every call preserves consistency (`Session.Consistent.perform`), and in a consistent session
the holders decide what a call does (`Session.perform_checkout`, `Session.perform_read`).
`Session.protocol_performAll` puts it all together for the state after any list of calls.
-/

namespace Augment

namespace Round

/-- The tree of a unit, whoever holds it. -/
def tree? (round : Round) (unit : UnitId) : Option (CompilationUnit Symbol) :=
  round.slots[unit.index]?.map Slot.tree

/-- The lock of a unit. -/
def lock? (round : Round) (unit : UnitId) : Option Lock :=
  round.slots[unit.index]?.map Slot.lock

section Locks

variable (round : Round) (unit : UnitId) (change : Slot → Slot)

theorem lock?_modifySlot_self (on : Lock → Lock) (h : ∀ slot, (change slot).lock = on slot.lock) :
    (round.modifySlot unit change).lock? unit = (round.lock? unit).map on := by
  rw [lock?, getElem?_slots_modifySlot, if_pos rfl, lock?, Option.map_map, Option.map_map]
  exact Option.map_congr fun slot _ => h slot

theorem tree?_modifySlot_self
    (on : CompilationUnit Symbol → CompilationUnit Symbol)
    (h : ∀ slot, (change slot).tree = on slot.tree) :
    (round.modifySlot unit change).tree? unit = (round.tree? unit).map on := by
  rw [tree?, getElem?_slots_modifySlot, if_pos rfl, tree?, Option.map_map, Option.map_map]
  exact Option.map_congr fun slot _ => h slot

variable {unit} {other : UnitId}

theorem slots_modifySlot_of_ne (h : other ≠ unit) :
    (round.modifySlot unit change).slots[other.index]? = round.slots[other.index]? := by
  rw [getElem?_slots_modifySlot, if_neg (UnitId.index_ne h)]

variable {round change}

/-- A change that keeps the lock of a slot keeps all locks. -/
theorem lock?_modifySlot (h : ∀ slot, (change slot).lock = slot.lock) (other : UnitId) :
    (round.modifySlot unit change).lock? other = round.lock? other := by
  by_cases same : other = unit
  · subst same
    rw [lock?_modifySlot_self round other change id h, Option.map_id_fun, id]
  · exact congrArg (Option.map Slot.lock) (slots_modifySlot_of_ne round change same)

/-- A change that keeps the tree of a slot keeps all trees. -/
theorem tree?_modifySlot (h : ∀ slot, (change slot).tree = slot.tree) (other : UnitId) :
    (round.modifySlot unit change).tree? other = round.tree? other := by
  by_cases same : other = unit
  · subst same
    rw [tree?_modifySlot_self round other change id h, Option.map_id_fun, id]
  · exact congrArg (Option.map Slot.tree) (slots_modifySlot_of_ne round change same)

end Locks

end Round

namespace Session

/-- A call of a user. -/
inductive Call where
  | read (unit : UnitId)
  | unread (unit : UnitId)
  | checkout (unit : UnitId)
  | release (unit : UnitId)
  /-- Changes a tree through the guard for its unit. -/
  | mutate (unit : UnitId) (change : CompilationUnit Symbol → CompilationUnit Symbol)
  | isCheckedOut (unit : UnitId)
  | annotated (kind : MarkerKind)
  | rewrite (strategy : Option Strategy) (element : Element)
  | run (config : ProcessingConfig)

/-- What a user gets for a call. -/
inductive Reply where
  /-- A reader, which shows the tree. -/
  | reader (tree : CompilationUnit Symbol)
  | guard
  /-- Whether the user held what was given back or written through. -/
  | held (answer : Bool)
  | isCheckedOut (answer : Bool)
  | annotated (found : List Annotated)
  | outcome (outcome : Outcome)
  | report (report : Report)
  | error (error : RewriteError)

/-- The reply to a call, and the session after it. -/
def perform (session : Session) : Call → Reply × Session
  | .read unit =>
    match session.read unit with
    | .ok (tree, after) => (.reader tree, after)
    | .error error => (.error error, session)
  | .unread unit => (.held (unit ∈ session.readers), session.unread unit)
  | .checkout unit =>
    match session.checkout unit with
    | .ok after => (.guard, after.value)
    | .error error => (.error error, session)
  | .release unit => (.held (session.release unit).value.2, (session.release unit).value.1)
  | .mutate unit change =>
    if unit ∈ session.guards then
      (.held true, { session with round := session.round.modifyTree unit change })
    else
      (.held false, session)
  | .isCheckedOut unit => (.isCheckedOut (session.round.isCheckedOut unit), session)
  | .annotated kind => (.annotated (session.round.annotated kind).value, session)
  | .rewrite strategy element =>
    match session.round.rewrite strategy element with
    | .ok rewriting => (.outcome rewriting.value.2, { session with round := rewriting.value.1 })
    | .error error => (.error error, session)
  | .run config =>
    (.report (Round.report config (session.round.run config)),
      { session with round := (session.round.run config).value })

/-- The session after some calls. -/
def performAll (session : Session) (calls : List Call) : Session :=
  calls.foldl (fun session call => (session.perform call).2) session

/-- A session on a round of these trees, in which nobody holds anything yet. -/
def opened (maker : Maker) (trees : List (CompilationUnit Symbol)) : Session where
  round := { maker, slots := trees.map fun tree => ⟨tree, .free⟩ }

/-! ### Consistency -/

/-- The lock fits this many guards and readers. -/
def Fits (lock : Lock) (guards readers : Nat) : Prop :=
  lock = .held ∧ guards = 1 ∧ readers = 0 ∨ lock = { borrow := .shared readers } ∧ guards = 0

/-- The lock of a unit fits its holders; an unknown unit has none. -/
def ConsistentAt (session : Session) (unit : UnitId) : Prop :=
  match session.round.lock? unit with
  | none => session.guards.count unit = 0 ∧ session.readers.count unit = 0
  | some lock => Fits lock (session.guards.count unit) (session.readers.count unit)

/-- **Both records of the round and the holders fit together,** for every unit. -/
def Consistent (session : Session) : Prop :=
  ∀ unit, session.ConsistentAt unit

variable {session : Session} {unit : UnitId}

theorem consistent_opened (maker : Maker) (trees : List (CompilationUnit Symbol)) :
    (opened maker trees).Consistent := by
  intro unit
  simp only [ConsistentAt, opened, Round.lock?, List.getElem?_map, Option.map_map]
  cases trees[unit.index]? with
  | none => exact ⟨rfl, rfl⟩
  | some tree => exact .inr ⟨rfl, rfl⟩

namespace Consistent

theorem of_none (h : session.Consistent) (none : session.round.slots[unit.index]? = none) :
    unit ∉ session.guards ∧ unit ∉ session.readers := by
  have fit := h unit
  rw [ConsistentAt, Round.lock?, none] at fit
  exact ⟨List.count_eq_zero.mp fit.1, List.count_eq_zero.mp fit.2⟩

theorem of_some (h : session.Consistent) {slot : Slot}
    (some : session.round.slots[unit.index]? = some slot) :
    Fits slot.lock (session.guards.count unit) (session.readers.count unit) := by
  have fit := h unit
  rw [ConsistentAt, Round.lock?, some] at fit
  exact fit

/-- Only known units are held. -/
theorem known (h : session.Consistent) (held : unit ∈ session.guards ∨ unit ∈ session.readers) :
    ∃ slot, session.round.slots[unit.index]? = some slot := by
  cases slot : session.round.slots[unit.index]? with
  | none =>
    have := h.of_none slot
    tauto
  | some found => exact ⟨found, rfl⟩

theorem lock_of_guard (h : session.Consistent) {slot : Slot}
    (known : session.round.slots[unit.index]? = some slot) (held : unit ∈ session.guards) :
    slot.lock = .held ∧ session.guards.count unit = 1 ∧ session.readers.count unit = 0 := by
  have positive := List.count_pos_iff.mpr held
  rcases h.of_some known with fits | ⟨-, guards⟩
  · exact fits
  · omega

theorem lock_of_no_guard (h : session.Consistent) {slot : Slot}
    (known : session.round.slots[unit.index]? = some slot) (noGuard : unit ∉ session.guards) :
    slot.lock = { borrow := .shared (session.readers.count unit) } := by
  have zero := List.count_eq_zero.mpr noGuard
  rcases h.of_some known with ⟨-, guards, -⟩ | ⟨lock, -⟩
  · omega
  · exact lock

/-- A unit that nobody holds is free. -/
theorem lock_free (h : session.Consistent) {slot : Slot}
    (known : session.round.slots[unit.index]? = some slot) (noGuard : unit ∉ session.guards)
    (noReader : unit ∉ session.readers) : slot.lock = .free := by
  rw [h.lock_of_no_guard known noGuard, List.count_eq_zero.mpr noReader]
  rfl

/-- **A guard excludes readers.** -/
theorem excludes (h : session.Consistent) (held : unit ∈ session.guards) :
    unit ∉ session.readers := by
  obtain ⟨slot, known⟩ := h.known (.inl held)
  exact List.count_eq_zero.mp (h.lock_of_guard known held).2.2

end Consistent

/-! ### The calls in terms of the holders -/

/-- **Reading** works for a known unit without a guard. -/
theorem perform_read (h : session.Consistent) (unit : UnitId) :
    session.perform (.read unit) =
      match session.round.slots[unit.index]? with
      | none => (.error (.unknownUnit unit), session)
      | some slot =>
        if unit ∈ session.guards then (.error (.alreadyCheckedOut unit), session)
        else (.reader slot.tree,
          { session with
            round := session.round.setLock unit
              { borrow := .shared (session.readers.count unit + 1) }
            readers := unit :: session.readers }) := by
  have eq := Round.read_eq session.round unit
  simp only [perform, Session.read]
  cases slot : session.round.slots[unit.index]? with
  | none =>
    rw [slot] at eq
    rw [eq]
    rfl
  | some found =>
    by_cases held : unit ∈ session.guards
    · simp only [slot, (h.lock_of_guard slot held).1, Lock.held] at eq
      rw [eq]
      exact (if_pos held).symm
    · simp only [slot, h.lock_of_no_guard slot held] at eq
      rw [eq]
      exact (if_neg held).symm

/-- **Checking out** works for a known unit without guards and readers. -/
theorem perform_checkout (h : session.Consistent) (unit : UnitId) :
    session.perform (.checkout unit) =
      match session.round.slots[unit.index]? with
      | none => (.error (.unknownUnit unit), session)
      | some _ =>
        if unit ∈ session.guards then (.error (.alreadyCheckedOut unit), session)
        else if unit ∈ session.readers then (.error (.borrowed unit), session)
        else (.guard,
          { session with
            round := session.round.setLock unit .held
            guards := unit :: session.guards }) := by
  have eq := Round.checkout_eq session.round unit
  simp only [perform, Session.checkout]
  cases slot : session.round.slots[unit.index]? with
  | none =>
    rw [slot] at eq
    rw [eq]
    rfl
  | some found =>
    by_cases held : unit ∈ session.guards
    · simp only [slot, (h.lock_of_guard slot held).1, Lock.held, if_true] at eq
      rw [eq]
      exact (if_pos held).symm
    · have lock := h.lock_of_no_guard slot held
      by_cases reading : unit ∈ session.readers
      · obtain ⟨readers, count⟩ : ∃ readers, session.readers.count unit = readers + 1 :=
          Nat.exists_eq_add_one.mpr (List.count_pos_iff.mpr reading)
        simp only [slot, lock, count, Bool.false_eq_true, if_false] at eq
        rw [eq]
        exact ((if_neg held).trans (if_pos reading)).symm
      · simp only [slot, lock, List.count_eq_zero.mpr reading, Bool.false_eq_true, if_false] at eq
        rw [eq]
        exact ((if_neg held).trans (if_neg reading)).symm

/-! ### What a call can change -/

/-- A call on the lock of a unit. -/
def Call.Locks (unit : UnitId) : Call → Prop
  | .read other | .unread other | .checkout other | .release other => other = unit
  | _ => False

/-- The unit is source code that nobody holds. -/
def FreeSource (session : Session) (unit : UnitId) : Prop :=
  unit ∉ session.guards ∧ unit ∉ session.readers ∧
    ∃ tree, session.round.tree? unit = some tree ∧ tree.isPrimarySource

/-- A call that may write the tree of a unit: through the guard for it, or by a rewrite that holds
the unit itself. -/
def Call.Writes (session : Session) (unit : UnitId) : Call → Prop
  | .mutate other _ => other = unit ∧ unit ∈ session.guards
  | .rewrite strategy element => strategy.isSome ∧ element.unit = unit ∧ session.FreeSource unit
  | .run _ => session.FreeSource unit
  | _ => False

/-- A slot stays, or a call on its lock leaves the tree, or a call that writes leaves the lock. -/
structure Kept (session after : Session) (unit : UnitId) (call : Call) : Prop where
  lock : after.round.lock? unit = session.round.lock? unit ∨ call.Locks unit
  tree : after.round.tree? unit = session.round.tree? unit ∨ call.Writes session unit

theorem Kept.of_slot_eq {after : Session} {call : Call}
    (h : after.round.slots[unit.index]? = session.round.slots[unit.index]?) :
    Kept session after unit call where
  lock := .inl (congrArg (Option.map Slot.lock) h)
  tree := .inl (congrArg (Option.map Slot.tree) h)

/-- A call on the lock of a unit that changes no tree keeps all other units. -/
theorem Kept.of_modifySlot {after : Session} {call : Call} {other : UnitId} {change : Slot → Slot}
    (locks : call.Locks other) (round : after.round = session.round.modifySlot other change)
    (same : ∀ slot, (change slot).tree = slot.tree) : Kept session after unit call := by
  by_cases here : unit = other
  · subst here
    exact ⟨.inr locks, .inl (by rw [round, Round.tree?_modifySlot same])⟩
  · refine .of_slot_eq ?_
    rw [round, Round.slots_modifySlot_of_ne _ _ here]

/-- A rewrite can only exchange the trees of units that are free. -/
theorem Kept.of_rewritten (h : session.Consistent) {after : Session} {call : Call}
    (rewritten : Slot.Rewritten session.round.slots[unit.index]? after.round.slots[unit.index]?)
    (writes : session.FreeSource unit → call.Writes session unit) :
    Kept session after unit call := by
  refine ⟨.inl rewritten.lock_eq, ?_⟩
  rcases rewritten with same | ⟨tree, tree', slot, source, -, -⟩
  · exact .inl (congrArg (Option.map Slot.tree) same)
  · -- the lock was free, and by consistency so were the holders
    have fit := h.of_some slot
    have noGuard : session.guards.count unit = 0 := by
      rcases fit with ⟨lock, -⟩ | ⟨-, guards⟩
      · cases lock
      · exact guards
    have noReader : session.readers.count unit = 0 := by
      rcases fit with ⟨lock, -⟩ | ⟨lock, -⟩
      · cases lock
      · injection lock with borrow
        injection borrow with readers
        exact readers.symm
    refine .inr (writes ⟨List.count_eq_zero.mp noGuard, List.count_eq_zero.mp noReader, tree, ?_,
      source⟩)
    rw [Round.tree?, slot]
    rfl

/-- **What a call can change of a unit.** -/
theorem kept_perform (h : session.Consistent) (call : Call) (unit : UnitId) :
    Kept session (session.perform call).2 unit call := by
  cases call with
  | read other =>
    rw [perform_read h]
    split
    · exact .of_slot_eq rfl
    · split
      · exact .of_slot_eq rfl
      · exact .of_modifySlot rfl rfl fun _ => rfl
  | unread other =>
    simp only [perform, Session.unread]
    split
    · exact .of_modifySlot rfl rfl fun slot => by split <;> rfl
    · exact .of_slot_eq rfl
  | checkout other =>
    rw [perform_checkout h]
    split
    · exact .of_slot_eq rfl
    · split
      · exact .of_slot_eq rfl
      · split
        · exact .of_slot_eq rfl
        · exact .of_modifySlot rfl rfl fun _ => rfl
  | release other =>
    simp only [perform, Session.release]
    split
    · exact .of_modifySlot rfl rfl fun _ => rfl
    · exact .of_slot_eq rfl
  | mutate other change =>
    simp only [perform]
    split
    · rename_i held
      by_cases here : unit = other
      · subst here
        refine ⟨.inl ?_, .inr ⟨rfl, held⟩⟩
        apply Round.lock?_modifySlot
        exact fun _ => rfl
      · exact .of_slot_eq (Round.slots_modifySlot_of_ne _ _ here)
    · exact .of_slot_eq rfl
  | isCheckedOut other => exact .of_slot_eq rfl
  | annotated kind => exact .of_slot_eq rfl
  | rewrite strategy element =>
    simp only [perform]
    cases strategy with
    | none => exact .of_slot_eq rfl
    | some strategy =>
      split
      · rename_i rewriting done
        have rewrites := Round.rewrites_of_rewrite done
        by_cases here : element.unit = unit
        · exact .of_rewritten h (rewrites.slot_rewritten _) fun free => ⟨rfl, here, free⟩
        · exact .of_slot_eq (rewrites.slot_eq (UnitId.index_ne (Ne.symm here)))
      · exact .of_slot_eq rfl
  | run config =>
    exact .of_rewritten h (Round.slot_rewritten_of_steps (Round.steps_run config _) _) id

/-- A call that is not on the lock of a unit leaves its holders. -/
theorem holders_perform (h : session.Consistent) {call : Call} (other : ¬call.Locks unit) :
    (session.perform call).2.guards.count unit = session.guards.count unit ∧
      (session.perform call).2.readers.count unit = session.readers.count unit := by
  cases call with
  | read on =>
    have ne : on ≠ unit := other
    rw [perform_read h]
    split
    · exact ⟨rfl, rfl⟩
    · split
      · exact ⟨rfl, rfl⟩
      · exact ⟨rfl, List.count_cons_of_ne ne⟩
  | unread on =>
    have ne : on ≠ unit := other
    simp only [perform, Session.unread]
    split
    · exact ⟨rfl, List.count_erase_of_ne ne.symm⟩
    · exact ⟨rfl, rfl⟩
  | checkout on =>
    have ne : on ≠ unit := other
    rw [perform_checkout h]
    split
    · exact ⟨rfl, rfl⟩
    · split
      · exact ⟨rfl, rfl⟩
      · split
        · exact ⟨rfl, rfl⟩
        · exact ⟨List.count_cons_of_ne ne, rfl⟩
  | release on =>
    have ne : on ≠ unit := other
    simp only [perform, Session.release]
    split
    · exact ⟨List.count_erase_of_ne ne.symm, rfl⟩
    · exact ⟨rfl, rfl⟩
  | mutate on change =>
    simp only [perform]
    split <;> exact ⟨rfl, rfl⟩
  | isCheckedOut on => exact ⟨rfl, rfl⟩
  | annotated kind => exact ⟨rfl, rfl⟩
  | rewrite strategy element =>
    simp only [perform]
    split <;> exact ⟨rfl, rfl⟩
  | run config => exact ⟨rfl, rfl⟩

/-! ### Consistency is kept -/

/-- A unit whose slot and holders have changed is consistent if the new lock fits them. -/
theorem ConsistentAt.of_fits {round : Round} {slot : Slot} {on : Slot → Slot}
    (changed : session.round = round.modifySlot unit on)
    (known : round.slots[unit.index]? = some slot)
    (fits : Fits (on slot).lock (session.guards.count unit) (session.readers.count unit)) :
    session.ConsistentAt unit := by
  rw [ConsistentAt, changed, Round.lock?, Round.getElem?_slots_modifySlot, if_pos rfl, known]
  exact fits

/-- **Every call keeps both records and the holders fitting together.** -/
theorem Consistent.perform (h : session.Consistent) (call : Call) :
    (session.perform call).2.Consistent := by
  intro unit
  -- unless the call is on the lock of this unit, neither the lock nor the holders have changed
  by_cases locks : call.Locks unit
  · cases call with
    | read other =>
      obtain rfl : other = unit := locks
      rw [perform_read h]
      cases slot : session.round.slots[other.index]? with
      | none => exact h other
      | some found =>
        by_cases held : other ∈ session.guards
        · simp only [if_pos held]
          exact h other
        · simp only [if_neg held]
          refine .of_fits rfl slot (.inr ⟨?_, List.count_eq_zero.mpr held⟩)
          rw [List.count_cons_self]
    | unread other =>
      obtain rfl : other = unit := locks
      simp only [Session.perform, Session.unread]
      split
      · rename_i reading
        obtain ⟨slot, known⟩ := h.known (.inr reading)
        have noGuard : other ∉ session.guards := fun held => h.excludes held reading
        refine .of_fits rfl known (.inr ⟨?_, List.count_eq_zero.mpr noGuard⟩)
        rw [h.lock_of_no_guard known noGuard, List.count_erase_self]
      · exact h other
    | checkout other =>
      obtain rfl : other = unit := locks
      rw [perform_checkout h]
      cases slot : session.round.slots[other.index]? with
      | none => exact h other
      | some found =>
        by_cases held : other ∈ session.guards
        · simp only [if_pos held]
          exact h other
        · by_cases reading : other ∈ session.readers
          · simp only [if_neg held, if_pos reading]
            exact h other
          · simp only [if_neg held, if_neg reading]
            refine .of_fits rfl slot (.inl ⟨rfl, ?_, List.count_eq_zero.mpr reading⟩)
            rw [List.count_cons_self, List.count_eq_zero.mpr held]
    | release other =>
      obtain rfl : other = unit := locks
      simp only [Session.perform, Session.release]
      split
      · rename_i held
        obtain ⟨slot, known⟩ := h.known (.inl held)
        obtain ⟨-, guards, readers⟩ := h.lock_of_guard known held
        refine .of_fits rfl known (.inr ⟨?_, ?_⟩)
        · exact congrArg (fun readers => ({ borrow := .shared readers } : Lock)) readers.symm
        · exact (List.count_erase_self ..).trans (by rw [guards])
      · exact h other
    | mutate | isCheckedOut | annotated | rewrite | run => exact locks.elim
  · have holders := holders_perform h locks
    have lock := (kept_perform h call unit).lock.resolve_right locks
    rw [ConsistentAt, lock, holders.1, holders.2]
    exact h unit

theorem Consistent.performAll (h : session.Consistent) (calls : List Call) :
    (session.performAll calls).Consistent := by
  induction calls generalizing session with
  | nil => exact h
  | cons call rest ih => exact ih (h.perform call)

/-! ### The protocol -/

/-- The replies by which a user learns that a call was in vain. -/
def Reply.Refuses : Reply → Prop
  | .error _ | .held false => True
  | _ => False

/-- What a user can rely on for a unit of a session. -/
structure Protocol (session : Session) (unit : UnitId) : Prop where
  /-- The unit is checked out exactly while there is one guard for it. -/
  isCheckedOut_iff : session.round.isCheckedOut unit ↔ session.guards.count unit = 1
  /-- There is never a second guard. -/
  guards_le : session.guards.count unit ≤ 1
  /-- There is never a guard together with a reader. -/
  excludes : unit ∈ session.guards → unit ∉ session.readers
  /-- A checkout works if the unit is known and nobody holds it, and else says what is wrong. -/
  checkout : (session.perform (.checkout unit)).1 =
    if session.round.size ≤ unit.index then .error (.unknownUnit unit)
    else if unit ∈ session.guards then .error (.alreadyCheckedOut unit)
    else if unit ∈ session.readers then .error (.borrowed unit)
    else .guard
  /-- A read works if the unit is known and has no guard, and else says what is wrong. -/
  read : (session.perform (.read unit)).1 =
    match session.round.tree? unit with
    | none => .error (.unknownUnit unit)
    | some tree =>
      if unit ∈ session.guards then .error (.alreadyCheckedOut unit) else .reader tree
  /-- A rewrite in the unit fails exactly like a checkout of it. -/
  rewrite : ∀ strategy element error, element.unit = unit →
    ((session.perform (.rewrite (some strategy) element)).1 = .error error ↔
      (session.perform (.checkout unit)).1 = .error error)
  /-- What is handed out is held from then on. -/
  taken : ((session.perform (.checkout unit)).1 = .guard →
      (session.perform (.checkout unit)).2.guards = unit :: session.guards) ∧
    ∀ tree, (session.perform (.read unit)).1 = .reader tree →
      (session.perform (.read unit)).2.readers = unit :: session.readers
  /-- What is given back is held no more. -/
  given : (session.perform (.release unit)).2.guards = session.guards.erase unit ∧
    (session.perform (.unread unit)).2.readers = session.readers.erase unit
  /-- A call that is refused changes nothing at all. -/
  refused : ∀ call, (session.perform call).1.Refuses → (session.perform call).2 = session
  /-- The lock and the holders change by calls on the lock of this unit only. -/
  lock : ∀ call, ¬call.Locks unit →
    (session.perform call).2.round.lock? unit = session.round.lock? unit ∧
      (session.perform call).2.guards.count unit = session.guards.count unit ∧
      (session.perform call).2.readers.count unit = session.readers.count unit
  /-- The tree changes by calls only that write through the guard or hold the unit themselves. -/
  tree : ∀ call, ¬call.Writes session unit →
    (session.perform call).2.round.tree? unit = session.round.tree? unit
  /-- What is written through the guard is the tree from then on. -/
  written : ∀ change, unit ∈ session.guards →
    (session.perform (.mutate unit change)).2.round.tree? unit =
      (session.round.tree? unit).map change

/-- A call that is refused has changed nothing. -/
theorem perform_of_refuses {call : Call} (h : (session.perform call).1.Refuses) :
    (session.perform call).2 = session := by
  cases call with
  | read unit =>
    simp only [perform] at h ⊢
    split at h
    · exact h.elim
    · rfl
  | unread unit =>
    by_cases reading : unit ∈ session.readers
    · simp [perform, reading, Reply.Refuses] at h
    · simp [perform, Session.unread, reading]
  | checkout unit =>
    simp only [perform] at h ⊢
    split at h
    · exact h.elim
    · rfl
  | release unit =>
    by_cases held : unit ∈ session.guards
    · simp [perform, Session.release, held, Reply.Refuses] at h
    · simp [perform, Session.release, held]
  | mutate unit change =>
    by_cases held : unit ∈ session.guards
    · simp [perform, held, Reply.Refuses] at h
    · simp [perform, held]
  | isCheckedOut unit => rfl
  | annotated kind => rfl
  | rewrite strategy element =>
    simp only [perform] at h ⊢
    split at h
    · exact h.elim
    · rfl
  | run config => exact h.elim

theorem reply_checkout_eq_error_iff {error : RewriteError} :
    (session.perform (.checkout unit)).1 = .error error ↔
      session.round.checkout unit = .error error := by
  simp only [perform, Session.checkout]
  cases session.round.checkout unit with
  | error other => simp [Bind.bind, Except.bind]
  | ok entry => simp [Bind.bind, Except.bind, Pure.pure, Except.pure]

theorem reply_rewrite_eq_error_iff {strategy : Strategy} {element : Element}
    {error : RewriteError} :
    (session.perform (.rewrite (some strategy) element)).1 = .error error ↔
      session.round.checkout element.unit = .error error := by
  simp only [perform]
  cases checkout : session.round.checkout element.unit with
  | error other =>
    rw [Round.rewrite_of_error checkout]
    simp
  | ok entry =>
    obtain ⟨slot, -⟩ := Round.checkout_eq_ok_iff.mp checkout
    rw [Round.rewrite_of_free slot rfl]
    simp

/-- **In a consistent session the protocol is kept.** -/
theorem Consistent.protocol (h : session.Consistent) (unit : UnitId) : session.Protocol unit where
  isCheckedOut_iff := by
    rw [Round.isCheckedOut]
    cases slot : session.round.slots[unit.index]? with
    | none => simp [List.count_eq_zero.mpr (h.of_none slot).1]
    | some found =>
      by_cases held : unit ∈ session.guards
      · obtain ⟨lock, guards, -⟩ := h.lock_of_guard slot held
        simp [lock, guards, Lock.held]
      · simp [h.lock_of_no_guard slot held, List.count_eq_zero.mpr held]
  guards_le := by
    by_cases held : unit ∈ session.guards
    · obtain ⟨slot, known⟩ := h.known (.inl held)
      exact Nat.le_of_eq (h.lock_of_guard known held).2.1
    · exact List.count_eq_zero.mpr held ▸ Nat.zero_le 1
  excludes := h.excludes
  checkout := by
    rw [perform_checkout h]
    cases slot : session.round.slots[unit.index]? with
    | none =>
      have unknown : session.round.size ≤ unit.index := List.getElem?_eq_none_iff.mp slot
      rw [if_pos unknown]
    | some found =>
      have known : ¬session.round.size ≤ unit.index :=
        Nat.not_le.mpr (List.getElem?_eq_some_iff.mp slot).1
      rw [if_neg known]
      split_ifs <;> rfl
  read := by
    rw [perform_read h, Round.tree?]
    cases session.round.slots[unit.index]? with
    | none => rfl
    | some found =>
      simp only [Option.map_some]
      split_ifs <;> rfl
  rewrite strategy element error on := by
    subst on
    rw [reply_rewrite_eq_error_iff, reply_checkout_eq_error_iff]
  taken := by
    rw [perform_checkout h, perform_read h]
    cases session.round.slots[unit.index]? with
    | none => simp
    | some found => constructor <;> split_ifs <;> simp
  given := by
    constructor
    · by_cases held : unit ∈ session.guards
      · simp [Session.perform, Session.release, held]
      · simp [Session.perform, Session.release, held, List.erase_of_not_mem]
    · by_cases reading : unit ∈ session.readers
      · simp [Session.perform, Session.unread, reading]
      · simp [Session.perform, Session.unread, reading, List.erase_of_not_mem]
  refused _ := perform_of_refuses
  lock call other :=
    ⟨(kept_perform h call unit).lock.resolve_right other, holders_perform h other⟩
  tree call other := (kept_perform h call unit).tree.resolve_right other
  written change held := by
    have after : (session.perform (.mutate unit change)).2.round =
        session.round.modifyTree unit change := by
      rw [Session.perform, if_pos held]
    rw [after]
    exact Round.tree?_modifySlot_self _ _ _ change fun _ => rfl

/-- **The checkout protocol.** After any calls on a round that nobody held at first, on units known
or not, every unit is in one of the states of the protocol, and the next call keeps to it. -/
theorem protocol_performAll (maker : Maker) (trees : List (CompilationUnit Symbol))
    (calls : List Call) (unit : UnitId) :
    ((opened maker trees).performAll calls).Protocol unit :=
  ((consistent_opened maker trees).performAll calls).protocol unit

end Session

end Augment
