import Augment.Round
import Mathlib.Data.List.Basic

/-!
# Locks of a round

What `read`, `checkout` and `edit` do is decided by the lock of the unit alone.  Each is given here
by one equation in terms of the slot of the unit (`Round.tree_eq`, `Round.read_eq`,
`Round.checkout_eq`), and `edit` by the two ways in which it can end: an edit of a free unit
exchanges the tree and leaves the unit free (`Round.edit_of_free`), and any other edit fails like
the checkout that it starts with (`Round.edit_of_error`).
-/

namespace Augment

theorem UnitId.index_ne {unit other : UnitId} (h : other ≠ unit) : unit.index ≠ other.index := by
  intro same
  cases unit
  cases other
  exact h (congrArg UnitId.mk same.symm)

namespace Round

variable {round : Round} {unit : UnitId} {slot : Slot}

/-! ### Slots -/

theorem getElem?_slots_modifySlot (round : Round) (unit : UnitId) (change : Slot → Slot)
    (index : Nat) :
    (round.modifySlot unit change).slots[index]? =
      if unit.index = index then round.slots[index]?.map change else round.slots[index]? := by
  rw [modifySlot, List.getElem?_modify]
  split <;> simp

theorem slots_modifySlot_of_getElem? (h : round.slots[unit.index]? = some slot)
    (change : Slot → Slot) :
    (round.modifySlot unit change).slots = round.slots.set unit.index (change slot) := by
  have bound : unit.index < round.slots.length := (List.getElem?_eq_some_iff.mp h).1
  refine List.ext_getElem? fun index => ?_
  rw [getElem?_slots_modifySlot, List.getElem?_set]
  split
  · rename_i same
    rw [← same, h]
    rfl
  · rfl

/-! ### Equations for the operations on locks -/

theorem tree_eq (round : Round) (unit : UnitId) :
    round.tree unit =
      match round.slots[unit.index]? with
      | none => .error (.unknownUnit unit)
      | some slot =>
        match slot.lock.borrow with
        | .shared _ => .ok slot.tree
        | .exclusive => .error (.alreadyCheckedOut unit) := by
  unfold tree Round.slot
  cases round.slots[unit.index]? <;> rfl

theorem read_eq (round : Round) (unit : UnitId) :
    round.read unit =
      match round.slots[unit.index]? with
      | none => .error (.unknownUnit unit)
      | some slot =>
        match slot.lock.borrow with
        | .shared readers => .ok (slot.tree,
            round.setLock unit { slot.lock with borrow := .shared (readers + 1) })
        | .exclusive => .error (.alreadyCheckedOut unit) := by
  unfold read Round.slot
  cases round.slots[unit.index]? <;> rfl

theorem checkout_eq (round : Round) (unit : UnitId) :
    round.checkout unit =
      match round.slots[unit.index]? with
      | none => .error (.unknownUnit unit)
      | some slot =>
        if slot.lock.checkedOut then .error (.alreadyCheckedOut unit)
        else match slot.lock.borrow with
          | .shared 0 => .ok (slot.tree, round.setLock unit .held)
          | _ => .error (.borrowed unit) := by
  unfold checkout Round.slot
  cases round.slots[unit.index]? <;> rfl

/-- **A unit can be checked out exactly if nobody holds it.** -/
theorem checkout_eq_ok_iff {tree : CompilationUnit Symbol} {held : Round} :
    round.checkout unit = .ok (tree, held) ↔
      round.slots[unit.index]? = some ⟨tree, .free⟩ ∧ held = round.setLock unit .held := by
  rw [checkout_eq]
  cases hs : round.slots[unit.index]? with
  | none => simp
  | some slot =>
    obtain ⟨tree', ⟨borrow, checkedOut⟩⟩ := slot
    cases checkedOut with
    | true => simp [Lock.free]
    | false =>
      -- the unit is not checked out, so the borrow decides
      match borrow with
      | .shared 0 => simp [Lock.free, eq_comm]
      | .shared (readers + 1) => simp [Lock.free]
      | .exclusive => simp [Lock.free]

/-! ### Edits -/

variable {α : Type}

/-- **An edit of a free unit** exchanges its tree, hands the maker on and leaves the unit free. -/
theorem edit_of_free {tree : CompilationUnit Symbol}
    (h : round.slots[unit.index]? = some ⟨tree, .free⟩)
    (change : CompilationUnit Symbol → Maker → Traced (Edited α)) :
    round.edit unit change = .ok
      { value := ({ maker := (change tree round.maker).value.maker
                    slots := round.slots.set unit.index
                      ⟨(change tree round.maker).value.tree, .free⟩ },
                  (change tree round.maker).value.result)
        events := .checkedOut unit :: ((change tree round.maker).events ++ [.released unit]) } := by
  have checkout : round.checkout unit = .ok (tree, round.setLock unit .held) :=
    checkout_eq_ok_iff.mpr ⟨h, rfl⟩
  have heldSlot : (round.setLock unit .held).slots[unit.index]? = some ⟨tree, .held⟩ := by
    rw [setLock, getElem?_slots_modifySlot, if_pos rfl, h]
    rfl
  have writtenSlots : ∀ tree', ((round.setLock unit .held).modifyTree unit fun _ => tree').slots =
      round.slots.set unit.index ⟨tree', .held⟩ := by
    intro tree'
    rw [modifyTree, slots_modifySlot_of_getElem? heldSlot, setLock, slots_modifySlot_of_getElem? h,
      List.set_set]
  have releasedSlots : ∀ tree' maker',
      ({ (round.setLock unit .held).modifyTree unit fun _ => tree' with
        maker := maker' } : Round).release unit =
          { maker := maker', slots := round.slots.set unit.index ⟨tree', .free⟩ } := by
    intro tree' maker'
    have writtenSlot : ({ (round.setLock unit .held).modifyTree unit fun _ => tree' with
        maker := maker' } : Round).slots[unit.index]? = some ⟨tree', .held⟩ := by
      rw [writtenSlots, List.getElem?_set_self (List.getElem?_eq_some_iff.mp h).1]
    have slots := slots_modifySlot_of_getElem? writtenSlot fun slot => { slot with lock := .free }
    rw [writtenSlots, List.set_set] at slots
    exact congrArg (Round.mk maker') slots
  unfold edit
  rw [checkout]
  refine congrArg Except.ok ?_
  change Traced.mk (Round.release _ _, _) _ = _
  rw [← releasedSlots]
  rfl

/-- **An edit fails like its checkout.** -/
theorem edit_of_error {error : RewriteError} (h : round.checkout unit = .error error)
    (change : CompilationUnit Symbol → Maker → Traced (Edited α)) :
    round.edit unit change = .error error := by
  unfold edit
  rw [h]
  rfl

end Round

end Augment
