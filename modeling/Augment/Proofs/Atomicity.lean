import Augment.Proofs.Session

/-!
# Rewrites happen entirely or not at all

`Session.Atomic` is what a user can rely on who asks for the rewrite of an element, whatever the
strategy is and whoever holds which units:

* the call fails if the unit is unknown or held, and for no other reason (`Session.Bars`);
* unless a class was rewritten, nothing at all has changed;
* the lock of every unit is the one from before, so a call never stands in the way of the next one.

The last point is made precise for any number of calls.  `CompilationUnit.rewriteAll` does the same
changes on a tree and a maker alone, without a round and without locks, and calls on a free unit
come to just that, reply by reply (`Session.replies_rewrites_of_free`).
-/

namespace Augment

/-- Nothing was rewritten. -/
def Outcome.IsIdle : Outcome → Prop
  | rewritten .. => False
  | _ => True

/-! ### One tree -/

namespace CompilationUnit

/-- **A rewrite that has rewritten nothing has changed nothing.** -/
theorem rewrite_of_isIdle {strategy : Strategy} {target : DeclId} {tree : CompilationUnit Symbol}
    {maker : Maker} (idle : (tree.rewrite strategy target maker).value.result.IsIdle) :
    (tree.rewrite strategy target maker).value.tree = tree ∧
      (tree.rewrite strategy target maker).value.maker = maker := by
  by_cases source : tree.isPrimarySource
  · by_cases present : ∃ c ∈ tree.postorder, c.id = target
    · obtain ⟨old, tree', replaces⟩ :=
        exists_replacesFirst (strategy.replaced maker) tree present
      rw [rewrite_of_replacesFirst source replaces] at idle
      exact idle.elim
    · have absent : ∀ c ∈ tree.postorder, c.id ≠ target := by simpa using present
      rw [rewrite_of_absent strategy maker source absent]
      exact ⟨rfl, rfl⟩
  · rw [rewrite_of_not_source strategy target maker (by simpa using source)]
    exact ⟨rfl, rfl⟩

/-- What is left of a tree and a maker when strategies are applied to one class of it, one after
another, and what became of each.  In the place of a strategy that is not set, nothing is done. -/
def rewriteAll (target : DeclId) : List (Option Strategy) → CompilationUnit Symbol → Maker →
    Round.Edited (List Outcome)
  | [], tree, maker => { tree, maker, result := [] }
  | none :: rest, tree, maker =>
    let last := rewriteAll target rest tree maker
    { last with result := .notConfigured :: last.result }
  | some strategy :: rest, tree, maker =>
    let first := (tree.rewrite strategy target maker).value
    let last := rewriteAll target rest first.tree first.maker
    { last with result := first.result :: last.result }

end CompilationUnit

namespace Session

variable {session : Session} {element : Element} {unit : UnitId}

/-! ### One call -/

/-- Why a unit cannot be rewritten. -/
inductive Bars (session : Session) (unit : UnitId) : RewriteError → Prop where
  | unknown (outside : session.round.size ≤ unit.index) : Bars session unit (.unknownUnit unit)
  | guarded (held : unit ∈ session.guards) : Bars session unit (.alreadyCheckedOut unit)
  | reading (held : unit ∈ session.readers) : Bars session unit (.borrowed unit)

/-- **A checkout fails for these reasons only,** and always tells the right one. -/
theorem Consistent.checkout_eq_error_iff (h : session.Consistent) {error : RewriteError} :
    session.round.checkout unit = .error error ↔ session.Bars unit error := by
  -- a unit with a holder is known, and a guard excludes readers, so the tests come in any order
  have known : unit ∈ session.guards ∨ unit ∈ session.readers →
      ¬session.round.size ≤ unit.index := by
    intro held outside
    obtain ⟨slot, known⟩ := h.known held
    rw [List.getElem?_eq_none outside] at known
    cases known
  rw [← reply_checkout_eq_error_iff, (h.protocol unit).checkout]
  constructor
  · intro reply
    split_ifs at reply with outside held reading
    · cases reply
      exact .unknown outside
    · cases reply
      exact .guarded held
    · cases reply
      exact .reading reading
  · rintro (outside | held | reading)
    · rw [if_pos outside]
    · rw [if_neg (known (.inl held)), if_pos held]
    · have noGuard : unit ∉ session.guards := fun held => h.excludes held reading
      rw [if_neg (known (.inr reading)), if_neg noGuard, if_pos reading]

/-- The session after a change of a unit that is free before and after it. -/
def updated {α : Type} (session : Session) (unit : UnitId) (edited : Round.Edited α) : Session :=
  { session with
    round :=
      { maker := edited.maker
        slots := session.round.slots.set unit.index ⟨edited.tree, .free⟩ } }

theorem slot_updated {α : Type} {slot : Slot} (known : session.round.slots[unit.index]? = some slot)
    (edited : Round.Edited α) :
    (session.updated unit edited).round.slots[unit.index]? = some ⟨edited.tree, .free⟩ :=
  List.getElem?_set_self (List.getElem?_eq_some_iff.mp known).1

theorem updated_updated {α β : Type} (session : Session) (unit : UnitId) (first : Round.Edited α)
    (last : Round.Edited β) :
    (session.updated unit first).updated unit last = session.updated unit last := by
  unfold updated
  rw [List.set_set]

theorem perform_rewrite_none (session : Session) (element : Element) :
    session.perform (.rewrite none element) = (.outcome .notConfigured, session) := rfl

/-- **A rewrite in a free unit** is the rewrite of its tree. -/
theorem perform_rewrite_of_free (strategy : Strategy) {tree : CompilationUnit Symbol}
    (slot : session.round.slots[element.unit.index]? = some ⟨tree, .free⟩) :
    session.perform (.rewrite (some strategy) element) =
      (.outcome (tree.rewrite strategy element.decl session.round.maker).value.result,
        session.updated element.unit
          (tree.rewrite strategy element.decl session.round.maker).value) := by
  simp only [perform]
  rw [Round.rewrite_of_free slot rfl]
  rfl

/-- **A rewrite that fails** fails like the checkout of its unit. -/
theorem perform_rewrite_of_error (strategy : Strategy) {error : RewriteError}
    (h : session.round.checkout element.unit = .error error) :
    session.perform (.rewrite (some strategy) element) = (.error error, session) := by
  simp only [perform]
  rw [Round.rewrite_of_error h]

/-- The replies that leave everything as it was. -/
def Reply.IsIdle : Reply → Prop
  | .error _ => True
  | .outcome result => result.IsIdle
  | _ => False

/-- **If no class was rewritten, nothing has changed.** -/
theorem perform_rewrite_of_isIdle (strategy : Option Strategy)
    (idle : (session.perform (.rewrite strategy element)).1.IsIdle) :
    (session.perform (.rewrite strategy element)).2 = session := by
  cases strategy with
  | none => rfl
  | some strategy =>
    cases checkout : session.round.checkout element.unit with
    | error error => rw [perform_rewrite_of_error strategy checkout]
    | ok entry =>
      obtain ⟨slot, -⟩ := Round.checkout_eq_ok_iff.mp checkout
      rw [perform_rewrite_of_free strategy slot] at idle ⊢
      have same := CompilationUnit.rewrite_of_isIdle idle
      unfold updated
      rw [same.1, same.2, Round.slots_set_of_getElem? slot]

/-- A rewrite is answered by an error or an outcome, and leaves all guards and readers. -/
theorem reply_rewrite (session : Session) (strategy : Option Strategy) (element : Element) :
    ((∃ error, (session.perform (.rewrite strategy element)).1 = .error error) ∨
        ∃ outcome, (session.perform (.rewrite strategy element)).1 = .outcome outcome) ∧
      (session.perform (.rewrite strategy element)).2.guards = session.guards ∧
      (session.perform (.rewrite strategy element)).2.readers = session.readers := by
  simp only [perform]
  split
  · exact ⟨.inr ⟨_, rfl⟩, rfl, rfl⟩
  · exact ⟨.inl ⟨_, rfl⟩, rfl, rfl⟩

/-! ### Calls one after another -/

/-- The replies to some calls. -/
def replies (session : Session) : List Call → List Reply
  | [] => []
  | call :: rest => (session.perform call).1 :: (session.perform call).2.replies rest

theorem performAll_cons (session : Session) (call : Call) (rest : List Call) :
    session.performAll (call :: rest) = (session.perform call).2.performAll rest := rfl

/-- **Rewrites in a free unit do what is done to its tree alone.** Each call finds the unit as free
as the first one did. -/
theorem replies_rewrites_of_free (strategies : List (Option Strategy))
    {tree : CompilationUnit Symbol}
    (slot : session.round.slots[element.unit.index]? = some ⟨tree, .free⟩) :
    session.replies (strategies.map (.rewrite · element)) =
        (tree.rewriteAll element.decl strategies session.round.maker).result.map .outcome ∧
      session.performAll (strategies.map (.rewrite · element)) =
        session.updated element.unit
          (tree.rewriteAll element.decl strategies session.round.maker) := by
  induction strategies generalizing session tree with
  | nil =>
    refine ⟨rfl, ?_⟩
    unfold updated
    rw [CompilationUnit.rewriteAll, Round.slots_set_of_getElem? slot]
    rfl
  | cons strategy rest ih =>
    rw [List.map_cons, replies, performAll_cons]
    cases strategy with
    | none =>
      obtain ⟨replies, last⟩ := ih slot
      rw [perform_rewrite_none, replies, last]
      exact ⟨rfl, rfl⟩
    | some strategy =>
      -- the first call has left the unit free, with the tree that the others start from
      obtain ⟨replies, last⟩ := ih (slot_updated slot
        (tree.rewrite strategy element.decl session.round.maker).value)
      rw [perform_rewrite_of_free strategy slot, replies, last, updated_updated]
      exact ⟨rfl, rfl⟩

/-- Rewrites in a unit that cannot be checked out all fail alike, and change nothing. -/
theorem replies_rewrites_of_error (strategies : List (Option Strategy)) {error : RewriteError}
    (h : session.round.checkout element.unit = .error error) :
    session.replies (strategies.map (.rewrite · element)) =
        strategies.map (fun strategy =>
          if strategy.isSome then .error error else .outcome .notConfigured) ∧
      session.performAll (strategies.map (.rewrite · element)) = session := by
  induction strategies with
  | nil => exact ⟨rfl, rfl⟩
  | cons strategy rest ih =>
    rw [List.map_cons, List.map_cons, replies, performAll_cons]
    cases strategy with
    | none =>
      rw [perform_rewrite_none, ih.1, ih.2]
      exact ⟨rfl, rfl⟩
    | some strategy =>
      rw [perform_rewrite_of_error strategy h, ih.1, ih.2]
      exact ⟨rfl, rfl⟩

/-! ### What a user can rely on -/

/-- What a user can rely on who asks for rewrites of an element. -/
structure Atomic (session : Session) (element : Element) : Prop where
  /-- Without a strategy nothing is looked at, not even whether there is such a unit. -/
  unconfigured : session.perform (.rewrite none element) = (.outcome .notConfigured, session)
  /-- With a strategy, the call fails exactly if the unit is unknown or held, whatever is in it. -/
  fails_iff : ∀ strategy error,
    (session.perform (.rewrite (some strategy) element)).1 = .error error ↔
      session.Bars element.unit error
  /-- A call that does not fail has an outcome. -/
  answered : ∀ strategy,
    (∃ error, (session.perform (.rewrite strategy element)).1 = .error error) ∨
      ∃ outcome, (session.perform (.rewrite strategy element)).1 = .outcome outcome
  /-- Unless a class was rewritten, all units, names, ids and holders are as before. -/
  unchanged : ∀ strategy, (session.perform (.rewrite strategy element)).1.IsIdle →
    (session.perform (.rewrite strategy element)).2 = session
  /-- However the call ends, all locks are as before, and so are all guards and readers. -/
  locks : ∀ strategy,
    (∀ unit, (session.perform (.rewrite strategy element)).2.round.lock? unit =
        session.round.lock? unit) ∧
      (session.perform (.rewrite strategy element)).2.guards = session.guards ∧
      (session.perform (.rewrite strategy element)).2.readers = session.readers
  /-- Any number of calls on a unit that nobody holds do what would be done without locks. -/
  repeated : ∀ (strategies : List (Option Strategy)) tree,
    session.round.tree? element.unit = some tree →
    element.unit ∉ session.guards → element.unit ∉ session.readers →
    session.replies (strategies.map (.rewrite · element)) =
        (tree.rewriteAll element.decl strategies session.round.maker).result.map .outcome ∧
      session.performAll (strategies.map (.rewrite · element)) =
        session.updated element.unit
          (tree.rewriteAll element.decl strategies session.round.maker)
  /-- Any number of calls on another unit fail for one and the same reason, and change nothing. -/
  barred : ∀ (strategies : List (Option Strategy)) error, session.Bars element.unit error →
    session.replies (strategies.map (.rewrite · element)) =
        strategies.map (fun strategy =>
          if strategy.isSome then .error error else .outcome .notConfigured) ∧
      session.performAll (strategies.map (.rewrite · element)) = session

/-- **Rewrites are atomic,** whoever holds which units, and wherever the element points. -/
theorem Consistent.atomic_rewrite (consistent : session.Consistent) (element : Element) :
    session.Atomic element where
  unconfigured := perform_rewrite_none session element
  fails_iff strategy error := by
    rw [reply_rewrite_eq_error_iff, consistent.checkout_eq_error_iff]
  answered strategy := (reply_rewrite session strategy element).1
  unchanged := perform_rewrite_of_isIdle
  locks strategy :=
    ⟨fun unit => ((consistent.protocol unit).lock (.rewrite strategy element) id).1,
      (reply_rewrite session strategy element).2⟩
  repeated strategies tree tree? noGuard noReader := by
    obtain ⟨slot, known, rfl⟩ := Option.map_eq_some_iff.mp tree?
    have free : slot.lock = .free := consistent.lock_free known noGuard noReader
    refine replies_rewrites_of_free strategies ?_
    rw [known, ← free]
  barred strategies error bars :=
    replies_rewrites_of_error strategies (consistent.checkout_eq_error_iff.mpr bars)

/-- Four units with the same class: a guard holds the first, a reader the second, the third belongs
to a library, and only in the last one is the class rewritten, once and again. -/
theorem atomic_rewrite_four_units :
    ∃ (session : Session) (element : Nat → Element),
      session.Consistent ∧ session.guards = [⟨0⟩] ∧ session.readers = [⟨1⟩] ∧
      (∀ index, (element index).unit = ⟨index⟩ ∧ session.Atomic (element index)) ∧
      (session.perform (.rewrite (some .getters) (element 0))).1 =
        .error (.alreadyCheckedOut ⟨0⟩) ∧
      (session.perform (.rewrite (some .getters) (element 1))).1 = .error (.borrowed ⟨1⟩) ∧
      session.replies ([none, some .getters].map (.rewrite · (element 2))) =
        [.outcome .notConfigured, .outcome .skippedOrigin] ∧
      session.replies ([some .getters, some .setters].map (.rewrite · (element 3))) =
        [.outcome (.rewritten ⟨2⟩ [⟨3⟩]), .outcome (.rewritten ⟨2⟩ [⟨5⟩])] ∧
      (session.perform (.rewrite (some .getters) (element 4))).1 = .error (.unknownUnit ⟨4⟩) := by
  let program : Building (ClassDecl Symbol) := do
    let x ← Building.field (← Building.name "x") .void
    Building.type (← Building.name "A") .classType .none [] [.field x]
  let made := program {}
  let tree : Origin → CompilationUnit Symbol :=
    fun origin => { fileName := "A.java", package := none, origin, types := [made.1] }
  let start := opened made.2 [tree .source, tree .source, tree .library, tree .source]
  let session := start.performAll [.checkout ⟨0⟩, .read ⟨1⟩]
  let element : Nat → Element := fun index => ⟨⟨index⟩, made.1.id, .type .classType, made.1.name⟩
  have consistent : session.Consistent := (consistent_opened _ _).performAll _
  have atomic := fun index => consistent.atomic_rewrite (element index)
  refine ⟨session, element, consistent, rfl, rfl, fun index => ⟨rfl, atomic index⟩, ?_, ?_, ?_, ?_,
    ?_⟩
  · exact ((atomic 0).fails_iff _ _).mpr (.guarded List.mem_cons_self)
  · exact ((atomic 1).fails_iff _ _).mpr (.reading List.mem_cons_self)
  · rw [((atomic 2).repeated _ (tree .library) rfl (by decide) (by decide)).1]
    rfl
  · rw [((atomic 3).repeated _ (tree .source) rfl (by decide) (by decide)).1]
    have outcomes : ((tree .source).rewriteAll (element 3).decl [some .getters, some .setters]
        session.round.maker).result = [.rewritten ⟨2⟩ [⟨3⟩], .rewritten ⟨2⟩ [⟨5⟩]] := by
      decide +kernel
    rw [outcomes]
    rfl
  · exact ((atomic 4).fails_iff _ _).mpr (.unknown (Nat.le_refl 4))

end Session

end Augment
