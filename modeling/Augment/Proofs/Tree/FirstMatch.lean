import Augment.Proofs.Tree.Replacement
import Augment.Tree.BottomUp
import Mathlib.Logic.Function.Iterate

/-!
# Searching a tree from the bottom up

A bottom-up change that is after one class only passes all other classes by.  Which way it passes
them may differ before and after the class is found, so `PassesBy` is relative to a kind of states:
in such states, `change` keeps the classes that are skipped and takes the state one step further.

* `PassesBy.bottomUp`: a tree of skipped classes stays as it is, and there is one step for each of
  its classes.
* `ChangesFirst` puts two kinds of states together, those of the search and those after it.  Then
  the first class with the id is exchanged, between some steps before it and some steps after it
  (`ChangesFirst.bottomUp_class`, `ChangesFirst.bottomUp_unit`).

Nothing is said about what the states are, so a search may also keep a record of what it does.  The
record does not get in its way (`Simulates.bottomUp_unit`).
-/

namespace Augment

variable {ν σ : Type}

/-! ### Lists -/

section Lists

variable (change : ClassDecl ν → σ → ClassDecl ν × σ)

theorem ClassDecl.bottomUpMembers_nested (decl : ClassDecl ν) (rest : List (Member ν)) (state : σ) :
    ClassDecl.bottomUpMembers change (.nested decl :: rest) state =
      (.nested (decl.bottomUp change state).1 ::
          (ClassDecl.bottomUpMembers change rest (decl.bottomUp change state).2).1,
        (ClassDecl.bottomUpMembers change rest (decl.bottomUp change state).2).2) := rfl

theorem ClassDecl.bottomUpTypes_cons (decl : ClassDecl ν) (rest : List (ClassDecl ν)) (state : σ) :
    ClassDecl.bottomUpTypes change (decl :: rest) state =
      ((decl.bottomUp change state).1 ::
          (ClassDecl.bottomUpTypes change rest (decl.bottomUp change state).2).1,
        (ClassDecl.bottomUpTypes change rest (decl.bottomUp change state).2).2) := rfl

theorem ClassDecl.bottomUpMembers_append (left right : List (Member ν)) (state : σ) :
    ClassDecl.bottomUpMembers change (left ++ right) state =
      ((ClassDecl.bottomUpMembers change left state).1 ++
          (ClassDecl.bottomUpMembers change right
            (ClassDecl.bottomUpMembers change left state).2).1,
        (ClassDecl.bottomUpMembers change right
          (ClassDecl.bottomUpMembers change left state).2).2) := by
  induction left generalizing state with
  | nil => rfl
  | cons member rest ih => cases member <;> simp [ClassDecl.bottomUpMembers, ih]

theorem ClassDecl.bottomUpTypes_append (left right : List (ClassDecl ν)) (state : σ) :
    ClassDecl.bottomUpTypes change (left ++ right) state =
      ((ClassDecl.bottomUpTypes change left state).1 ++
          (ClassDecl.bottomUpTypes change right
            (ClassDecl.bottomUpTypes change left state).2).1,
        (ClassDecl.bottomUpTypes change right
          (ClassDecl.bottomUpTypes change left state).2).2) := by
  induction left generalizing state with
  | nil => rfl
  | cons decl rest ih => simp [ClassDecl.bottomUpTypes, ih]

end Lists

/-! ### Classes that are passed by -/

/-- In the states `here`, the change keeps every class that is `skipped` and takes the next state,
which is again one of `here`. -/
structure PassesBy (change : ClassDecl ν → σ → ClassDecl ν × σ) (next : σ → σ) (here : σ → Prop)
    (skipped : ClassDecl ν → Prop) : Prop where
  stays : ∀ state, here state → here (next state)
  keeps : ∀ decl state, here state → skipped decl → change decl state = (decl, next state)

namespace PassesBy

variable {change : ClassDecl ν → σ → ClassDecl ν × σ} {next : σ → σ} {here : σ → Prop}
  {skipped : ClassDecl ν → Prop}

theorem stays_iterate (h : PassesBy change next here skipped) (n : Nat) {state : σ}
    (hs : here state) : here (next^[n] state) := by
  induction n generalizing state with
  | zero => exact hs
  | succ n ih => exact ih (h.stays state hs)

/-- Members are passed by if that holds of each class among them. -/
theorem bottomUpMembers (h : PassesBy change next here skipped) (members : List (Member ν))
    (each : ∀ decl, .nested decl ∈ members → ∀ state, here state →
      (∀ c ∈ decl.postorder, skipped c) →
        decl.bottomUp change state = (decl, next^[decl.postorder.length] state))
    (skip : ∀ c ∈ members.flatMap Member.postorder, skipped c) {state : σ} (hs : here state) :
    ClassDecl.bottomUpMembers change members state =
      (members, next^[(members.flatMap Member.postorder).length] state) := by
  induction members generalizing state with
  | nil => rfl
  | cons member rest ih =>
    have later := fun decl hd => each decl (List.mem_cons_of_mem member hd)
    rw [List.flatMap_cons, List.forall_mem_append] at skip
    cases member with
    | field decl => simp [ClassDecl.bottomUpMembers, Member.postorder, ih later skip.2 hs]
    | method decl => simp [ClassDecl.bottomUpMembers, Member.postorder, ih later skip.2 hs]
    | nested decl =>
      have first := each decl List.mem_cons_self state hs skip.1
      have others := ih later skip.2 (h.stays_iterate decl.postorder.length hs)
      rw [ClassDecl.bottomUpMembers_nested, first, others, List.flatMap_cons, List.length_append,
        Nat.add_comm, Function.iterate_add_apply]
      rfl

/-- **A class is passed by** if it and all classes in it are skipped. -/
theorem bottomUp (h : PassesBy change next here skipped) (decl : ClassDecl ν)
    (skip : ∀ c ∈ decl.postorder, skipped c) {state : σ} (hs : here state) :
    decl.bottomUp change state = (decl, next^[decl.postorder.length] state) := by
  induction decl using ClassDecl.induction generalizing state with
  | step decl ih =>
    rw [ClassDecl.postorder_eq_members, List.forall_mem_append, List.forall_mem_singleton] at skip
    rw [ClassDecl.bottomUp_eq, h.bottomUpMembers decl.members
      (fun inner hi state hs skip => ih inner hi skip hs) skip.1 hs]
    rw [ClassDecl.postorder_eq_members, List.length_append, List.length_singleton,
      Function.iterate_succ_apply']
    have last := h.keeps decl _ (h.stays_iterate (decl.members.flatMap Member.postorder).length hs)
      skip.2
    cases decl
    exact last

theorem bottomUpTypes (h : PassesBy change next here skipped) (types : List (ClassDecl ν))
    (skip : ∀ c ∈ types.flatMap ClassDecl.postorder, skipped c) {state : σ} (hs : here state) :
    ClassDecl.bottomUpTypes change types state =
      (types, next^[(types.flatMap ClassDecl.postorder).length] state) := by
  induction types generalizing state with
  | nil => rfl
  | cons decl rest ih =>
    rw [List.flatMap_cons, List.forall_mem_append] at skip
    have first := h.bottomUp decl skip.1 hs
    have others := ih skip.2 (h.stays_iterate decl.postorder.length hs)
    rw [ClassDecl.bottomUpTypes_cons, first, others, List.flatMap_cons, List.length_append,
      Nat.add_comm, Function.iterate_add_apply]

/-- **A unit of skipped classes stays as it is.** -/
theorem bottomUp_unit (h : PassesBy change next here skipped) (unit : CompilationUnit ν)
    (skip : ∀ c ∈ unit.postorder, skipped c) {state : σ} (hs : here state) :
    unit.bottomUp change state = (unit, next^[unit.postorder.length] state) := by
  rw [CompilationUnit.postorder_eq] at skip ⊢
  unfold CompilationUnit.bottomUp
  rw [h.bottomUpTypes unit.types skip hs]

end PassesBy

/-! ### The first class with an id -/

/-- As long as it is `searching`, the change passes by the classes that do not have the id `target`,
and it exchanges `old` for `new`; it is then `done` and passes by all classes. -/
structure ChangesFirst (change : ClassDecl ν → σ → ClassDecl ν × σ) (next found : σ → σ)
    (searching done : σ → Prop) (target : DeclId) (old new : ClassDecl ν) : Prop where
  before : PassesBy change next searching (·.id ≠ target)
  exchanges : ∀ state, searching state → change old state = (new, found state)
  finds : ∀ state, searching state → done (found state)
  after : PassesBy change next done fun _ => True

namespace ChangesFirst

variable {change : ClassDecl ν → σ → ClassDecl ν × σ} {next found : σ → σ}
  {searching done : σ → Prop} {target : DeclId} {old new : ClassDecl ν}

/-- **The first class with the id is exchanged.** All classes before it in post-order take the
search one step further, and so do all classes after it. -/
theorem bottomUp_class (h : ChangesFirst change next found searching done target old new)
    {decl decl' : ClassDecl ν} (replaces : ClassDecl.ReplacesFirst target old new decl decl')
    {state : σ} (hs : searching state) :
    ∃ before after, decl.postorder.length = before + 1 + after ∧
      decl.bottomUp change state = (decl', next^[after] (found (next^[before] state))) := by
  induction replaces generalizing state with
  | here id passed =>
    refine ⟨(old.members.flatMap Member.postorder).length, 0, ?_, ?_⟩
    · rw [ClassDecl.postorder_eq_members, List.length_append, List.length_singleton]
    · rw [ClassDecl.bottomUp_eq, h.before.bottomUpMembers old.members
        (fun inner _ _ hs skip => h.before.bottomUp inner skip hs) passed hs]
      have exchange := h.exchanges _
        (h.before.stays_iterate (old.members.flatMap Member.postorder).length hs)
      cases old
      exact exchange
  | @inside decl inner inner' left right members passed deeper ih =>
    -- on the way to the class, members are passed by, as they do not have the id
    have first := h.before.bottomUpMembers left
      (fun inner _ _ hs skip => h.before.bottomUp inner skip hs) passed hs
    have searching' := h.before.stays_iterate (left.flatMap Member.postorder).length hs
    obtain ⟨before, after, length, eq⟩ := ih searching'
    -- past the class, the search is over, and everything is passed by
    have done' := h.after.stays_iterate after (h.finds _ (h.before.stays_iterate before searching'))
    have rest := h.after.bottomUpMembers right
      (fun inner _ _ hs skip => h.after.bottomUp inner skip hs) (fun _ _ => trivial) done'
    have done'' := h.after.stays_iterate (right.flatMap Member.postorder).length done'
    refine ⟨before + (left.flatMap Member.postorder).length,
      ((right.flatMap Member.postorder).length + after) + 1, ?_, ?_⟩
    · rw [ClassDecl.postorder_eq_members, members]
      simp only [List.flatMap_append, List.flatMap_cons, Member.postorder, List.length_append,
        List.length_singleton, length]
      omega
    · rw [ClassDecl.bottomUp_eq, members, ClassDecl.bottomUpMembers_append,
        ClassDecl.bottomUpMembers_nested, first, eq, rest, Function.iterate_succ_apply',
        Function.iterate_add_apply, Function.iterate_add_apply]
      exact h.after.keeps _ _ done'' trivial

theorem bottomUp_unit (h : ChangesFirst change next found searching done target old new)
    {unit unit' : CompilationUnit ν}
    (replaces : CompilationUnit.ReplacesFirst target old new unit unit') {state : σ}
    (hs : searching state) :
    ∃ before after, unit.postorder.length = before + 1 + after ∧
      unit.bottomUp change state = (unit', next^[after] (found (next^[before] state))) := by
  obtain ⟨left, decl, decl', right, types, passed, inner, rfl⟩ := replaces
  have first := h.before.bottomUpTypes left passed hs
  have searching' := h.before.stays_iterate (left.flatMap ClassDecl.postorder).length hs
  obtain ⟨before, after, length, eq⟩ := h.bottomUp_class inner searching'
  have done' := h.after.stays_iterate after (h.finds _ (h.before.stays_iterate before searching'))
  have rest := h.after.bottomUpTypes right (fun _ _ => trivial) done'
  refine ⟨before + (left.flatMap ClassDecl.postorder).length,
    (right.flatMap ClassDecl.postorder).length + after, ?_, ?_⟩
  · rw [CompilationUnit.postorder_eq, types]
    simp only [List.flatMap_append, List.flatMap_cons, List.length_append, length]
    omega
  · unfold CompilationUnit.bottomUp
    rw [types, ClassDecl.bottomUpTypes_append, ClassDecl.bottomUpTypes_cons, first, eq, rest,
      Function.iterate_add_apply, Function.iterate_add_apply]

end ChangesFirst

/-! ### States that hold more -/

/-- What `detailed` does is what `change` does, if only a part of the state is looked at. -/
def Simulates {τ : Type} (part : τ → σ) (detailed : ClassDecl ν → τ → ClassDecl ν × τ)
    (change : ClassDecl ν → σ → ClassDecl ν × σ) : Prop :=
  ∀ decl state, Prod.map id part (detailed decl state) = change decl (part state)

namespace Simulates

variable {τ : Type} {part : τ → σ} {detailed : ClassDecl ν → τ → ClassDecl ν × τ}
  {change : ClassDecl ν → σ → ClassDecl ν × σ}

theorem bottomUpMembers (members : List (Member ν))
    (each : ∀ decl, .nested decl ∈ members → ∀ state,
      Prod.map id part (decl.bottomUp detailed state) = decl.bottomUp change (part state))
    (state : τ) :
    Prod.map id part (ClassDecl.bottomUpMembers detailed members state) =
      ClassDecl.bottomUpMembers change members (part state) := by
  induction members generalizing state with
  | nil => rfl
  | cons member rest ih =>
    have later := ih fun decl hd => each decl (List.mem_cons_of_mem member hd)
    cases member with
    | field decl => simp [ClassDecl.bottomUpMembers, ← later]
    | method decl => simp [ClassDecl.bottomUpMembers, ← later]
    | nested decl =>
      have first := each decl List.mem_cons_self state
      rw [ClassDecl.bottomUpMembers_nested, ClassDecl.bottomUpMembers_nested, ← first]
      simp [← later]

theorem bottomUp (h : Simulates part detailed change) (decl : ClassDecl ν) (state : τ) :
    Prod.map id part (decl.bottomUp detailed state) = decl.bottomUp change (part state) := by
  induction decl using ClassDecl.induction generalizing state with
  | step decl ih =>
    rw [ClassDecl.bottomUp_eq, ClassDecl.bottomUp_eq, h, ← bottomUpMembers decl.members ih state]
    rfl

/-- **A change that simulates another one on each class does so on every unit.** -/
theorem bottomUp_unit (h : Simulates part detailed change) (unit : CompilationUnit ν) (state : τ) :
    Prod.map id part (unit.bottomUp detailed state) = unit.bottomUp change (part state) := by
  have types : ∀ (types : List (ClassDecl ν)) (state : τ),
      Prod.map id part (ClassDecl.bottomUpTypes detailed types state) =
        ClassDecl.bottomUpTypes change types (part state) := by
    intro types
    induction types with
    | nil => exact fun _ => rfl
    | cons decl rest ih =>
      intro state
      rw [ClassDecl.bottomUpTypes_cons, ClassDecl.bottomUpTypes_cons, ← h.bottomUp decl state]
      simp [← ih]
  unfold CompilationUnit.bottomUp
  rw [← types]
  rfl

end Simulates

end Augment
