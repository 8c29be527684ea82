import Augment.Proofs.Source.Grammar

/-!
# How expressions read

No parentheses are written, so a member of an assignment reads like a member of what is assigned,
and an assignment to an assignment like two assignments in a row
(`Expr.not_forall_eq_of_text_eq`).  Nothing else is lost.  The text of an expression can be taken
apart at its equals signs and dots (`Text.operands`), which gives the operands of its paths
(`Expr.operands_text`).  So two expressions have one text exactly if they have the same paths, and
if no assignment is a target in them, they are equal (`Expr.text_eq_text_iff`).

Names may be spelled with all other signs here, and they may be words of the language, but for
`this`.
-/

namespace Augment

/-- A map that tells the entries of two lists apart tells the lists apart. -/
theorem eq_of_map_eq {α β : Type} {f : α → β} {items items' : List α}
    (inj : ∀ item ∈ items, ∀ item' ∈ items', f item = f item' → item = item')
    (same : items.map f = items'.map f) : items = items' := by
  induction items generalizing items' with
  | nil => exact (List.map_eq_nil_iff.mp same.symm).symm
  | cons item rest ih =>
    cases items' with
    | nil => cases same
    | cons item' rest' =>
      obtain ⟨first, later⟩ := List.cons.inj same
      have others := ih (fun a ha b hb =>
        inj a (List.mem_cons_of_mem _ ha) b (List.mem_cons_of_mem _ hb)) later
      rw [inj item List.mem_cons_self item' List.mem_cons_self first, others]

/-! ### Operands -/

namespace Text

/-- Whether a text is an operand: it is not empty and has no blanks, dots and equals signs. -/
def isOperand (s : String) : Bool :=
  !s.isEmpty && s.toList.all fun c => !isBlank c && c ≠ '.' && c ≠ '='

/-- The operands in the text of an expression, by equals signs and then by dots. -/
def operands (s : List Char) : List (List (List Char)) :=
  ((s.filter (· ≠ ' ')).splitOn '=').map (·.splitOn '.')

/-- No operand has a character at which texts are taken apart. -/
theorem apart_of_isOperand {s : String} (h : isOperand s) :
    ∀ c ∈ s.toList, c ≠ ' ' ∧ c ≠ '.' ∧ c ≠ '=' := by
  intro c hc
  simp only [isOperand, Bool.and_eq_true, List.all_eq_true, decide_eq_true_eq] at h
  obtain ⟨⟨noBlank, noDot⟩, noEquals⟩ := h.2 c hc
  refine ⟨?_, noDot, noEquals⟩
  rintro rfl
  simp at noBlank

theorem intercalate_append_cons (sep first next : List Char) (rest : List (List Char)) :
    sep.intercalate ((first ++ next) :: rest) = first ++ sep.intercalate (next :: rest) := by
  cases rest <;> simp

end Text

namespace Names

/-- The symbol has a spelling, and that is an operand other than the receiver. -/
def Readable (names : Names) (s : Symbol) : Prop :=
  (names.resolve? s).any fun spelling => Text.isOperand spelling && spelling ≠ "this"

instance (names : Names) (s : Symbol) : Decidable (names.Readable s) :=
  inferInstanceAs (Decidable
    ((names.resolve? s).any (fun spelling => Text.isOperand spelling && spelling ≠ "this") = true))

variable {names : Names} {s : Symbol}

theorem Readable.knows (h : names.Readable s) : names.Knows s := by
  unfold Readable at h
  rw [Knows]
  cases spelled : names.resolve? s with
  | none =>
    rw [spelled] at h
    cases h
  | some spelling => rfl

theorem Readable.display (h : names.Readable s) :
    Text.isOperand (names.display s) ∧ names.display s ≠ "this" := by
  have known := h.knows.resolve?
  rw [Readable, known] at h
  simpa using h

end Names

/-! ### Paths -/

namespace Path

variable {names : Names} {path path' : Path Symbol}

/-- The operands of a path. -/
def operands (names : Names) (path : Path Symbol) : List (List Char) :=
  (path.root.elim "this" names.display).toList ::
    path.names.map fun name => (names.display name).toList

theorem toList_text_foldl_select (expr : Expr Symbol) (selected : List Symbol) :
    ((selected.foldl .select expr).map names.display).text.toList =
      ['.'].intercalate ((expr.map names.display).text.toList ::
        selected.map fun name => (names.display name).toList) := by
  induction selected generalizing expr with
  | nil => exact List.intercalate_singleton.symm
  | cons name rest ih =>
    have dot : ".".toList = ['.'] := rfl
    rw [List.foldl_cons, ih, Expr.map, Expr.text, String.toList_append, String.toList_append, dot,
      Text.intercalate_append_cons, List.map_cons, List.intercalate_cons_cons]

/-- **A path is written** as its operands with dots between them. -/
theorem toList_text (path : Path Symbol) :
    (path.expr.map names.display).text.toList = ['.'].intercalate (path.operands names) := by
  obtain ⟨root, selected⟩ := path
  rw [Path.expr, toList_text_foldl_select]
  cases root <;> rfl

theorem apart_of_mem_operands (readable : ∀ n ∈ path.all, names.Readable n) :
    ∀ operand ∈ path.operands names, ∀ c ∈ operand, c ≠ ' ' ∧ c ≠ '.' ∧ c ≠ '=' := by
  obtain ⟨root, selected⟩ := path
  rw [all, List.forall_mem_append] at readable
  rw [operands, List.forall_mem_cons, List.forall_mem_map]
  refine ⟨?_, fun n hn => Text.apart_of_isOperand (readable.2 n hn).display.1⟩
  cases root with
  | none =>
    have receiver : Text.isOperand "this" := by decide
    exact Text.apart_of_isOperand receiver
  | some name => exact Text.apart_of_isOperand (readable.1 name List.mem_cons_self).display.1

/-- The characters of a path, no blanks and equals signs among them. -/
theorem apart_of_mem_text (readable : ∀ n ∈ path.all, names.Readable n) :
    ∀ c ∈ (path.expr.map names.display).text.toList, c ≠ ' ' ∧ c ≠ '=' := by
  have dot : ∀ c ∈ ['.'], c ≠ ' ' ∧ c ≠ '=' := List.forall_mem_singleton.mpr (by decide)
  rw [toList_text]
  refine Text.forall_mem_intercalate dot fun operand ho c hc => ?_
  exact And.imp_right And.right (apart_of_mem_operands readable operand ho c hc)

theorem splitOn_text (readable : ∀ n ∈ path.all, names.Readable n) :
    (path.expr.map names.display).text.toList.splitOn '.' = path.operands names := by
  rw [toList_text]
  refine List.splitOn_intercalate '.' (fun operand ho hc => ?_) (List.cons_ne_nil _ _)
  exact (apart_of_mem_operands readable operand ho '.' hc).2.1 rfl

/-- **Paths with the same operands are equal:** the receiver is not spelled like any name. -/
theorem operands_inj (readable : ∀ n ∈ path.all, names.Readable n)
    (readable' : ∀ n ∈ path'.all, names.Readable n)
    (same : path.operands names = path'.operands names) : path = path' := by
  obtain ⟨root, selected⟩ := path
  obtain ⟨root', selected'⟩ := path'
  rw [all, List.forall_mem_append] at readable readable'
  obtain ⟨first, later⟩ := List.cons.inj same
  have first := String.toList_inj.mp first
  have root_eq : root = root' := by
    cases root with
    | none =>
      cases root' with
      | none => rfl
      | some name' => exact absurd first.symm (readable'.1 name' List.mem_cons_self).display.2
    | some name =>
      have here := readable.1 name List.mem_cons_self
      cases root' with
      | none => exact absurd first here.display.2
      | some name' =>
        exact congrArg some
          (Names.display_inj here.knows (readable'.1 name' List.mem_cons_self).knows first)
  have selected_eq := eq_of_map_eq (fun n hn n' hn' spelled => Names.display_inj
    (readable.2 n hn).knows (readable'.2 n' hn').knows (String.toList_inj.mp spelled)) later
  exact congrArg₂ Path.mk root_eq selected_eq

end Path

/-! ### Expressions -/

namespace Expr

variable {names : Names}

/-- Without its spaces, an expression is written as its paths with equals signs between them. -/
theorem filter_text_ofPaths {all : List (Path Symbol)} (ne : all ≠ [])
    (readable : ∀ path ∈ all, ∀ n ∈ path.all, names.Readable n) :
    ((ofPaths all).map names.display).text.toList.filter (· ≠ ' ') =
      ['='].intercalate (all.map fun path => (path.expr.map names.display).text.toList) := by
  induction all with
  | nil => exact absurd rfl ne
  | cons path rest ih =>
    rw [List.forall_mem_cons] at readable
    have here : (path.expr.map names.display).text.toList.filter (· ≠ ' ') =
        (path.expr.map names.display).text.toList := by
      rw [List.filter_eq_self]
      exact fun c hc => decide_eq_true (Path.apart_of_mem_text readable.1 c hc).1
    rw [text_ofPaths_cons, String.toList_append, List.filter_append, here]
    cases rest with
    | nil => simp
    | cons next others =>
      have sign : " = ".toList.filter (· ≠ ' ') = ['='] := by decide
      rw [if_neg (List.cons_ne_nil _ _), String.toList_append, List.filter_append, sign,
        ih (List.cons_ne_nil _ _) readable.2, List.map_cons, List.map_cons,
        List.map_cons, List.intercalate_cons_cons, List.append_assoc]

theorem readable_paths {expr : Expr Symbol} (readable : ∀ n ∈ expr.names, names.Readable n) :
    ∀ path ∈ expr.paths, ∀ n ∈ path.all, names.Readable n :=
  forall_pathsBefore readable (fun _ hn => absurd hn List.not_mem_nil)
    fun _ hp => absurd hp List.not_mem_nil

/-- **The text of an expression has the operands of its paths.** -/
theorem operands_text {expr : Expr Symbol} (readable : ∀ n ∈ expr.names, names.Readable n) :
    Text.operands (expr.map names.display).text.toList = expr.paths.map (Path.operands names) := by
  have paths := readable_paths readable
  have ne : expr.paths ≠ [] := pathsBefore_ne_nil expr [] []
  have texts : (expr.paths.map fun path => (path.expr.map names.display).text.toList) ≠ [] := by
    simpa using ne
  rw [← text_shown, Text.operands, shown, filter_text_ofPaths ne paths,
    List.splitOn_intercalate '=' ?_ texts, List.map_map]
  · exact List.map_congr_left fun path hp => Path.splitOn_text (paths path hp)
  · rw [List.forall_mem_map]
    exact fun path hp hc => (Path.apart_of_mem_text (paths path hp) '=' hc).2 rfl

/-! ### Expressions with one text -/

section Targets

variable {ν : Type}

/-- Whether the expression is an assignment. -/
def isAssign : Expr ν → Bool
  | assign _ _ => true
  | _ => false

/-- Whether nothing is selected from an assignment, and no assignment is assigned to. -/
def targetsNoAssign : Expr ν → Bool
  | receiver | ident _ => true
  | select target _ => !target.isAssign && target.targetsNoAssign
  | assign target value =>
    !target.isAssign && target.targetsNoAssign && value.targetsNoAssign

/-- Such an expression is a single path, unless it is an assignment. -/
theorem exists_pathsBefore_eq_cons {expr : Expr ν} (targets : expr.targetsNoAssign)
    (noAssign : expr.isAssign = false) (selected : List ν) (rest : List (Path ν)) :
    ∃ path : Path ν, expr.pathsBefore selected rest = path :: rest ∧
      path.expr = selected.foldl select expr := by
  induction expr generalizing selected with
  | receiver => exact ⟨⟨none, selected⟩, rfl, rfl⟩
  | ident name => exact ⟨⟨some name, selected⟩, rfl, rfl⟩
  | select target name ih =>
    simp only [targetsNoAssign, Bool.and_eq_true, Bool.not_eq_true'] at targets
    exact ih targets.2 targets.1 (name :: selected)
  | assign target value => cases noAssign

/-- **An expression without assignments as targets** is the one that its text looks like. -/
theorem shown_of_targetsNoAssign {expr : Expr ν} (targets : expr.targetsNoAssign) :
    expr.shown = expr := by
  have single : ∀ expr : Expr ν, expr.targetsNoAssign → expr.isAssign = false →
      expr.shown = expr := by
    intro expr targets noAssign
    obtain ⟨path, paths, whole⟩ := exists_pathsBefore_eq_cons targets noAssign [] []
    rw [shown, Expr.paths, paths]
    exact whole
  induction expr with
  | receiver => rfl
  | ident name => rfl
  | select target name => exact single _ targets rfl
  | assign target value _ ih =>
    simp only [targetsNoAssign, Bool.and_eq_true, Bool.not_eq_true'] at targets
    obtain ⟨path, paths, whole⟩ :=
      exists_pathsBefore_eq_cons targets.1.2 targets.1.1 [] value.paths
    have split : (assign target value).paths = path :: value.paths := paths
    have ne : value.paths ≠ [] := pathsBefore_ne_nil value [] []
    rw [shown, split, ofPaths_cons path ne, whole, ← shown, ih targets.2]
    rfl

end Targets

/-- **What the text of an expression tells.** Two expressions have one text exactly if they have the
same dotted paths, in the same order: they may differ in whether members are selected before or
after an assignment, and in which of two assignments comes first.  If no assignment is a target in
them, they do not differ. -/
theorem text_eq_text_iff {expr expr' : Expr Symbol}
    (readable : ∀ n ∈ expr.names, names.Readable n)
    (readable' : ∀ n ∈ expr'.names, names.Readable n) :
    ((expr.map names.display).text = (expr'.map names.display).text ↔
        expr.paths = expr'.paths) ∧
      (expr.targetsNoAssign → expr'.targetsNoAssign →
        (expr.map names.display).text = (expr'.map names.display).text → expr = expr') := by
  have texts : (expr.map names.display).text = (expr'.map names.display).text ↔
      expr.paths = expr'.paths := by
    constructor
    · intro same
      have operands := congrArg (fun text => Text.operands text.toList) same
      simp only [operands_text readable, operands_text readable'] at operands
      exact eq_of_map_eq (fun path hp path' hp' => Path.operands_inj
        (readable_paths readable path hp) (readable_paths readable' path' hp')) operands
    · intro same
      rw [← text_shown, shown_eq_shown_iff.mpr same, text_shown]
  refine ⟨texts, fun targets targets' same => ?_⟩
  have looks := shown_eq_shown_iff.mpr (texts.mp same)
  rwa [shown_of_targetsNoAssign targets, shown_of_targetsNoAssign targets'] at looks

/-- A member of an assignment, and an assignment of that member. -/
def regrouped : (Expr Symbol × Expr Symbol) × Maker :=
  let program : Building (Expr Symbol × Expr Symbol) := do
    let first : Expr Symbol := .ident (← Building.name "first")
    let last : Expr Symbol := .ident (← Building.name "last")
    let next ← Building.name "next"
    return (.select (.assign first last) next, .assign first (.select last next))
  program {}

theorem text_eq_text_regrouped :
    (∀ n ∈ regrouped.1.1.names, regrouped.2.names.Readable n) ∧
      (∀ n ∈ regrouped.1.2.names, regrouped.2.names.Readable n) ∧
      (regrouped.1.1.map regrouped.2.names.display).text =
        (regrouped.1.2.map regrouped.2.names.display).text := by
  have readable : ∀ n ∈ regrouped.1.1.names, regrouped.2.names.Readable n := by decide +kernel
  have readable' : ∀ n ∈ regrouped.1.2.names, regrouped.2.names.Readable n := by decide +kernel
  exact ⟨readable, readable', (text_eq_text_iff readable readable').1.mpr rfl⟩

/-- Expressions with one text need not be equal: both of these are `first = last.next`. -/
theorem not_forall_eq_of_text_eq :
    ¬∀ (names : Names) (expr expr' : Expr Symbol), (∀ n ∈ expr.names, names.Readable n) →
      (∀ n ∈ expr'.names, names.Readable n) →
        (expr.map names.display).text = (expr'.map names.display).text → expr = expr' := by
  intro unambiguous
  have same : (regrouped.1.1.map regrouped.2.names.display).text =
      (regrouped.1.2.map regrouped.2.names.display).text := by decide +kernel
  have equal := unambiguous regrouped.2.names _ _ (by decide +kernel) (by decide +kernel) same
  cases equal

end Expr

end Augment
