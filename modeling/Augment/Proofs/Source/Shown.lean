import Augment.Proofs.Tree.ClassMap
import Augment.Source.Printer
import Mathlib.Data.List.Induction

/-!
# What source text shows of a tree

Source text is silent about much of a tree: where it comes from, the ids of its declarations, the
flags that have no keyword.  It writes no parentheses either, so all that can be seen of an
expression is its list of dotted paths (`Expr.paths`).

`CompilationUnit.shown` is the tree with everything erased that its source text does not show; what
cannot be erased is replaced by a value that is the same for all trees that look alike.  Nothing is
lost by that: the source text of a tree can be written from what it shows
(`CompilationUnit.source_shown`).
-/

namespace Augment

variable {ν : Type}

/-! ### Expressions -/

/-- A dotted path: the receiver or a name, and the names that are selected from it one after the
other. -/
structure Path (ν : Type) where
  /-- The name that the path starts with, or nothing for the receiver. -/
  root : Option ν
  names : List ν
deriving DecidableEq, Repr

/-- The path as an expression. -/
def Path.expr (path : Path ν) : Expr ν :=
  path.names.foldl .select (path.root.elim .receiver .ident)

namespace Expr

/-- The paths of an expression with some names selected from it, before the paths `rest`. -/
def pathsBefore : Expr ν → List ν → List (Path ν) → List (Path ν)
  | receiver, names, rest => ⟨none, names⟩ :: rest
  | ident name, names, rest => ⟨some name, names⟩ :: rest
  | select target name, names, rest => target.pathsBefore (name :: names) rest
  | assign target value, names, rest => target.pathsBefore [] (value.pathsBefore names rest)

/-- **The dotted paths of an expression,** between which its source text has signs of assignment. -/
def paths (expr : Expr ν) : List (Path ν) :=
  expr.pathsBefore [] []

/-- The assignment of the last of some paths to the one before it, and so on. -/
def ofPaths : List (Path ν) → Expr ν
  | [] => receiver
  | [path] => path.expr
  | path :: rest => assign path.expr (ofPaths rest)

/-- The expression as it reads: assignments go to the right, and members are selected first. -/
def shown (expr : Expr ν) : Expr ν :=
  ofPaths expr.paths

theorem ofPaths_cons (path : Path ν) {rest : List (Path ν)} (h : rest ≠ []) :
    ofPaths (path :: rest) = assign path.expr (ofPaths rest) := by
  cases rest with
  | nil => exact absurd rfl h
  | cons next others => rfl

theorem pathsBefore_ne_nil (expr : Expr ν) (names : List ν) (rest : List (Path ν)) :
    expr.pathsBefore names rest ≠ [] := by
  induction expr generalizing names rest with
  | receiver => exact List.cons_ne_nil _ _
  | ident name => exact List.cons_ne_nil _ _
  | select target name ih => exact ih _ _
  | assign target value ihTarget => exact ihTarget _ _

theorem pathsBefore_foldl_select (expr : Expr ν) (names more : List ν) (rest : List (Path ν)) :
    (names.foldl select expr).pathsBefore more rest = expr.pathsBefore (names ++ more) rest := by
  induction names generalizing expr with
  | nil => rfl
  | cons name names ih =>
    rw [List.foldl_cons, ih]
    rfl

theorem pathsBefore_expr (path : Path ν) (rest : List (Path ν)) :
    path.expr.pathsBefore [] rest = path :: rest := by
  obtain ⟨root, names⟩ := path
  rw [Path.expr, pathsBefore_foldl_select, List.append_nil]
  cases root <;> rfl

theorem paths_ofPaths {all : List (Path ν)} (h : all ≠ []) : (ofPaths all).paths = all := by
  induction all with
  | nil => exact absurd rfl h
  | cons path rest ih =>
    by_cases last : rest = []
    · subst last
      exact pathsBefore_expr path []
    · rw [ofPaths_cons path last, paths, pathsBefore, ← paths, ih last, pathsBefore_expr]

/-- **Expressions look alike exactly if they have the same paths.** -/
theorem shown_eq_shown_iff {expr expr' : Expr ν} :
    expr.shown = expr'.shown ↔ expr.paths = expr'.paths := by
  constructor
  · intro same
    have again : ∀ expr : Expr ν, expr.shown.paths = expr.paths := fun expr =>
      paths_ofPaths (pathsBefore_ne_nil expr [] [])
    rw [← again, same, again]
  · exact congrArg ofPaths

/-- A member of an assignment looks like a member of what is assigned. -/
example : (assign (ident 1) (ident 2)).select 3 ≠ assign (ident 1) ((ident 2).select 3) ∧
    ((assign (ident 1) (ident 2)).select 3).shown =
      (assign (ident 1) ((ident 2).select 3)).shown := by decide

section Text

variable (f : ν → String)

theorem text_foldl_select_assign (target value : Expr ν) (names : List ν) :
    ((names.foldl select (assign target value)).map f).text =
      (target.map f).text ++ " = " ++ ((names.foldl select value).map f).text := by
  induction names using List.reverseRecOn with
  | nil => rfl
  | append_singleton names name ih =>
    rw [List.foldl_append, List.foldl_append]
    simp only [List.foldl_cons, List.foldl_nil, map, text, ih, String.append_assoc]

theorem text_ofPaths_cons (path : Path ν) (rest : List (Path ν)) :
    ((ofPaths (path :: rest)).map f).text =
      (path.expr.map f).text ++
        if rest = [] then "" else " = " ++ ((ofPaths rest).map f).text := by
  by_cases last : rest = []
  · subst last
    exact String.append_empty.symm
  · rw [ofPaths_cons path last, if_neg last, map, text, String.append_assoc]

theorem text_ofPaths_pathsBefore (expr : Expr ν) (names : List ν) (rest : List (Path ν)) :
    ((ofPaths (expr.pathsBefore names rest)).map f).text =
      ((names.foldl select expr).map f).text ++
        if rest = [] then "" else " = " ++ ((ofPaths rest).map f).text := by
  induction expr generalizing names rest with
  | receiver => exact text_ofPaths_cons f _ rest
  | ident name => exact text_ofPaths_cons f _ rest
  | select target name ih => exact ih (name :: names) rest
  | assign target value ihTarget ihValue =>
    rw [pathsBefore, ihTarget, if_neg (pathsBefore_ne_nil value names rest), ihValue,
      text_foldl_select_assign, List.foldl_nil]
    simp only [String.append_assoc]

/-- **An expression is written like what it shows.** -/
theorem text_shown (expr : Expr ν) : (expr.shown.map f).text = (expr.map f).text := by
  have all := text_ofPaths_pathsBefore f expr [] []
  rwa [if_pos rfl, String.append_empty] at all

end Text

end Expr

/-! ### Modifiers -/

namespace Modifiers

/-- The flags that have a keyword. Flags that contradict each other are shown like none. -/
def shown (modifiers : Modifiers) : Modifiers :=
  let level := ofAccess (modifiers.access.getD .packagePrivate)
  let static := if modifiers.isStatic then level.withStatic else level
  if modifiers.isFinal then static.withFinal else static

theorem flags_shown (modifiers : Modifiers) :
    modifiers.shown.access = some (modifiers.access.getD .packagePrivate) ∧
      modifiers.shown.isStatic = modifiers.isStatic ∧
      modifiers.shown.isFinal = modifiers.isFinal := by
  unfold shown
  generalize modifiers.access.getD .packagePrivate = level
  generalize modifiers.isStatic = static
  generalize modifiers.isFinal = final
  cases level <;> cases static <;> cases final <;> decide

/-- **Modifiers look alike exactly if they agree** on the access level, as far as they have one, and
on being static and final. -/
theorem shown_eq_shown_iff {modifiers modifiers' : Modifiers} :
    modifiers.shown = modifiers'.shown ↔
      modifiers.access.getD .packagePrivate = modifiers'.access.getD .packagePrivate ∧
        modifiers.isStatic = modifiers'.isStatic ∧ modifiers.isFinal = modifiers'.isFinal := by
  constructor
  · intro same
    obtain ⟨access, static, final⟩ := modifiers.flags_shown
    obtain ⟨access', static', final'⟩ := modifiers'.flags_shown
    rw [same] at access static final
    exact ⟨Option.some_inj.mp (access.symm.trans access'), static.symm.trans static',
      final.symm.trans final'⟩
  · rintro ⟨access, static, final⟩
    rw [shown, shown, access, static, final]

theorem keywords_shown (modifiers : Modifiers) : modifiers.shown.keywords = modifiers.keywords := by
  obtain ⟨access, static, final⟩ := modifiers.flags_shown
  rw [keywords, keywords, access, static, final]
  cases modifiers.access with
  | none => rfl
  | some level => rfl

theorem text_shown (modifiers : Modifiers) : modifiers.shown.text = modifiers.text := by
  rw [text, text, keywords_shown]

end Modifiers

/-! ### Trees -/

/-- What is shown of a statement. -/
def Stmt.shown : Stmt ν → Stmt ν
  | ret value => .ret value.shown
  | exec effect => .exec effect.shown

/-- What is shown of a body. -/
def Block.shown (block : Block ν) : Block ν where
  stmts := block.stmts.map Stmt.shown

/-- What is shown of a field. -/
def FieldDecl.shown (decl : FieldDecl ν) : FieldDecl ν :=
  { decl with id := ⟨0⟩, modifiers := decl.modifiers.shown }

/-- What is shown of a method.  Without a return type it looks like a method that returns nothing,
unless it is a constructor. -/
def MethodDecl.shown [DecidableEq ν] [InitName ν] (decl : MethodDecl ν) : MethodDecl ν :=
  { decl with
    id := ⟨0⟩
    modifiers := decl.modifiers.shown
    returnType := if decl.isConstructor then none else some (decl.returnType.getD .void)
    body := decl.body.shown }

section Declarations

variable [DecidableEq ν] [InitName ν]

/-- What is shown of a member, but for the classes nested in it. -/
def Member.shownHere : Member ν → Member ν
  | field decl => .field decl.shown
  | method decl => .method decl.shown
  | nested decl => .nested decl

/-- What is shown of a class, but for the classes nested in it. -/
def ClassDecl.shownHere (decl : ClassDecl ν) : ClassDecl ν :=
  { decl with
    id := ⟨0⟩
    modifiers := decl.modifiers.shown
    members := decl.members.map Member.shownHere }

/-- What is shown of a class. -/
def ClassDecl.shown (decl : ClassDecl ν) : ClassDecl ν :=
  decl.mapClasses ClassDecl.shownHere

/-- What is shown of a member. -/
def Member.shown : Member ν → Member ν
  | field decl => .field decl.shown
  | method decl => .method decl.shown
  | nested decl => .nested decl.shown

/-- **What source text shows of a unit.** -/
def CompilationUnit.shown (unit : CompilationUnit ν) : CompilationUnit ν where
  fileName := ""
  package := unit.package
  origin := .source
  types := unit.types.map ClassDecl.shown

theorem ClassDecl.shown_eq (decl : ClassDecl ν) :
    decl.shown = ⟨⟨0⟩, decl.name, decl.kind, decl.modifiers.shown, decl.markers,
      decl.members.map Member.shown⟩ := by
  have members : (decl.members.map (Member.mapNested ClassDecl.shown)).map Member.shownHere =
      decl.members.map Member.shown := by
    rw [List.map_map]
    refine List.map_congr_left fun member _ => ?_
    cases member <;> rfl
  rw [← members]
  exact ClassDecl.mapClasses_eq shownHere decl

theorem MethodDecl.isConstructor_shown (decl : MethodDecl ν) :
    decl.shown.isConstructor = decl.isConstructor := by
  by_cases isConstructor : decl.isConstructor
  · have named : decl.name = InitName.init := by
      simp only [MethodDecl.isConstructor, Bool.and_eq_true, decide_eq_true_eq] at isConstructor
      exact isConstructor.1
    rw [isConstructor, MethodDecl.isConstructor, shown, if_pos isConstructor, named]
    simp
  · rw [MethodDecl.isConstructor, shown, if_neg isConstructor]
    simpa using isConstructor

end Declarations

/-! ### Source text -/

section Text

variable (f : ν → String)

theorem Stmt.text_shown (stmt : Stmt ν) : (stmt.shown.map f).text = (stmt.map f).text := by
  cases stmt with
  | ret value => rw [shown, map, map, text, text, Expr.text_shown]
  | exec effect => rw [shown, map, map, text, text, Expr.text_shown]

theorem Layout.block_shown (layout : Layout) (block : Block ν) :
    layout.block (block.shown.map f) = layout.block (block.map f) := by
  have stmts : ∀ stmts : List (Stmt ν),
      ((stmts.map Stmt.shown).map (Stmt.map f)).map (fun stmt => Document.text stmt.text) =
        (stmts.map (Stmt.map f)).map fun stmt => Document.text stmt.text := by
    intro stmts
    simp only [List.map_map]
    exact List.map_congr_left fun stmt _ => congrArg Document.text (stmt.text_shown f)
  exact congrArg layout.braces (stmts block.stmts)

theorem FieldDecl.header_shown (decl : FieldDecl ν) :
    (decl.shown.map f).header = (decl.map f).header := by
  unfold header
  rw [map, map, shown, Modifiers.text_shown]

end Text

variable {names : Names}

theorem MethodDecl.header_shown (decl : MethodDecl Symbol) (known : names.Knows decl.name)
    (className : String) :
    (decl.shown.map names.display).header className =
      (decl.map names.display).header className := by
  have isConstructor := decl.isConstructor_map known
  have isConstructor' : (decl.shown.map names.display).isConstructor = decl.isConstructor := by
    rw [MethodDecl.isConstructor_map decl.shown known, isConstructor_shown]
  have modifiers : (decl.shown.map names.display).modifiers.text =
      (decl.map names.display).modifiers.text := decl.modifiers.text_shown
  have params : (decl.shown.map names.display).params = (decl.map names.display).params := rfl
  unfold header
  rw [isConstructor, isConstructor', modifiers, params]
  split
  · rfl
  · rename_i noConstructor
    have returned : ((decl.shown.map names.display).returnType.getD .void) =
        (decl.map names.display).returnType.getD .void := by
      rw [map, shown, if_neg noConstructor, map]
      cases decl.returnType <;> rfl
    have name : (decl.shown.map names.display).name = (decl.map names.display).name := rfl
    rw [returned, name]

namespace Layout

variable (layout : Layout)

/-- **A class is printed like what it shows,** at any depth. -/
theorem type_shown (decl : ClassDecl Symbol) (covers : names.Covers decl.nodes) :
    layout.type (decl.shown.map names.display) = layout.type (decl.map names.display) := by
  induction decl using ClassDecl.induction with
  | step decl ih =>
    rw [ClassDecl.nodes_eq] at covers
    have inside : names.Covers (decl.members.flatMap Member.nodes) :=
      covers.subset fun node hn => List.mem_cons_of_mem _ hn
    have members : ∀ member ∈ decl.members,
        layout.member (names.display decl.name) (member.shown.map names.display) =
          layout.member (names.display decl.name) (member.map names.display) := by
      intro member hm
      have here : names.Covers member.nodes :=
        inside.subset fun node hn => List.mem_flatMap_of_mem hm hn
      cases member with
      | field field =>
        have header := field.header_shown names.display
        exact congrArg (fun line => markers field.markers ++ Document.text line) header
      | method method =>
        have known : names.Knows method.name :=
          here (.method method) (List.mem_singleton_self _) _ List.mem_cons_self
        have header := method.header_shown known (names.display decl.name)
        have body := layout.block_shown names.display method.body
        exact congrArg₂ (fun line block => markers method.markers ++ Document.text line ++ block)
          header body
      | nested inner => exact ih inner hm here
    have header : ClassDecl.header (decl.shown.map names.display) =
        ClassDecl.header (decl.map names.display) := by
      rw [ClassDecl.shown_eq, ClassDecl.map_eq, ClassDecl.map_eq, ClassDecl.header,
        ClassDecl.header, Modifiers.text_shown]
    have items : (decl.shown.map names.display).members.map
          (layout.member (decl.shown.map names.display).name) =
        (decl.map names.display).members.map (layout.member (decl.map names.display).name) := by
      rw [ClassDecl.shown_eq, ClassDecl.map_eq, ClassDecl.map_eq]
      simp only [List.map_map]
      exact List.map_congr_left members
    have marks : (decl.shown.map names.display).markers = (decl.map names.display).markers := by
      rw [ClassDecl.shown_eq, ClassDecl.map_eq, ClassDecl.map_eq]
    rw [type_eq, type_eq, header, items, marks]

end Layout

/-- **Source text can be written from what it shows.** -/
theorem CompilationUnit.source_shown (layout : Layout) (unit : CompilationUnit Symbol)
    (covers : names.Covers unit.nodes) :
    unit.shown.source layout names = unit.source layout names := by
  rw [CompilationUnit.nodes_eq] at covers
  have types : (unit.shown.map names.display).types.map layout.type =
      (unit.map names.display).types.map layout.type := by
    simp only [CompilationUnit.map, CompilationUnit.shown, List.map_map]
    refine List.map_congr_left fun decl hd => ?_
    exact layout.type_shown decl (covers.subset fun node hn => List.mem_flatMap_of_mem hd hn)
  rw [CompilationUnit.source, CompilationUnit.source, Layout.unit, Layout.unit, types]
  rfl

end Augment
