import Augment.Text.Lines
import Augment.Source.Layout
import Augment.Tree.Declaration

/-!
# Source text of trees

A spelled tree, that is a tree over `String`, is printed in two steps: each node becomes a
`Document`, and the document of the whole node is laid out and its lines are trimmed (`render`).
Only the first step knows what the source language looks like and only the second one how the text
is spread over lines.

A tree over symbols is spelled first, by the names of its round (`CompilationUnit.source`).
-/

namespace Augment

/-! ### Texts of a single line -/

/-- A type. -/
def TypeRef.text : TypeRef String → String
  | void => "void"
  | named name => name

/-- An expression.  No parentheses are written. -/
def Expr.text : Expr String → String
  | receiver => "this"
  | ident name => name
  | select target name => target.text ++ "." ++ name
  | assign target value => target.text ++ " = " ++ value.text

/-- A statement. -/
def Stmt.text : Stmt String → String
  | ret value => "return " ++ value.text ++ ";"
  | exec effect => effect.text ++ ";"

/-- A parameter. -/
def Param.text (param : Param String) : String :=
  param.type.text ++ " " ++ param.name

/-- The line of a field, without its markers. -/
def FieldDecl.header (decl : FieldDecl String) : String :=
  decl.modifiers.text ++ decl.type.text ++ " " ++ decl.name ++ ";"

/-- The line of a method up to its body, without its markers.  A constructor is spelled with the
name of its class, and a method that lost its return type is shown as `void`. -/
def MethodDecl.header (decl : MethodDecl String) (className : String) : String :=
  let subject :=
    if decl.isConstructor then className
    else (decl.returnType.getD .void).text ++ " " ++ decl.name
  decl.modifiers.text ++ subject ++ "(" ++ ", ".intercalate (decl.params.map Param.text) ++ ")"

/-- The line of a class up to its body, without its markers. -/
def ClassDecl.header (decl : ClassDecl String) : String :=
  decl.modifiers.text ++ decl.kind.keyword ++ " " ++ decl.name

/-! ### Documents -/

namespace Layout

/-- Markers, each on its own line. -/
def markers (markers : List Marker) : Document :=
  .concat (markers.map fun marker => .text marker.text ++ .newline)

/-- The body of a method. -/
def block (layout : Layout) (block : Block String) : Document :=
  layout.braces (block.stmts.map fun stmt => .text stmt.text)

/-- A field. -/
def field (decl : FieldDecl String) : Document :=
  markers decl.markers ++ .text decl.header

/-- A method or constructor of a class of the given name. -/
def method (layout : Layout) (className : String) (decl : MethodDecl String) : Document :=
  markers decl.markers ++ .text (decl.header className) ++ layout.block decl.body

mutual

/-- A class. -/
def type (layout : Layout) : ClassDecl String → Document
  | ⟨id, name, kind, modifiers, marks, body⟩ =>
    let decl : ClassDecl String := ⟨id, name, kind, modifiers, marks, body⟩
    markers marks ++ .text decl.header ++ layout.braces (layout.members name body)

/-- The members of a class of the given name. -/
def members (layout : Layout) (className : String) : List (Member String) → List Document
  | [] => []
  | .field decl :: rest => field decl :: layout.members className rest
  | .method decl :: rest => layout.method className decl :: layout.members className rest
  | .nested decl :: rest => layout.type decl :: layout.members className rest

end

/-- A member of a class of the given name. -/
def member (layout : Layout) (className : String) : Member String → Document
  | .field decl => field decl
  | .method decl => layout.method className decl
  | .nested decl => layout.type decl

/-- A compilation unit.  One blank line follows the package and one stands between types. -/
def unit (layout : Layout) (unit : CompilationUnit String) : Document :=
  let package : Document :=
    match unit.package with
    | none => .empty
    | some name => .text ("package " ++ name ++ ";") ++ .newline ++ .newline
  package ++ .separated (.newline ++ .newline) (unit.types.map layout.type)

theorem members_eq (layout : Layout) (className : String) (body : List (Member String)) :
    layout.members className body = body.map (layout.member className) := by
  induction body with
  | nil => rfl
  | cons first rest ih => cases first <;> simp [members, member, ih]

/-- **A class is printed** as its markers, its header and its members in braces. -/
theorem type_eq (layout : Layout) (decl : ClassDecl String) :
    layout.type decl = markers decl.markers ++ .text decl.header ++
      layout.braces (decl.members.map (layout.member decl.name)) := by
  cases decl
  simp [type, members_eq]

end Layout

/-! ### Source text -/

/-- The final text of a document. -/
def Document.render (doc : Document) : String :=
  Text.clean doc.layout

/-- The source text of a statement. -/
def Stmt.source (names : Names) (stmt : Stmt Symbol) : String :=
  (Document.text (stmt.map names.display).text).render

/-- The source text of a body. -/
def Block.source (layout : Layout) (names : Names) (block : Block Symbol) : String :=
  (layout.block (block.map names.display)).render

/-- The source text of a class. -/
def ClassDecl.source (layout : Layout) (names : Names) (decl : ClassDecl Symbol) : String :=
  (layout.type (decl.map names.display)).render

/-- The source text of a member that stands alone.  A constructor is then spelled with its own
reserved name, for want of a class. -/
def Member.source (layout : Layout) (names : Names) (member : Member Symbol) : String :=
  (layout.member (names.display member.name) (member.map names.display)).render

/-- The source text of a compilation unit. -/
def CompilationUnit.source (layout : Layout) (names : Names) (unit : CompilationUnit Symbol) :
    String :=
  (layout.unit (unit.map names.display)).render

end Augment
