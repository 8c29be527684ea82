import Augment.Json.Basic
import Augment.Tree.Declaration

/-!
# Trees as JSON

The JSON form of every node of a tree over symbols, with a writer `toJson` and a reader `ofJson?`
for each type of node.  Nodes with fields are records, except the payloads of expressions and
markers, which are objects; nodes with alternatives are variants.

Reading accepts more than writing produces: records as arrays, keys that name no field, and missing
optional parts.  Anything else is refused as a whole.
-/

namespace Augment

/-! ### Names, ids and flags -/

/-- A symbol is written as its key. -/
def Symbol.toJson (symbol : Symbol) : Json :=
  .ofNat symbol.key

/-- Any word is a symbol, known to a table or not. -/
def Symbol.ofJson? (j : Json) : Option Symbol :=
  j.word?.map Symbol.mk

/-- A declaration id is written as its number. -/
def DeclId.toJson (id : DeclId) : Json :=
  .ofNat id.index

/-- Any word is a declaration id. -/
def DeclId.ofJson? (j : Json) : Option DeclId :=
  j.word?.map DeclId.mk

/-- Modifiers are written as one number, all flags together. -/
def Modifiers.toJson (modifiers : Modifiers) : Json :=
  .ofNat modifiers.bits.toNat

/-- Any word is a set of modifiers. -/
def Modifiers.ofJson? (j : Json) : Option Modifiers :=
  j.uint64?.map Modifiers.mk

/-! ### Words from fixed lists -/

/-- Access levels are written in lower case. -/
def AccessLevel.toJson : AccessLevel → Json
  | publicAccess => .variant "public"
  | protectedAccess => .variant "protected"
  | packagePrivate => .variant "package_private"
  | privateAccess => .variant "private"

/-- Reads an access level. -/
def AccessLevel.ofJson? (j : Json) : Option AccessLevel :=
  j.choice? [("public", publicAccess), ("protected", protectedAccess),
    ("package_private", packagePrivate), ("private", privateAccess)]

/-- Kinds of markers are written in lower case. -/
def MarkerKind.toJson : MarkerKind → Json
  | getter => .variant "getter"
  | setter => .variant "setter"
  | noArgsConstructor => .variant "no_args_constructor"

/-- Reads a kind of marker. -/
def MarkerKind.ofJson? (j : Json) : Option MarkerKind :=
  j.choice? [("getter", getter), ("setter", setter), ("no_args_constructor", noArgsConstructor)]

/-- Kinds of types are written with a capital. -/
def TypeKind.toJson : TypeKind → Json
  | classType => .variant "Class"
  | interfaceType => .variant "Interface"
  | enumType => .variant "Enum"

/-- Reads a kind of type. -/
def TypeKind.ofJson? (j : Json) : Option TypeKind :=
  j.choice? [("Class", classType), ("Interface", interfaceType), ("Enum", enumType)]

/-- Kinds of declarations are written with a capital, and those of types like the types. -/
def ElementKind.toJson : ElementKind → Json
  | type kind => kind.toJson
  | field => .variant "Field"
  | method => .variant "Method"
  | constructor => .variant "Constructor"

/-- Reads a kind of declaration. -/
def ElementKind.ofJson? (j : Json) : Option ElementKind :=
  j.choice? [("Class", type .classType), ("Interface", type .interfaceType),
    ("Enum", type .enumType), ("Field", field), ("Method", method), ("Constructor", constructor)]

/-- Origins are written with a capital. -/
def Origin.toJson : Origin → Json
  | source => .variant "Source"
  | generated => .variant "Generated"
  | library => .variant "Library"

/-- Reads an origin. -/
def Origin.ofJson? (j : Json) : Option Origin :=
  j.choice? [("Source", source), ("Generated", generated), ("Library", library)]

/-! ### Markers -/

/-- A marker is a variant; only one has a payload. -/
def Marker.toJson : Marker → Json
  | getter => .variant "Getter"
  | setter => .variant "Setter"
  | noArgsConstructor access =>
    .variantOf "NoArgsConstructor" (.obj [("access", access.toJson)])

/-- Reads a marker. -/
def Marker.ofJson? (j : Json) : Option Marker := do
  match ← j.variant? with
  | ("Getter", ⟨.null, _⟩) => return .getter
  | ("Setter", ⟨.null, _⟩) => return .setter
  | ("NoArgsConstructor", payload) =>
    return .noArgsConstructor (← AccessLevel.ofJson? (← payload.1.key? "access"))
  | _ => none

/-! ### Types, expressions and bodies -/

/-- The type `void` has no payload, any other type its name. -/
def TypeRef.toJson : TypeRef Symbol → Json
  | void => .variant "Void"
  | named name => .variantOf "Named" name.toJson

/-- Reads a type. -/
def TypeRef.ofJson? (j : Json) : Option (TypeRef Symbol) := do
  match ← j.variant? with
  | ("Void", ⟨.null, _⟩) => return .void
  | ("Named", payload) => return .named (← Symbol.ofJson? payload)
  | _ => none

/-- An expression is a variant with its parts as payload. -/
def Expr.toJson : Expr Symbol → Json
  | receiver => .variant "This"
  | ident name => .variantOf "Ident" name.toJson
  | select target name =>
    .variantOf "Select" (.obj [("target", target.toJson), ("name", name.toJson)])
  | assign target value =>
    .variantOf "Assign" (.obj [("target", target.toJson), ("value", value.toJson)])

/-- Reads an expression. -/
def Expr.ofJson? (j : Json) : Option (Expr Symbol) := do
  let (name, payload) ← j.variant?
  match name with
  | "This" => if payload.1 matches .null then return .receiver else none
  | "Ident" => return .ident (← Symbol.ofJson? payload)
  | "Select" =>
    let target ← payload.1.key? "target"
    let name ← payload.1.key? "name"
    return .select (← Expr.ofJson? target) (← Symbol.ofJson? name)
  | "Assign" =>
    let target ← payload.1.key? "target"
    let value ← payload.1.key? "value"
    return .assign (← Expr.ofJson? target) (← Expr.ofJson? value)
  | _ => none
termination_by j.weight
decreasing_by
  · exact Nat.lt_trans target.2 payload.2
  · exact Nat.lt_trans target.2 payload.2
  · exact Nat.lt_trans value.2 payload.2

/-- A statement is a variant with its expression as payload. -/
def Stmt.toJson : Stmt Symbol → Json
  | ret value => .variantOf "Return" value.toJson
  | exec effect => .variantOf "Exec" effect.toJson

/-- Reads a statement. -/
def Stmt.ofJson? (j : Json) : Option (Stmt Symbol) := do
  match ← j.variant? with
  | ("Return", payload) => return .ret (← Expr.ofJson? payload)
  | ("Exec", payload) => return .exec (← Expr.ofJson? payload)
  | _ => none

/-- A body is written with its formatting hint. -/
def Block.toJson (block : Block Symbol) : Json :=
  .obj [("indent", .ofNat block.indent.toNat), ("stmts", .arr (block.stmts.map Stmt.toJson))]

/-- Reads a body; neither part may be missing. -/
def Block.ofJson? (j : Json) : Option (Block Symbol) := do
  let field := j.field? ["indent", "stmts"]
  return {
    indent := ← Json.uint64? (← field "indent")
    stmts := ← Json.list? Stmt.ofJson? (← field "stmts") }

/-! ### Members -/

/-- A parameter is a record. -/
def Param.toJson (param : Param Symbol) : Json :=
  .obj [("name", param.name.toJson), ("ty", param.type.toJson)]

/-- Reads a parameter. -/
def Param.ofJson? (j : Json) : Option (Param Symbol) := do
  let field := j.field? ["name", "ty"]
  return {
    name := ← Symbol.ofJson? (← field "name")
    type := ← TypeRef.ofJson? (← field "ty") }

/-- A field is a record. -/
def FieldDecl.toJson (decl : FieldDecl Symbol) : Json :=
  .obj [("id", decl.id.toJson), ("name", decl.name.toJson), ("ty", decl.type.toJson),
    ("modifiers", decl.modifiers.toJson), ("markers", .arr (decl.markers.map Marker.toJson))]

/-- Reads a field. -/
def FieldDecl.ofJson? (j : Json) : Option (FieldDecl Symbol) := do
  let field := j.field? ["id", "name", "ty", "modifiers", "markers"]
  return {
    id := ← DeclId.ofJson? (← field "id")
    name := ← Symbol.ofJson? (← field "name")
    type := ← TypeRef.ofJson? (← field "ty")
    modifiers := ← Modifiers.ofJson? (← field "modifiers")
    markers := ← Json.list? Marker.ofJson? (← field "markers") }

/-- A method is a record, in which the return type of a constructor is `null`. -/
def MethodDecl.toJson (decl : MethodDecl Symbol) : Json :=
  .obj [("id", decl.id.toJson), ("name", decl.name.toJson),
    ("modifiers", decl.modifiers.toJson),
    ("return_type", .ofOption TypeRef.toJson decl.returnType),
    ("params", .arr (decl.params.map Param.toJson)), ("body", decl.body.toJson),
    ("markers", .arr (decl.markers.map Marker.toJson))]

/-- Reads a method.  A missing return type is no return type. -/
def MethodDecl.ofJson? (j : Json) : Option (MethodDecl Symbol) := do
  let field :=
    j.field? ["id", "name", "modifiers", "return_type", "params", "body", "markers"]
  return {
    id := ← DeclId.ofJson? (← field "id")
    name := ← Symbol.ofJson? (← field "name")
    modifiers := ← Modifiers.ofJson? (← field "modifiers")
    returnType := ← Json.option? TypeRef.ofJson? (Json.orNull (field "return_type"))
    params := ← Json.list? Param.ofJson? (← field "params")
    body := ← Block.ofJson? (← field "body")
    markers := ← Json.list? Marker.ofJson? (← field "markers") }

/-! ### Classes -/

mutual

/-- A class is a record. -/
def ClassDecl.toJson : ClassDecl Symbol → Json
  | ⟨id, name, kind, modifiers, markers, members⟩ =>
    .obj [("id", id.toJson), ("name", name.toJson), ("kind", kind.toJson),
      ("modifiers", modifiers.toJson), ("markers", .arr (markers.map Marker.toJson)),
      ("members", .arr (ClassDecl.membersToJson members))]

/-- Members are variants named for what they are. -/
def ClassDecl.membersToJson : List (Member Symbol) → List Json
  | [] => []
  | .field decl :: rest => .variantOf "Field" decl.toJson :: ClassDecl.membersToJson rest
  | .method decl :: rest => .variantOf "Method" decl.toJson :: ClassDecl.membersToJson rest
  | .nested decl :: rest => .variantOf "Class" decl.toJson :: ClassDecl.membersToJson rest

end

/-- A member is a variant named for what it is. -/
def Member.toJson : Member Symbol → Json
  | field decl => .variantOf "Field" decl.toJson
  | method decl => .variantOf "Method" decl.toJson
  | nested decl => .variantOf "Class" decl.toJson

theorem ClassDecl.membersToJson_eq (members : List (Member Symbol)) :
    ClassDecl.membersToJson members = members.map Member.toJson := by
  induction members with
  | nil => rfl
  | cons member rest ih => cases member <;> simp [ClassDecl.membersToJson, Member.toJson, ih]

mutual

/-- Reads a class with everything that is declared in it. -/
def ClassDecl.ofJson? (j : Json) : Option (ClassDecl Symbol) := do
  let field := j.field? ["id", "name", "kind", "modifiers", "markers", "members"]
  let id ← DeclId.ofJson? (← field "id")
  let name ← Symbol.ofJson? (← field "name")
  let kind ← TypeKind.ofJson? (← field "kind")
  let modifiers ← Modifiers.ofJson? (← field "modifiers")
  let markers ← Json.list? Marker.ofJson? (← field "markers")
  let body ← field "members"
  let items ← body.1.items?
  let members ← items.mapM fun item => Member.ofJson? item.1
  return { id, name, kind, modifiers, markers, members }
termination_by j.weight
decreasing_by exact Nat.lt_trans item.2 body.2

/-- Reads a member. -/
def Member.ofJson? (j : Json) : Option (Member Symbol) := do
  let (name, payload) ← j.variant?
  match name with
  | "Field" => return .field (← FieldDecl.ofJson? payload)
  | "Method" => return .method (← MethodDecl.ofJson? payload)
  | "Class" => return .nested (← ClassDecl.ofJson? payload)
  | _ => none
termination_by j.weight
decreasing_by exact payload.2

end

/-- A unit is a record, in which a missing package is `null`. -/
def CompilationUnit.toJson (unit : CompilationUnit Symbol) : Json :=
  .obj [("file_name", .str unit.fileName), ("package", .ofOption .str unit.package),
    ("origin", unit.origin.toJson), ("types", .arr (unit.types.map ClassDecl.toJson))]

/-- Reads a unit.  A missing package is no package. -/
def CompilationUnit.ofJson? (j : Json) : Option (CompilationUnit Symbol) := do
  let field := j.field? ["file_name", "package", "origin", "types"]
  return {
    fileName := ← Json.str? (← field "file_name")
    package := ← Json.option? Json.str? (Json.orNull (field "package"))
    origin := ← Origin.ofJson? (← field "origin")
    types := ← Json.list? ClassDecl.ofJson? (← field "types") }

end Augment
