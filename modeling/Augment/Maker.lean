import Augment.Tree.Declaration

/-!
# Making trees

A `Maker` is what all trees of a round have in common: the names interned so far and the next
declaration id.  Trees are made by `Building` programs, which read and extend the maker.  A program
that makes a declaration takes one id for it, after the ids of the parts it is made from, so ids
are never given twice and the declarations in a class have smaller ids than the class.
-/

namespace Augment

/-- The names and ids that were given out in a round. -/
structure Maker where
  names : Names := .initial
  /-- The id that the next declaration will get. -/
  nextDecl : Nat := 0

instance : Inhabited Maker := ⟨{}⟩

/-- A program that makes part of a tree. -/
abbrev Building := StateM Maker

namespace Building

/-- The symbol of a spelling. -/
def name (spelling : String) : Building Symbol :=
  fun maker =>
    let entry := maker.names.intern spelling
    (entry.1, { maker with names := entry.2 })

/-- The spelling of a symbol. -/
def spelling (symbol : Symbol) : Building String :=
  fun maker => (maker.names.display symbol, maker)

/-- A declaration id that was not given before. -/
def declId : Building DeclId :=
  fun maker => (⟨maker.nextDecl⟩, { maker with nextDecl := maker.nextDecl + 1 })

/-- The type of a name. -/
def typeNamed (spelling : String) : Building (TypeRef Symbol) :=
  .named <$> name spelling

/-- A field. -/
def field (name : Symbol) (type : TypeRef Symbol) (modifiers : Modifiers := .none)
    (markers : List Marker := []) : Building (FieldDecl Symbol) := do
  let id ← declId
  return { id, name, type, modifiers, markers }

/-- A method. -/
def method (name : Symbol) (returnType : Option (TypeRef Symbol)) (modifiers : Modifiers := .none)
    (params : List (Param Symbol) := []) (body : Block Symbol := {})
    (markers : List Marker := []) : Building (MethodDecl Symbol) := do
  let id ← declId
  return { id, name, modifiers, returnType, params, body, markers }

/-- A constructor: a method of the reserved name without a return type. -/
def constructor (modifiers : Modifiers := .none) (params : List (Param Symbol) := [])
    (body : Block Symbol := {}) (markers : List Marker := []) : Building (MethodDecl Symbol) :=
  method Names.init none modifiers params body markers

/-- A class, interface or enumeration. -/
def type (name : Symbol) (kind : TypeKind := .classType) (modifiers : Modifiers := .none)
    (markers : List Marker := []) (members : List (Member Symbol) := []) :
    Building (ClassDecl Symbol) := do
  let id ← declId
  return { id, name, kind, modifiers, markers, members }

end Building

end Augment
