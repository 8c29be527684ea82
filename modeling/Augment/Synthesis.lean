import Augment.Event
import Augment.Maker
import Augment.Naming

/-!
# Synthesis of members

What each marker asks for, as a `Strategy` on a class.  Getters and setters are appended for the
fields of the class itself, after all its members and in the order of the fields; accessors that
are already there are not looked at, so a second application appends a second copy.  The
constructor without parameters replaces those that the class has.
-/

namespace Augment

/-! ### Single members -/

namespace Building

/-- `public T getN() { return n; }` -/
def getter (decl : FieldDecl Symbol) : Building (MethodDecl Symbol) := do
  let field ← spelling decl.name
  let name ← name (Naming.getter field)
  method name (some decl.type) (.ofAccess .publicAccess) []
    { indent := 1, stmts := [.ret (.ident decl.name)] }

/-- `public void setN(T _n) { n = _n; }` -/
def setter (decl : FieldDecl Symbol) : Building (MethodDecl Symbol) := do
  let field ← spelling decl.name
  let param ← name (Naming.setterParam field)
  let name ← name (Naming.setter field)
  method name (some .void) (.ofAccess .publicAccess) [{ name := param, type := decl.type }]
    { indent := 1, stmts := [.exec (.assign (.ident decl.name) (.ident param))] }

/-- An empty constructor without parameters. -/
def noArgsConstructor (access : AccessLevel) : Building (MethodDecl Symbol) :=
  constructor (.ofAccess access)

end Building

/-- Whether the member is a constructor without parameters. -/
def Member.isNoArgsConstructor {ν : Type} [DecidableEq ν] [InitName ν] : Member ν → Bool
  | method decl => decl.isNoArgsConstructor
  | _ => false

/-- The members that are no constructors without parameters, in order. -/
def Member.withoutNoArgsConstructors {ν : Type} [DecidableEq ν] [InitName ν]
    (members : List (Member ν)) : List (Member ν) :=
  members.filter (!·.isNoArgsConstructor)

/-! ### Strategies -/

/-- What a strategy leaves behind. -/
structure Staged where
  /-- The class as the strategy left it. -/
  decl : ClassDecl Symbol
  /-- The names of the members it made, in order. -/
  generated : List Symbol
  /-- What it logged. -/
  events : List Event

/-- A way to change one class, which may make new parts of trees. -/
abbrev Strategy := ClassDecl Symbol → Building Staged

namespace Strategy

/-- Appends one method for each field. -/
def perField (synthesize : FieldDecl Symbol → Building (MethodDecl Symbol))
    (event : Nat → Event) : Strategy := fun decl => do
  let methods ← decl.fields.mapM synthesize
  return {
    decl := { decl with members := decl.members ++ methods.map .method }
    generated := methods.map (·.name)
    events := [event methods.length] }

/-- Appends one getter for each field. -/
def getters : Strategy := perField Building.getter .appendedGetters

/-- Appends one setter for each field. -/
def setters : Strategy := perField Building.setter .appendedSetters

/-- Replaces the constructors without parameters by a single empty one. -/
def noArgsConstructor (access : AccessLevel) : Strategy := fun decl => do
  let kept := Member.withoutNoArgsConstructors decl.members
  let new ← Building.noArgsConstructor access
  return {
    decl := { decl with members := kept ++ [.method new] }
    generated := [new.name]
    events := [.replacingConstructors (decl.members.length - kept.length) access] }

end Strategy

/-- The augmentation that a marker asks for. -/
def Marker.strategy : Marker → Strategy
  | getter => .getters
  | setter => .setters
  | noArgsConstructor access => .noArgsConstructor access

end Augment
