import Augment.Names

/-!
# Types, expressions and method bodies

Trees are written over a type `ν` of names.  The trees of a round are over `Symbol`; the same trees
over `String` are the *spelled* trees that the printer works on.  `map` carries a tree from one to
the other, and on each node it is the map of the parts.
-/

namespace Augment

/-- Types of names with one name reserved for constructors. -/
class InitName (ν : Type) where
  /-- The name that constructors carry. -/
  init : ν

instance : InitName Symbol := ⟨Names.init⟩

instance : InitName String := ⟨initName⟩

/-- A reference to a type.  Nothing is known of the type but its name. -/
inductive TypeRef (ν : Type) where
  | void
  | named (name : ν)
deriving DecidableEq, Repr

/-- An expression. -/
inductive Expr (ν : Type) where
  /-- The receiver, `this`. -/
  | receiver
  /-- A name on its own. -/
  | ident (name : ν)
  /-- A member of the value of an expression. -/
  | select (target : Expr ν) (name : ν)
  /-- An assignment, which is itself an expression. -/
  | assign (target value : Expr ν)
deriving DecidableEq, Repr

/-- A statement. -/
inductive Stmt (ν : Type) where
  | ret (value : Expr ν)
  | exec (effect : Expr ν)
deriving DecidableEq, Repr

/-- The body of a method. -/
structure Block (ν : Type) where
  /-- A hint of the host on formatting.  It is carried along and decides nothing. -/
  indent : UInt64 := 0
  stmts : List (Stmt ν) := []
deriving DecidableEq, Repr

variable {ν μ : Type}

/-! ### Renaming -/

/-- The type with its name mapped. -/
def TypeRef.map (f : ν → μ) : TypeRef ν → TypeRef μ
  | void => .void
  | named name => .named (f name)

/-- The expression with every name mapped. -/
def Expr.map (f : ν → μ) : Expr ν → Expr μ
  | receiver => .receiver
  | ident name => .ident (f name)
  | select target name => .select (target.map f) (f name)
  | assign target value => .assign (target.map f) (value.map f)

/-- The statement with every name mapped. -/
def Stmt.map (f : ν → μ) : Stmt ν → Stmt μ
  | ret value => .ret (value.map f)
  | exec effect => .exec (effect.map f)

/-- The body with every name mapped. -/
def Block.map (f : ν → μ) (block : Block ν) : Block μ where
  indent := block.indent
  stmts := block.stmts.map (·.map f)

/-- Whether the body holds no statement. -/
def Block.isEmpty (block : Block ν) : Bool :=
  block.stmts.isEmpty

end Augment
