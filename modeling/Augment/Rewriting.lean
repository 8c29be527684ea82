import Augment.Round
import Augment.Synthesis
import Augment.Tree.BottomUp

/-!
# Rewriting one class

`Round.rewrite` applies a strategy to the class that an element points at.  All classes of the unit
are visited from the bottom up, and the first one with the id of the element is handed to the
strategy, once.  Of what the strategy makes of it only the member list is kept: the name, the kind,
the modifiers, the markers and the id of a class are not up to strategies.
-/

namespace Augment

/-- The state of the search for the class to rewrite. -/
structure Search where
  maker : Maker
  /-- The number of classes visited. -/
  visited : Nat := 0
  outcome : Outcome := .notFound
  /-- What the strategy logged. -/
  events : List Event := []

namespace Search

/-- Counts a class and rewrites it, if it is the first one with the id that is looked for. -/
def visit (target : DeclId) (strategy : Strategy) (decl : ClassDecl Symbol) (search : Search) :
    ClassDecl Symbol × Search :=
  let search := { search with visited := search.visited + 1 }
  if decl.id = target ∧ search.outcome = .notFound then
    let (staged, maker) := (strategy decl).run search.maker
    ({ decl with members := staged.decl.members },
      { search with
        maker
        outcome := .rewritten decl.name staged.generated
        events := staged.events })
  else
    (decl, search)

end Search

/-- Rewrites the first class of a tree with the given id, if the tree is source code. -/
def CompilationUnit.rewrite (strategy : Strategy) (target : DeclId)
    (tree : CompilationUnit Symbol) (maker : Maker) : Traced (Round.Edited Outcome) := do
  if tree.isPrimarySource then
    let (rewritten, search) := tree.bottomUp (Search.visit target strategy) { maker }
    Traced.emit (search.events ++ [.visited tree.fileName search.visited])
    return { tree := rewritten, maker := search.maker, result := search.outcome }
  else
    Traced.emit [.notSource tree.fileName tree.origin]
    return { tree, maker, result := .skippedOrigin }

/-- Rewrites the class that an element points at, if a strategy is set. -/
def Round.rewrite (round : Round) (strategy : Option Strategy) (element : Element) :
    Except RewriteError (Traced (Round × Outcome)) :=
  match strategy with
  | none =>
    return do
      Traced.emit [.unconfigured]
      return (round, .notConfigured)
  | some strategy => round.edit element.unit (CompilationUnit.rewrite strategy element.decl)

end Augment
