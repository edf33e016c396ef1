/-
  What the statements of a node depend on besides the node.
-/
import AlterScript.CqlType.Resolver

namespace AlterScript

/-- What the statements of a node depend on besides the node. -/
structure Scope where
  resolver : Resolver := Resolver.builtin
  references : References := .empty
  legacy : Bool := false
  /-- The fields of all user-defined types of the tree. -/
  definitions : List (String × Field) := []

namespace Scope

/-- The text of a field's type. -/
def typeOf (s : Scope) (f : Field) (fallback : String) : Except ResolveError (Option String) :=
  s.resolver.columnType s.references f fallback

/-- The fields with a type as columns, in order. -/
def columns (s : Scope) : List (String × Field) → Except ResolveError (List Column)
  | [] => .ok []
  | (name, f) :: r => do
    let type ← s.typeOf f name
    let rest ← s.columns r
    return (type.map (Column.mk name)).toList ++ rest

end Scope

/-- What the bucket of a node asks for. -/
inductive Direction
  | create
  | update
  | delete
deriving DecidableEq, Repr

namespace Direction

def ofBucket : Bucket → Direction
  | .added => create
  | .modified => update
  | .deleted => delete

end Direction

end AlterScript
