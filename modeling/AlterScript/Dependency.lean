/-
  Putting things behind those that they use.

  The earliest thing that uses none of those still to be placed is placed first. If things use each
  other in a circle, they stay as they are.
-/
namespace AlterScript

namespace Dependency

variable {α : Type}

/-- Things with their places. -/
abbrev Placed (α : Type) := List (α × Nat)

/-- Whether a thing uses none of the others. -/
def isFree (uses : α → α → Bool) (rest : Placed α) (x : α × Nat) : Bool :=
  rest.all fun y => y.2 == x.2 || !uses x.1 y.1

/-- Places the earliest free thing again and again; none if there is no free one. At most `n` things
    are placed. -/
def placed (uses : α → α → Bool) : Nat → Placed α → Option (Placed α)
  | _, [] => some []
  | 0, _ :: _ => none
  | n + 1, rest =>
    match rest.find? (isFree uses rest) with
    | none => none
    | some x => (placed uses n (rest.filter fun y => y.2 != x.2)).map fun r => x :: r

/-- The things behind those they use, or as they are. -/
def sorted (uses : α → α → Bool) (xs : List α) : List α :=
  ((placed uses xs.length xs.zipIdx).map fun r => r.map Prod.fst).getD xs

end Dependency

end AlterScript
