/-
  Options of tables and views, their changes, and the clauses that set them.

  `mem_diff_iff` says which options a change sets: those with a value that is new.
-/
import AlterScript.Cql.Literal

namespace AlterScript

/-- Options in the order in which they were given. -/
structure Options where
  entries : Entries Json

namespace Options

instance : Inhabited Options := ⟨⟨[]⟩⟩

/-- No options. -/
def empty : Options := ⟨[]⟩

/-- Equality of options: their order does not count. -/
def same (a b : Options) : Bool := Json.same (.obj a.entries) (.obj b.entries)

instance : BEq Options := ⟨same⟩

/-- Whether an option gets another value; null is no value. -/
def isChanged (old : Options) (key : String) (value : Json) : Bool :=
  !value.isNull && !(match old.entries.find? key with
    | some v => v == value
    | none => false)

/-- The options of `new` with another value than in `old`, in the order of `new`. -/
def diff (new old : Options) : Options :=
  ⟨new.entries.filter fun e => isChanged old e.1 e.2⟩

theorem mem_diff_iff (new old : Options) (e : String × Json) :
    e ∈ (diff new old).entries ↔ e ∈ new.entries ∧ isChanged old e.1 e.2 = true := by
  simp [diff]

/-- The clause that sets an option; none for a value without a literal. -/
def clause? (e : String × Json) : Option String :=
  (Literal.ofJson? e.2).map fun v => e.1 ++ " = " ++ v

/-- The clause that sets the comment. -/
def commentClause (comment : String) : String := "comment = " ++ Text.quotedLiteral comment

/-- The clauses that set the options and then the comment. -/
def clauses (options : Options) (comment : Option String) : List String :=
  options.entries.filterMap clause? ++ (comment.map commentClause).toList

/-- The comment to set: the new one where it is present and not the old one. -/
def changedComment (old new : Option String) : Option String :=
  match new with
  | some c => if old = some c then none else some c
  | none => none

end Options

end AlterScript
