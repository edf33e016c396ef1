/-
  Names of CQL objects, typed columns, and the order of clustering columns.
-/
import AlterScript.Text.Blank
import AlterScript.Text.Lines
import AlterScript.Text.Quoted

namespace AlterScript

/-- The name of an object, in a keyspace if one is known. -/
structure QualifiedName where
  keyspace : Option String
  name : String
deriving DecidableEq, Repr

namespace QualifiedName

/-- A name in a keyspace; a blank keyspace is none. -/
def of (keyspace : Option String) (name : String) : QualifiedName :=
  ⟨keyspace.bind Text.nonBlank, name⟩

/-- A keyspace that was read once is read again as it is. -/
theorem of_keyspace_of (keyspace : Option String) (name other : String) :
    QualifiedName.of (QualifiedName.of keyspace name).keyspace other =
      QualifiedName.of keyspace other := by
  cases keyspace with
  | none => rfl
  | some k => simp only [of, Option.bind_some, Text.nonBlank_bind_nonBlank]

def text (q : QualifiedName) : String :=
  match q.keyspace with
  | some keyspace => Text.quotedName keyspace ++ "." ++ Text.quotedName q.name
  | none => Text.quotedName q.name

end QualifiedName

/-- A column, or a field of a user-defined type, with the text of its type. -/
structure Column where
  name : String
  type : String
deriving DecidableEq, Repr

namespace Column

/-- A column as definitions and additions write it. -/
def text (c : Column) : String := Text.quotedName c.name ++ " " ++ c.type

end Column

inductive SortOrder
  | ascending
  | descending
deriving DecidableEq, Repr

namespace SortOrder

/-- A sort order by its keyword, short or long. -/
def parse? (s : String) : Option SortOrder :=
  match Text.keyword s with
  | "asc" | "ascending" => some ascending
  | "desc" | "descending" => some descending
  | _ => none

def keyword : SortOrder → String
  | ascending => "ASC"
  | descending => "DESC"

end SortOrder

/-- A clustering column, with its order if one is given. -/
structure ClusteringColumn where
  name : String
  order : Option SortOrder
deriving DecidableEq, Repr

/-- Quoted names separated by commas. -/
def quotedNames (names : List String) : String := Text.join ", " (names.map Text.quotedName)

end AlterScript
