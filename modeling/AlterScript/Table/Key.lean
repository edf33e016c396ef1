/-
  The primary key of a table.

  The references of the table's description count first; without them the flags of the columns.
-/
import AlterScript.Field.Ids
import AlterScript.Table.Basic

namespace AlterScript

namespace Table

/-- The columns of a table by their ids: those of all its field sets, then the fields of
    user-defined types. -/
def columnIds (t : Table) (definitions : List (String × Field)) : ColumnIds :=
  t.columnSources.flatMap (fun s => ColumnIds.ofFields s.named?) ++ ColumnIds.ofFields definitions

/-- The names of the columns with a flag. -/
def flagged (flag : Field → Bool) (columns : Entries Field) : List String :=
  (columns.filter fun c => flag c.2).map Prod.fst

/-- The first list that is not empty, or the second. -/
def orElseList {α : Type} (xs ys : List α) : List α := if xs.isEmpty then ys else xs

/-- The partition key: referenced columns, or else columns with the flag for it, or else columns
    with the flag for a primary key and none for a clustering key. -/
def partitionKey (t : Table) (columns : Entries Field) (ids : ColumnIds) : List String :=
  orElseList (ids.resolveAll t.role.partitionKey)
    (orElseList (flagged Field.partitionKey columns)
      (flagged (fun f => f.primaryKey && !f.clusteringKey) columns))

/-- The clustering key: referenced columns with their order, or else columns with the flag for
    it. -/
def clusteringKey (t : Table) (columns : Entries Field) (ids : ColumnIds) :
    List ClusteringColumn :=
  orElseList (ids.resolveClustering t.role.clusteringKey)
    ((flagged Field.clusteringKey columns).map fun name => ⟨name, none⟩)

end Table

end AlterScript
