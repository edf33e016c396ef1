/-
  Secondary indexes and the search index of a table.
-/
import AlterScript.Cql.Command
import AlterScript.Table.Key

namespace AlterScript

/-- The indexes of a table; without columns there is no search index. -/
structure IndexSet where
  secondary : List Index := []
  search : List String := []
deriving DecidableEq, Repr

namespace IndexSet

/-- The statements that create the indexes. -/
def creations (i : IndexSet) (table : QualifiedName) : List Command :=
  i.secondary.map (Command.createIndex table)
    ++ if i.search.isEmpty then [] else [.createSearchIndex table i.search]

/-- The statements that drop the indexes. -/
def drops (i : IndexSet) (table : QualifiedName) : List Command :=
  i.secondary.map (fun x => Command.dropIndex table.keyspace x.name)
    ++ if i.search.isEmpty then [] else [.dropSearchIndex table]

/-- What is in the first set and not in the second. Search indexes differ as a whole. -/
def minus (a b : IndexSet) : IndexSet where
  secondary := a.secondary.filter fun x => !b.secondary.contains x
  search := if a.search = b.search then [] else a.search

end IndexSet

namespace IndexDescription

/-- The name that an index has without a name of its own. -/
def defaultName (table column : String) : String := table ++ "_" ++ column ++ "_idx"

/-- The index on the first key column, if that is a column. -/
def index? (ids : ColumnIds) (table : String) (d : IndexDescription) : Option Index :=
  (d.keys.head?.bind ids.resolve).map fun column =>
    { name := d.name.getD (defaultName table column)
      column := column
      part := d.part.bind CollectionPart.parse? }

end IndexDescription

namespace Table

/-- The indexes of given descriptions. -/
def indexesOf (ids : ColumnIds) (table : String) (ds : List IndexDescription) : List Index :=
  ds.filterMap (IndexDescription.index? ids table)

/-- The names of all columns under an index. -/
def indexedColumns (t : Table) (ids : ColumnIds) : List String :=
  ids.resolveAll t.role.searchColumns
    ++ ids.resolveAll (t.role.indexes.flatMap IndexDescription.keys)

/-- The indexes that the description of the table names. -/
def currentIndexes (t : Table) (ids : ColumnIds) (table : String) : IndexSet :=
  ⟨indexesOf ids table t.role.indexes, ids.resolveAll t.role.searchColumns⟩

/-- The change of the secondary indexes. -/
def indexChange (t : Table) : Option (Change (List IndexDescription)) :=
  t.role.comparison.bind (·.indexes)

/-- The change of the columns of the search index. -/
def searchChange (t : Table) : Option (Change (List KeyReference)) :=
  t.role.comparison.bind (·.searchColumns)

/-- The indexes on one side of the comparison, or else those of the description. -/
def indexesAt (t : Table) (ids : ColumnIds) (table : String)
    (side : {α : Type} → Change α → Option α) : IndexSet where
  secondary := indexesOf ids table ((t.indexChange.bind side).getD t.role.indexes)
  search := ids.resolveAll ((t.searchChange.bind side).getD t.role.searchColumns)

/-- The indexes on one side of the comparison, and none where the comparison says nothing. -/
def comparedIndexes (t : Table) (ids : ColumnIds) (table : String)
    (side : {α : Type} → Change α → Option α) : IndexSet where
  secondary := indexesOf ids table ((t.indexChange.bind side).getD [])
  search := ids.resolveAll ((t.searchChange.bind side).getD [])

/-- The statements for the indexes of a table that stays. -/
def alterIndexes (t : Table) (ids : ColumnIds) (table : QualifiedName) : List Command :=
  let old := t.comparedIndexes ids table.name Change.old
  let new := t.comparedIndexes ids table.name Change.new
  (old.minus new).drops table ++ (new.minus old).creations table

/-- The statements for the indexes of a table that is created anew. -/
def replaceIndexes (t : Table) (ids : ColumnIds) (old new : QualifiedName) : List Command :=
  (t.indexesAt ids old.name Change.old).drops old
    ++ (t.indexesAt ids new.name Change.new).creations new

end Table

end AlterScript
