/-
  Columns by their ids.
-/
import AlterScript.Change
import AlterScript.Field.Basic

namespace AlterScript

/-- Names of columns with their ids; of an id that stands twice the first counts. -/
abbrev ColumnIds := List (String × Option String)

namespace ColumnIds

def ofFields (fs : List (String × Field)) : ColumnIds := fs.map fun f => (f.1, f.2.guid)

/-- The name of the first column with an id. -/
def find? (ids : ColumnIds) (id : String) : Option String :=
  (List.find? (fun e => e.2 == some id) ids).map Prod.fst

/-- The column that a reference means: the one with its id, or else the one it names. -/
def resolve (ids : ColumnIds) (k : KeyReference) : Option String :=
  k.id.bind ids.find? <|> k.name

/-- The columns that references mean. -/
def resolveAll (ids : ColumnIds) (ks : List KeyReference) : List String := ks.filterMap ids.resolve

/-- The clustering columns that references mean. -/
def resolveClustering (ids : ColumnIds) (ks : List KeyReference) : List ClusteringColumn :=
  ks.filterMap fun k => (ids.resolve k).map fun name => ⟨name, k.sortOrder⟩

end ColumnIds

end AlterScript
