/-
  Statements for tables.

  A table with a new name or another key, or with a change to an indexed column, is dropped and
  created anew. Any other is altered: its options, its indexes and its columns one by one.
-/
import AlterScript.Table.Column
import AlterScript.Table.Index

namespace AlterScript

namespace Table

/-! ## Creating -/

/-- The statement that creates a table with given columns. -/
def create (s : Scope) (t : Table) (target : QualifiedName) (columns : Entries Field)
    (options : Options) (comment : Option String) : Except ResolveError (List Command) := do
  let typed ← s.columns columns
  let ids := ColumnIds.ofFields columns ++ t.columnIds s.definitions
  return [.createTable
    { target := target
      columns := typed
      partitionKey := t.partitionKey columns ids
      clusteringKey := t.clusteringKey columns ids
      clauses := options.clauses comment }]

/-- The columns after the change. -/
def mergedColumns (t : Table) : Entries Field :=
  Entries.ofList (t.allColumns.map fun c => c.2.merged c.1)

/-! ## Changing -/

/-- The old and the new name of a table. -/
def names (c : TableComparison) : Option String × Option String :=
  Change.renamed c.code c.collectionName

/-- Whether both names are known and differ. -/
def isRenamed : Option String × Option String → Bool
  | (some old, some new) => old != new
  | _ => false

/-- Whether some changed column is under an index. -/
def changesIndexed (t : Table) (ids : ColumnIds) : Bool :=
  t.columns.any fun c => c.2.comparison.isSome && (t.indexedColumns ids).contains c.1

/-- Whether the table has to be created anew. -/
def isReplaced (t : Table) (c : TableComparison) (ids : ColumnIds) : Bool :=
  isRenamed (names c) || Change.differs? c.partitionKey || Change.differs? c.clusteringKey
    || t.changesIndexed ids

/-- The statements that drop a table and create it anew with its indexes. -/
def replace (s : Scope) (t : Table) (c : TableComparison) (ids : ColumnIds)
    (old new : QualifiedName) : Except ResolveError (List Command) := do
  let options := (c.options.bind Change.new).getD t.role.options
  let comment := c.comment.bind Change.new <|> t.role.comment
  let created ← t.create s new t.mergedColumns options comment
  return .dropTable old :: created ++ t.replaceIndexes ids old new

/-- The statements that change a table: its options if asked for, its indexes, and its columns as
    given. A table that has to be created anew needs an old and a new name. -/
def update (s : Scope) (t : Table) (c : TableComparison) (target : QualifiedName)
    (withOptions : Bool) (columns : List Command) : Except ResolveError (List Command) :=
  let ids := t.columnIds s.definitions
  if t.isReplaced c ids then
    match names c with
    | (some old, some new) =>
      t.replace s c ids (QualifiedName.of target.keyspace old)
        (QualifiedName.of target.keyspace new)
    | _ => .ok []
  else
    let clauses := if withOptions then Options.changedClauses c.options c.comment else []
    .ok (.alterTableOptions target clauses :: t.alterIndexes ids target ++ columns)

/-! ## Columns -/

/-- The statements for one column, of which the type is known. -/
def columnCommands (s : Scope) (d : Direction) (target : QualifiedName) (column : Column)
    (f : Field) : Except ResolveError (List Command) :=
  match d with
  | .create => .ok [.addColumn target column]
  | .delete => .ok [.dropColumn target column.name]
  | .update => do
    let c ← ChangedColumn.ofField s column f
    return (c.change s.legacy).commands target

/-- Whether a column is left alone: one of a composite key unless the table changes, and a compared
    one when the table is new. -/
def isPassedOver (d : Direction) (f : Field) : Bool :=
  match d with
  | .create => f.inCompositeKey || f.comparison.isSome
  | .delete => f.inCompositeKey
  | .update => false

/-- Whether a column of a changed table stays as it is: one without a comparison, and one under an
    index. -/
def isUntouched (indexed : List String) (d : Direction) (name : String) (f : Field) : Bool :=
  d == .update && (f.comparison.isNone || indexed.contains name)

/-- The statements for the columns, one after the other. -/
def updateColumns (s : Scope) (d : Direction) (target : QualifiedName) (indexed : List String) :
    List (String × Field) → Except ResolveError (List Command)
  | [] => .ok []
  | (name, f) :: r =>
    if isPassedOver d f then updateColumns s d target indexed r
    else do
      let first ← match ← s.typeOf f name with
        | none => pure []
        | some type =>
          if isUntouched indexed d name f then pure []
          else columnCommands s d target ⟨name, type⟩ f
      let rest ← updateColumns s d target indexed r
      return first ++ rest

/-! ## Nodes -/

/-- The name in the database: the code, if there is one, or the key of the node. -/
def label (key : String) (t : Table) : String := (t.role.code.filter (· ≠ "")).getD key

/-- The statements of a table node; none without a comparison. -/
def commands (s : Scope) (d : Direction) (key : String) (t : Table) :
    Except ResolveError (List Command) :=
  match t.role.comparison with
  | none => .ok []
  | some c =>
    let target := QualifiedName.of c.keyspace (t.label key)
    let ids := t.columnIds s.definitions
    if c.deleted then
      .ok (.dropTable target :: (t.currentIndexes ids target.name).drops target)
    else if c.created then do
      let created ← t.create s target t.allColumns t.role.options t.role.comment
      return created ++ (t.currentIndexes ids target.name).creations target
    else if c.modified then t.update s c target true []
    else do
      let columns ← updateColumns s d target (t.indexedColumns ids) t.columns
      t.update s c target (d == .update) columns

end Table

end AlterScript
