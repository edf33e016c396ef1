/-
  What becomes of the columns of a table that stays.

  A column that changes its name or its type is dropped and added anew. A key column can only be
  renamed; a type that can be converted is converted, if the database can do that.
-/
import AlterScript.Cql.Command
import AlterScript.CqlType.Conversion
import AlterScript.Field.Overlay
import AlterScript.Script.Scope

namespace AlterScript

/-- What becomes of a column. -/
inductive ColumnChange
  /-- Nothing about it changes. -/
  | kept
  /-- It cannot be changed. -/
  | skipped
  | renamed (old new : String)
  | converted (column : Column)
  /-- Dropped and added anew. -/
  | replaced (old : String) (new : Column)
deriving DecidableEq, Repr

/-- A changed column: the name and type under which it is kept, and those before and after. -/
structure ChangedColumn where
  column : Column
  primaryKey : Bool
  oldName : Option String
  newName : Option String
  oldType : Option String
  newType : Option String
deriving DecidableEq, Repr

namespace ChangedColumn

/-- A column with its old and new version. -/
def ofField (s : Scope) (column : Column) (f : Field) : Except ResolveError ChangedColumn := do
  let old := f.oldVersion
  let new := f.newVersion
  let oldType ← s.typeOf old (old.label.getD column.name)
  let newType ← s.typeOf new (new.label.getD column.name)
  return ⟨column, f.primaryKey, old.label, new.label, oldType, newType⟩

/-- The column dropped and added anew. -/
def replacement (c : ChangedColumn) (old new : String) : ColumnChange :=
  .replaced old ⟨new, c.newType.getD c.column.type⟩

/-- What becomes of a column that is renamed. -/
def afterRename (c : ChangedColumn) (old new : String) : ColumnChange :=
  if !c.primaryKey then c.replacement old new
  else if c.oldType = c.newType then .renamed old new
  else .skipped

/-- What becomes of a column of which only the type changes. -/
def afterRetype (legacy : Bool) (c : ChangedColumn) (old new : String) : ColumnChange :=
  match c.oldType, c.newType with
  | some oldType, some newType =>
    if c.primaryKey then .skipped
    else if legacy && CqlType.isConvertible oldType newType then
      .converted ⟨c.column.name, newType⟩
    else c.replacement old new
  | _, _ => .skipped

/-- What becomes of a changed column. -/
def change (legacy : Bool) (c : ChangedColumn) : ColumnChange :=
  match c.oldName, c.newName with
  | some old, some new =>
    if old ≠ new then c.afterRename old new
    else if c.oldType ≠ c.newType then c.afterRetype legacy old new
    else .kept
  | _, _ => .skipped

end ChangedColumn

namespace ColumnChange

/-- The statements that change a column of a table. -/
def commands (table : QualifiedName) : ColumnChange → List Command
  | kept => []
  | skipped => []
  | renamed old new => [.renameColumn table old new]
  | converted c => [.alterColumnType table c]
  | replaced old new => [.dropColumn table old, .addColumn table new]

end ColumnChange

end AlterScript
