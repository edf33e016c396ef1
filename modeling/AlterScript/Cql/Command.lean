/-
  CQL statements as data.

  `Command.text` is what is written, `Command.level` and `Command.action` say what a statement does
  to what kind of object; they are read off the command and not off its text.
-/
import AlterScript.Cql.Definition

namespace AlterScript

/-- What a statement does. -/
inductive Action
  | add
  | modify
  | drop
deriving DecidableEq, Repr

/-- The kind of object that a statement is about. -/
inductive Level
  | keyspace
  | table
  | field
  | index
  | userType
  | view
  | function
  | renewal
deriving DecidableEq, Repr

/-- A statement of a migration. -/
inductive Command
  | createKeyspace (definition : KeyspaceDefinition)
  | alterKeyspace (definition : KeyspaceDefinition)
  | dropKeyspace (name : String)
  | createTable (definition : TableDefinition)
  | alterTableOptions (table : QualifiedName) (clauses : List String)
  | dropTable (table : QualifiedName)
  | addColumn (table : QualifiedName) (column : Column)
  | dropColumn (table : QualifiedName) (column : String)
  | renameColumn (table : QualifiedName) (old new : String)
  | alterColumnType (table : QualifiedName) (column : Column)
  | createIndex (table : QualifiedName) (index : Index)
  | dropIndex (keyspace : Option String) (name : String)
  | createSearchIndex (table : QualifiedName) (columns : List String)
  | dropSearchIndex (table : QualifiedName)
  | createView (definition : ViewDefinition)
  | alterViewOptions (view : QualifiedName) (clauses : List String)
  | dropView (view : QualifiedName)
  | createType (definition : TypeDefinition)
  | addTypeField (type : QualifiedName) (field : Column)
  | renameTypeField (type : QualifiedName) (old new : String)
  | alterTypeField (type : QualifiedName) (field : Column)
  | dropType (type : QualifiedName)
deriving DecidableEq, Repr

namespace Command

def level : Command → Level
  | createKeyspace _ | alterKeyspace _ | dropKeyspace _ => .keyspace
  | createTable _ | alterTableOptions _ _ | dropTable _ => .table
  | addColumn _ _ | dropColumn _ _ | renameColumn _ _ _ | alterColumnType _ _ => .field
  | createIndex _ _ | dropIndex _ _ | createSearchIndex _ _ | dropSearchIndex _ => .index
  | createView _ | alterViewOptions _ _ | dropView _ => .view
  | createType _ | addTypeField _ _ | renameTypeField _ _ _ | alterTypeField _ _ | dropType _ =>
    .userType

/-- A field that a type gains modifies the type; a column that a table gains is an addition. -/
def action : Command → Action
  | createKeyspace _ | createTable _ | addColumn _ _ | createIndex _ _ | createSearchIndex _ _
  | createView _ | createType _ => .add
  | alterKeyspace _ | alterTableOptions _ _ | renameColumn _ _ _ | alterColumnType _ _
  | alterViewOptions _ _ | addTypeField _ _ | renameTypeField _ _ _ | alterTypeField _ _ => .modify
  | dropKeyspace _ | dropTable _ | dropColumn _ _ | dropIndex _ _ | dropSearchIndex _ | dropView _
  | dropType _ => .drop

/-- A statement that sets options; none are set by no statement. -/
def settingText (object : String) (clauses : List String) : String :=
  if clauses.isEmpty then "" else object ++ "\n\tWITH " ++ withClauses clauses ++ ";"

/-- The text of a statement. -/
def text : Command → String
  | createKeyspace k => "CREATE KEYSPACE IF NOT EXISTS " ++ k.body
  | alterKeyspace k => "ALTER KEYSPACE " ++ k.body
  | dropKeyspace name => "DROP KEYSPACE IF EXISTS " ++ Text.quotedName name ++ ";"
  | createTable t => t.creation
  | alterTableOptions t clauses => settingText ("ALTER TABLE " ++ t.text) clauses
  | dropTable t => "DROP TABLE IF EXISTS " ++ t.text ++ ";"
  | addColumn t c => "ALTER TABLE " ++ t.text ++ " ADD " ++ c.text ++ ";"
  | dropColumn t c => "ALTER TABLE " ++ t.text ++ " DROP " ++ Text.quotedName c ++ ";"
  | renameColumn t old new =>
    "ALTER TABLE " ++ t.text ++ " RENAME " ++ Text.quotedName old ++ " TO " ++ Text.quotedName new
      ++ ";"
  | alterColumnType t c =>
    "ALTER TABLE " ++ t.text ++ " ALTER " ++ Text.quotedName c.name ++ " TYPE " ++ c.type ++ ";"
  | createIndex t i =>
    "CREATE INDEX IF NOT EXISTS " ++ Text.quotedName i.name ++ " ON " ++ t.text ++ " ("
      ++ i.subject ++ ");"
  | dropIndex keyspace name =>
    "DROP INDEX IF EXISTS " ++ (QualifiedName.of keyspace name).text ++ ";"
  | createSearchIndex t columns =>
    let selection := if columns.isEmpty then "" else " WITH COLUMNS " ++ Text.join ", " columns
    "CREATE SEARCH INDEX IF NOT EXISTS ON " ++ t.text ++ selection ++ ";"
  | dropSearchIndex t => "DROP SEARCH INDEX ON " ++ t.text ++ ";"
  | createView v => v.creation
  | alterViewOptions v clauses => settingText ("ALTER MATERIALIZED VIEW " ++ v.text) clauses
  | dropView v => "DROP MATERIALIZED VIEW IF EXISTS " ++ v.text ++ ";"
  | createType t => t.creation
  | addTypeField t f => "ALTER TYPE " ++ t.text ++ " ADD " ++ f.text ++ ";"
  | renameTypeField t old new =>
    "ALTER TYPE " ++ t.text ++ " RENAME " ++ Text.quotedName old ++ " TO " ++ Text.quotedName new
      ++ ";"
  | alterTypeField t f =>
    "ALTER TYPE " ++ t.text ++ " ALTER " ++ Text.quotedName f.name ++ " TYPE " ++ f.type ++ ";"
  | dropType t => "DROP TYPE IF EXISTS " ++ t.text ++ ";"

end Command

end AlterScript
