/-
  Tables in a change tree.
-/
import AlterScript.Change
import AlterScript.Field.Reader

namespace AlterScript

/-- A secondary index as a modeling tool describes it. -/
structure IndexDescription where
  name : Option String := none
  keys : List KeyReference := []
  part : Option String := none
deriving DecidableEq, Repr

/-- What a comparison says about a table. -/
structure TableComparison where
  created : Bool := false
  deleted : Bool := false
  modified : Bool := false
  keyspace : Option String := none
  options : Option (Change Options) := none
  comment : Option (Change String) := none
  newProperties : Option (FieldSet Field) := none
  oldProperties : Option (FieldSet Field) := none
  name : Option (Change String) := none
  code : Option (Change String) := none
  collectionName : Option (Change String) := none
  partitionKey : Option (Change Json) := none
  clusteringKey : Option (Change Json) := none
  indexes : Option (Change (List IndexDescription)) := none
  searchColumns : Option (Change (List KeyReference)) := none

/-- The description of a whole table. -/
structure TableRole where
  code : Option String := none
  name : Option String := none
  comparison : Option TableComparison := none
  properties : Option (FieldSet Field) := none
  partitionKey : List KeyReference := []
  clusteringKey : List KeyReference := []
  indexes : List IndexDescription := []
  searchColumns : List KeyReference := []
  options : Options := .empty
  comment : Option String := none

/-- A table: its description, and the columns that the change is about. -/
structure Table where
  role : TableRole := {}
  properties : Option (FieldSet Field) := none

/-! ## Reading -/

namespace IndexDescription

def ofJson? (j : Json) : Option IndexDescription := do
  let es ← Json.record? ["name", "SecIndxKey", "indexType"] j
  let keys ← Json.listOf KeyReference.ofJson? (es.find? "SecIndxKey")
  return {
    name := Json.label? (es.find? "name")
    keys := keys
    part := Json.label? (es.find? "indexType") }

end IndexDescription

namespace TableComparison

def attributes : List String :=
  ["created", "deleted", "modified", "keyspaceName", "tableOptions", "comments", "newProperties",
    "oldProperties", "name", "code", "collectionName", "compositePartitionKey",
    "compositeClusteringKey", "SecIndxs", "searchIndexColumns"]

def ofJson? (j : Json) : Option TableComparison := do
  let es ← Json.record? attributes j
  let options ← Json.optionsChange? (es.find? "tableOptions")
  let comment ← Json.textChange? (es.find? "comments")
  let newProperties ← Json.optional FieldSet.ofJson? (es.find? "newProperties")
  let oldProperties ← Json.optional FieldSet.ofJson? (es.find? "oldProperties")
  let name ← Json.textChange? (es.find? "name")
  let code ← Json.textChange? (es.find? "code")
  let collectionName ← Json.textChange? (es.find? "collectionName")
  let partitionKey ← Json.valueChange? (es.find? "compositePartitionKey")
  let clusteringKey ← Json.valueChange? (es.find? "compositeClusteringKey")
  let indexes ← Json.change? (Json.arrayOf IndexDescription.ofJson?) (es.find? "SecIndxs")
  let searchColumns ←
    Json.change? (Json.arrayOf KeyReference.ofJson?) (es.find? "searchIndexColumns")
  return {
    created := Json.isSet (es.find? "created")
    deleted := Json.isSet (es.find? "deleted")
    modified := Json.isSet (es.find? "modified")
    keyspace := Json.label? (es.find? "keyspaceName")
    options, comment, newProperties, oldProperties, name, code, collectionName, partitionKey,
    clusteringKey, indexes, searchColumns }

end TableComparison

namespace TableRole

def attributes : List String :=
  ["code", "name", "compMod", "properties", "compositePartitionKey", "compositeClusteringKey",
    "SecIndxs", "searchIndexColumns", "tableOptions", "comments"]

def ofJson? (j : Json) : Option TableRole := do
  let es ← Json.record? attributes j
  let comparison ← Json.optional TableComparison.ofJson? (es.find? "compMod")
  let properties ← Json.optional FieldSet.ofJson? (es.find? "properties")
  let partitionKey ← Json.listOf KeyReference.ofJson? (es.find? "compositePartitionKey")
  let clusteringKey ← Json.listOf KeyReference.ofJson? (es.find? "compositeClusteringKey")
  let indexes ← Json.listOf IndexDescription.ofJson? (es.find? "SecIndxs")
  let searchColumns ← Json.listOf KeyReference.ofJson? (es.find? "searchIndexColumns")
  return {
    code := Json.label? (es.find? "code")
    name := Json.label? (es.find? "name")
    options := ⟨Json.entriesOrNone (es.find? "tableOptions")⟩
    comment := Json.label? (es.find? "comments")
    comparison, properties, partitionKey, clusteringKey, indexes, searchColumns }

end TableRole

namespace Table

/-- A table node. -/
def ofJson? (j : Json) : Option Table := do
  let es ← Json.record? ["role", "properties"] j
  let role ← Json.orDefault {} TableRole.ofJson? (es.find? "role")
  let properties ← Json.optional FieldSet.ofJson? (es.find? "properties")
  return { role, properties }

/-! ## Columns -/

/-- The columns that the change is about. -/
def columns (t : Table) : Entries Field := (t.properties.map FieldSet.toEntries).getD []

/-- All columns: those of the description if it has any, else those of the change. -/
def allColumns (t : Table) : Entries Field :=
  match t.role.properties with
  | some set => if set.isEmpty then t.columns else set.toEntries
  | none => t.columns

/-- Every set of fields in which a referenced column may stand. -/
def columnSources (t : Table) : List (FieldSet Field) :=
  let comparison := t.role.comparison
  [t.properties, t.role.properties, comparison.bind (·.newProperties),
    comparison.bind (·.oldProperties)].filterMap id

end Table

end AlterScript
