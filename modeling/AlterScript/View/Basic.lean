/-
  Materialized views in a change tree.
-/
import AlterScript.Change
import AlterScript.Field.Reader

namespace AlterScript

/-- What a comparison says about a view. -/
structure ViewComparison where
  keyspace : Option String := none
  name : Option (Change String) := none
  code : Option (Change String) := none
  base : Option (Change String) := none
  condition : Option (Change String) := none
  partitionKey : Option (Change Json) := none
  clusteringKey : Option (Change Json) := none
  options : Option (Change Options) := none
  comment : Option (Change String) := none

/-- A view as a modeling tool describes it. -/
structure View where
  code : Option String := none
  name : Option String := none
  keyspace : Option String := none
  base : Option String := none
  properties : Option (FieldSet Field) := none
  partitionKey : List KeyReference := []
  clusteringKey : List KeyReference := []
  condition : Option String := none
  options : Options := .empty
  comment : Option String := none
  comparison : Option ViewComparison := none

namespace ViewComparison

def attributes : List String :=
  ["keyspaceName", "name", "code", "viewOn", "whereClause", "compositePartitionKey",
    "compositeClusteringKey", "tableOptions", "comments"]

def ofJson? (j : Json) : Option ViewComparison := do
  let es ← Json.record? attributes j
  let name ← Json.textChange? (es.find? "name")
  let code ← Json.textChange? (es.find? "code")
  let base ← Json.textChange? (es.find? "viewOn")
  let condition ← Json.textChange? (es.find? "whereClause")
  let partitionKey ← Json.valueChange? (es.find? "compositePartitionKey")
  let clusteringKey ← Json.valueChange? (es.find? "compositeClusteringKey")
  let options ← Json.optionsChange? (es.find? "tableOptions")
  let comment ← Json.textChange? (es.find? "comments")
  return {
    keyspace := Json.label? (es.find? "keyspaceName")
    name, code, base, condition, partitionKey, clusteringKey, options, comment }

end ViewComparison

namespace View

def attributes : List String :=
  ["code", "name", "keyspaceName", "viewOn", "properties", "compositePartitionKey",
    "compositeClusteringKey", "whereClause", "tableOptions", "comments", "compMod"]

/-- The description of a view. -/
def ofRole? (j : Json) : Option View := do
  let es ← Json.record? attributes j
  let properties ← Json.optional FieldSet.ofJson? (es.find? "properties")
  let partitionKey ← Json.listOf KeyReference.ofJson? (es.find? "compositePartitionKey")
  let clusteringKey ← Json.listOf KeyReference.ofJson? (es.find? "compositeClusteringKey")
  let comparison ← Json.optional ViewComparison.ofJson? (es.find? "compMod")
  return {
    code := Json.label? (es.find? "code")
    name := Json.label? (es.find? "name")
    keyspace := Json.label? (es.find? "keyspaceName")
    base := Json.label? (es.find? "viewOn")
    properties := properties
    partitionKey := partitionKey
    clusteringKey := clusteringKey
    condition := Json.label? (es.find? "whereClause")
    options := ⟨Json.entriesOrNone (es.find? "tableOptions")⟩
    comment := Json.label? (es.find? "comments")
    comparison := comparison }

/-- A view node: its role describes it. -/
def ofJson? (j : Json) : Option View :=
  (Json.record? ["role"] j).bind fun es => Json.orDefault {} ofRole? (es.find? "role")

end View

end AlterScript
