/-
  User-defined types in a change tree.
-/
import AlterScript.Change
import AlterScript.Field.Reader

namespace AlterScript

/-- What a comparison says about a user-defined type. -/
structure UserTypeComparison where
  keyspace : Option String := none
  name : Option (Change String) := none
  code : Option (Change String) := none

/-- A user-defined type as a modeling tool describes it. -/
structure UserType where
  code : Option String := none
  name : Option String := none
  guid : Option String := none
  keyspace : Option String := none
  properties : Option (FieldSet Field) := none
  comparison : Option UserTypeComparison := none

namespace UserTypeComparison

def attributes : List String := ["keyspaceName", "name", "code"]

def ofJson? (j : Json) : Option UserTypeComparison := do
  let es ← Json.record? attributes j
  let name ← Json.textChange? (es.find? "name")
  let code ← Json.textChange? (es.find? "code")
  return { keyspace := Json.label? (es.find? "keyspaceName"), name, code }

end UserTypeComparison

namespace UserType

def attributes : List String := ["code", "name", "GUID", "keyspaceName", "properties", "compMod"]

/-- A user-defined type node. -/
def ofJson? (j : Json) : Option UserType := do
  let es ← Json.record? attributes j
  let properties ← Json.optional FieldSet.ofJson? (es.find? "properties")
  let comparison ← Json.optional UserTypeComparison.ofJson? (es.find? "compMod")
  return {
    code := Json.label? (es.find? "code")
    name := Json.label? (es.find? "name")
    guid := Json.label? (es.find? "GUID")
    keyspace := Json.label? (es.find? "keyspaceName")
    properties := properties
    comparison := comparison }

/-- The fields under pairwise distinct names. -/
def fields (t : UserType) : Entries Field := (t.properties.map FieldSet.toEntries).getD []

end UserType

end AlterScript
