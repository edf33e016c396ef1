/-
  Reading field definitions from JSON.

  A field, its items, its set of fields and its comparison are records of one another, and each may
  be written as an object or as an array. So every value is read in one pass in all four roles, from
  the inside out, and a record takes of its attributes the role it needs.
-/
import AlterScript.Field.Basic
import AlterScript.Json.Record

namespace AlterScript

namespace Field

/-- A JSON value in each of the roles it may have in a field definition. -/
structure Roles where
  json : Json
  field : Option Field := none
  items : Option (OneOrMany Field) := none
  properties : Option (FieldSet Field) := none
  comparison : Option (FieldComparison Field) := none

namespace Roles

/-- An attribute in a given role; it may be missing or null. -/
def nested {α : Type} (role : Roles → Option α) : Option Roles → Option (Option α)
  | none => some none
  | some r => if r.json.isNull then some none else (role r).map some

end Roles

/-- The attributes of a field, in the order in which an array holds them. -/
def attributes : List String :=
  ["name", "code", "GUID", "type", "mode", "childType", "$ref", "items", "properties", "keySubtype",
    "subtype", "frozen", "primaryKey", "compositePartitionKey", "compositeClusteringKey", "compMod"]

/-- The attributes of a comparison of fields. -/
def comparisonAttributes : List String := ["oldField", "newField", "created", "deleted"]

/-- A field from its attributes. -/
def ofAttributes (es : Entries Roles) : Option Field :=
  let at? (key : String) : Option Json := (es.find? key).map Roles.json
  (Roles.nested Roles.items (es.find? "items")).bind fun items =>
  (Roles.nested Roles.properties (es.find? "properties")).bind fun properties =>
  (Roles.nested Roles.comparison (es.find? "compMod")).map fun comparison =>
    { name := Json.label? (at? "name")
      code := Json.label? (at? "code")
      guid := Json.label? (at? "GUID")
      typeName := Json.label? (at? "type")
      mode := Json.label? (at? "mode")
      childType := Json.label? (at? "childType")
      reference := Json.label? (at? "$ref")
      items := items
      properties := properties
      keySubtype := Json.label? (at? "keySubtype")
      subtype := Json.label? (at? "subtype")
      frozen := Json.isSet (at? "frozen")
      primaryKey := Json.isSet (at? "primaryKey")
      partitionKey := Json.isSet (at? "compositePartitionKey")
      clusteringKey := Json.isSet (at? "compositeClusteringKey")
      comparison := comparison }

/-- A comparison of fields from its attributes. -/
def comparisonOfAttributes (es : Entries Roles) : Option (FieldComparison Field) :=
  (Roles.nested Roles.field (es.find? "oldField")).bind fun old =>
  (Roles.nested Roles.field (es.find? "newField")).map fun new =>
    { old := old
      new := new
      created := Json.isSet ((es.find? "created").map Roles.json)
      deleted := Json.isSet ((es.find? "deleted").map Roles.json) }

/-- A named field. -/
def named? (e : String × Roles) : Option (String × Field) := e.2.field.map fun f => (e.1, f)

/-- The roles of an object. -/
def rolesOfObject (j : Json) (es : Entries Roles) : Roles :=
  let field := ofAttributes es
  { json := j
    field := field
    items := field.map .one
    properties := (es.mapM named?).map .named
    comparison := comparisonOfAttributes es }

/-- The roles of an array: as items it is a list of fields, or else one field. -/
def rolesOfArray (j : Json) (rs : List Roles) : Roles :=
  let fields := rs.mapM Roles.field
  let field := if rs.length ≤ attributes.length then ofAttributes (attributes.zip rs) else none
  { json := j
    field := field
    items := fields.map .many <|> field.map .one
    properties := fields.map .listed
    comparison :=
      if rs.length ≤ comparisonAttributes.length then
        comparisonOfAttributes (comparisonAttributes.zip rs)
      else none }

mutual

/-- A value in all its roles. -/
def roles : Json → Roles
  | .obj es => rolesOfObject (.obj es) (entryRoles es)
  | .arr js => rolesOfArray (.arr js) (itemRoles js)
  | .null => { json := .null }
  | .bool b => { json := .bool b }
  | .num n => { json := .num n }
  | .str s => { json := .str s }

def entryRoles : List (String × Json) → Entries Roles
  | [] => []
  | (k, j) :: r => (k, roles j) :: entryRoles r

def itemRoles : List Json → List Roles
  | [] => []
  | j :: r => roles j :: itemRoles r

end

/-- The field definition that a value holds. -/
def ofJson? (j : Json) : Option Field := (roles j).field

end Field

namespace FieldSet

/-- The set of fields that a value holds. -/
def ofJson? (j : Json) : Option (FieldSet Field) := (Field.roles j).properties

end FieldSet

end AlterScript
