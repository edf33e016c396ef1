/-
  What CQL statements define: tables, indexes, keyspaces, views and user-defined types.
-/
import AlterScript.Cql.Name

namespace AlterScript

/-! ## Keys and options -/

/-- The primary key; there is none without a partition key. -/
def primaryKeyClause (partitionKey : List String) (clusteringKey : List ClusteringColumn) :
    Option String :=
  if partitionKey.isEmpty then none
  else
    let parts := ("(" ++ quotedNames partitionKey ++ ")")
      :: clusteringKey.map fun c => Text.quotedName c.name
    some ("PRIMARY KEY (" ++ Text.join ", " parts ++ ")")

/-- The clustering order, of the columns for which one is given. -/
def clusteringOrderClause (clusteringKey : List ClusteringColumn) : Option String :=
  match clusteringKey.filterMap fun c =>
      c.order.map fun o => Text.quotedName c.name ++ " " ++ o.keyword with
  | [] => none
  | ordered => some ("CLUSTERING ORDER BY (" ++ Text.join ", " ordered ++ ")")

/-- Clauses behind each other in one `WITH`. -/
def withClauses (clauses : List String) : String := Text.join "\n\tAND " clauses

/-! ## Tables and indexes -/

/-- A table with its columns, its key and the clauses that set its options. -/
structure TableDefinition where
  target : QualifiedName
  columns : List Column
  partitionKey : List String
  clusteringKey : List ClusteringColumn
  clauses : List String
deriving DecidableEq, Repr

namespace TableDefinition

/-- The statement that creates the table. -/
def creation (t : TableDefinition) : String :=
  let lines := (t.columns.map Column.text
    ++ (primaryKeyClause t.partitionKey t.clusteringKey).toList).map ("\t" ++ ·)
  let clauses := (clusteringOrderClause t.clusteringKey).toList ++ t.clauses
  let options := if clauses.isEmpty then "" else "\nWITH " ++ withClauses clauses
  "CREATE TABLE IF NOT EXISTS " ++ t.target.text ++ " (\n" ++ Text.join ",\n" lines ++ "\n)"
    ++ options ++ ";"

end TableDefinition

/-- The part of a collection that an index covers. -/
inductive CollectionPart
  | keys
  | values
  | entries
  | full
deriving DecidableEq, Repr

namespace CollectionPart

def parse? (s : String) : Option CollectionPart :=
  match Text.keyword s with
  | "keys" => some keys
  | "values" => some values
  | "entries" => some entries
  | "full" => some full
  | _ => none

def keyword : CollectionPart → String
  | keys => "KEYS"
  | values => "VALUES"
  | entries => "ENTRIES"
  | full => "FULL"

end CollectionPart

/-- A secondary index on a column, or on a part of a collection. -/
structure Index where
  name : String
  column : String
  part : Option CollectionPart
deriving DecidableEq, Repr

namespace Index

/-- What the index is on. -/
def subject (i : Index) : String :=
  match i.part with
  | some part => part.keyword ++ "(" ++ Text.quotedName i.column ++ ")"
  | none => Text.quotedName i.column

end Index

/-! ## Keyspaces -/

/-- How a keyspace is replicated: everywhere alike, or by data center. -/
inductive Replication
  | simple (factor : Nat)
  | network (dataCenters : List (String × Nat))
deriving DecidableEq, Repr

namespace Replication

def text : Replication → String
  | simple factor =>
    "\x7b'class': 'SimpleStrategy', 'replication_factor': " ++ toString factor ++ "\x7d"
  | network dataCenters =>
    let entries := "'class': 'NetworkTopologyStrategy'" :: dataCenters.map fun dc =>
      Text.quotedLiteral dc.1 ++ ": " ++ toString dc.2
    "\x7b" ++ Text.join ", " entries ++ "\x7d"

end Replication

structure KeyspaceDefinition where
  name : String
  replication : Replication
  durableWrites : Bool
deriving DecidableEq, Repr

namespace KeyspaceDefinition

/-- The name and the options of the keyspace. -/
def body (k : KeyspaceDefinition) : String :=
  Text.quotedName k.name ++ "\n\tWITH REPLICATION = " ++ k.replication.text
    ++ "\n\tAND DURABLE_WRITES = " ++ (if k.durableWrites then "true" else "false") ++ ";"

end KeyspaceDefinition

/-! ## Views -/

/-- A materialized view of a table; without columns it selects all. -/
structure ViewDefinition where
  target : QualifiedName
  base : QualifiedName
  columns : List String
  partitionKey : List String
  clusteringKey : List ClusteringColumn
  condition : Option String
  clauses : List String
deriving DecidableEq, Repr

namespace ViewDefinition

/-- What stands behind the word `where`, if the text starts with it. -/
def withoutWhere (cs : List Char) : List Char :=
  if "WHERE ".toList.isPrefixOf cs || "where ".toList.isPrefixOf cs then cs.drop 6 else cs

/-- A condition without blanks around it and without the word `where` before it. -/
def bareCondition (s : String) : String :=
  String.ofList (withoutWhere (Text.trimChars s.toList))

/-- Every key column has to be present, and the condition of the view holds. -/
def conditions (v : ViewDefinition) : List String :=
  (v.partitionKey ++ v.clusteringKey.map ClusteringColumn.name).map
      (fun c => Text.quotedName c ++ " IS NOT NULL")
    ++ ((v.condition.map bareCondition).filter (· ≠ "")).toList

/-- The statement that creates the view. -/
def creation (v : ViewDefinition) : String :=
  let selected := if v.columns.isEmpty then "*" else quotedNames v.columns
  let clauses := (clusteringOrderClause v.clusteringKey).toList ++ v.clauses
  let condition :=
    if v.conditions.isEmpty then "" else "\n\tWHERE " ++ Text.join " AND " v.conditions
  let key := match primaryKeyClause v.partitionKey v.clusteringKey with
    | some clause => "\n\t" ++ clause
    | none => ""
  let options := if clauses.isEmpty then "" else "\n\tWITH " ++ withClauses clauses
  "CREATE MATERIALIZED VIEW IF NOT EXISTS " ++ v.target.text ++ " AS\n\tSELECT " ++ selected
    ++ "\n\tFROM " ++ v.base.text ++ condition ++ key ++ options ++ ";"

end ViewDefinition

/-! ## User-defined types -/

/-- A user-defined type with its fields. -/
structure TypeDefinition where
  target : QualifiedName
  fields : List Column
deriving DecidableEq, Repr

namespace TypeDefinition

/-- The statement that creates the type. -/
def creation (t : TypeDefinition) : String :=
  "CREATE TYPE IF NOT EXISTS " ++ t.target.text ++ " (\n"
    ++ Text.join ",\n" (t.fields.map fun f => "\t" ++ f.text) ++ "\n);"

end TypeDefinition

end AlterScript
