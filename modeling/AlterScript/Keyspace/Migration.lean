/-
  Statements for keyspaces.

  A keyspace with a new name is dropped and created anew; with another replication it is altered.
-/
import AlterScript.Keyspace.Basic
import AlterScript.Cql.Command
import AlterScript.Script.Scope

namespace AlterScript

namespace Keyspace

/-- The name in the database. -/
def label (k : Keyspace) : Option String := (k.code <|> k.name).bind Text.nonBlank

/-- Named data centers with their factors. -/
def replicas (k : Keyspace) : List (String × Nat) :=
  k.dataCenters.filterMap fun dc => dc.name.map fun n => (n, dc.factor.getD 1)

/-- How the keyspace is replicated. -/
def replication (k : Keyspace) : Replication :=
  if (k.strategy.map (Text.sameFold · "NetworkTopologyStrategy")).getD false then
    .network k.replicas
  else .simple (k.factor.getD 1)

/-- The keyspace under a given name. -/
def definition (k : Keyspace) (name : String) : KeyspaceDefinition :=
  ⟨name, k.replication, k.durableWrites.getD true⟩

/-- Whether the comparison shows another replication. -/
def isAltered (c : KeyspaceComparison) : Bool :=
  Change.differs? c.strategy || Change.differs? c.factor || Change.differs? c.dataCenters
    || Change.differs? c.durableWrites

/-- The statements that change a keyspace. -/
def update (k : Keyspace) : List Command :=
  match k.comparison with
  | none => []
  | some c =>
    let names := Change.renamed c.code c.name
    let altered : List Command :=
      if isAltered c then
        ((names.2 <|> k.label).map fun n => Command.alterKeyspace (k.definition n)).toList
      else []
    match names with
    | (some old, some new) =>
      if old ≠ new then [.dropKeyspace old, .createKeyspace (k.definition new)] else altered
    | _ => altered

/-- The statements of a keyspace node. -/
def commands (d : Direction) (k : Keyspace) : List Command :=
  match d with
  | .update => k.update
  | .create => (k.label.map fun n => Command.createKeyspace (k.definition n)).toList
  | .delete => (k.label.map Command.dropKeyspace).toList

end Keyspace

end AlterScript
