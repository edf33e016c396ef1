/-
  Keyspaces in a change tree.
-/
import AlterScript.Change

namespace AlterScript

/-- A data center with its replication factor. -/
structure DataCenter where
  name : Option String := none
  factor : Option Nat := none
deriving DecidableEq, Repr

/-- What a comparison says about a keyspace. -/
structure KeyspaceComparison where
  name : Option (Change String) := none
  code : Option (Change String) := none
  strategy : Option (Change Json) := none
  factor : Option (Change Json) := none
  dataCenters : Option (Change Json) := none
  durableWrites : Option (Change Json) := none

/-- A keyspace as a modeling tool describes it. -/
structure Keyspace where
  code : Option String := none
  name : Option String := none
  strategy : Option String := none
  factor : Option Nat := none
  dataCenters : List DataCenter := []
  durableWrites : Option Bool := none
  comparison : Option KeyspaceComparison := none

namespace DataCenter

def ofJson? (j : Json) : Option DataCenter :=
  (Json.record? ["dataCenterName", "replFactorValue"] j).map fun es =>
    { name := Json.label? (es.find? "dataCenterName")
      factor := Json.natural? (es.find? "replFactorValue") }

end DataCenter

namespace KeyspaceComparison

def attributes : List String :=
  ["name", "code", "replStrategy", "replFactor", "dataCenters", "durableWrites"]

def ofJson? (j : Json) : Option KeyspaceComparison := do
  let es ← Json.record? attributes j
  let name ← Json.textChange? (es.find? "name")
  let code ← Json.textChange? (es.find? "code")
  let strategy ← Json.valueChange? (es.find? "replStrategy")
  let factor ← Json.valueChange? (es.find? "replFactor")
  let dataCenters ← Json.valueChange? (es.find? "dataCenters")
  let durableWrites ← Json.valueChange? (es.find? "durableWrites")
  return { name, code, strategy, factor, dataCenters, durableWrites }

end KeyspaceComparison

namespace Keyspace

def attributes : List String :=
  ["code", "name", "replStrategy", "replFactor", "dataCenters", "durableWrites", "compMod"]

/-- The description of a keyspace. -/
def ofRole? (j : Json) : Option Keyspace := do
  let es ← Json.record? attributes j
  let dataCenters ← Json.listOf DataCenter.ofJson? (es.find? "dataCenters")
  let comparison ← Json.optional KeyspaceComparison.ofJson? (es.find? "compMod")
  return {
    code := Json.label? (es.find? "code")
    name := Json.label? (es.find? "name")
    strategy := Json.label? (es.find? "replStrategy")
    factor := Json.natural? (es.find? "replFactor")
    dataCenters := dataCenters
    durableWrites := Json.truth? (es.find? "durableWrites")
    comparison := comparison }

/-- A keyspace node: its role describes it. -/
def ofJson? (j : Json) : Option Keyspace :=
  (Json.record? ["role"] j).bind fun es => Json.orDefault {} ofRole? (es.find? "role")

end Keyspace

end AlterScript
