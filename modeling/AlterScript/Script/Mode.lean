/-
  How a script is made: for which versions of the database, with drops or without, with keyspaces or
  without.
-/
import AlterScript.Json.Record

namespace AlterScript

/-- How a script is made. -/
structure Mode where
  /-- Old versions of the database can convert types in place. -/
  legacy : Bool := false
  /-- Drops take effect instead of being commented out. -/
  applyDrops : Bool := false
  /-- Keyspaces are left alone. -/
  skipKeyspaces : Bool := false
deriving DecidableEq, Repr

namespace Mode

/-- The options for keyspaces. -/
def containersOfJson? (j : Json) : Option Bool :=
  (Json.record? ["skipModified"] j).bind fun es =>
    Json.orDefault false Json.bool? (es.find? "skipModified")

/-- The options of a script. -/
def optionsOfJson? (j : Json) : Option Bool :=
  (Json.record? ["containers"] j).bind fun es =>
    Json.orDefault false containersOfJson? (es.find? "containers")

/-- The mode that a value holds; what it leaves out is off. -/
def ofJson? (j : Json) : Option Mode := do
  let es ← Json.record? ["isOldModel", "applyDropStatements", "scriptOptions"] j
  let legacy ← Json.orDefault false Json.bool? (es.find? "isOldModel")
  let applyDrops ← Json.orDefault false Json.bool? (es.find? "applyDropStatements")
  let skipKeyspaces ← Json.orDefault false optionsOfJson? (es.find? "scriptOptions")
  return { legacy, applyDrops, skipKeyspaces }

/-- The mode as a value. -/
def toJson (m : Mode) : Json :=
  .obj [("isOldModel", .bool m.legacy), ("applyDropStatements", .bool m.applyDrops),
    ("scriptOptions", .obj [("containers", .obj [("skipModified", .bool m.skipKeyspaces)])])]

theorem ofJson?_toJson (m : Mode) : ofJson? m.toJson = some m := by
  rcases m with ⟨_ | _, _ | _, _ | _⟩ <;> decide

end Mode

end AlterScript
