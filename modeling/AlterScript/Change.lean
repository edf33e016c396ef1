/-
  Old and new values in comparison metadata, and references to key columns.
-/
import AlterScript.Cql.Name
import AlterScript.Cql.Options
import AlterScript.Json.Record

namespace AlterScript

/-- A value before and after a change; either may be absent. -/
structure Change (α : Type) where
  old : Option α := none
  new : Option α := none
deriving Repr

namespace Change

variable {α : Type}

/-- Whether the value is another one after the change. -/
def differs [BEq α] (c : Change α) : Bool := c.old != c.new

/-- Whether there is a change that makes a difference. -/
def differs? [BEq α] (c : Option (Change α)) : Bool := (c.map differs).getD false

/-- A change of values that `read` reads; both attributes stand in an array. -/
def ofJson? (read : Json → Option α) (j : Json) : Option (Change α) :=
  (Json.fullRecord? ["old", "new"] j).bind fun es =>
  (Json.optional read (es.find? "old")).bind fun old =>
  (Json.optional read (es.find? "new")).map fun new => ⟨old, new⟩

/-- The name before the change, if it is not blank. -/
def oldName (c : Change String) : Option String := c.old.bind Text.nonBlank

/-- The name after the change, if it is not blank. -/
def newName (c : Change String) : Option String := c.new.bind Text.nonBlank

/-- The names before and after the change, each from the code or else from the other name. -/
def renamed (code name : Option (Change String)) : Option String × Option String :=
  (code.bind oldName <|> name.bind oldName, code.bind newName <|> name.bind newName)

end Change

namespace Json

/-- A change that may be missing or null. -/
def change? {α : Type} (read : Json → Option α) (j : Option Json) : Option (Option (Change α)) :=
  optional (Change.ofJson? read) j

/-- A change of a name or another text. -/
def textChange? (j : Option Json) : Option (Option (Change String)) := change? string? j

/-- A change of any value. -/
def valueChange? (j : Option Json) : Option (Option (Change Json)) := change? some j

/-- A change of options. -/
def optionsChange? (j : Option Json) : Option (Option (Change Options)) :=
  change? (fun j => j.entries?.map Options.mk) j

end Json

/-- The clauses that set the changed options and the changed comment. -/
def Options.changedClauses (options : Option (Change Options)) (comment : Option (Change String)) :
    List String :=
  let old := (options.bind Change.old).getD .empty
  let new := (options.bind Change.new).getD .empty
  (Options.diff new old).clauses (comment.bind fun c => changedComment c.old c.new)

/-- A reference to a column by its id, with the name and the sort order given beside it. -/
structure KeyReference where
  id : Option String := none
  name : Option String := none
  order : Option String := none
deriving DecidableEq, Repr

namespace KeyReference

def attributes : List String := ["keyId", "name", "type"]

def ofJson? (j : Json) : Option KeyReference :=
  (Json.record? attributes j).map fun es =>
    { id := Json.label? (es.find? "keyId")
      name := Json.label? (es.find? "name")
      order := Json.label? (es.find? "type") }

/-- The sort order, if it is one. -/
def sortOrder (k : KeyReference) : Option SortOrder := k.order.bind SortOrder.parse?

end KeyReference

end AlterScript
