/-
  Statements for materialized views.

  A view with a new name, another key, another base or another condition is dropped and created
  anew; with other options it is altered.
-/
import AlterScript.Cql.Command
import AlterScript.Field.Ids
import AlterScript.Script.Scope
import AlterScript.View.Basic

namespace AlterScript

namespace View

/-- The name in the database. -/
def label (v : View) : Option String := (v.code <|> v.name).bind Text.nonBlank

/-- The keyspace of the view and of its base table. -/
def keyspaceName (v : View) : Option String :=
  v.keyspace <|> v.comparison.bind (·.keyspace)

/-- The columns with their names. -/
def columns (v : View) : List (String × Field) := (v.properties.map FieldSet.named?).getD []

/-- The view under a given name; none without a base table. -/
def definition? (v : View) (name : String) : Option ViewDefinition :=
  let ids := ColumnIds.ofFields v.columns
  v.base.map fun base =>
    { target := QualifiedName.of v.keyspaceName name
      base := QualifiedName.of v.keyspaceName base
      columns := v.columns.map Prod.fst
      partitionKey := ids.resolveAll v.partitionKey
      clusteringKey := ids.resolveClustering v.clusteringKey
      condition := v.condition
      clauses := v.options.clauses v.comment }

def create (v : View) (name : String) : List Command :=
  ((v.definition? name).map Command.createView).toList

def drop (v : View) (name : String) : Command :=
  .dropView (QualifiedName.of v.keyspaceName name)

/-- Whether the comparison shows a change that needs a new view. -/
def isRedefined (c : ViewComparison) : Bool :=
  Change.differs? c.partitionKey || Change.differs? c.clusteringKey || Change.differs? c.base
    || Change.differs? c.condition

/-- The statements that change a view. -/
def update (v : View) : List Command :=
  match v.comparison, v.label with
  | some c, some current =>
    let names := Change.renamed c.code c.name
    let old := names.1.getD current
    let new := names.2.getD current
    if old ≠ new ∨ isRedefined c then v.drop old :: v.create new
    else
      match Options.changedClauses c.options c.comment with
      | [] => []
      | clauses => [.alterViewOptions (QualifiedName.of v.keyspaceName new) clauses]
  | _, _ => []

/-- The statements of a view node. -/
def commands (d : Direction) (v : View) : List Command :=
  match d, v.label with
  | .update, _ => v.update
  | .create, some name => v.create name
  | .delete, some name => [v.drop name]
  | _, none => []

end View

end AlterScript
