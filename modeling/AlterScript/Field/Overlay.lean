/-
  Versions of a field: a version that says nothing of its type takes the type of the field, and the
  new version laid over the field gives the field after the change.
-/
import AlterScript.Field.Basic

namespace AlterScript

namespace Field

/-- A version of a field. One without a type of its own takes the type of `base` and every
    attribute of the type that it leaves out. -/
def orTypeOf (f base : Field) : Field :=
  if f.hasType then f
  else
    { f with
      typeName := base.typeName
      reference := base.reference
      mode := f.mode <|> base.mode
      childType := f.childType <|> base.childType
      items := f.items <|> base.items
      properties := f.properties <|> base.properties
      keySubtype := f.keySubtype <|> base.keySubtype
      subtype := f.subtype <|> base.subtype
      frozen := f.frozen || base.frozen }

theorem orTypeOf_of_hasType {f : Field} (h : f.hasType = true) (base : Field) :
    f.orTypeOf base = f := by
  simp [orTypeOf, h]

theorem label_orTypeOf (f base : Field) : (f.orTypeOf base).label = f.label := by
  unfold orTypeOf; split <;> rfl

/-- An attribute after the change: the new one where it is present and not the old one. -/
def overlaid {α : Type} [BEq α] (base old new : Option α) : Option α :=
  match new with
  | none => base
  | some v => if old == some v then base else some v

/-- A flag after the change. -/
def overlaidFlag (base old new : Bool) : Bool := if new == old then base else new

/-- A field after the change from `old` to `new`. -/
def overlay (base old new : Field) : Field where
  name := overlaid base.name old.name new.name
  code := overlaid base.code old.code new.code
  guid := base.guid
  typeName := overlaid base.typeName old.typeName new.typeName
  mode := overlaid base.mode old.mode new.mode
  childType := overlaid base.childType old.childType new.childType
  reference := overlaid base.reference old.reference new.reference
  items := overlaid base.items old.items new.items
  properties := overlaid base.properties old.properties new.properties
  keySubtype := overlaid base.keySubtype old.keySubtype new.keySubtype
  subtype := overlaid base.subtype old.subtype new.subtype
  frozen := overlaidFlag base.frozen old.frozen new.frozen
  primaryKey := overlaidFlag base.primaryKey old.primaryKey new.primaryKey
  partitionKey := overlaidFlag base.partitionKey old.partitionKey new.partitionKey
  clusteringKey := overlaidFlag base.clusteringKey old.clusteringKey new.clusteringKey
  comparison := base.comparison

/-- The name under which a field is kept after the change. -/
def overlaidName (name : String) (old new : Field) : String :=
  (overlaid (some name) old.name new.name).getD name

/-- The version of a field before the change. -/
def oldVersion (f : Field) : Field :=
  ((f.comparison.bind (·.old)).map (·.orTypeOf f)).getD f

/-- The version of a field after the change. -/
def newVersion (f : Field) : Field :=
  ((f.comparison.bind (·.new)).map (·.orTypeOf f)).getD f

/-- A field and its name with the change of its comparison laid over it. -/
def merged (name : String) (f : Field) : String × Field :=
  match f.comparison with
  | none => (name, f)
  | some c =>
    let old := c.old.getD {}
    let new := c.new.getD {}
    (overlaidName name old new, overlay f old new)

end Field

end AlterScript
