/-
  Statements for user-defined types.

  A type with a new name is dropped and created anew, and so is one with a field of which the type
  cannot be converted in place. Fields can be added and renamed, but not dropped.
-/
import AlterScript.Cql.Command
import AlterScript.CqlType.Conversion
import AlterScript.Field.Overlay
import AlterScript.Script.Scope
import AlterScript.UserType.Dependency

namespace AlterScript

namespace UserType

/-- The qualified name of a type under a given name. -/
def target (t : UserType) (name : String) : QualifiedName :=
  QualifiedName.of (t.keyspace <|> t.comparison.bind (·.keyspace)) name

/-- The statement that creates a type; none without a field that has a type. -/
def create (s : Scope) (t : UserType) (target : QualifiedName) :
    Except ResolveError (List Command) := do
  let fields ← s.columns t.fields
  return if fields.isEmpty then [] else [.createType ⟨target, fields⟩]

/-- The statements that drop a type and create one. -/
def replace (s : Scope) (t : UserType) (old new : QualifiedName) :
    Except ResolveError (List Command) := do
  return .dropType old :: (← t.create s new)

/-! ## Fields -/

/-- What becomes of a field of a type. -/
inductive FieldChange
  | kept
  | added (field : Column)
  /-- Renamed, then converted, either or both. -/
  | altered (names : Option (String × String)) (converted : Option Column)
  /-- Not to be converted, so that the type has to be created anew. -/
  | inconvertible
deriving DecidableEq, Repr

/-- What becomes of a field that has an old and a new version. -/
def fieldChange (legacy : Bool) (oldName newName : String) (oldType newType : Option String) :
    FieldChange :=
  let names := if oldName = newName then none else some (oldName, newName)
  match oldType, newType with
  | some old, some new =>
    if old = new then .altered names none
    else if legacy && CqlType.isConvertible old new then .altered names (some ⟨newName, new⟩)
    else .inconvertible
  | _, _ => .altered names none

/-- What becomes of a field of a type. -/
def changeOf (s : Scope) (name : String) (f : Field) : Except ResolveError FieldChange :=
  match f.comparison with
  | none => .ok .kept
  | some c =>
    if c.created then do
      return match ← s.typeOf f name with
        | some type => .added ⟨name, type⟩
        | none => .kept
    else if c.deleted then .ok .kept
    else do
      let oldName := f.oldVersion.label.getD name
      let newName := f.newVersion.label.getD name
      let oldType ← s.typeOf f.oldVersion oldName
      let newType ← s.typeOf f.newVersion newName
      return fieldChange s.legacy oldName newName oldType newType

/-- The statements for what becomes of a field. -/
def fieldCommands (s : Scope) (t : UserType) (target : QualifiedName) :
    FieldChange → Except ResolveError (List Command)
  | .kept => .ok []
  | .added f => .ok [.addTypeField target f]
  | .altered names converted =>
    .ok ((names.map fun n => Command.renameTypeField target n.1 n.2).toList
      ++ (converted.map (Command.alterTypeField target)).toList)
  | .inconvertible => t.replace s target target

/-- The statements for the fields of a type, one after the other. -/
def updateFields (s : Scope) (t : UserType) (target : QualifiedName) :
    List (String × Field) → Except ResolveError (List Command)
  | [] => .ok []
  | (name, f) :: r => do
    let change ← changeOf s name f
    let first ← t.fieldCommands s target change
    let rest ← t.updateFields s target r
    return first ++ rest

/-! ## Types -/

/-- The old and the new name of a type. -/
def names (t : UserType) : Option String × Option String :=
  Change.renamed (t.comparison.bind (·.code)) (t.comparison.bind (·.name))

/-- The statements that change a type. -/
def update (s : Scope) (key : String) (t : UserType) : Except ResolveError (List Command) :=
  let inPlace := t.updateFields s (t.target (t.label key)) t.fields
  match t.names with
  | (some old, some new) =>
    if old ≠ new then t.replace s (t.target old) (t.target new) else inPlace
  | _ => inPlace

/-- The statements of a type node. -/
def commands (s : Scope) (d : Direction) (key : String) (t : UserType) :
    Except ResolveError (List Command) :=
  match d with
  | .create => t.create s (t.target (t.label key))
  | .update => t.update s key
  | .delete => .ok [.dropType (t.target (t.label key))]

end UserType

end AlterScript
