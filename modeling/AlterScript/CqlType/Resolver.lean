/-
  The CQL type of a field.

  A resolver gives the text of a field's type, or none if it does not know it; `builtin` follows
  references to user-defined types and the nested items of collections. Where a resolver knows no
  type, a reference gives the name at its end.
-/
import AlterScript.CqlType.Basic
import AlterScript.CqlType.References

namespace AlterScript

namespace CqlType

/-- The types that a field may name directly. -/
def scalars : List String :=
  ["ascii", "bigint", "blob", "boolean", "counter", "date", "decimal", "double", "duration",
    "float", "inet", "int", "smallint", "text", "time", "timestamp", "timeuuid", "tinyint", "uuid",
    "varchar", "varint"]

/-- The frozen user-defined type at the end of a reference. -/
def ofReference (reference : Option String) : Option CqlType :=
  (reference.bind Text.lastSegment).map fun n => frozen (named n)

/-- The user-defined type that a field hints at. -/
def hinted (refs : References) (hint : String) : Option String :=
  refs.find? hint <|> if refs.hasType hint then some hint else none

mutual

/-- The type of a field; `fallback` names a user-defined type that the field does not name. -/
def ofField (refs : References) (fallback : String) : Field → Option CqlType
  | ⟨_, _, _, typeName, mode, childType, reference, items, _, keySubtype, subtype, isFrozen, _, _,
      _, _⟩ =>
    match reference with
    | some r => (refs.find? r).map fun n => frozen (named n)
    | none =>
      match typeName.map Text.keyword with
      | none => none
      | some "string" => some (named (mode.getD "text"))
      | some "numeric" => some (named (mode.getD "int"))
      | some "boolean" | some "bool" => some (named "boolean")
      | some "list" => (ofFirst refs fallback items).map fun t => (list t).freeze isFrozen
      | some "set" => (ofFirst refs fallback items).map fun t => (set t).freeze isFrozen
      | some "map" =>
        let value := (ofFirst refs fallback items <|> subtype.map named).getD (named "text")
        some ((map (keySubtype.getD "text") value).freeze isFrozen)
      | some "tuple" =>
        match ofAll refs fallback items with
        | some (t :: ts) => some (tuple (t :: ts))
        | _ => none
      | some "udt" =>
        some (frozen (named (((childType <|> mode).bind (hinted refs)).getD fallback)))
      | some name => if scalars.contains name then some (named name) else none
termination_by structural f => f

/-- The type of the first item. -/
def ofFirst (refs : References) (fallback : String) : Option (OneOrMany Field) → Option CqlType
  | none => none
  | some items => ofFirstItem refs fallback items
termination_by structural items => items

def ofFirstItem (refs : References) (fallback : String) : OneOrMany Field → Option CqlType
  | .one f => ofField refs (f.label.getD fallback) f <|> ofReference f.reference
  | .many fs => ofHead refs fallback fs
termination_by structural items => items

def ofHead (refs : References) (fallback : String) : List Field → Option CqlType
  | [] => none
  | f :: _ => ofField refs (f.label.getD fallback) f <|> ofReference f.reference
termination_by structural fs => fs

/-- The types of all items, if each has one. -/
def ofAll (refs : References) (fallback : String) :
    Option (OneOrMany Field) → Option (List CqlType)
  | none => none
  | some items => ofAllItems refs fallback items
termination_by structural items => items

def ofAllItems (refs : References) (fallback : String) :
    OneOrMany Field → Option (List CqlType)
  | .one f => (ofField refs (f.label.getD fallback) f <|> ofReference f.reference).map ([·])
  | .many fs => ofEach refs fallback fs
termination_by structural items => items

def ofEach (refs : References) (fallback : String) : List Field → Option (List CqlType)
  | [] => some []
  | f :: fs =>
    (ofField refs (f.label.getD fallback) f <|> ofReference f.reference).bind fun t =>
      (ofEach refs fallback fs).map fun ts => t :: ts
termination_by structural fs => fs

end

/-- The type of an item of a collection: its own, or the one its reference ends in. -/
def ofItem (refs : References) (fallback : String) (item : Field) : Option CqlType :=
  ofField refs (item.label.getD fallback) item <|> ofReference item.reference

end CqlType

/-- A resolver gave up on a column. -/
structure ResolveError where
  column : String
deriving DecidableEq, Repr

namespace ResolveError

def message (e : ResolveError) : String := "resolver failed for " ++ e.column

end ResolveError

/-- A way to find the text of a field's type. The text that comes third names the field. -/
abbrev Resolver := References → Field → String → Except ResolveError (Option String)

namespace Resolver

/-- The built-in resolver. -/
def builtin : Resolver := fun refs f fallback =>
  .ok ((CqlType.ofField refs fallback f).map CqlType.text)

/-- A resolver that knows no type. -/
def unknowing : Resolver := fun _ _ _ => .ok none

/-- A resolver that gives up on the fields of one type. -/
def refusing (typeName : String) (r : Resolver) : Resolver := fun refs f fallback =>
  if f.typeName = some typeName then .error ⟨fallback⟩ else r refs f fallback

/-- The text of a column's type: the resolver's, or the name at the end of a reference. -/
def columnType (r : Resolver) (refs : References) (f : Field) (fallback : String) :
    Except ResolveError (Option String) :=
  (r refs f fallback).map fun t => t <|> f.reference.bind Text.lastSegment

end Resolver

end AlterScript
