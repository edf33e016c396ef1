/-
  The order in which user-defined types are created: a type stands behind the types that its fields
  mention.
-/
import AlterScript.ChangeTree
import AlterScript.Dependency
import AlterScript.UserType.Basic

namespace AlterScript

namespace Field

mutual

/-- The names of types that a field mentions, in its items and properties too. -/
def mentions : Field → List String
  | ⟨_, _, _, _, _, childType, reference, items, properties, _, _, _, _, _, _, _⟩ =>
    (reference.bind Text.lastSegment).toList ++ childType.toList ++ mentionsOfItems? items
      ++ mentionsOfSet? properties
termination_by structural f => f

def mentionsOfItems? : Option (OneOrMany Field) → List String
  | none => []
  | some items => mentionsOfItems items
termination_by structural items => items

def mentionsOfItems : OneOrMany Field → List String
  | .one f => mentions f
  | .many fs => mentionsOfList fs
termination_by structural items => items

def mentionsOfList : List Field → List String
  | [] => []
  | f :: fs => mentions f ++ mentionsOfList fs
termination_by structural fs => fs

def mentionsOfSet? : Option (FieldSet Field) → List String
  | none => []
  | some set => mentionsOfSet set
termination_by structural set => set

/-- A listed field without a name is not part of the set. -/
def mentionsOfSet : FieldSet Field → List String
  | .named es => mentionsOfEntries es
  | .listed fs => mentionsOfNamed fs
termination_by structural set => set

def mentionsOfEntries : List (String × Field) → List String
  | [] => []
  | (_, f) :: es => mentions f ++ mentionsOfEntries es
termination_by structural es => es

def mentionsOfNamed : List Field → List String
  | [] => []
  | f :: fs => (if f.label.isSome then mentions f else []) ++ mentionsOfNamed fs
termination_by structural fs => fs

end

end Field

namespace UserType

/-- The name in the database. -/
def label (key : String) (t : UserType) : String :=
  ((t.code <|> t.name).bind Text.nonBlank).getD key

/-- The names of types that the fields of a type mention. -/
def mentions (t : UserType) : List String := t.fields.flatMap fun f => f.2.mentions

/-- Whether a type mentions another by its key or its name. -/
def uses (a b : Child UserType) : Bool :=
  a.node.mentions.contains b.key || a.node.mentions.contains (label b.key b.node)

/-- Types behind the types that they use. -/
def inOrder (ts : List (Child UserType)) : List (Child UserType) := Dependency.sorted uses ts

end UserType

end AlterScript
