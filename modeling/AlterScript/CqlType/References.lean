/-
  References to user-defined types: under which names a type is known.

  `find?_merge` says whose entry counts where two sets of references name the same thing.
-/
import AlterScript.ChangeTree
import AlterScript.Json.Reader
import AlterScript.UserType.Basic

namespace AlterScript

/-- The name of a type for each text that refers to it. -/
structure References where
  entries : Entries String

namespace References

instance : Inhabited References := ⟨⟨[]⟩⟩

def empty : References := ⟨[]⟩

def find? (r : References) (reference : String) : Option String := r.entries.find? reference

/-- Whether some reference stands for a type of this name. -/
def hasType (r : References) (name : String) : Bool := r.entries.any fun e => e.2 == name

/-- The references that all stand for one type: two paths, the id, and the key itself. -/
def ofChild (c : Child UserType) : List (String × String) :=
  let name := (c.node.code <|> c.node.name).getD c.key
  [("#/definitions/" ++ c.key, name), ("#model/definitions/" ++ c.key, name)]
    ++ (c.node.guid.map fun g => (g, name)).toList ++ [(c.key, name)]

/-- Every user-defined type of a change tree, in all buckets. -/
def declared (t : ChangeTree) : List (Child UserType) :=
  Bucket.all.flatMap fun b => t.children UserType.ofJson? .userTypes b

/-- The references that a change tree declares; of two with the same text the later counts. -/
def ofTree (t : ChangeTree) : References :=
  ⟨Entries.ofList ((declared t).flatMap ofChild)⟩

/-- Two sets of references; where both have an entry, that of `upper` counts. -/
def merge (base upper : References) : References := ⟨base.entries.putAll upper.entries⟩

theorem find?_merge (base upper : References) (h : (Entries.keys upper.entries).Nodup)
    (reference : String) :
    (base.merge upper).find? reference = (upper.find? reference <|> base.find? reference) :=
  Entries.find?_putAll reference base.entries upper.entries h

/-- The references sorted by their texts. -/
def sorted (r : References) : List (String × String) :=
  r.entries.mergeSort fun a b => a.1 ≤ b.1

/-! ## Reading -/

/-- The references in members of an object. Every value is a string, also one that a later value
    under the same name replaces. -/
def ofMembers? (members : List (String × Json)) : Option References :=
  (members.mapM fun m => (Json.string? m.2).map (Prod.mk m.1)).map fun es =>
    ⟨Entries.ofList es⟩

/-- The references that a value holds. -/
def ofJson? (j : Json) : Option References := j.entries?.bind ofMembers?

/-- The references that a text holds. -/
def ofText? (s : String) : Option References := (Json.membersOfText? s).bind ofMembers?

end References

end AlterScript
