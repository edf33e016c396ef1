/-
  YAML values and documents.

  A scalar is a text with a style and sometimes a tag; only a plain one, that is one without quotes,
  can be null. An alias stands for the value with an anchor.
-/
import AlterScript.Entries

namespace AlterScript

namespace Yaml

/-- How a scalar is written. -/
inductive Style
  | plain
  | singleQuoted
  | doubleQuoted
  /-- Lines of text as they stand. -/
  | literal
  /-- Lines of text that are joined. -/
  | folded
deriving DecidableEq, Repr

/-- A scalar. -/
structure Scalar where
  style : Style
  tag : Option String
  text : String
deriving DecidableEq, Repr

namespace Scalar

/-- Where nothing is written there is an empty plain scalar. -/
def empty : Scalar := ⟨.plain, none, ""⟩

/-- Whether there is nothing, neither text nor quotes. -/
def isEmpty (s : Scalar) : Bool := s.style == .plain && s.text.isEmpty

def nullTag : String := "tag:yaml.org,2002:null"

def boolTag : String := "tag:yaml.org,2002:bool"

/-- The spellings of null. -/
def nullWords : List String := ["~", "null", "Null", "NULL"]

/-- Whether a scalar is null; nothing for one that is tagged as null and has another text. -/
def isNull? (s : Scalar) : Option Bool :=
  if s.style != .plain then some false
  else
    match s.tag with
    | none => some (s.text.isEmpty || nullWords.contains s.text)
    | some t =>
      if t = nullTag then if nullWords.contains s.text then some true else none
      else some false

/-- A truth value in one of its three spellings: plain, or as lines of text with the tag for it. -/
def bool? (s : Scalar) : Option Bool :=
  if s.style == .plain || (s.style == .literal && s.tag == some boolTag) then
    if ["true", "True", "TRUE"].contains s.text then some true
    else if ["false", "False", "FALSE"].contains s.text then some false
    else none
  else none

end Scalar

end Yaml

/-- A YAML value. The entries of a mapping are kept as they stand. -/
inductive Yaml
  | scalar (scalar : Yaml.Scalar)
  | sequence (items : List Yaml)
  | mapping (entries : List (Yaml × Yaml))
  /-- What stands at the anchor of this number. -/
  | aliased (number : Nat)
deriving Repr

namespace Yaml

/-- Where nothing is written there is an empty plain scalar. -/
def empty : Yaml := scalar .empty

/-- The values with anchors in the order in which they begin, each with the number of its anchor. -/
abbrev Anchored := List (Nat × Yaml)

/-- A document: a value, and what the aliases in it stand for. -/
structure Document where
  root : Yaml
  anchored : Anchored

namespace Anchored

/-- What a value is when aliases are looked up; of one number the last value counts. -/
def target (anchored : Anchored) : Yaml → Yaml
  | aliased n => (anchored.reverse.lookup n).getD Yaml.empty
  | y => y

/-- The scalar that a value is. -/
def scalar? (anchored : Anchored) (y : Yaml) : Option Scalar :=
  match anchored.target y with
  | .scalar s => some s
  | _ => none

/-- Whether a value is null; nothing for one that contradicts its tag. -/
def isNull? (anchored : Anchored) (y : Yaml) : Option Bool :=
  match anchored.scalar? y with
  | some s => s.isNull?
  | none => some false

def bool? (anchored : Anchored) (y : Yaml) : Option Bool := (anchored.scalar? y).bind Scalar.bool?

/-- Any scalar is a string. -/
def string? (anchored : Anchored) (y : Yaml) : Option String :=
  (anchored.scalar? y).map Scalar.text

/-- An entry whose name is a scalar. -/
def named? (anchored : Anchored) (e : Yaml × Yaml) : Option (String × Yaml) :=
  (anchored.string? e.1).map fun k => (k, e.2)

/-- The attributes of a record: of a mapping of named entries that has none of the attributes
    twice, or of nothing. -/
def record? (anchored : Anchored) (keys : List String) (y : Yaml) : Option (Entries Yaml) :=
  match anchored.target y with
  | .mapping entries =>
    (entries.mapM anchored.named?).bind fun es =>
      if ((Entries.keys es).filter keys.contains).Nodup then some es else none
  | .scalar s => if s.isEmpty then some [] else none
  | _ => none

end Anchored

end Yaml

end AlterScript
