/-
  Field definitions: the columns of tables and views and the fields of user-defined types, as a
  modeling tool describes them.

  `Field.same` is the equality under which an overlay counts as a change: the order of named fields
  does not count.
-/
import AlterScript.Entries

namespace AlterScript

/-- One thing, written plainly, or a list of things. -/
inductive OneOrMany (α : Type)
  | one (item : α)
  | many (items : List α)
deriving Repr

namespace OneOrMany

variable {α : Type}

def toList : OneOrMany α → List α
  | one item => [item]
  | many items => items

def first? (x : OneOrMany α) : Option α := x.toList.head?

end OneOrMany

/-- A set of fields, each under a name, or a list of fields that carry their names themselves. -/
inductive FieldSet (α : Type)
  | named (entries : List (String × α))
  | listed (fields : List α)
deriving Repr

namespace FieldSet

variable {α : Type}

def isEmpty : FieldSet α → Bool
  | named entries => entries.isEmpty
  | listed fields => fields.isEmpty

end FieldSet

/-- What a comparison says about a field: its old and its new version, and whether it came or
    went. -/
structure FieldComparison (α : Type) where
  old : Option α := none
  new : Option α := none
  created : Bool := false
  deleted : Bool := false
deriving Repr

/-- A field definition. -/
structure Field where
  name : Option String := none
  code : Option String := none
  guid : Option String := none
  typeName : Option String := none
  mode : Option String := none
  childType : Option String := none
  reference : Option String := none
  items : Option (OneOrMany Field) := none
  properties : Option (FieldSet Field) := none
  keySubtype : Option String := none
  subtype : Option String := none
  frozen : Bool := false
  primaryKey : Bool := false
  partitionKey : Bool := false
  clusteringKey : Bool := false
  comparison : Option (FieldComparison Field) := none

namespace Field

instance : Inhabited Field := ⟨{}⟩

/-- The name in the database: the code, or else the name. -/
def label (f : Field) : Option String := f.code <|> f.name

/-- Whether the field is flagged as part of a composite key. -/
def inCompositeKey (f : Field) : Bool := f.partitionKey || f.clusteringKey

/-- Whether the field says of what type it is. -/
def hasType (f : Field) : Bool := f.typeName.isSome || f.reference.isSome

/-! ## Equality -/

/-- The attributes without parts of their own are equal. -/
def sameAttributes (f g : Field) : Bool :=
  f.name == g.name && f.code == g.code && f.guid == g.guid && f.typeName == g.typeName
    && f.mode == g.mode && f.childType == g.childType && f.reference == g.reference
    && f.keySubtype == g.keySubtype && f.subtype == g.subtype && f.frozen == g.frozen
    && f.primaryKey == g.primaryKey && f.partitionKey == g.partitionKey
    && f.clusteringKey == g.clusteringKey

mutual

/-- Equality of fields. -/
def same : Field → Field → Bool
  | ⟨n, c, u, t, m, ch, r, items, properties, ks, s, fr, pk, ppk, pck, comparison⟩, g =>
    sameAttributes ⟨n, c, u, t, m, ch, r, none, none, ks, s, fr, pk, ppk, pck, none⟩ g
      && sameItems? items g.items && sameSet? properties g.properties
      && sameComparison? comparison g.comparison
termination_by structural x => x

def sameItems? : Option (OneOrMany Field) → Option (OneOrMany Field) → Bool
  | none, none => true
  | some x, some y => sameItems x y
  | _, _ => false
termination_by structural x => x

def sameItems : OneOrMany Field → OneOrMany Field → Bool
  | .one f, .one g => same f g
  | .many fs, .many gs => sameList fs gs
  | _, _ => false
termination_by structural x => x

def sameSet? : Option (FieldSet Field) → Option (FieldSet Field) → Bool
  | none, none => true
  | some x, some y => sameSet x y
  | _, _ => false
termination_by structural x => x

/-- Equality of field sets of one form; the order of named fields does not count. -/
def sameSet : FieldSet Field → FieldSet Field → Bool
  | .named es, .named ds => es.length == ds.length && sameEntries es ds
  | .listed fs, .listed gs => sameList fs gs
  | _, _ => false
termination_by structural x => x

def sameList : List Field → List Field → Bool
  | [], [] => true
  | f :: fs, g :: gs => same f g && sameList fs gs
  | _, _ => false
termination_by structural x => x

/-- Whether every entry of the first list is equal to the one of its name in the second. -/
def sameEntries : List (String × Field) → List (String × Field) → Bool
  | [], _ => true
  | (k, f) :: r, ds =>
    (match Entries.find? k ds with
      | some g => same f g
      | none => false) && sameEntries r ds
termination_by structural x => x

def sameComparison? : Option (FieldComparison Field) → Option (FieldComparison Field) → Bool
  | none, none => true
  | some x, some y => sameComparison x y
  | _, _ => false
termination_by structural x => x

def sameComparison : FieldComparison Field → FieldComparison Field → Bool
  | ⟨old, new, created, deleted⟩, d =>
    sameField? old d.old && sameField? new d.new && created == d.created && deleted == d.deleted
termination_by structural x => x

def sameField? : Option Field → Option Field → Bool
  | none, none => true
  | some f, some g => same f g
  | _, _ => false
termination_by structural x => x

end

instance : BEq Field := ⟨same⟩

end Field

namespace FieldSet

instance : BEq (FieldSet Field) := ⟨Field.sameSet⟩

/-- The fields with their names, in order; a listed field without a name is left out. -/
def named? : FieldSet Field → List (String × Field)
  | named entries => entries
  | listed fields => fields.filterMap fun f => f.label.map fun n => (n, f)

/-- The fields under pairwise distinct names. -/
def toEntries (s : FieldSet Field) : Entries Field := Entries.ofList s.named?

end FieldSet

instance : BEq (OneOrMany Field) := ⟨Field.sameItems⟩

end AlterScript
