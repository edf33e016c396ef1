/-
  Change trees: the added, modified and deleted nodes of a comparison of two models.

  Only the root has to have the right shape. Whatever does not have it further down counts as no
  node, and `mem_children_iff` says that a node is there exactly when it can be read.
-/
import AlterScript.Json.Basic

namespace AlterScript

/-- The four parts of a change tree. -/
inductive Partition
  | tables
  | keyspaces
  | views
  | userTypes
deriving DecidableEq, Repr

/-- What happened to the nodes of a bucket. -/
inductive Bucket
  | added
  | modified
  | deleted
deriving DecidableEq, Repr

namespace Partition

/-- The name of a part in the tree. -/
def key : Partition → String
  | tables => "entities"
  | keyspaces => "containers"
  | views => "views"
  | userTypes => "modelDefinitions"

def all : List Partition := [tables, keyspaces, views, userTypes]

end Partition

namespace Bucket

/-- The name of a bucket in the tree. -/
def key : Bucket → String
  | added => "added"
  | modified => "modified"
  | deleted => "deleted"

def all : List Bucket := [added, modified, deleted]

end Bucket

/-- A node under its key. -/
structure Child (α : Type) where
  key : String
  node : α
deriving Repr

/-- Why a value is no change tree. -/
inductive TreeError
  | null
  | noObject (kind : String)
deriving DecidableEq, Repr

namespace TreeError

def message : TreeError → String
  | null => "Change tree is null"
  | noObject kind => "Change tree root must be a JSON object, found " ++ kind

end TreeError

/-- A change tree, given by the properties of its root. -/
structure ChangeTree where
  properties : Option Json

namespace ChangeTree

/-- The change tree that a value holds. -/
def ofJson (root : Json) : Except TreeError ChangeTree :=
  match root with
  | .obj _ => .ok ⟨root.get? "properties"⟩
  | .null => .error .null
  | j => .error (.noObject j.kind)

/-- The items of a bucket: a list of wrappers or a single wrapper. -/
def items (t : ChangeTree) (p : Partition) (b : Bucket) : List Json :=
  let items? := (((t.properties.bind (Json.get? p.key)).bind (Json.get? "properties")).bind
    (Json.get? b.key)).bind (Json.get? "items")
  match items? with
  | some (.arr js) => js
  | some (.obj es) => [.obj es]
  | _ => []

/-- The named nodes in a wrapper. -/
def wrapped? (wrapper : Json) : Option (Entries Json) :=
  (wrapper.get? "properties").bind Json.entries?

/-- The wrappers of a bucket, each with its named nodes. -/
def wrappers (t : ChangeTree) (p : Partition) (b : Bucket) : List (Entries Json) :=
  (t.items p b).filterMap wrapped?

/-- A node that can be read. -/
def child? {α : Type} (read : Json → Option α) (e : String × Json) : Option (Child α) :=
  (read e.2).map fun node => ⟨e.1, node⟩

/-- Every node of a bucket, in order. -/
def children {α : Type} (read : Json → Option α) (t : ChangeTree) (p : Partition) (b : Bucket) :
    List (Child α) :=
  (t.wrappers p b).flatMap fun w => w.filterMap (child? read)

/-- The first node of each wrapper of a bucket, in order. -/
def firstChildren {α : Type} (read : Json → Option α) (t : ChangeTree) (p : Partition)
    (b : Bucket) : List (Child α) :=
  (t.wrappers p b).filterMap fun w => w.head?.bind (child? read)

theorem mem_children_iff {α : Type} (read : Json → Option α) (t : ChangeTree) (p : Partition)
    (b : Bucket) (c : Child α) :
    c ∈ t.children read p b ↔
      ∃ w ∈ t.wrappers p b, ∃ j, (c.key, j) ∈ w ∧ read j = some c.node := by
  constructor
  · intro h
    obtain ⟨w, hw, hc⟩ := List.mem_flatMap.1 h
    obtain ⟨e, he, hr⟩ := List.mem_filterMap.1 hc
    obtain ⟨n, hn, rfl⟩ := Option.map_eq_some_iff.1 hr
    exact ⟨w, hw, e.2, he, hn⟩
  · rintro ⟨w, hw, j, hj, hr⟩
    exact List.mem_flatMap.2 ⟨w, hw, List.mem_filterMap.2 ⟨_, hj, by simp [child?, hr]⟩⟩

end ChangeTree

end AlterScript
