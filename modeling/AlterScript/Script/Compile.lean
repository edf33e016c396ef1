/-
  From a change tree to a script.

  `Script.commands` gives the statements node by node, before duplicates are dropped and an order is
  made; `Script.ofTree` gives the script.
-/
import AlterScript.Keyspace.Migration
import AlterScript.Script.Mode
import AlterScript.Script.Order
import AlterScript.Table.Migration
import AlterScript.UserType.Migration
import AlterScript.View.Migration

namespace AlterScript

/-- Why there is no script. -/
inductive CompileError
  | tree (error : TreeError)
  | resolve (error : ResolveError)
deriving DecidableEq, Repr

namespace CompileError

def message : CompileError → String
  | tree e => e.message
  | resolve e => e.message

end CompileError

namespace Script

/-- The statements of nodes one after the other, or the first failure. -/
def ofEach {α : Type} (commands : α → Except ResolveError (List Command)) :
    List α → Except ResolveError (List Command)
  | [] => .ok []
  | x :: r => do
    let first ← commands x
    let rest ← ofEach commands r
    return first ++ rest

/-- What the statements of the nodes of a tree depend on. -/
def scope (resolver : Resolver) (references : References) (legacy : Bool) (t : ChangeTree) :
    Scope where
  resolver := resolver
  references := references.merge (References.ofTree t)
  legacy := legacy
  definitions := (References.declared t).flatMap fun c => c.node.fields

def tables (s : Scope) (t : ChangeTree) (b : Bucket) : Except ResolveError (List Command) :=
  ofEach (fun c => c.node.commands s (.ofBucket b) c.key) (t.children Table.ofJson? .tables b)

def keyspaces (t : ChangeTree) (b : Bucket) : List Command :=
  (t.firstChildren Keyspace.ofJson? .keyspaces b).flatMap fun c =>
    c.node.commands (.ofBucket b)

def views (t : ChangeTree) (b : Bucket) : List Command :=
  (t.firstChildren View.ofJson? .views b).flatMap fun c => c.node.commands (.ofBucket b)

/-- The nodes of user-defined types; new types stand behind those they use. -/
def typeNodes (t : ChangeTree) (b : Bucket) : List (Child UserType) :=
  let nodes := t.firstChildren UserType.ofJson? .userTypes b
  match b with
  | .added => UserType.inOrder nodes
  | _ => nodes

def types (s : Scope) (t : ChangeTree) (b : Bucket) : Except ResolveError (List Command) :=
  ofEach (fun c => c.node.commands s (.ofBucket b) c.key) (typeNodes t b)

/-- The statements of all nodes, part by part and bucket by bucket. -/
def commands (s : Scope) (skipKeyspaces : Bool) (t : ChangeTree) :
    Except ResolveError (List Command) := do
  let tables ← ofEach (tables s t) [.modified, .added, .deleted]
  let types ← ofEach (types s t) [.added, .modified, .deleted]
  return tables
    ++ (if skipKeyspaces then [] else [.added, .modified, .deleted].flatMap (keyspaces t))
    ++ [.modified, .added, .deleted].flatMap (views t)
    ++ types

/-- The statements that a tree gives, before they are made a script. -/
def generated (resolver : Resolver) (references : References) (mode : Mode) (root : Json) :
    Except CompileError (List Statement) := do
  let t ← (ChangeTree.ofJson root).mapError .tree
  let s := scope resolver references mode.legacy t
  let cs ← (commands s mode.skipKeyspaces t).mapError .resolve
  return cs.map Command.statement

/-- The statements of the script for a tree. -/
def ofTree (resolver : Resolver) (references : References) (mode : Mode) (root : Json) :
    Except CompileError (List Statement) :=
  (generated resolver references mode root).map (ofStatements mode.applyDrops)

/-- The text of the script for a tree. -/
def compile (resolver : Resolver) (references : References) (mode : Mode) (root : Json) :
    Except CompileError String :=
  (ofTree resolver references mode root).map text

/-- Whether the change that a tree describes drops anything, applied or not. -/
def isDestructive (resolver : Resolver) (references : References) (mode : Mode) (root : Json) :
    Except CompileError Bool :=
  (generated resolver references mode root).map fun ss => ss.any Statement.isDestructive

/-- The drops of the script for a tree, as they would be applied. -/
def drops (resolver : Resolver) (references : References) (mode : Mode) (root : Json) :
    Except CompileError (List Statement) :=
  (ofTree resolver references { mode with applyDrops := true } root).map fun ss =>
    ss.filter Statement.isDestructive

end Script

end AlterScript
