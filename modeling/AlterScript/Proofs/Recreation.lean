/-
  Tables that are created anew while another node is about the same table.

  `Script.agreesWith_recreated_iff`: with drops applied, the statements for single columns agree
  with the table as it is created anew exactly if every node that alters this table column by column
  asks only for additions of columns that the created table lacks and for drops of columns that it
  has. Each node decides for itself whether the table is created anew: nodes with one description
  agree on a new name and on another key, but not on changes of indexed columns
  (`Table.exists_byColumn_iff_of_role_eq`).
-/
import AlterScript.Proofs.ColumnStatements

namespace AlterScript

/-! ## Nodes -/

namespace TableComparison

/-- The comparison by itself asks for a new table: under another name or with another key. -/
def Restructures (c : TableComparison) : Prop :=
  Table.isRenamed (Table.names c) = true ∨ Change.differs? c.partitionKey = true ∨
    Change.differs? c.clusteringKey = true

end TableComparison

namespace Table

variable {s : Scope} {d : Direction} {t : Table} {key old new : String} {c : TableComparison}

/-- The table is dropped and created anew, from an old to a new name. -/
structure Recreated (s : Scope) (t : Table) (c : TableComparison) (old new : String) : Prop where
  comparison : t.role.comparison = some c
  created : c.created = false
  deleted : c.deleted = false
  modified : c.modified = false
  names : names c = (some old, some new)
  replaced : t.isReplaced c (t.columnIds s.definitions) = true

/-- A table that has to be created anew is dropped and created with its columns after the change. -/
theorem update_of_replaced {target : QualifiedName} {withOptions : Bool}
    {columns own : List Command}
    (hreplaced : t.isReplaced c (t.columnIds s.definitions) = true)
    (hnames : names c = (some old, some new))
    (h : t.update s c target withOptions columns = .ok own) :
    ∃ definition : TableDefinition,
      definition.target = QualifiedName.of target.keyspace new ∧
      s.columns t.mergedColumns = .ok definition.columns ∧
      definition.partitionKey = t.partitionKey t.mergedColumns
        (ColumnIds.ofFields t.mergedColumns ++ t.columnIds s.definitions) ∧
      definition.clusteringKey = t.clusteringKey t.mergedColumns
        (ColumnIds.ofFields t.mergedColumns ++ t.columnIds s.definitions) ∧
      own = .dropTable (QualifiedName.of target.keyspace old) :: .createTable definition ::
        t.replaceIndexes (t.columnIds s.definitions) (QualifiedName.of target.keyspace old)
          (QualifiedName.of target.keyspace new) := by
  simp only [update, hreplaced, if_true, hnames, replace, create, bind_eq_ok_iff,
    pure_eq_ok_iff] at h
  obtain ⟨_, ⟨typed, htyped, rfl⟩, rfl⟩ := h
  exact ⟨_, rfl, htyped, rfl, rfl, rfl⟩

/-- The commands of a table that is created anew. -/
theorem commands_of_recreated (hc : t.Recreated s c old new) {own : List Command}
    (h : t.commands s d key = .ok own) :
    ∃ definition : TableDefinition,
      definition.target = QualifiedName.of c.keyspace new ∧
      s.columns t.mergedColumns = .ok definition.columns ∧
      own = .dropTable (QualifiedName.of c.keyspace old) :: .createTable definition ::
        t.replaceIndexes (t.columnIds s.definitions) (QualifiedName.of c.keyspace old)
          (QualifiedName.of c.keyspace new) := by
  simp only [commands, hc.comparison, hc.deleted, hc.created, hc.modified, Bool.false_eq_true,
    if_false] at h
  obtain ⟨columns, _, hupdate⟩ := bind_eq_ok_iff.1 h
  obtain ⟨definition, htarget, htyped, -, -, rfl⟩ :=
    update_of_replaced hc.replaced hc.names hupdate
  simp only [QualifiedName.of_keyspace_of] at htarget ⊢
  exact ⟨definition, htarget, htyped, rfl⟩

/-- A node with the description of a table that is created anew is altered column by column exactly
    if nothing in the description asks for a new table, and no changed column of the node itself is
    under an index. -/
theorem exists_byColumn_iff_of_role_eq (hc : t.Recreated s c old new) {k : Table}
    (hrole : k.role = t.role) :
    (∃ c', k.ByColumn s c') ↔
      ¬ c.Restructures ∧ k.changesIndexed (k.columnIds s.definitions) = false := by
  have hkept : k.isReplaced c (k.columnIds s.definitions) = false ↔
      ¬ c.Restructures ∧ k.changesIndexed (k.columnIds s.definitions) = false := by
    simp only [isReplaced, TableComparison.Restructures, Bool.or_eq_false_iff, not_or,
      Bool.not_eq_true, and_assoc]
  have hcomparison : k.role.comparison = some c := by
    rw [hrole, hc.comparison]
  constructor
  · rintro ⟨c', hk⟩
    obtain rfl : c = c' := Option.some.inj (hcomparison.symm.trans hk.comparison)
    exact hkept.1 hk.kept
  · intro h
    exact ⟨c, hcomparison, hc.created, hc.deleted, hc.modified, hkept.2 h⟩

end Table

/-! ## Trees -/

/-- The statements for single columns agree with a table that is created: they add columns that the
    table lacks and drop columns that it has. -/
structure TableDefinition.AgreesWith (d : TableDefinition) (ss : List Statement) : Prop where
  added : ∀ column, (Command.addColumn d.target column).statement ∈ ss →
    column.name ∉ d.columns.map Column.name
  dropped : ∀ name, (Command.dropColumn d.target name).statement ∈ ss →
    name ∈ d.columns.map Column.name

namespace Script

/-- With drops applied, a table that is created anew agrees with the statements for its columns
    exactly if the tree asks only for additions of columns that it lacks and for drops of columns
    that it has. So it is if the description of the table asks for a new one and all nodes about the
    table have this description. There is a script if the resolver always answers. -/
theorem agreesWith_recreated_iff (resolver : Resolver) (references : References) (mode : Mode)
    {root : Json} {t : ChangeTree} (ht : ChangeTree.ofJson root = .ok t) {b : Bucket}
    {n : Child Table} (hn : n ∈ t.children Table.ofJson? .tables b) {c : TableComparison}
    {old new : String}
    (hc : n.node.Recreated (scope resolver references mode.legacy t) c old new) :
    (resolver.Answers → ∃ final,
      ofTree resolver references { mode with applyDrops := true } root = .ok final) ∧
    ∀ final, ofTree resolver references { mode with applyDrops := true } root = .ok final →
    ∃ definition : TableDefinition,
      definition.target = QualifiedName.of c.keyspace new ∧
      (scope resolver references mode.legacy t).columns n.node.mergedColumns =
        .ok definition.columns ∧
      (Command.dropTable (QualifiedName.of c.keyspace old)).statement ∈ final ∧
      (Command.createTable definition).statement ∈ final ∧
      (definition.AgreesWith final ↔
        (∀ column, AddsColumn (scope resolver references mode.legacy t) t definition.target column →
          column.name ∉ definition.columns.map Column.name) ∧
        (∀ name, DropsColumn (scope resolver references mode.legacy t) t definition.target name →
          name ∈ definition.columns.map Column.name)) ∧
      (c.Restructures →
        (∀ b, ∀ k ∈ t.children Table.ofJson? .tables b,
          k.node.target? k.key = some definition.target → k.node.role = n.node.role) →
        definition.AgreesWith final) := by
  refine ⟨fun hr => exists_ofTree_eq_ok hr references _ ht, fun final hfinal => ?_⟩
  obtain ⟨cs, hcs, rfl⟩ := (ofTree_eq_ok_iff_of_ofJson ht).1 hfinal
  obtain ⟨own, hown⟩ := exists_table_commands hcs hn
  obtain ⟨definition, htarget, hcolumns, rfl⟩ := Table.commands_of_recreated hc hown
  have hagrees : definition.AgreesWith (ofStatements true (cs.map Command.statement)) ↔
      (∀ column, AddsColumn (scope resolver references mode.legacy t) t definition.target column →
        column.name ∉ definition.columns.map Column.name) ∧
      (∀ name, DropsColumn (scope resolver references mode.legacy t) t definition.target name →
        name ∈ definition.columns.map Column.name) := by
    constructor
    · intro h
      refine ⟨fun column hadds => ?_, fun name hdrops => ?_⟩
      · exact h.added column ((addColumn_mem_ofStatements_iff hcs).2 hadds)
      · exact h.dropped name ((dropColumn_mem_ofStatements_iff hcs).2 hdrops)
    · rintro ⟨hadded, hdropped⟩
      refine ⟨fun column hx => ?_, fun name hx => ?_⟩
      · exact hadded column ((addColumn_mem_ofStatements_iff hcs).1 hx)
      · exact hdropped name ((dropColumn_mem_ofStatements_iff hcs).1 hx)
  refine ⟨definition, htarget, hcolumns,
    statement_mem_ofStatements hcs hn hown List.mem_cons_self,
    statement_mem_ofStatements hcs hn hown (List.mem_cons_of_mem _ List.mem_cons_self), hagrees,
    fun hrestructures hsame => ?_⟩
  -- A node with the description of this one creates the table anew as well.
  have hnone : ∀ b, ∀ k ∈ t.children Table.ofJson? .tables b, ∀ c',
      k.node.ByColumn (scope resolver references mode.legacy t) c' →
      definition.target ≠ QualifiedName.of c'.keyspace (k.node.label k.key) := by
    intro b k hk c' hc' htarget'
    have hrole : k.node.role = n.node.role := by
      refine hsame b k hk ?_
      rw [Table.target?, hc'.comparison, Option.map_some, htarget']
    exact ((Table.exists_byColumn_iff_of_role_eq hc hrole).1 ⟨c', hc'⟩).1 hrestructures
  refine hagrees.2 ⟨fun column hadds => ?_, fun name hdrops => ?_⟩
  · obtain ⟨b, k, hk, c', hc', htarget', _⟩ := hadds
    exact absurd htarget' (hnone b k hk c' hc')
  · obtain ⟨b, k, hk, c', hc', htarget', _⟩ := hdrops
    exact absurd htarget' (hnone b k hk c' hc')

/-! ## A table in three buckets -/

/-- One table: an indexed column is renamed, a column is added, and a column is deleted. -/
def reindexedUsers : Json :=
  let column (type : String) (more : Entries Json) : Json := .obj (("type", .str type) :: more)
  let email : Json := column "string" [("name", .str "email"),
    ("compMod", .obj [("oldField", .obj [("name", .str "mail")]),
      ("newField", .obj [("name", .str "email")])])]
  let role : Json := .obj [("code", .str "users"),
    ("compMod", .obj [("keyspaceName", .str "app"),
      ("code", .obj [("old", .str "users"), ("new", .str "users")])]),
    ("properties", .obj [("id", column "uuid" [("primaryKey", .bool true)]), ("email", email),
      ("age", column "int" [])]),
    ("SecIndxs", .arr [.obj [("name", .str "by_email"),
      ("SecIndxKey", .arr [.obj [("name", .str "email")]])]])]
  let bucket (b : Bucket) (columns : Entries Json) : String × Json :=
    (b.key, .obj [("items", .obj [("properties", .obj
      [("users", .obj [("role", role), ("properties", .obj columns)])])])])
  .obj [("properties", .obj [(Partition.tables.key, .obj [("properties", .obj
    [bucket .modified [("email", email)], bucket .added [("age", column "int" [])],
      bucket .deleted [("bio", column "string" [])]])])])]

def reindexedTree : ChangeTree := ⟨reindexedUsers.get? "properties"⟩

/-- The renamed column as it is read. -/
def renamedEmail : Field where
  name := some "email"
  typeName := some "string"
  comparison := some { old := some { name := some "mail" }, new := some { name := some "email" } }

/-- The comparison as it is read: the table keeps its name. -/
def sameName : TableComparison where
  keyspace := some "app"
  code := some { old := some "users", new := some "users" }

/-- The table with given columns as it is read. -/
def reindexedTable (columns : Entries Field) : Table where
  role :=
    { code := some "users", comparison := some sameName
      properties := some (.named
        [("id", { typeName := some "uuid", primaryKey := true }), ("email", renamedEmail),
          ("age", { typeName := some "int" })])
      indexes := [{ name := some "by_email", keys := [{ name := some "email" }] }] }
  properties := some (.named columns)

/-- The added node does not see that the modified one creates the table anew, so its column is added
    to a table that has it. -/
theorem not_agreesWith_of_reindexedUsers :
    ∃ final, ∃ definition : TableDefinition,
      ofTree Resolver.builtin .empty { applyDrops := true } reindexedUsers = .ok final ∧
      (Command.dropTable ⟨some "app", "users"⟩).statement ∈ final ∧
      (Command.createTable definition).statement ∈ final ∧
      definition.columns = [⟨"id", "uuid"⟩, ⟨"email", "text"⟩, ⟨"age", "int"⟩] ∧
      ¬ definition.AgreesWith final := by
  have ht : ChangeTree.ofJson reindexedUsers = .ok reindexedTree := rfl
  have hn : (⟨"users", reindexedTable [("email", renamedEmail)]⟩ : Child Table) ∈
      reindexedTree.children Table.ofJson? .tables .modified := List.mem_singleton.2 rfl
  have hk : (⟨"users", reindexedTable [("age", { typeName := some "int" })]⟩ : Child Table) ∈
      reindexedTree.children Table.ofJson? .tables .added := List.mem_singleton.2 rfl
  have hc : (reindexedTable [("email", renamedEmail)]).Recreated
      (scope Resolver.builtin .empty false reindexedTree) sameName "users" "users" :=
    ⟨rfl, rfl, rfl, rfl, rfl, rfl⟩
  obtain ⟨hexists, hall⟩ := agreesWith_recreated_iff Resolver.builtin .empty {} ht hn hc
  obtain ⟨final, hfinal⟩ := hexists Resolver.answers_builtin
  obtain ⟨definition, htarget, hcolumns, hdrop, hcreate, hiff, _⟩ := hall final hfinal
  have hcolumns : definition.columns = [⟨"id", "uuid"⟩, ⟨"email", "text"⟩, ⟨"age", "int"⟩] :=
    (Except.ok.inj hcolumns).symm
  refine ⟨final, definition, hfinal, hdrop, hcreate, hcolumns, fun hagrees => ?_⟩
  refine (hiff.1 hagrees).1 ⟨"age", "int"⟩ ?_ (by simp [hcolumns])
  exact ⟨.added, _, hk, sameName, ⟨rfl, rfl, rfl, rfl, rfl⟩, htarget,
    _, List.mem_singleton.2 rfl, .added rfl rfl rfl⟩

end Script

end AlterScript
