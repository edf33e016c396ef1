/-
  Key columns of tables that are altered column by column.

  `Script.keyColumns_stay_iff`: the statements of a table drop no column of its primary key exactly
  if the key columns carry the flag that the kind of statement asks for. A deleted node looks for
  the flags of a composite key and a modified one for the flag of a primary key; neither looks at
  the key columns that the description of the table refers to.
-/
import AlterScript.Proofs.ColumnStatements

namespace AlterScript

namespace Table

variable {s : Scope} {d : Direction} {t : Table} {key : String} {own : List Command}

/-- The columns of the primary key that the table has when it is made from given columns. -/
def keyColumns (s : Scope) (t : Table) (columns : Entries Field) : List String :=
  let ids := ColumnIds.ofFields columns ++ t.columnIds s.definitions
  t.partitionKey columns ids ++ (t.clusteringKey columns ids).map ClusteringColumn.name

/-- A created table has these columns in its primary key. -/
theorem key_of_create {target : QualifiedName} {columns : Entries Field} {options : Options}
    {comment : Option String} {cs : List Command}
    (h : t.create s target columns options comment = .ok cs) :
    ∃ definition, cs = [.createTable definition] ∧
      definition.partitionKey ++ definition.clusteringKey.map ClusteringColumn.name =
        t.keyColumns s columns := by
  simp only [create, bind_eq_ok_iff, pure_eq_ok_iff] at h
  obtain ⟨typed, _, rfl⟩ := h
  exact ⟨_, rfl, rfl⟩

/-- The flags of the columns keep columns from being dropped: of a deleted node those for a
    composite key, and of a modified one that for a primary key. -/
structure Guarded (s : Scope) (d : Direction) (t : Table) (names : List String) : Prop where
  deleted : d = .delete → ∀ e ∈ t.columns, e.1 ∈ names →
    ∀ type, s.typeOf e.2 e.1 = .ok (some type) → e.2.inCompositeKey = true
  displaced : d = .update → ∀ e ∈ t.changedColumns, ∀ old new, e.2.Displaced s e.1 old new →
    old ∈ names → e.2.primaryKey = true

/-- No column of a list asks for a drop exactly if all are guarded. -/
theorem forall_not_drops_iff (names : List String) :
    (∀ name ∈ names, ¬ t.Drops s d name) ↔ t.Guarded s d names := by
  constructor
  · intro h
    refine ⟨?_, ?_⟩
    · rintro rfl e he hname type htype
      by_contra hkey
      exact h e.1 hname ⟨e, he, .deleted (by simpa using hkey) htype⟩
    · rintro rfl e he old new hdisplaced hold
      obtain ⟨hmem, hchanged⟩ := List.mem_filter.1 he
      by_contra hkey
      exact h old hold ⟨e, hmem, .displaced hchanged (by simpa using hkey) hdisplaced⟩
  · rintro hguarded name hname ⟨⟨n, f⟩, he, hdropped⟩
    cases hdropped with
    | deleted hkey htype =>
      have hflag := hguarded.deleted rfl _ he hname _ htype
      exact Bool.false_ne_true (hkey.symm.trans hflag)
    | displaced hchanged hkey hdisplaced =>
      have hflag :=
        hguarded.displaced rfl _ (List.mem_filter.2 ⟨he, hchanged⟩) _ _ hdisplaced hname
      exact Bool.false_ne_true (hkey.symm.trans hflag)

/-- The commands of a table drop no column of a list exactly if all are guarded. -/
theorem forall_dropColumn_notMem_iff {c : TableComparison} (hc : t.ByColumn s c)
    (h : t.commands s d key = .ok own) (names : List String) :
    (∀ name ∈ names, ∀ q, .dropColumn q name ∉ own) ↔ t.Guarded s d names := by
  rw [← forall_not_drops_iff]
  refine forall₂_congr fun name _ => ?_
  constructor
  · intro hnone hdrops
    exact hnone _ ((dropColumn_mem_commands_iff h).2 ⟨c, hc, rfl, hdrops⟩)
  · intro hnone q hx
    obtain ⟨_, _, _, hdrops⟩ := (dropColumn_mem_commands_iff h).1 hx
    exact hnone hdrops

end Table

namespace Script

/-- A table of a tree that is altered column by column drops no column of its primary key exactly if
    flags guard the key columns, from whichever columns the key is made. The statements in question
    are part of the script of the tree, and there is one if the resolver always answers. -/
theorem keyColumns_stay_iff (resolver : Resolver) (references : References) (mode : Mode)
    {root : Json} {t : ChangeTree} (ht : ChangeTree.ofJson root = .ok t) {b : Bucket}
    {n : Child Table} (hn : n ∈ t.children Table.ofJson? .tables b) {c : TableComparison}
    (hc : n.node.ByColumn (scope resolver references mode.legacy t) c) (columns : Entries Field) :
    (resolver.Answers → ∃ final,
      ofTree resolver references { mode with applyDrops := true } root = .ok final) ∧
    ∀ final, ofTree resolver references { mode with applyDrops := true } root = .ok final →
    ∃ own,
      n.node.commands (scope resolver references mode.legacy t) (.ofBucket b) n.key = .ok own ∧
      (∀ x ∈ own, x.statement ∈ final) ∧
      ((∀ name ∈ n.node.keyColumns (scope resolver references mode.legacy t) columns,
          ∀ q, (Command.dropColumn q name).statement ∉ own.map Command.statement) ↔
        n.node.Guarded (scope resolver references mode.legacy t) (.ofBucket b)
          (n.node.keyColumns (scope resolver references mode.legacy t) columns)) := by
  refine ⟨fun hr => exists_ofTree_eq_ok hr references _ ht, fun final hfinal => ?_⟩
  obtain ⟨cs, hcs, rfl⟩ := (ofTree_eq_ok_iff_of_ofJson ht).1 hfinal
  obtain ⟨own, hown⟩ := exists_table_commands hcs hn
  refine ⟨own, hown, fun x hx => statement_mem_ofStatements hcs hn hown hx, ?_⟩
  rw [← Table.forall_dropColumn_notMem_iff hc hown]
  refine forall₂_congr fun name _ => forall_congr' fun q => not_congr ?_
  exact Command.statement_mem_map_iff (a := .drop name)

/-- A deleted node of which the description refers to its key column by the id. The column has no
    flag. -/
def retiredTenant : Json :=
  let role : Json := .obj [("code", .str "users"), ("compMod", .obj [("keyspaceName", .str "app")]),
    ("compositePartitionKey", .arr [.obj [("keyId", .str "g1")]])]
  let tenant : Json := .obj [("type", .str "uuid"), ("GUID", .str "g1")]
  ChangeTree.rootOf .tables .deleted
    [("users", .obj [("role", role), ("properties", .obj [("tenant", tenant)])])]

def retiredTree : ChangeTree := ⟨retiredTenant.get? "properties"⟩

/-- The table as it is read. -/
def retiredTable : Table where
  role :=
    { code := some "users", comparison := some { keyspace := some "app" }
      partitionKey := [{ id := some "g1" }] }
  properties := some (.named [("tenant", { guid := some "g1", typeName := some "uuid" })])

/-- The key column is not guarded, so it is dropped. -/
theorem keyColumns_of_retiredTenant :
    ∃ final,
      ofTree Resolver.builtin .empty { applyDrops := true } retiredTenant = .ok final ∧
      retiredTable.keyColumns (scope Resolver.builtin .empty false retiredTree)
        retiredTable.allColumns = ["tenant"] ∧
      ∃ q, (Command.dropColumn q "tenant").statement ∈ final := by
  have ht : ChangeTree.ofJson retiredTenant = .ok retiredTree := rfl
  have hn : (⟨"users", retiredTable⟩ : Child Table) ∈
      retiredTree.children Table.ofJson? .tables .deleted := List.mem_singleton.2 rfl
  have hc : retiredTable.ByColumn (scope Resolver.builtin .empty false retiredTree)
      { keyspace := some "app" } := ⟨rfl, rfl, rfl, rfl, rfl⟩
  have hkey : retiredTable.keyColumns (scope Resolver.builtin .empty false retiredTree)
      retiredTable.allColumns = ["tenant"] := rfl
  obtain ⟨hexists, hall⟩ :=
    keyColumns_stay_iff Resolver.builtin .empty {} ht hn hc retiredTable.allColumns
  obtain ⟨final, hfinal⟩ := hexists Resolver.answers_builtin
  obtain ⟨own, _, hmem, hiff⟩ := hall final hfinal
  refine ⟨final, hfinal, hkey, ?_⟩
  by_contra hnone
  have hguarded := hiff.1 fun name hname q hx => by
    obtain rfl : name = "tenant" := by simpa [hkey] using hname
    obtain ⟨x, hx, hstatement⟩ := List.mem_map.1 hx
    exact hnone ⟨q, hstatement ▸ hmem x hx⟩
  have hflag := hguarded.deleted rfl ("tenant", { guid := some "g1", typeName := some "uuid" })
    (List.mem_singleton.2 rfl) (by simp [hkey]) "uuid" rfl
  exact Bool.false_ne_true hflag

end Script

end AlterScript
