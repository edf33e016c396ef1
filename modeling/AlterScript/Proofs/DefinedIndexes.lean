/-
  Indexes of tables that are created anew, and the columns that the new table defines.

  The new table has its columns under the names after their changes. Its indexes are made from
  references, and these are looked up among the columns as they are stored, without their changes
  (`Table.indexedColumns_replaceIndexes`, `Table.resolve_columnIds`). `Script.indexesDefined_iff`:
  the indexes are on columns that the table defines exactly if every column that they refer to is
  stored under a name that some column has after the changes.
-/
import AlterScript.Proofs.DefinedKeys
import AlterScript.Proofs.Recreation

namespace AlterScript

/-! ## Entries that are collected -/

namespace Entries

variable {α : Type}

theorem mem_of_mem_put {key : String} {value : α} {es : Entries α} {e : String × α}
    (h : e ∈ put key value es) : e = (key, value) ∨ e ∈ es := by
  induction es with
  | nil => exact .inl (List.mem_singleton.1 h)
  | cons first es ih => grind [put]

theorem mem_of_mem_putAll {es more : Entries α} {e : String × α} (h : e ∈ putAll es more) :
    e ∈ es ∨ e ∈ more := by
  induction more generalizing es with
  | nil => exact .inl h
  | cons first more ih =>
    rcases ih h with h | h
    · rcases mem_of_mem_put h with rfl | h
      · exact .inr (.head _)
      · exact .inl h
    · exact .inr (.tail _ h)

theorem mem_of_mem_ofList {es : List (String × α)} {e : String × α} (h : e ∈ ofList es) :
    e ∈ es :=
  (mem_of_mem_putAll h).resolve_left List.not_mem_nil

theorem mem_keys_putAll_of_mem {key : String} {es more : Entries α}
    (h : key ∈ keys es ∨ key ∈ keys more) : key ∈ keys (putAll es more) := by
  induction more generalizing es with
  | nil => exact h.resolve_right List.not_mem_nil
  | cons first more ih =>
    refine ih ?_
    rw [mem_keys_put]
    rcases h with h | h
    · exact .inl (.inr h)
    · rcases List.mem_cons.1 h with rfl | h
      · exact .inl (.inl rfl)
      · exact .inr h

theorem mem_keys_ofList_iff {key : String} {es : List (String × α)} :
    key ∈ keys (ofList es) ↔ key ∈ keys es :=
  ⟨fun h => (mem_keys_of_mem_keys_putAll h).resolve_left List.not_mem_nil,
    fun h => mem_keys_putAll_of_mem (.inr h)⟩

end Entries

/-! ## Columns under an index -/

/-- The columns of a table that a statement puts under an index. -/
def Command.indexedColumns (table : QualifiedName) : Command → List String
  | createIndex q i => if q = table then [i.column] else []
  | createSearchIndex q columns => if q = table then columns else []
  | _ => []

theorem IndexSet.indexedColumns_creations (i : IndexSet) (q : QualifiedName) :
    (i.creations q).flatMap (Command.indexedColumns q) =
      i.secondary.map Index.column ++ i.search := by
  have hsecondary : (i.secondary.map (Command.createIndex q)).flatMap (Command.indexedColumns q) =
      i.secondary.map Index.column := by
    rw [List.flatMap_map]
    induction i.secondary with
    | nil => rfl
    | cons x xs ih => rw [List.flatMap_cons, ih, Command.indexedColumns, if_pos rfl]; rfl
  rw [creations, List.flatMap_append, hsecondary]
  split
  · rename_i hnone
    rw [List.isEmpty_iff.1 hnone]
    rfl
  · rw [List.flatMap_singleton, Command.indexedColumns, if_pos rfl]

theorem IndexSet.indexedColumns_drops (i : IndexSet) (q table : QualifiedName) :
    (i.drops q).flatMap (Command.indexedColumns table) = [] := by
  rw [List.flatMap_eq_nil_iff]
  intro x hx
  rcases List.mem_append.1 hx with hx | hx
  · obtain ⟨_, _, rfl⟩ := List.mem_map.1 hx
    rfl
  · split at hx
    · exact absurd hx List.not_mem_nil
    · obtain rfl := List.mem_singleton.1 hx
      rfl

namespace Table

variable {s : Scope} {d : Direction} {t : Table} {key old new : String} {c : TableComparison}

/-- The references that the indexes of the new table are made from; of a secondary index this is
    the first. -/
def newIndexKeys (t : Table) : List KeyReference :=
  ((t.indexChange.bind Change.new).getD t.role.indexes).filterMap (fun i => i.keys.head?)
    ++ (t.searchChange.bind Change.new).getD t.role.searchColumns

theorem map_column_indexesOf (ids : ColumnIds) (table : String) (ds : List IndexDescription) :
    (indexesOf ids table ds).map Index.column =
      ids.resolveAll (ds.filterMap fun i => i.keys.head?) := by
  rw [indexesOf, List.map_filterMap, ColumnIds.resolveAll, List.filterMap_filterMap]
  refine List.filterMap_congr fun i _ => ?_
  rw [IndexDescription.index?, Option.map_map]
  exact Option.map_id'

/-- The indexes of the new table are on what their references mean. -/
theorem indexedColumns_replaceIndexes (t : Table) (ids : ColumnIds) (old new : QualifiedName) :
    (t.replaceIndexes ids old new).flatMap (Command.indexedColumns new) =
      ids.resolveAll t.newIndexKeys := by
  rw [replaceIndexes, List.flatMap_append, IndexSet.indexedColumns_drops,
    IndexSet.indexedColumns_creations, List.nil_append, indexesAt, map_column_indexesOf,
    newIndexKeys, ColumnIds.resolveAll, ColumnIds.resolveAll, ColumnIds.resolveAll,
    List.filterMap_append]

/-! ## Columns as they are stored -/

/-- The name under which the column with an id stands first in the sets of columns, changes
    aside. -/
def storedName (t : Table) (id : String) : Option String :=
  ((t.columnSources.flatMap FieldSet.named?).find? fun e => e.2.guid == some id).map Prod.fst

theorem mem_columnSources_of_mem_allColumns {e : String × Field} (he : e ∈ t.allColumns) :
    e ∈ t.columnSources.flatMap FieldSet.named? := by
  have hsource : ∀ {set : FieldSet Field}, set ∈ t.columnSources → e ∈ set.toEntries →
      e ∈ t.columnSources.flatMap FieldSet.named? := fun hset he =>
    List.mem_flatMap.2 ⟨_, hset, Entries.mem_of_mem_ofList he⟩
  have hcolumns : e ∈ t.columns → e ∈ t.columnSources.flatMap FieldSet.named? := by
    intro he
    cases hset : t.properties with
    | none =>
      rw [columns, hset] at he
      exact absurd he List.not_mem_nil
    | some set =>
      rw [columns, hset] at he
      exact hsource (List.mem_filterMap.2 ⟨_, .head _, hset⟩) he
  rw [allColumns] at he
  split at he
  · rename_i set hset
    split at he
    · exact hcolumns he
    · exact hsource (List.mem_filterMap.2 ⟨_, .tail _ (.head _), hset⟩) he
  · exact hcolumns he

/-- A reference by the id of one of the columns means a column as it is stored. -/
theorem resolve_columnIds {k : KeyReference} (definitions : List (String × Field))
    (hk : ∃ e ∈ t.allColumns, k.id.isSome = true ∧ e.2.guid = k.id) :
    (t.columnIds definitions).resolve k = k.id.bind t.storedName := by
  obtain ⟨e, he, hid, hguid⟩ := hk
  obtain ⟨id, hid⟩ := Option.isSome_iff_exists.1 hid
  have hids : t.columnIds definitions =
      (t.columnSources.flatMap FieldSet.named?).map (fun f => (f.1, f.2.guid)) ++
        ColumnIds.ofFields definitions := by
    rw [List.map_flatMap]
    rfl
  have hfound : ((t.columnSources.flatMap FieldSet.named?).find? fun e =>
      e.2.guid == some id).isSome = true := by
    rw [List.find?_isSome]
    exact ⟨e, mem_columnSources_of_mem_allColumns he, by simp [hguid, hid]⟩
  obtain ⟨found, hfound⟩ := Option.isSome_iff_exists.1 hfound
  have hstored : t.storedName id = some found.1 := by
    rw [storedName, hfound]
    rfl
  have hlookup : (t.columnIds definitions).find? id = some found.1 := by
    have hfirst : List.find? ((fun e => e.2 == some id) ∘ fun f : String × Field => (f.1, f.2.guid))
        (t.columnSources.flatMap FieldSet.named?) = some found := hfound
    rw [hids, ColumnIds.find?, List.find?_append, List.find?_map, hfirst]
    rfl
  rw [ColumnIds.resolve, hid, Option.bind_some, Option.bind_some, hlookup, hstored]
  rfl

/-! ## Tables that are created anew -/

/-- The table is dropped and created anew, from an old to a new name. -/
structure Anew (s : Scope) (t : Table) (c : TableComparison) (old new : String) : Prop where
  comparison : t.role.comparison = some c
  deleted : c.deleted = false
  created : c.created = false
  replaced : t.isReplaced c (t.columnIds s.definitions) = true
  names : names c = (some old, some new)

/-- The commands of a table that is created anew. -/
theorem commands_of_anew (h : t.Anew s c old new) {own : List Command}
    (hown : t.commands s d key = .ok own) :
    ∃ definition : TableDefinition,
      definition.target = QualifiedName.of c.keyspace new ∧
      definition.MadeFrom s t t.mergedColumns ∧
      own = .dropTable (QualifiedName.of c.keyspace old) :: .createTable definition ::
        t.replaceIndexes (t.columnIds s.definitions) (QualifiedName.of c.keyspace old)
          (QualifiedName.of c.keyspace new) := by
  have hupdate : ∃ withOptions columns,
      t.update s c (QualifiedName.of c.keyspace (t.label key)) withOptions columns = .ok own := by
    simp only [commands, h.comparison, h.deleted, h.created, Bool.false_eq_true, if_false] at hown
    split at hown
    · exact ⟨_, _, hown⟩
    · obtain ⟨columns, _, hown⟩ := bind_eq_ok_iff.1 hown
      exact ⟨_, columns, hown⟩
  obtain ⟨withOptions, columns, hupdate⟩ := hupdate
  obtain ⟨definition, htarget, htyped, hpartition, hclustering, rfl⟩ :=
    update_of_replaced h.replaced h.names hupdate
  simp only [QualifiedName.of_keyspace_of] at htarget ⊢
  exact ⟨definition, htarget, ⟨htyped, hpartition, hclustering⟩, rfl⟩

/-- The indexes of the new table are made from references by ids of its columns. -/
def IndexedByIds (t : Table) : Prop :=
  ∀ k ∈ t.newIndexKeys, ∃ e ∈ t.allColumns, k.id.isSome = true ∧ e.2.guid = k.id

/-- Every column of the new table has a type. -/
def MergedTyped (s : Scope) (t : Table) : Prop :=
  ∀ e ∈ t.mergedColumns, ∃ type, s.typeOf e.2 e.1 = .ok (some type)

/-- A table that is created anew defines its columns under the names after their changes. -/
theorem mem_columns_of_anew {definition : TableDefinition}
    (hmade : definition.MadeFrom s t t.mergedColumns) (htyped : t.MergedTyped s) (name : String) :
    name ∈ definition.columns.map Column.name ↔ ∃ e ∈ t.allColumns, (e.2.merged e.1).1 = name := by
  have hkeys : name ∈ Entries.keys t.mergedColumns ↔
      ∃ e ∈ t.allColumns, (e.2.merged e.1).1 = name := by
    rw [mergedColumns, Entries.mem_keys_ofList_iff, Entries.keys, List.map_map, List.mem_map]
    rfl
  rw [hmade.mem_columns_iff, ← hkeys, Entries.keys, List.mem_map]
  constructor
  · rintro ⟨f, type, he, _⟩
    exact ⟨_, he, rfl⟩
  · rintro ⟨e, he, rfl⟩
    obtain ⟨type, htype⟩ := htyped e he
    exact ⟨e.2, type, he, htype⟩

end Table

namespace Script

/-- A table that is created anew, with indexes on columns of its own: the indexes are on the columns
    as they are stored, and the new table defines all of them exactly if each is stored under a name
    that a column has after its change. -/
theorem indexesDefined_iff (resolver : Resolver) (references : References) (mode : Mode)
    {root : Json} {t : ChangeTree} (ht : ChangeTree.ofJson root = .ok t) {b : Bucket}
    {n : Child Table} (hn : n ∈ t.children Table.ofJson? .tables b) {c : TableComparison}
    {old new : String}
    (hanew : n.node.Anew (scope resolver references mode.legacy t) c old new)
    (hkeys : n.node.IndexedByIds)
    (htyped : n.node.MergedTyped (scope resolver references mode.legacy t)) :
    (resolver.Answers → ∃ final, ofTree resolver references mode root = .ok final) ∧
    ∀ final, ofTree resolver references mode root = .ok final →
    ∃ own definition,
      n.node.commands (scope resolver references mode.legacy t) (.ofBucket b) n.key = .ok own ∧
      (∀ other, .createTable other ∈ own ↔ other = definition) ∧
      definition.target = QualifiedName.of c.keyspace new ∧
      (∀ x ∈ own, x.action = .add → x.statement ∈ final) ∧
      own.flatMap (Command.indexedColumns definition.target) =
        n.node.newIndexKeys.filterMap (fun k => k.id.bind n.node.storedName) ∧
      ((∀ name ∈ own.flatMap (Command.indexedColumns definition.target),
          name ∈ definition.columns.map Column.name) ↔
        ∀ k ∈ n.node.newIndexKeys, ∀ name, k.id.bind n.node.storedName = some name →
          ∃ e ∈ n.node.allColumns, (e.2.merged e.1).1 = name) := by
  refine ⟨fun hr => exists_ofTree_eq_ok hr references mode ht, fun final hfinal => ?_⟩
  obtain ⟨cs, hcs, rfl⟩ := (ofTree_eq_ok_iff_of_ofJson ht).1 hfinal
  obtain ⟨own, hown⟩ := exists_table_commands hcs hn
  obtain ⟨definition, htarget, hmade, hshape⟩ := Table.commands_of_anew hanew hown
  have hindexed : own.flatMap (Command.indexedColumns definition.target) =
      n.node.newIndexKeys.filterMap (fun k => k.id.bind n.node.storedName) := by
    rw [hshape, htarget, List.flatMap_cons, List.flatMap_cons, Table.indexedColumns_replaceIndexes]
    exact List.filterMap_congr fun k hk => Table.resolve_columnIds _ (hkeys k hk)
  refine ⟨own, definition, hown, fun other => ?_, htarget, fun x hx hadd => ?_, hindexed, ?_⟩
  · rw [hshape]
    constructor
    · intro hother
      rcases List.mem_cons.1 hother with hother | hother
      · exact Command.noConfusion hother
      · rcases List.mem_cons.1 hother with hother | hother
        · exact Command.createTable.inj hother
        · exact Level.noConfusion (Table.level_of_mem_replaceIndexes hother)
    · rintro rfl
      exact .tail _ (.head _)
  · refine (mem_ofStatements_iff _ _ _).2 ⟨_, List.mem_map_of_mem ?_, if_neg ?_⟩
    · exact (mem_commands_iff hcs).2 (.inl ⟨b, n, hn, own, hown, hx⟩)
    · simp [Statement.isDestructive, hadd]
  · simp only [hindexed, Table.mem_columns_of_anew hmade htyped, List.mem_filterMap]
    constructor
    · intro h k hk name hname
      exact h name ⟨k, hk, hname⟩
    · rintro h name ⟨k, hk, hname⟩
      exact h k hk name hname

/-! ## A column that is renamed -/

/-- A table with a new name, the indexed clustering column of which is renamed. -/
def indexedMail : Json :=
  let named (name : String) : Json := .obj [("name", .str name)]
  let id : Json :=
    .obj [("type", .str "uuid"), ("primaryKey", .bool true), ("GUID", .str "g-id")]
  let mail : Json := .obj [("name", .str "mail"), ("type", .str "string"), ("GUID", .str "g-mail"),
    ("compMod", .obj [("oldField", named "mail"), ("newField", named "email")])]
  let reference : Json := .obj [("keyId", .str "g-mail")]
  let role : Json := .obj [("code", .str "people"),
    ("compMod", .obj [("keyspaceName", .str "app"),
      ("code", .obj [("old", .str "users"), ("new", .str "people")])]),
    ("properties", .obj [("id", id), ("mail", mail)]),
    ("compositeClusteringKey", .arr [reference]),
    ("SecIndxs", .arr [.obj [("name", .str "by_mail"), ("SecIndxKey", .arr [reference])]])]
  ChangeTree.rootOf .tables .modified
    [("people", .obj [("role", role), ("properties", .obj [("mail", mail)])])]

def indexedMailTree : ChangeTree := ⟨indexedMail.get? "properties"⟩

/-- The renamed column as it is read. -/
def mailToEmail : Field where
  name := some "mail"
  guid := some "g-mail"
  typeName := some "string"
  comparison := some { old := some { name := some "mail" }, new := some { name := some "email" } }

/-- What the comparison says of the table. -/
def usersToPeople : TableComparison where
  keyspace := some "app"
  code := some { old := some "users", new := some "people" }

/-- The table as it is read. -/
def indexedPeople : Table where
  role :=
    { code := some "people"
      comparison := some usersToPeople
      properties := some (.named
        [("id", { guid := some "g-id", typeName := some "uuid", primaryKey := true }),
          ("mail", mailToEmail)])
      clusteringKey := [{ id := some "g-mail" }]
      indexes := [{ name := some "by_mail", keys := [{ id := some "g-mail" }] }] }
  properties := some (.named [("mail", mailToEmail)])

/-- The key of the new table is on the column under its new name, and its index under the old name,
    which the table does not define. -/
theorem not_indexesDefined_of_indexedMail :
    indexedPeople.IndexedByIds ∧
    indexedPeople.MergedTyped (scope Resolver.builtin .empty false indexedMailTree) ∧
    ∃ final own, ∃ definition : TableDefinition,
      ofTree Resolver.builtin .empty { applyDrops := true } indexedMail = .ok final ∧
      indexedPeople.commands (scope Resolver.builtin .empty false indexedMailTree) .update "people" =
        .ok own ∧
      (Command.createTable definition).statement ∈ final ∧
      definition.columns.map Column.name = ["id", "email"] ∧
      definition.clusteringKey = [⟨"email", none⟩] ∧
      (Command.createIndex definition.target ⟨"by_mail", "mail", none⟩).statement ∈ final ∧
      own.flatMap (Command.indexedColumns definition.target) = ["mail"] ∧
      ¬ ∀ name ∈ own.flatMap (Command.indexedColumns definition.target),
        name ∈ definition.columns.map Column.name := by
  have ht : ChangeTree.ofJson indexedMail = .ok indexedMailTree := rfl
  have hn : (⟨"people", indexedPeople⟩ : Child Table) ∈
      indexedMailTree.children Table.ofJson? .tables .modified := List.mem_singleton.2 rfl
  have hanew : indexedPeople.Anew (scope Resolver.builtin .empty false indexedMailTree)
      usersToPeople "users" "people" := ⟨rfl, rfl, rfl, rfl, rfl⟩
  have hkeys : indexedPeople.IndexedByIds := by
    intro k hk
    obtain rfl := List.mem_singleton.1 hk
    exact ⟨("mail", mailToEmail), .tail _ (.head _), rfl, rfl⟩
  have htyped : indexedPeople.MergedTyped
      (scope Resolver.builtin .empty false indexedMailTree) := by
    intro e he
    rcases List.mem_cons.1 he with rfl | he
    · exact ⟨"uuid", rfl⟩
    · obtain rfl := List.mem_singleton.1 he
      exact ⟨"text", rfl⟩
  obtain ⟨hexists, hall⟩ :=
    indexesDefined_iff Resolver.builtin .empty { applyDrops := true } ht hn hanew hkeys htyped
  obtain ⟨final, hfinal⟩ := hexists Resolver.answers_builtin
  obtain ⟨own, definition, hown, hcreate, htarget, hadded, hindexed, hiff⟩ := hall final hfinal
  have hshape : own = [.dropTable ⟨some "app", "users"⟩, .createTable
      ⟨⟨some "app", "people"⟩, [⟨"id", "uuid"⟩, ⟨"email", "text"⟩], ["id"], [⟨"email", none⟩], []⟩,
      .dropIndex (some "app") "by_mail",
      .createIndex ⟨some "app", "people"⟩ ⟨"by_mail", "mail", none⟩] :=
    (Except.ok.inj hown).symm
  subst hshape
  obtain rfl := (hcreate _).1 (.tail _ (.head _))
  refine ⟨hkeys, htyped, final, _, _, hfinal, hown, hadded _ (.tail _ (.head _)) rfl, rfl, rfl,
    hadded _ (.tail _ (.tail _ (.tail _ (.head _)))) rfl, hindexed, fun h => ?_⟩
  obtain ⟨e, he, hname⟩ := hiff.1 h _ (.head _) "mail" rfl
  rcases List.mem_cons.1 he with rfl | he
  · exact absurd hname (by decide)
  · obtain rfl := List.mem_singleton.1 he
    exact absurd hname (by decide)

end Script

end AlterScript
