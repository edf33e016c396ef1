/-
  Keys of tables that are created, and the columns that the statement defines.

  The columns without a known type are left out of a new table; the key is made of all columns. The
  key itself depends on a partition key, and the clustering order does not. `Script.keyDefined_iff`:
  where the references of a table are by ids of its columns, its key is one of defined columns, and
  the order one of key columns, exactly if the types of all key columns are known, and there is a
  partition key or no order.
-/
import AlterScript.Proofs.ColumnStatements
import AlterScript.Proofs.MergedColumns
import AlterScript.Proofs.Restoration

namespace AlterScript

/-! ## Definitions -/

namespace TableDefinition

/-- The columns that the primary key names; without a partition key there is none. -/
def primaryKeyNames (d : TableDefinition) : List String :=
  if d.partitionKey.isEmpty then []
  else d.partitionKey ++ d.clusteringKey.map ClusteringColumn.name

/-- The columns that the clustering order names. -/
def orderedNames (d : TableDefinition) : List String :=
  d.clusteringKey.filterMap fun c => c.order.map fun _ => c.name

/-- The primary key names columns of the table, and the clustering order columns of the key. -/
structure KeyDefined (d : TableDefinition) : Prop where
  key : ∀ name ∈ d.primaryKeyNames, name ∈ d.columns.map Column.name
  order : ∀ name ∈ d.orderedNames, name ∈ d.primaryKeyNames

variable {d : TableDefinition}

theorem mem_primaryKeyNames {name : String} (h : name ∈ d.primaryKeyNames) :
    name ∈ d.partitionKey ∨ name ∈ d.clusteringKey.map ClusteringColumn.name := by
  rw [primaryKeyNames] at h
  split at h
  · exact absurd h List.not_mem_nil
  · exact List.mem_append.1 h

/-- Without a partition key no order is one of key columns, and with one every order is. -/
theorem orderedNames_subset_iff :
    (∀ name ∈ d.orderedNames, name ∈ d.primaryKeyNames) ↔
      d.partitionKey ≠ [] ∨ d.orderedNames = [] := by
  by_cases hkey : d.partitionKey = []
  · have hnone : d.primaryKeyNames = [] := if_pos (by rw [hkey]; rfl)
    rw [hnone]
    simp only [List.not_mem_nil, hkey, ne_eq, not_true_eq_false, false_or]
    exact List.eq_nil_iff_forall_not_mem.symm
  · have hsome : d.primaryKeyNames =
        d.partitionKey ++ d.clusteringKey.map ClusteringColumn.name := if_neg (by simpa using hkey)
    refine iff_of_true (fun name hname => ?_) (.inl hkey)
    obtain ⟨c, hc, horder⟩ := List.mem_filterMap.1 hname
    obtain ⟨_, _, rfl⟩ := Option.map_eq_some_iff.1 horder
    rw [hsome]
    exact List.mem_append_right _ (List.mem_map_of_mem hc)

/-- The table that the description of a node gives with these columns. -/
structure MadeFrom (s : Scope) (t : Table) (columns : Entries Field) (d : TableDefinition) :
    Prop where
  typed : s.columns columns = .ok d.columns
  partitionKey : d.partitionKey =
    t.partitionKey columns (ColumnIds.ofFields columns ++ t.columnIds s.definitions)
  clusteringKey : d.clusteringKey =
    t.clusteringKey columns (ColumnIds.ofFields columns ++ t.columnIds s.definitions)

theorem MadeFrom.mem_columns_iff {s : Scope} {t : Table} {columns : Entries Field}
    (h : d.MadeFrom s t columns) (name : String) :
    name ∈ d.columns.map Column.name ↔
      ∃ f type, (name, f) ∈ columns ∧ s.typeOf f name = .ok (some type) := by
  rw [List.mem_map]
  constructor
  · rintro ⟨c, hc, rfl⟩
    obtain ⟨⟨_, f⟩, he, rfl, htype⟩ := (Scope.mem_columns_iff h.typed).1 hc
    exact ⟨f, c.type, he, htype⟩
  · rintro ⟨f, type, he, htype⟩
    exact ⟨⟨name, type⟩, (Scope.mem_columns_iff h.typed).2 ⟨_, he, rfl, htype⟩, rfl⟩

end TableDefinition

/-! ## Columns with distinct names -/

namespace Entries

variable {α : Type}

theorem mem_keys_of_mem_keys_putAll {key : String} {es more : Entries α}
    (h : key ∈ keys (putAll es more)) : key ∈ keys es ∨ key ∈ keys more := by
  induction more generalizing es with
  | nil => exact .inl h
  | cons e more ih =>
    rcases ih h with h | h
    · rcases (mem_keys_put e.1 key e.2 es).1 h with rfl | h
      · exact .inr (.head _)
      · exact .inl h
    · exact .inr (.tail _ h)

/-- Where no entry is lost, no two had one name. -/
theorem keys_nodup_of_length {es : List (String × α)} (h : (ofList es).length = es.length) :
    (keys es).Nodup := by
  have hsubset : keys (ofList es) ⊆ keys es := fun key hkey =>
    (mem_keys_of_mem_keys_putAll hkey).resolve_left List.not_mem_nil
  have hperm : (keys (ofList es)).Perm (keys es) := by
    refine (List.subperm_of_subset (keys_nodup_ofList es) hsubset).perm_of_length_le ?_
    rw [keys, keys, List.length_map, List.length_map]
    exact Nat.le_of_eq h.symm
  exact hperm.nodup_iff.1 (keys_nodup_ofList es)

end Entries

/-! ## Columns of the key -/

theorem ColumnIds.resolve_mem {columns : Entries Field} {rest : ColumnIds} {k : KeyReference}
    {name : String} (hk : ∃ e ∈ columns, k.id.isSome = true ∧ e.2.guid = k.id)
    (h : (ColumnIds.ofFields columns ++ rest).resolve k = some name) :
    ∃ f, (name, f) ∈ columns := by
  obtain ⟨e, he, hid, hguid⟩ := hk
  obtain ⟨id, hid⟩ := Option.isSome_iff_exists.1 hid
  have hfound : (List.find? (fun e => e.2 == some id) (ofFields columns)).isSome = true := by
    rw [List.find?_isSome]
    exact ⟨(e.1, e.2.guid), List.mem_map_of_mem he, by simp [hguid, hid]⟩
  obtain ⟨found, hfound⟩ := Option.isSome_iff_exists.1 hfound
  obtain ⟨own, hown, rfl⟩ := List.mem_map.1 (List.mem_of_find?_eq_some hfound)
  have hresolved : (ColumnIds.ofFields columns ++ rest).resolve k = some own.1 := by
    rw [resolve, hid, Option.bind_some, find?, List.find?_append, hfound]
    rfl
  obtain rfl := Option.some.inj (hresolved.symm.trans h)
  exact ⟨own.2, hown⟩

namespace Table

variable {s : Scope} {d : Direction} {t : Table} {key : String} {own : List Command}
  {columns : Entries Field} {definition : TableDefinition}

/-- Every reference of the key is by the id of one of the columns; also where there is none. -/
def KeyedByIds (t : Table) (columns : Entries Field) : Prop :=
  ∀ k ∈ t.role.partitionKey ++ t.role.clusteringKey,
    ∃ e ∈ columns, k.id.isSome = true ∧ e.2.guid = k.id

theorem mem_orElseList {α : Type} {xs ys : List α} {x : α} (h : x ∈ orElseList xs ys) :
    x ∈ xs ∨ x ∈ ys := by
  rw [orElseList] at h
  split at h
  · exact .inr h
  · exact .inl h

theorem mem_of_mem_flagged {flag : Field → Bool} {name : String} (h : name ∈ flagged flag columns) :
    ∃ f, (name, f) ∈ columns := by
  obtain ⟨e, he, rfl⟩ := List.mem_map.1 h
  exact ⟨e.2, List.mem_of_mem_filter he⟩

/-- The key is made of columns, flagged or referred to. -/
theorem mem_of_mem_primaryKeyNames (hmade : definition.MadeFrom s t columns)
    (hkey : t.KeyedByIds columns) {name : String} (h : name ∈ definition.primaryKeyNames) :
    ∃ f, (name, f) ∈ columns := by
  rcases TableDefinition.mem_primaryKeyNames h with h | h
  · rw [hmade.partitionKey] at h
    rcases mem_orElseList h with h | h
    · obtain ⟨k, hk, hname⟩ := List.mem_filterMap.1 h
      exact ColumnIds.resolve_mem (hkey k (List.mem_append_left _ hk)) hname
    · rcases mem_orElseList h with h | h
      · exact mem_of_mem_flagged h
      · exact mem_of_mem_flagged h
  · rw [hmade.clusteringKey] at h
    obtain ⟨c, hc, rfl⟩ := List.mem_map.1 h
    rcases mem_orElseList hc with hc | hc
    · obtain ⟨k, hk, hname⟩ := List.mem_filterMap.1 hc
      obtain ⟨column, hcolumn, rfl⟩ := Option.map_eq_some_iff.1 hname
      exact ColumnIds.resolve_mem (hkey k (List.mem_append_right _ hk)) hcolumn
    · obtain ⟨name, hname, rfl⟩ := List.mem_map.1 hc
      exact mem_of_mem_flagged hname

/-- The key of a table is one of defined columns, and its order one of key columns, exactly if the
    types of the key columns are known, and there is a partition key or no order. -/
theorem keyDefined_iff_of_madeFrom (hmade : definition.MadeFrom s t columns) :
    definition.KeyDefined ↔
      (∀ name ∈ definition.primaryKeyNames,
        ∃ f type, (name, f) ∈ columns ∧ s.typeOf f name = .ok (some type)) ∧
      (definition.partitionKey ≠ [] ∨ definition.orderedNames = []) := by
  rw [← TableDefinition.orderedNames_subset_iff]
  simp only [← hmade.mem_columns_iff]
  exact ⟨fun h => ⟨h.key, h.order⟩, fun h => ⟨h.1, h.2⟩⟩

/-! ## Tables that are made -/

/-- The columns that the table of a node is made from: of a new table those of the description, and
    of one that is created anew these with their changes. -/
inductive Made (s : Scope) (t : Table) : Entries Field → Prop
  | created {c : TableComparison} (hcomparison : t.role.comparison = some c)
      (hdeleted : c.deleted = false) (hcreated : c.created = true) : Made s t t.allColumns
  | anew {c : TableComparison} {old new : String} (hcomparison : t.role.comparison = some c)
      (hdeleted : c.deleted = false) (hcreated : c.created = false)
      (hreplaced : t.isReplaced c (t.columnIds s.definitions) = true)
      (hnames : names c = (some old, some new)) : Made s t t.mergedColumns

theorem Made.exists_comparison (h : t.Made s columns) :
    ∃ c, t.role.comparison = some c ∧ c.deleted = false := by
  cases h with
  | created hcomparison hdeleted => exact ⟨_, hcomparison, hdeleted⟩
  | anew hcomparison hdeleted => exact ⟨_, hcomparison, hdeleted⟩

theorem create_eq_ok {target : QualifiedName} {options : Options} {comment : Option String}
    (h : t.create s target columns options comment = .ok own) :
    ∃ definition, own = [.createTable definition] ∧ definition.MadeFrom s t columns := by
  simp only [create, bind_eq_ok_iff, pure_eq_ok_iff] at h
  obtain ⟨typed, htyped, rfl⟩ := h
  exact ⟨_, rfl, htyped, rfl, rfl⟩

/-- A table that is changed is created exactly if it is created anew, with the changed columns. -/
theorem createTable_mem_update {c : TableComparison} {target : QualifiedName} {withOptions : Bool}
    {commands : List Command} (h : t.update s c target withOptions commands = .ok own)
    (hcommands : ∀ x ∈ commands, x.level = .field) :
    (∀ definition, .createTable definition ∈ own → definition.MadeFrom s t t.mergedColumns ∧
      t.isReplaced c (t.columnIds s.definitions) = true ∧
      ∃ old new, names c = (some old, some new)) ∧
    ∀ old new, t.isReplaced c (t.columnIds s.definitions) = true →
      names c = (some old, some new) → ∃ definition, .createTable definition ∈ own := by
  rw [update] at h
  dsimp only at h
  split at h
  · rename_i hreplaced
    split at h
    · rename_i old new hnames
      simp only [replace, bind_eq_ok_iff, pure_eq_ok_iff] at h
      obtain ⟨created, hcreated, rfl⟩ := h
      obtain ⟨definition, rfl, hmade⟩ := create_eq_ok hcreated
      refine ⟨fun other hother => ?_, fun _ _ _ _ => ⟨definition, .tail _ (.head _)⟩⟩
      rcases List.mem_append.1 hother with hother | hother
      · obtain ⟨rfl⟩ : other = definition := by simpa using hother
        exact ⟨hmade, hreplaced, old, new, hnames⟩
      · have hlevel := level_of_mem_replaceIndexes hother
        exact Level.noConfusion hlevel
    · rename_i hnames
      obtain rfl := Except.ok.inj h
      exact ⟨fun _ hx => absurd hx List.not_mem_nil, fun old new _ h => absurd h (hnames old new)⟩
  · rename_i hreplaced
    obtain rfl := Except.ok.inj h
    refine ⟨fun other hother => ?_, fun _ _ h _ => absurd h hreplaced⟩
    rcases List.mem_append.1 hother with hother | hother
    · rcases List.mem_cons.1 hother with hother | hother
      · exact Command.noConfusion hother
      · exact Level.noConfusion (level_of_mem_alterIndexes hother)
    · exact Level.noConfusion (hcommands _ hother)

/-- What the comparison of a table asks for: nothing, to drop the table, to create it, or to change
    it, with statements for single columns. -/
theorem commands_cases (h : t.commands s d key = .ok own) :
    (t.role.comparison = none ∧ own = []) ∨ ∃ c, t.role.comparison = some c ∧
      ((c.deleted = true ∧ ∃ q, own = .dropTable q ::
          (t.currentIndexes (t.columnIds s.definitions) q.name).drops q) ∨
        (c.deleted = false ∧ c.created = true ∧ ∃ q created,
          t.create s q t.allColumns t.role.options t.role.comment = .ok created ∧
          own = created ++ (t.currentIndexes (t.columnIds s.definitions) q.name).creations q) ∨
        (c.deleted = false ∧ c.created = false ∧ ∃ q withOptions columns,
          (∀ x ∈ columns, Command.level x = .field) ∧
          t.update s c q withOptions columns = .ok own)) := by
  rw [commands] at h
  split at h
  · rename_i hnone
    exact .inl ⟨hnone, (Except.ok.inj h).symm⟩
  · rename_i c hc
    refine .inr ⟨c, hc, ?_⟩
    dsimp only at h
    split at h
    · rename_i hdeleted
      exact .inl ⟨hdeleted, _, (Except.ok.inj h).symm⟩
    · rename_i hdeleted
      rw [Bool.not_eq_true] at hdeleted
      split at h
      · rename_i hcreated
        simp only [bind_eq_ok_iff, pure_eq_ok_iff] at h
        obtain ⟨created, hcreate, rfl⟩ := h
        exact .inr (.inl ⟨hdeleted, hcreated, _, _, hcreate, rfl⟩)
      · rename_i hcreated
        rw [Bool.not_eq_true] at hcreated
        refine .inr (.inr ⟨hdeleted, hcreated, ?_⟩)
        split at h
        · exact ⟨_, _, _, fun x hx => absurd hx List.not_mem_nil, h⟩
        · obtain ⟨columns, hcolumns, h⟩ := bind_eq_ok_iff.1 h
          refine ⟨_, _, columns, fun x hx => ?_, h⟩
          obtain ⟨a, rfl⟩ := exists_alteration_of_mem_columns hcolumns hx
          exact Command.level_command _ a

/-- The statements of a table create it exactly if it is made from some columns, and from these. -/
theorem createTable_mem_commands (h : t.commands s d key = .ok own) :
    (∀ definition, .createTable definition ∈ own →
      ∃ columns, t.Made s columns ∧ definition.MadeFrom s t columns) ∧
    ∀ columns, t.Made s columns → ∃ definition, .createTable definition ∈ own := by
  rcases commands_cases h with ⟨hnone, rfl⟩ | ⟨c, hc, hcases⟩
  · refine ⟨fun _ hx => absurd hx List.not_mem_nil, fun columns hmade => ?_⟩
    obtain ⟨c, hc, _⟩ := hmade.exists_comparison
    exact absurd (hc.symm.trans hnone) (Option.some_ne_none c)
  · have hsame : ∀ {c'}, t.role.comparison = some c' → c' = c :=
      fun h => Option.some.inj (h.symm.trans hc)
    rcases hcases with ⟨hdeleted, q, rfl⟩ | ⟨hdeleted, hcreated, q, created, hcreate, rfl⟩ |
      ⟨hdeleted, hcreated, q, withOptions, columns, hcolumns, hupdate⟩
    · refine ⟨fun definition hx => ?_, fun columns hmade => ?_⟩
      · rcases List.mem_cons.1 hx with hx | hx
        · exact Command.noConfusion hx
        · exact Level.noConfusion (IndexSet.level_of_mem_drops hx)
      · obtain ⟨c', hc', hkept⟩ := hmade.exists_comparison
        obtain rfl := hsame hc'
        exact Bool.noConfusion (hdeleted.symm.trans hkept)
    · obtain ⟨definition, rfl, hmade⟩ := create_eq_ok hcreate
      refine ⟨fun other hx => ?_, fun _ _ => ⟨definition, .head _⟩⟩
      rcases List.mem_append.1 hx with hx | hx
      · obtain rfl := Command.createTable.inj (List.mem_singleton.1 hx)
        exact ⟨_, .created hc hdeleted hcreated, hmade⟩
      · exact Level.noConfusion (IndexSet.level_of_mem_creations hx)
    · obtain ⟨hmem, hexists⟩ := createTable_mem_update hupdate hcolumns
      refine ⟨fun definition hx => ?_, fun columns hmade => ?_⟩
      · obtain ⟨hmade, hreplaced, old, new, hnames⟩ := hmem definition hx
        exact ⟨_, .anew hc hdeleted hcreated hreplaced hnames, hmade⟩
      · cases hmade with
        | created hcomparison _ hnew =>
          obtain rfl := hsame hcomparison
          exact Bool.noConfusion (hcreated.symm.trans hnew)
        | anew hcomparison _ _ hreplaced hnames =>
          obtain rfl := hsame hcomparison
          exact hexists _ _ hreplaced hnames

theorem guid_merged (f : Field) (name : String) : (f.merged name).2.guid = f.guid := by
  rw [Field.merged]
  split <;> rfl

/-- Changes to columns do not change their ids, and where no two columns get one name, none is
    lost. -/
theorem keyedByIds_of_made (hmade : t.Made s columns)
    (hlength : columns.length = t.allColumns.length) (hkey : t.KeyedByIds t.allColumns) :
    t.KeyedByIds columns := by
  cases hmade with
  | created => exact hkey
  | anew =>
    have hnodup : (Entries.keys (t.allColumns.map fun c => c.2.merged c.1)).Nodup :=
      Entries.keys_nodup_of_length (hlength.trans (List.length_map _).symm)
    intro k hk
    obtain ⟨e, he, hid, hguid⟩ := hkey k hk
    have hmerged : e.2.merged e.1 ∈ t.allColumns.map fun c => c.2.merged c.1 :=
      List.mem_map_of_mem he
    refine ⟨e.2.merged e.1, Entries.mem_ofList_of_unique hmerged fun d hd hname => ?_, hid, ?_⟩
    · exact List.inj_on_of_nodup_map hnodup hd hmerged hname
    · rw [guid_merged, hguid]

end Table

namespace Script

/-- A table with references to its own columns by their ids, or without references: what its
    statement has for a key is made of its columns, unless two of them get one name, and it is
    defined, with an order of key columns, exactly if the types of all key columns are known, and
    there is a partition key or no order. -/
theorem keyDefined_iff (resolver : Resolver) (references : References) (mode : Mode) {root : Json}
    {t : ChangeTree} (ht : ChangeTree.ofJson root = .ok t) {b : Bucket} {n : Child Table}
    (hn : n ∈ t.children Table.ofJson? .tables b) (hkey : n.node.KeyedByIds n.node.allColumns) :
    (resolver.Answers → ∃ final, ofTree resolver references mode root = .ok final) ∧
    ∀ final, ofTree resolver references mode root = .ok final →
    ∃ own,
      n.node.commands (scope resolver references mode.legacy t) (.ofBucket b) n.key = .ok own ∧
      (∀ columns, n.node.Made (scope resolver references mode.legacy t) columns →
        ∃ definition, .createTable definition ∈ own) ∧
      ∀ definition, .createTable definition ∈ own →
        (Command.createTable definition).statement ∈ final ∧
        ∃ columns, n.node.Made (scope resolver references mode.legacy t) columns ∧
          (columns.length = n.node.allColumns.length →
            ∀ name ∈ definition.primaryKeyNames, ∃ f, (name, f) ∈ columns) ∧
          (definition.KeyDefined ↔
            (∀ name ∈ definition.primaryKeyNames, ∃ f type, (name, f) ∈ columns ∧
              (scope resolver references mode.legacy t).typeOf f name = .ok (some type)) ∧
            (definition.partitionKey ≠ [] ∨ definition.orderedNames = [])) := by
  refine ⟨fun hr => exists_ofTree_eq_ok hr references mode ht, fun final hfinal => ?_⟩
  obtain ⟨cs, hcs, rfl⟩ := (ofTree_eq_ok_iff_of_ofJson ht).1 hfinal
  obtain ⟨own, hown⟩ := exists_table_commands hcs hn
  obtain ⟨hmem, hexists⟩ := Table.createTable_mem_commands hown
  refine ⟨own, hown, hexists, fun definition hdefinition => ⟨?_, ?_⟩⟩
  · refine (mem_ofStatements_iff _ _ _).2 ⟨_, List.mem_map_of_mem ?_, if_neg ?_⟩
    · exact (mem_commands_iff hcs).2 (.inl ⟨b, n, hn, own, hown, hdefinition⟩)
    · simp [Statement.isDestructive, Command.action]
  · obtain ⟨columns, hmade, hfrom⟩ := hmem definition hdefinition
    refine ⟨columns, hmade, fun hlength name hname => ?_, Table.keyDefined_iff_of_madeFrom hfrom⟩
    exact Table.mem_of_mem_primaryKeyNames hfrom (Table.keyedByIds_of_made hmade hlength hkey) hname

/-- A new table with the key flag on a column of a type that is not known. -/
def newPlaces : Json :=
  let area : Json := .obj [("type", .str "geometry"), ("primaryKey", .bool true)]
  let name : Json := .obj [("type", .str "string")]
  let role : Json := .obj [("code", .str "places"),
    ("compMod", .obj [("created", .bool true), ("keyspaceName", .str "app")])]
  ChangeTree.rootOf .tables .added
    [("places", .obj [("role", role), ("properties", .obj [("area", area), ("name", name)])])]

def placesTree : ChangeTree := ⟨newPlaces.get? "properties"⟩

/-- The table as it is read. -/
def placesTable : Table where
  role := { code := some "places", comparison := some { created := true, keyspace := some "app" } }
  properties := some (.named
    [("area", { typeName := some "geometry", primaryKey := true }),
      ("name", { typeName := some "string" })])

/-- The key is a column of the table that the statement does not define. -/
theorem not_keyDefined_of_newPlaces :
    placesTable.KeyedByIds placesTable.allColumns ∧
    ∃ final definition,
      ofTree Resolver.builtin .empty {} newPlaces = .ok final ∧
      (Command.createTable definition).statement ∈ final ∧
      (Command.createTable definition).text = "CREATE TABLE IF NOT EXISTS \"app\".\"places\" (\n"
        ++ "\t\"name\" text,\n\tPRIMARY KEY ((\"area\"))\n);" ∧
      ¬ definition.KeyDefined := by
  have ht : ChangeTree.ofJson newPlaces = .ok placesTree := rfl
  have hn : (⟨"places", placesTable⟩ : Child Table) ∈
      placesTree.children Table.ofJson? .tables .added := List.mem_singleton.2 rfl
  have hkey : placesTable.KeyedByIds placesTable.allColumns :=
    fun k hk => absurd hk List.not_mem_nil
  obtain ⟨hexists, hall⟩ := keyDefined_iff Resolver.builtin .empty {} ht hn hkey
  obtain ⟨final, hfinal⟩ := hexists Resolver.answers_builtin
  obtain ⟨own, hown, hmade, hdefined⟩ := hall final hfinal
  obtain ⟨definition, hdefinition⟩ := hmade _ (.created rfl rfl rfl)
  have hone : own = [.createTable
      ⟨⟨some "app", "places"⟩, [⟨"name", "text"⟩], ["area"], [], []⟩] :=
    (Except.ok.inj hown).symm
  obtain rfl := Command.createTable.inj (List.mem_singleton.1 (hone ▸ hdefinition))
  obtain ⟨hfinal', columns, hmade, _, hiff⟩ := hdefined _ hdefinition
  refine ⟨hkey, final, _, hfinal, hfinal', rfl, fun h => ?_⟩
  obtain ⟨f, type, he, htype⟩ := (hiff.1 h).1 "area" (.head _)
  cases hmade with
  | created =>
    have hunknown : (scope Resolver.builtin .empty false placesTree).typeOf
        { typeName := some "geometry", primaryKey := true } "area" = .ok none := rfl
    rcases List.mem_cons.1 he with he | he
    · obtain rfl := (Prod.mk.inj he).2
      exact Option.some_ne_none type (Except.ok.inj (htype.symm.trans hunknown))
    · have hname := (Prod.mk.inj (List.mem_singleton.1 he)).1
      exact absurd hname (by decide)
  | anew hcomparison hdeleted hcreated =>
    obtain rfl := Option.some.inj hcomparison
    exact Bool.noConfusion hcreated

end Script

end AlterScript
