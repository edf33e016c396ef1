/-
  The names of indexes that are described without one.

  Such a name is made from the table and the column, and not from the part of the column, while the
  statement for an index says nothing where its name is taken. `Table.run_creations_of_unnamed`: of
  the indexes on one column just the first is created, so all of them are exactly if no column has
  two.
-/
import AlterScript.Proofs.IndexChanges

namespace AlterScript

/-! ## Names -/

theorem IndexDescription.defaultName_inj {table column other : String} :
    defaultName table column = defaultName table other ↔ column = other := by
  rw [defaultName, defaultName, String.append_left_inj, String.append_right_inj]

namespace Table

variable {ids : ColumnIds} {table : String} {ds : List IndexDescription}

/-- The name of an index without a name of its own is made from its column. -/
theorem name_of_mem_indexesOf (h : ∀ d ∈ ds, d.name = none) {x : Index}
    (hx : x ∈ indexesOf ids table ds) :
    x.name = IndexDescription.defaultName table x.column := by
  obtain ⟨d, hd, hindex⟩ := List.mem_filterMap.1 hx
  obtain ⟨column, _, rfl⟩ := Option.map_eq_some_iff.1 hindex
  simp only [h d hd, Option.getD_none]

/-- Two such indexes have one name exactly if they are on one column. -/
theorem name_eq_iff_of_mem_indexesOf (h : ∀ d ∈ ds, d.name = none) {x y : Index}
    (hx : x ∈ indexesOf ids table ds) (hy : y ∈ indexesOf ids table ds) :
    x.name = y.name ↔ x.column = y.column := by
  rw [name_of_mem_indexesOf h hx, name_of_mem_indexesOf h hy, IndexDescription.defaultName_inj]

end Table

/-! ## Creations -/

namespace Command

variable {q : QualifiedName}

/-- A command leaves the names of a table's indexes distinct. -/
theorem nodup_secondaryAfter {indexes : List Index} (h : (indexes.map Index.name).Nodup)
    (c : Command) : ((c.secondaryAfter q indexes).map Index.name).Nodup := by
  cases c with
  | createIndex t x =>
    rw [secondaryAfter]
    split
    · rename_i hnew
      rw [List.map_append]
      exact h.append (List.nodup_singleton _) (by simpa using hnew.2)
    · exact h
  | dropIndex keyspace name =>
    rw [secondaryAfter]
    split
    · exact h.sublist (List.filter_sublist.map _)
    · exact h
  | _ => exact h

theorem nodup_foldl_secondaryAfter (cs : List Command) {indexes : List Index}
    (h : (indexes.map Index.name).Nodup) :
    ((cs.foldl (secondaryAfter q) indexes).map Index.name).Nodup := by
  induction cs generalizing indexes with
  | nil => exact h
  | cons c cs ih => exact ih (nodup_secondaryAfter h c)

/-- Of the indexes under one name, the one that is there stays, and else the first is created. -/
theorem mem_foldl_createIndex_iff {indexes new : List Index} {x : Index} :
    x ∈ (new.map (createIndex q)).foldl (secondaryAfter q) indexes ↔
      x ∈ indexes ∨
        x.name ∉ indexes.map Index.name ∧ new.find? (·.name = x.name) = some x := by
  induction new generalizing indexes with
  | nil => simp
  | cons y new ih =>
    rw [List.map_cons, List.foldl_cons, ih, secondaryAfter]
    by_cases hy : y.name ∈ indexes.map Index.name
    · rw [if_neg fun h => h.2 hy]
      refine or_congr_right (and_congr_right fun hx => ?_)
      rw [List.find?_cons_of_neg (by simpa using fun h : y.name = x.name => hx (h ▸ hy))]
    · rw [if_pos ⟨rfl, hy⟩, List.mem_append, List.mem_singleton, or_assoc]
      refine or_congr_right ?_
      by_cases hxy : y.name = x.name
      · rw [List.find?_cons_of_pos (by simpa using hxy), Option.some.injEq]
        constructor
        · rintro (rfl | ⟨hx, _⟩)
          · exact ⟨hy, rfl⟩
          · exact absurd (by simp [hxy]) hx
        · exact fun h => .inl h.2.symm
      · rw [List.find?_cons_of_neg (by simpa using hxy)]
        have hne : x ≠ y := fun h => hxy (h ▸ rfl)
        simp [hne, Ne.symm hxy]

end Command

namespace IndexSet

variable {q : QualifiedName} {i : IndexSet}

/-- No column is under two indexes for different parts of it. -/
def OnePart (i : IndexSet) : Prop :=
  ∀ x ∈ i.secondary, ∀ y ∈ i.secondary, x.column = y.column → x.part = y.part

theorem minus_empty (i : IndexSet) : i.minus {} = i := by
  obtain ⟨secondary, search⟩ := i
  by_cases h : search = [] <;> simp [minus, h]

/-- To create a set of indexes is to get to it from none. -/
theorem leads_creations (h : i.secondary.Nodup) : Leads q {} i (i.creations q) := by
  have hdrops : (({} : IndexSet).minus i).drops q = [] := by simp [minus, drops]
  refine ⟨fun c => ?_, ?_, ?_⟩
  · rw [hdrops, minus_empty, List.nil_append]
  · have hsecondary : (i.secondary.map (Command.createIndex q)).Nodup :=
      h.map fun x y hxy => (Command.createIndex.inj hxy).2
    refine hsecondary.append (by split <;> simp) fun c hc hsearch => ?_
    obtain ⟨x, _, rfl⟩ := List.mem_map.1 hc
    split at hsearch <;> simp at hsearch
  · refine List.pairwise_of_forall_mem_list fun c _ d hd _ => ?_
    rcases mem_creations_iff.1 hd with ⟨x, _, rfl⟩ | ⟨_, rfl⟩
    · exact fun h => Action.noConfusion h
    · exact fun h => Action.noConfusion h

/-- The secondary indexes after the creation of a set of indexes. -/
theorem foldl_creations (i : IndexSet) :
    (i.creations q).foldl (Command.secondaryAfter q) [] =
      (i.secondary.map (Command.createIndex q)).foldl (Command.secondaryAfter q) [] := by
  rw [creations, List.foldl_append]
  split <;> rfl

/-- Where names are distinct, all indexes are created. -/
theorem foldl_creations_of_nodup (h : (i.secondary.map Index.name).Nodup) :
    (i.creations q).foldl (Command.secondaryAfter q) [] = i.secondary := by
  have hleads : Leads q {} i (i.creations q) := leads_creations h.of_map
  have hcreated : (i.creations q).filterMap Command.created? = i.secondary := by
    rw [creations, List.filterMap_append, List.filterMap_map]
    split <;> simp [Function.comp_def, Command.created?]
  rw [Command.foldl_secondaryAfter (fun c hc => hleads.onIndexes hc) hleads.dropsFirst
    (by rwa [hcreated]) fun x hx => absurd (List.mem_filter.1 hx).1 List.not_mem_nil, hcreated]
  rfl

end IndexSet

/-! ## Indexes without names -/

namespace Table

variable {ids : ColumnIds} {table : String} {t : Table}

/-- The names of indexes that are described without one are distinct exactly if no column is under
    two of them. -/
theorem nodup_names_iff (h : ∀ d ∈ t.role.indexes, d.name = none)
    (hpairs : ((t.currentIndexes ids table).secondary.map fun x => (x.column, x.part)).Nodup) :
    ((t.currentIndexes ids table).secondary.map Index.name).Nodup ↔
      (t.currentIndexes ids table).OnePart := by
  rw [List.nodup_map_iff_inj_on hpairs.of_map]
  constructor
  · intro hinj x hx y hy hcolumn
    rw [hinj x hx y hy ((name_eq_iff_of_mem_indexesOf h hx hy).2 hcolumn)]
  · intro hpart x hx y hy hname
    have hcolumn := (name_eq_iff_of_mem_indexesOf h hx hy).1 hname
    exact List.inj_on_of_nodup_map hpairs hx hy (Prod.ext hcolumn (hpart x hx y hy hcolumn))

/-- The first index under a name is the first on a column. -/
theorem find?_name_iff (h : ∀ d ∈ t.role.indexes, d.name = none) {x : Index} :
    (t.currentIndexes ids table).secondary.find? (·.name = x.name) = some x ↔
      (t.currentIndexes ids table).secondary.find? (·.column = x.column) = some x := by
  simp only [List.find?_eq_some_iff_append, decide_true, true_and]
  refine exists_congr fun before => exists_congr fun behind => and_congr_right fun hsplit => ?_
  refine forall₂_congr fun y hy => ?_
  have hmem : ∀ z ∈ before ++ x :: behind, z ∈ (t.currentIndexes ids table).secondary := by
    intro z hz
    rwa [hsplit]
  have hname := name_eq_iff_of_mem_indexesOf h (hmem y (List.mem_append_left _ hy))
    (hmem x (List.mem_append_right _ (.head _)))
  simp only [Bool.not_eq_true', decide_eq_false_iff_not, hname]

/-- Indexes that are described without names, no two of them on the same part of the same column,
    are created on a table without indexes. Of those on one column just the first is there
    afterwards; their names are distinct, and all of them are there, exactly if no column is under
    two of them. -/
theorem run_creations_of_unnamed (t : Table) (ids : ColumnIds) (q : QualifiedName)
    (h : ∀ d ∈ t.role.indexes, d.name = none)
    (hpairs : ((t.currentIndexes ids q.name).secondary.map fun x => (x.column, x.part)).Nodup) :
    ∃ result,
      IndexSet.run q ((t.currentIndexes ids q.name).creations q) {} = some result ∧
      result.search = (t.currentIndexes ids q.name).search ∧
      (∀ x, x ∈ result.secondary ↔
        (t.currentIndexes ids q.name).secondary.find? (·.column = x.column) = some x) ∧
      (((t.currentIndexes ids q.name).secondary.map Index.name).Nodup ↔
        (t.currentIndexes ids q.name).OnePart) ∧
      (result.secondary = (t.currentIndexes ids q.name).secondary ↔
        (t.currentIndexes ids q.name).OnePart) := by
  have hleads : IndexSet.Leads q {} (t.currentIndexes ids q.name)
      ((t.currentIndexes ids q.name).creations q) := IndexSet.leads_creations hpairs.of_map
  refine ⟨⟨((t.currentIndexes ids q.name).creations q).foldl (Command.secondaryAfter q) [],
    (t.currentIndexes ids q.name).search⟩, ?_, rfl, fun x => ?_, nodup_names_iff h hpairs, ?_⟩
  · rw [IndexSet.run_eq, hleads.foldlM_searchAfter, Option.map_some]
  · rw [IndexSet.foldl_creations, Command.mem_foldl_createIndex_iff, ← find?_name_iff h]
    simp
  · rw [← nodup_names_iff h hpairs]
    refine ⟨fun hall => ?_, IndexSet.foldl_creations_of_nodup⟩
    exact hall ▸ Command.nodup_foldl_secondaryAfter _ List.nodup_nil

/-- A new table with two indexes on one map, on its keys and on its values. -/
def taggedUsers : Json :=
  let index (part : String) : Json :=
    .obj [("SecIndxKey", .arr [.obj [("name", .str "tags")]]), ("indexType", .str part)]
  let role : Json := .obj [("code", .str "users"),
    ("compMod", .obj [("created", .bool true), ("keyspaceName", .str "app")]),
    ("properties", .obj [("id", .obj [("type", .str "uuid"), ("primaryKey", .bool true)]),
      ("tags", .obj [("type", .str "map")])]),
    ("SecIndxs", .arr [index "keys", index "values"])]
  ChangeTree.rootOf .tables .added [("users", .obj [("role", role)])]

def taggedTree : ChangeTree := ⟨taggedUsers.get? "properties"⟩

/-- The table as it is read. -/
def taggedTable : Table where
  role :=
    { code := some "users"
      comparison := some { created := true, keyspace := some "app" }
      properties := some (.named
        [("id", { typeName := some "uuid", primaryKey := true }), ("tags", { typeName := some "map" })])
      indexes :=
        [{ keys := [{ name := some "tags" }], part := some "keys" },
          { keys := [{ name := some "tags" }], part := some "values" }] }

/-- Both indexes get one name, and the one on the values is not created. -/
theorem not_created_of_taggedUsers :
    taggedTree.children ofJson? .tables .added = [⟨"users", taggedTable⟩] ∧
    (∃ final, Script.ofTree Resolver.builtin .empty {} taggedUsers = .ok final ∧
      final.map Statement.text =
        ["CREATE TABLE IF NOT EXISTS \"app\".\"users\" (\n\t\"id\" uuid,\n\t\"tags\" map<text, text>,"
            ++ "\n\tPRIMARY KEY ((\"id\"))\n);",
          "CREATE INDEX IF NOT EXISTS \"users_tags_idx\" ON \"app\".\"users\" (KEYS(\"tags\"));",
          "CREATE INDEX IF NOT EXISTS \"users_tags_idx\" ON \"app\".\"users\" (VALUES(\"tags\"));"]) ∧
    ∃ result,
      IndexSet.run ⟨some "app", "users"⟩
        ((taggedTable.currentIndexes (taggedTable.columnIds []) "users").creations
          ⟨some "app", "users"⟩) {} = some result ∧
      ⟨"users_tags_idx", "tags", some .keys⟩ ∈ result.secondary ∧
      ⟨"users_tags_idx", "tags", some .values⟩ ∉ result.secondary ∧
      ¬ ((taggedTable.currentIndexes (taggedTable.columnIds []) "users").secondary.map
        Index.name).Nodup := by
  have hunnamed : ∀ d ∈ taggedTable.role.indexes, d.name = none := by decide
  have hpairs : ((taggedTable.currentIndexes (taggedTable.columnIds []) "users").secondary.map
      fun x => (x.column, x.part)).Nodup := by decide
  obtain ⟨result, hrun, _, hmem, hnames, _⟩ :=
    run_creations_of_unnamed taggedTable (taggedTable.columnIds []) ⟨some "app", "users"⟩ hunnamed
      hpairs
  refine ⟨rfl, ⟨_, rfl, rfl⟩, result, hrun, (hmem _).2 (by decide), fun h => ?_, fun h => ?_⟩
  · exact absurd ((hmem _).1 h) (by decide)
  · exact absurd (hnames.1 h _ (.head _) _ (.tail _ (.head _)) rfl) (by decide)

end Table

end AlterScript
