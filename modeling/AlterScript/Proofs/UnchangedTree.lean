/-
  Scripts for trees without a change.

  `text_eq_empty_iff` says when a script is empty. `ofTree_of_unchanged`: a tree of modified nodes
  only, the comparisons of which show no change, has an empty script without drops, unless it
  rebuilds a table for a column that is under an index and merely has a comparison.
  `ofTree_of_describedEmail` is such a table: only the description of its column changes, and it is
  dropped.
-/
import AlterScript.Proofs.DependencyOrder
import AlterScript.Proofs.Gating
import AlterScript.Proofs.Unchanged

namespace AlterScript

/-! ## Scripts -/

theorem Text.eq_empty_of_join_cons {separator s : String} {r : List String}
    (h : join separator (s :: r) = "") : s = "" := by
  cases r with
  | nil => exact h
  | cons t r =>
    rw [join_cons_cons] at h
    have := congrArg String.toList h
    simp only [String.toList_append, String.toList_empty, List.append_eq_nil_iff] at this
    simpa using this.1.1

namespace Script

theorem text_eq_empty_iff (ss : List Statement) :
    text ss = "" ↔ ∀ s ∈ ss, s.isBlank = true := by
  rw [text]
  cases hs : ss.filter fun s => !s.isBlank with
  | nil =>
    rw [List.filter_eq_nil_iff] at hs
    simpa using hs
  | cons s r =>
    have hmem : s ∈ ss.filter fun s => !s.isBlank := by
      rw [hs]
      exact List.mem_cons_self
    obtain ⟨hmem, hblank⟩ := List.mem_filter.1 hmem
    have hblank : s.isBlank = false := by simpa using hblank
    constructor
    · intro h
      have hempty : s.text = "" := Text.eq_empty_of_join_cons h
      simp [Statement.isBlank, Text.isBlank, hempty] at hblank
    · intro h
      rw [h s hmem] at hblank
      exact Bool.noConfusion hblank

end Script

/-! ## Trees -/

namespace ChangeTree

/-- A tree of modified nodes only, the comparisons of which show no change. -/
structure Unchanged (s : Scope) (t : ChangeTree) : Prop where
  modifiedOnly : ∀ p b, b ≠ .modified → t.wrappers p b = []
  tables : ∀ n ∈ t.children Table.ofJson? .tables .modified, n.node.Unchanged s
  keyspaces : ∀ n ∈ t.firstChildren Keyspace.ofJson? .keyspaces .modified, n.node.Unchanged
  views : ∀ n ∈ t.firstChildren View.ofJson? .views .modified, n.node.Unchanged
  types : ∀ n ∈ t.firstChildren UserType.ofJson? .userTypes .modified, n.node.Unchanged s

/-- Some table is dropped and created anew for a column that has a comparison. -/
def RebuildsIndexed (s : Scope) (t : ChangeTree) : Prop :=
  ∃ n ∈ t.children Table.ofJson? .tables .modified, n.node.RebuildsIndexed s

theorem exists_of_mem_firstChildren {α : Type} {read : Json → Option α} {t : ChangeTree}
    {p : Partition} {b : Bucket} {n : Child α} (h : n ∈ t.firstChildren read p b) :
    ∃ w ∈ t.wrappers p b, ∃ j, (n.key, j) ∈ w ∧ read j = some n.node := by
  obtain ⟨w, hw, hn⟩ := List.mem_filterMap.1 h
  obtain ⟨e, he, hn⟩ := Option.bind_eq_some_iff.1 hn
  obtain ⟨node, hnode, rfl⟩ := Option.map_eq_some_iff.1 hn
  exact ⟨w, hw, e.2, List.mem_of_mem_head? he, hnode⟩

end ChangeTree

namespace Script

variable {s : Scope} {root : Json} {t : ChangeTree} {skipKeyspaces : Bool} {cs : List Command}

theorem mem_of_mem_typeNodes {b : Bucket} {n : Child UserType} (h : n ∈ typeNodes t b) :
    n ∈ t.firstChildren UserType.ofJson? .userTypes b := by
  cases b with
  | added => exact (Dependency.perm_sorted UserType.uses _).mem_iff.1 h
  | modified => exact h
  | deleted => exact h

/-- What a tree without a change gives: empty statements, and the statements of rebuilt tables. -/
theorem commands_of_unchanged (hn : root.UniqueNames) (ht : ChangeTree.ofJson root = .ok t)
    (h : t.Unchanged s) (hcs : commands s skipKeyspaces t = .ok cs) :
    (t.RebuildsIndexed s ∧ ∃ old new, .dropTable old ∈ cs ∧ .createTable new ∈ cs) ∨
      (¬ t.RebuildsIndexed s ∧ ∀ c ∈ cs, ∃ target, c = .alterTableOptions target []) := by
  have hmodified : ∀ {p b w}, w ∈ t.wrappers p b → b = .modified := by
    intro p b w hw
    by_contra hb
    rw [h.modifiedOnly p b hb] at hw
    simp at hw
  have htable : ∀ n ∈ t.children Table.ofJson? .tables .modified, ∀ ys,
      n.node.commands s .update n.key = .ok ys →
      (n.node.RebuildsIndexed s ∧ ∃ old new, .dropTable old ∈ ys ∧ .createTable new ∈ ys) ∨
        (¬ n.node.RebuildsIndexed s ∧ ∀ x ∈ ys, ∃ target, x = .alterTableOptions target []) := by
    intro n hmem ys hys
    obtain ⟨w, hw, j, hj, hread⟩ := (ChangeTree.mem_children_iff _ t _ _ n).1 hmem
    have hunique := ChangeTree.uniqueNames_of_mem_wrappers hn ht hw _ hj
    refine Table.commands_of_unchanged (h.tables n hmem) ?_ hys
    intro c hc o ho old hold
    have hold := Table.uniqueNames_options hunique hread hc ho (.inl hold)
    exact ((Json.uniqueNames_obj_iff _).1 hold).1
  by_cases hr : t.RebuildsIndexed s
  · obtain ⟨n, hmem, hnode⟩ := hr
    obtain ⟨ys, hys⟩ := exists_table_commands hcs hmem
    have hsubset : ∀ c ∈ ys, c ∈ cs := fun c hc =>
      (mem_commands_iff hcs).2 (Or.inl ⟨_, n, hmem, ys, hys, hc⟩)
    rcases htable n hmem ys hys with ⟨_, old, new, hold, hnew⟩ | ⟨hnot, _⟩
    · exact Or.inl ⟨⟨n, hmem, hnode⟩, old, new, hsubset _ hold, hsubset _ hnew⟩
    · exact absurd hnode hnot
  · refine Or.inr ⟨hr, ?_⟩
    intro c hc
    rcases (mem_commands_iff hcs).1 hc with hc | ⟨_, b, hc⟩ | ⟨b, hc⟩ | hc
    · obtain ⟨b, n, hmem, ys, hys, hc⟩ := hc
      obtain ⟨w, hw, _⟩ := (ChangeTree.mem_children_iff _ t _ _ n).1 hmem
      obtain rfl := hmodified hw
      rcases htable n hmem ys hys with ⟨hnode, _⟩ | ⟨_, hblank⟩
      · exact absurd ⟨n, hmem, hnode⟩ hr
      · exact hblank c hc
    · obtain ⟨n, hmem, hc⟩ := List.mem_flatMap.1 hc
      obtain ⟨w, hw, _⟩ := ChangeTree.exists_of_mem_firstChildren hmem
      obtain rfl := hmodified hw
      have : n.node.update = [] := Keyspace.update_of_unchanged (h.keyspaces n hmem)
      have hc : c ∈ n.node.update := hc
      simp [this] at hc
    · obtain ⟨n, hmem, hc⟩ := List.mem_flatMap.1 hc
      obtain ⟨w, hw, j, hj, hread⟩ := ChangeTree.exists_of_mem_firstChildren hmem
      obtain rfl := hmodified hw
      have hunique := ChangeTree.uniqueNames_of_mem_wrappers hn ht hw _ hj
      have : n.node.update = [] := by
        refine View.update_of_unchanged (h.views n hmem) fun c hc o ho old hold => ?_
        have hold := View.uniqueNames_options hunique hread hc ho (.inl hold)
        exact ((Json.uniqueNames_obj_iff _).1 hold).1
      have hc : c ∈ n.node.update := hc
      simp [this] at hc
    · obtain ⟨b, n, hmem, ys, hys, hc⟩ := hc
      have hfirst : n ∈ t.firstChildren UserType.ofJson? .userTypes b := mem_of_mem_typeNodes hmem
      obtain ⟨w, hw, _⟩ := ChangeTree.exists_of_mem_firstChildren hfirst
      obtain rfl := hmodified hw
      obtain rfl := UserType.update_of_unchanged (h.types n hfirst) hys
      simp at hc

theorem isBlank_createTable (d : TableDefinition) :
    (Command.createTable d).statement.isBlank = false := by
  have hlast : (Command.createTable d).text.toList.getLast? = some ';' :=
    Command.getLast?_append rfl
  rw [← Bool.not_eq_true, Command.isBlank_statement_iff]
  intro hempty
  simp [hempty] at hlast

/-- A tree of modified nodes only, the comparisons of which show no change, has a script if the
    resolver always answers. Its script is empty, and drops nothing, just when no table is rebuilt
    for a column that has a comparison. -/
theorem ofTree_of_unchanged (resolver : Resolver) (references : References) (mode : Mode)
    (hn : root.UniqueNames) (ht : ChangeTree.ofJson root = .ok t)
    (h : t.Unchanged (scope resolver references mode.legacy t)) :
    (resolver.Answers → ∃ final, ofTree resolver references mode root = .ok final) ∧
    ∀ final, ofTree resolver references mode root = .ok final →
      compile resolver references mode root = .ok (text final) ∧
      (text final = "" ↔ ¬ t.RebuildsIndexed (scope resolver references mode.legacy t)) ∧
      ((∀ s ∈ final, s.action ≠ .drop) ↔
        ¬ t.RebuildsIndexed (scope resolver references mode.legacy t)) := by
  refine ⟨fun hr => exists_ofTree_eq_ok hr references mode ht, fun final hfinal => ?_⟩
  refine ⟨by rw [compile, hfinal]; rfl, ?_⟩
  obtain ⟨cs, hcs, rfl⟩ := (ofTree_eq_ok_iff_of_ofJson ht).1 hfinal
  rw [text_eq_empty_iff]
  rcases commands_of_unchanged hn ht h hcs with ⟨hrebuilt, old, new, hold, hnew⟩ | ⟨hnot, hblank⟩
  · have hcreated : (Command.createTable new).statement ∈
        ofStatements mode.applyDrops (cs.map Command.statement) := by
      refine (mem_ofStatements_iff _ _ _).2 ⟨_, List.mem_map.2 ⟨_, hnew, rfl⟩, ?_⟩
      simp [Statement.isDestructive, Command.action]
    obtain ⟨s, hs, hdrop⟩ : ∃ s ∈ ofStatements mode.applyDrops (cs.map Command.statement),
        s.action = .drop := by
      refine ⟨_, (mem_ofStatements_iff _ _ _).2 ⟨_, List.mem_map.2 ⟨_, hold, rfl⟩, rfl⟩, ?_⟩
      split <;> rfl
    refine ⟨iff_of_false (fun hall => ?_) (not_not_intro hrebuilt),
      iff_of_false (fun hall => hall s hs hdrop) (not_not_intro hrebuilt)⟩
    have := hall _ hcreated
    rw [isBlank_createTable] at this
    exact Bool.noConfusion this
  · have hall : ∀ s ∈ ofStatements mode.applyDrops (cs.map Command.statement),
        s.isBlank = true ∧ s.action ≠ .drop := by
      intro s hs
      obtain ⟨_, hr, rfl⟩ := (mem_ofStatements_iff _ _ _).1 hs
      obtain ⟨c, hc, rfl⟩ := List.mem_map.1 hr
      obtain ⟨target, rfl⟩ := hblank c hc
      have hnot : (Command.alterTableOptions target []).statement.isDestructive = false := rfl
      rw [hnot, Bool.and_false, if_neg Bool.false_ne_true]
      exact ⟨rfl, by simp [Command.action]⟩
    exact ⟨iff_of_true (fun s hs => (hall s hs).1) hnot,
      iff_of_true (fun s hs => (hall s hs).2) hnot⟩

/-! ## A rebuilt table -/

/-- A tree with one table, an indexed column of which gets another description. -/
def describedEmail : Json :=
  let email (description : String) : Json :=
    .obj [("name", .str "email"), ("description", .str description)]
  let column : Json := .obj [("name", .str "email"), ("type", .str "string"),
    ("compMod", .obj [("oldField", email "a"), ("newField", email "b")])]
  let index : Json :=
    .obj [("name", .str "by_email"), ("SecIndxKey", .arr [.obj [("name", .str "email")]])]
  let comparison : Json := .obj [("keyspaceName", .str "app"),
    ("code", .obj [("old", .str "users"), ("new", .str "users")])]
  let role : Json :=
    .obj [("code", .str "users"), ("compMod", comparison), ("SecIndxs", .arr [index])]
  ChangeTree.rootOf .tables .modified
    [("users", .obj [("role", role), ("properties", .obj [("email", column)])])]

def describedTree : ChangeTree := ⟨describedEmail.get? "properties"⟩

/-- The table as it is read: of the two versions of the column only the name is left. -/
def describedUsers : Table where
  role :=
    { code := some "users"
      comparison := some { keyspace := some "app", code := some ⟨some "users", some "users"⟩ }
      indexes := [{ name := some "by_email", keys := [{ name := some "email" }] }] }
  properties := some (.named [("email",
    { name := some "email"
      typeName := some "string"
      comparison := some
        { old := some { name := some "email" }, new := some { name := some "email" } } })])

theorem mem_describedTree {n : Child Table}
    (h : n ∈ describedTree.children Table.ofJson? .tables .modified) :
    n = ⟨"users", describedUsers⟩ :=
  List.mem_singleton.1 h

theorem uniqueNames_describedEmail : describedEmail.UniqueNames := by
  simp [describedEmail, ChangeTree.rootOf, Json.UniqueNames, Json.UniqueNamesOfEntries,
    Json.UniqueNamesOfItems, Entries.keys]

theorem unchanged_describedTree :
    describedTree.Unchanged (scope Resolver.builtin .empty false describedTree) where
  modifiedOnly p b hb := by
    cases b with
    | modified => exact absurd rfl hb
    | added => cases p <;> rfl
    | deleted => cases p <;> rfl
  tables n hn := by
    obtain rfl := mem_describedTree hn
    refine ⟨fun c hc => ?_, fun e he => ?_⟩
    · obtain rfl := Option.some.inj hc
      exact ⟨rfl, rfl, rfl, rfl, rfl, rfl, rfl, rfl, rfl, rfl, rfl⟩
    · obtain rfl := List.mem_singleton.1 he
      rintro c hc
      obtain rfl := Option.some.inj hc
      exact ⟨rfl, rfl, rfl, rfl⟩
  keyspaces _ hn := absurd hn List.not_mem_nil
  views _ hn := absurd hn List.not_mem_nil
  types _ hn := absurd hn List.not_mem_nil

/-- Another description of a column drops its table. -/
theorem ofTree_of_describedEmail :
    describedTree.Unchanged (scope Resolver.builtin .empty false describedTree) ∧
    ∃ final, ofTree Resolver.builtin .empty { applyDrops := true } describedEmail = .ok final ∧
      compile Resolver.builtin .empty { applyDrops := true } describedEmail = .ok (text final) ∧
      text final ≠ "" ∧ ∃ s ∈ final, s.action = .drop := by
  have ht : ChangeTree.ofJson describedEmail = .ok describedTree := rfl
  obtain ⟨hexists, hall⟩ :=
    ofTree_of_unchanged Resolver.builtin .empty { applyDrops := true }
      uniqueNames_describedEmail ht unchanged_describedTree
  obtain ⟨final, hfinal⟩ := hexists Resolver.answers_builtin
  obtain ⟨hcompile, hempty, hdrop⟩ := hall final hfinal
  have hrebuilt : describedTree.RebuildsIndexed
      (scope Resolver.builtin .empty false describedTree) :=
    ⟨⟨"users", describedUsers⟩, List.mem_singleton.2 rfl, rfl, _, rfl, "users", "users", rfl⟩
  refine ⟨unchanged_describedTree, final, hfinal, hcompile, fun h => hempty.1 h hrebuilt, ?_⟩
  by_contra hnone
  exact hdrop.1 (fun s hs he => hnone ⟨s, hs, he⟩) hrebuilt

end Script

end AlterScript
