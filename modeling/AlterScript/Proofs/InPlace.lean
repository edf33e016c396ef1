/-
  Tables that are altered in place.

  `Schema.run_of_altered_in_place`: the statements of a script that alter the columns of a table can
  be executed from top to bottom, and they migrate the table. `exists_plan` takes the alterations
  out of a script, `mem_commands_iff_of_moves` says which ones a table asks for, and
  `applyAll_of_movable` executes them.
-/
import Mathlib.Data.List.Forall2
import AlterScript.Proofs.Answers
import AlterScript.Proofs.Levels
import AlterScript.Proofs.ScriptOrder

namespace AlterScript

variable {s : Scope}

/-! ## Scripts -/

theorem Alteration.rank_command (q : QualifiedName) (a : Alteration) :
    Script.rank (a.command q).statement = 11 + a.phase := by
  cases a <;> rfl

theorem Command.statement_mem_map_iff {cs : List Command} {q : QualifiedName} {a : Alteration} :
    (a.command q).statement ∈ cs.map Command.statement ↔ a.command q ∈ cs := by
  rw [List.mem_map]
  constructor
  · rintro ⟨c, hc, he⟩
    exact statement_eq_command_iff.1 he ▸ hc
  · exact fun h => ⟨_, h, rfl⟩

theorem exists_commands_of_statements {ss : List Statement}
    (h : ∀ st ∈ ss, ∃ c : Command, c.statement = st) :
    ∃ cs : List Command, cs.map Command.statement = ss := by
  induction ss with
  | nil => exact ⟨[], rfl⟩
  | cons st ss ih =>
    obtain ⟨⟨c, hc⟩, hss⟩ := List.forall_mem_cons.1 h
    obtain ⟨cs, hcs⟩ := ih hss
    exact ⟨c :: cs, by rw [List.map_cons, hc, hcs]⟩

/-- The alterations of a table in an ordered list of statements are a plan for its moves, if they
    are the ones that the moves ask for. -/
theorem exists_plan {legacy : Bool} {moves : List Move} {q : QualifiedName} {ss : List Statement}
    (hcommand : ∀ st ∈ ss, ∃ c : Command, c.statement = st) (hnodup : ss.Nodup)
    (hranked : ss.Pairwise fun a b => Script.rank a ≤ Script.rank b)
    (hmem : ∀ a : Alteration, (a.command q).statement ∈ ss ↔
      ∃ m ∈ moves, a ∈ (m.fate legacy).alterations) :
    ∃ as, Plan legacy moves as ∧ ∀ σ, Schema.run q ss σ = Alteration.applyAll as σ := by
  obtain ⟨cs, rfl⟩ := exists_commands_of_statements hcommand
  refine ⟨cs.filterMap (Command.alterationOf q), ⟨?_, ?_, ?_⟩, Schema.run_statements q cs⟩
  · refine hnodup.of_map.filterMap ?_
    intro c d a hc hd
    rw [Command.alterationOf_eq_some_iff.1 hc, Command.alterationOf_eq_some_iff.1 hd]
  · rw [List.pairwise_filterMap]
    rw [List.pairwise_map] at hranked
    refine hranked.imp ?_
    intro c d hcd a ha b hb
    rw [Command.alterationOf_eq_some_iff.1 ha, Command.alterationOf_eq_some_iff.1 hb,
      Alteration.rank_command, Alteration.rank_command] at hcd
    omega
  · intro a
    rw [← hmem, Command.statement_mem_map_iff, List.mem_filterMap]
    simp only [Command.alterationOf_eq_some_iff, exists_eq_right]

/-! ## Tables -/

theorem exists_right_of_mem {α β : Type} {R : α → β → Prop} {xs : List α} {ys : List β}
    (h : List.Forall₂ R xs ys) {x : α} (hx : x ∈ xs) : ∃ y ∈ ys, R x y := by
  induction h with
  | nil => simp at hx
  | cons hxy _ ih =>
    rcases List.mem_cons.1 hx with rfl | hx
    · exact ⟨_, List.mem_cons_self, hxy⟩
    · obtain ⟨y, hy, hr⟩ := ih hx
      exact ⟨y, List.mem_cons_of_mem _ hy, hr⟩

theorem exists_left_of_mem {α β : Type} {R : α → β → Prop} {xs : List α} {ys : List β}
    (h : List.Forall₂ R xs ys) {y : β} (hy : y ∈ ys) : ∃ x ∈ xs, R x y :=
  exists_right_of_mem (R := flip R) h.flip hy

/-- A changed column is stored under its new name, and its names and types are known. -/
structure Field.Moves (s : Scope) (name : String) (f : Field) (m : Move) : Prop where
  key : f.primaryKey = m.key
  stored : name = m.newName
  oldName : f.oldVersion.label = some m.oldName
  newName : f.newVersion.label = some m.newName
  ownType : ∃ type, s.typeOf f name = .ok (some type)
  oldType : s.typeOf f.oldVersion m.oldName = .ok (some m.oldType)
  newType : s.typeOf f.newVersion m.newName = .ok (some m.newType)

namespace Table

/-- The columns of a table that have a comparison. -/
def changedColumns (t : Table) : List (String × Field) :=
  t.columns.filter fun e => e.2.comparison.isSome

/-- The moves of the changed columns of a table, in their order. -/
def Moves (s : Scope) (t : Table) (moves : List Move) : Prop :=
  List.Forall₂ (fun e m => e.2.Moves s e.1 m) t.changedColumns moves

theorem commandsOfColumn_of_moves {q : QualifiedName} {indexed : List String} {name : String}
    {f : Field} {m : Move} (h : f.Moves s name m) (hf : f.comparison.isSome = true)
    (hindexed : name ∉ indexed) :
    commandsOfColumn s .update q indexed (name, f) = .ok ((m.fate s.legacy).commands q) := by
  obtain ⟨type, htype⟩ := h.ownType
  have huntouched : isUntouched indexed .update name f = false := by
    obtain ⟨c, hc⟩ := Option.isSome_iff_exists.1 hf
    simp [isUntouched, hc, hindexed]
  have hchanged : ChangedColumn.ofField s ⟨name, type⟩ f = .ok (m.changed type) := by
    simp only [ChangedColumn.ofField, bind_eq_ok_iff, pure_eq_ok_iff]
    refine ⟨some m.oldType, ?_, some m.newType, ?_, ?_⟩
    · rw [h.oldName]
      exact h.oldType
    · rw [h.newName]
      exact h.newType
    · rw [h.oldName, h.newName, h.key, h.stored]
      rfl
  rw [commandsOfColumn_update]
  refine bind_eq_ok_iff.2 ⟨some type, htype, ?_⟩
  show (if isUntouched indexed .update name f = true then _ else _) = _
  rw [huntouched, if_neg Bool.false_ne_true]
  simp only [columnCommands, bind_eq_ok_iff, pure_eq_ok_iff]
  exact ⟨_, hchanged, by rw [Move.change_changed]⟩

theorem commandsOfColumn_of_not_changed {q : QualifiedName} {indexed : List String}
    {e : String × Field} (h : e.2.comparison.isSome = false) {cs : List Command}
    (hcs : commandsOfColumn s .update q indexed e = .ok cs) : cs = [] := by
  rw [commandsOfColumn_update] at hcs
  obtain ⟨type, _, hcs⟩ := bind_eq_ok_iff.1 hcs
  cases type with
  | none => exact (Except.ok.inj hcs).symm
  | some type =>
    have hnone : e.2.comparison = none := by simpa using h
    have huntouched : isUntouched indexed .update e.1 e.2 = true := by
      simp [isUntouched, hnone]
    dsimp only at hcs
    rw [if_pos huntouched] at hcs
    exact (Except.ok.inj hcs).symm

/-- No changed column of a table that stays is under an index. -/
theorem notMem_indexedColumns {t : Table} {c : TableComparison} {ids : ColumnIds}
    (h : t.isReplaced c ids = false) {e : String × Field} (he : e ∈ t.changedColumns) :
    e.1 ∉ t.indexedColumns ids := by
  obtain ⟨hmem, hchanged⟩ := List.mem_filter.1 he
  have hindexed : t.changesIndexed ids = false := by
    simp only [isReplaced, Bool.or_eq_false_iff] at h
    exact h.2
  intro hcontains
  have : t.changesIndexed ids = true := by
    rw [changesIndexed, List.any_eq_true]
    exact ⟨e, hmem, by simp [hchanged, hcontains]⟩
  rw [hindexed] at this
  exact Bool.noConfusion this

theorem mem_updateColumns_iff_of_moves {t : Table} {c : TableComparison} {moves : List Move}
    {q : QualifiedName} {cs : List Command} (hmoves : t.Moves s moves)
    (hkept : t.isReplaced c (t.columnIds s.definitions) = false)
    (hcs : updateColumns s .update q (t.indexedColumns (t.columnIds s.definitions)) t.columns =
      .ok cs) (a : Alteration) :
    a.command q ∈ cs ↔ ∃ m ∈ moves, a ∈ (m.fate s.legacy).alterations := by
  rw [updateColumns_eq_ofEach] at hcs
  rw [Script.mem_ofEach_iff hcs]
  have hinj : ∀ x : ColumnChange, a.command q ∈ x.commands q ↔ a ∈ x.alterations := by
    intro x
    rw [ColumnChange.commands_eq, List.mem_map]
    constructor
    · rintro ⟨b, hb, he⟩
      have := congrArg (Command.alterationOf q) he
      simp only [Command.alterationOf_command, if_true, Option.some.injEq] at this
      exact this ▸ hb
    · exact fun ha => ⟨a, ha, rfl⟩
  constructor
  · rintro ⟨e, he, ys, hys, ha⟩
    by_cases hchanged : e.2.comparison.isSome = true
    · have he : e ∈ t.changedColumns := List.mem_filter.2 ⟨he, hchanged⟩
      obtain ⟨m, hm, hmove⟩ := exists_right_of_mem hmoves he
      rw [commandsOfColumn_of_moves hmove hchanged (notMem_indexedColumns hkept he)] at hys
      obtain rfl := Except.ok.inj hys
      exact ⟨m, hm, (hinj _).1 ha⟩
    · obtain rfl := commandsOfColumn_of_not_changed (by simpa using hchanged) hys
      simp at ha
  · rintro ⟨m, hm, ha⟩
    obtain ⟨e, he, hmove⟩ := exists_left_of_mem hmoves hm
    obtain ⟨hmem, hchanged⟩ := List.mem_filter.1 he
    exact ⟨e, hmem, _, commandsOfColumn_of_moves hmove hchanged (notMem_indexedColumns hkept he),
      (hinj _).2 ha⟩

/-- The commands for columns of a table that is altered in place are those of its moves. -/
theorem mem_commands_iff_of_moves {t : Table} {c : TableComparison} {key : String}
    {moves : List Move} {own : List Command} (hc : t.role.comparison = some c)
    (hcreated : c.created = false) (hdeleted : c.deleted = false) (hmodified : c.modified = false)
    (hkept : t.isReplaced c (t.columnIds s.definitions) = false) (hmoves : t.Moves s moves)
    (hown : t.commands s .update key = .ok own) (a : Alteration) :
    a.command (QualifiedName.of c.keyspace (t.label key)) ∈ own ↔
      ∃ m ∈ moves, a ∈ (m.fate s.legacy).alterations := by
  simp only [commands, hc, hdeleted, hcreated, hmodified, Bool.false_eq_true, if_false] at hown
  obtain ⟨columns, hcolumns, hupdate⟩ := bind_eq_ok_iff.1 hown
  rw [← mem_updateColumns_iff_of_moves hmoves hkept hcolumns]
  constructor
  · intro h
    exact mem_columns_of_mem_update hupdate h (by simp)
  · intro h
    rw [update] at hupdate
    dsimp only at hupdate
    rw [hkept, if_neg Bool.false_ne_true] at hupdate
    obtain rfl := Except.ok.inj hupdate
    exact List.mem_append_right _ h

end Table

/-! ## Migration -/

theorem Migrates.unique {moves : List Move} {old new new' : Schema} (h : Migrates moves old new)
    (h' : Migrates moves old new') : new = new' := by
  funext n
  by_cases hfinal : n ∈ moves.map Move.finalName
  · obtain ⟨m, hm, rfl⟩ := List.mem_map.1 hfinal
    by_cases hstuck : m.Stuck
    · rw [Move.finalName_of_stuck hstuck, h.stuck m hm hstuck.1 hstuck.2,
        h'.stuck m hm hstuck.1 hstuck.2]
    · rw [Move.finalName_of_not_stuck hstuck]
      cases hkey : m.key with
      | false => rw [h.moved m hm hkey, h'.moved m hm hkey]
      | true =>
        have htype : m.oldType = m.newType := not_not.1 fun hne => hstuck ⟨hkey, hne⟩
        rw [h.renamed m hm hkey htype, h'.renamed m hm hkey htype]
  · by_cases hold : n ∈ moves.map Move.oldName
    · rw [h.gone n hold hfinal, h'.gone n hold hfinal]
    · rw [h.untouched n hold hfinal, h'.untouched n hold hfinal]

/-- The statements of a script that a choice leaves can be executed on a table, and migrate it, if
    they are for the alterations that the moves of the table ask for. -/
theorem exists_run_of_commands {legacy : Bool} {moves : List Move} {old : Schema}
    {q : QualifiedName} {cs : List Command} (p : Statement → Bool) (hold : Movable moves old)
    (hmem : ∀ a : Alteration, a.command q ∈ cs ∧ p (a.command q).statement = true ↔
      ∃ m ∈ moves, a ∈ (m.fate legacy).alterations) :
    ∃ new, Schema.run q ((Script.ofStatements true (cs.map Command.statement)).filter p) old =
      some new ∧ Migrates moves old new := by
  have harranges : Script.Arranges (cs.map Command.statement)
      (Script.ofStatements true (cs.map Command.statement)) := by
    refine Script.arranges_ofStatements fun st hst => ?_
    obtain ⟨c, _, rfl⟩ := List.mem_map.1 hst
    exact Script.slot_mem_precedence c
  have hcommand : ∀ st ∈ (Script.ofStatements true (cs.map Command.statement)).filter p,
      ∃ c : Command, c.statement = st := by
    intro st hst
    obtain ⟨c, _, hc⟩ := List.mem_map.1 ((harranges.mem_iff st).1 (List.mem_filter.1 hst).1)
    exact ⟨c, hc⟩
  have hasked : ∀ a : Alteration, (a.command q).statement ∈
      (Script.ofStatements true (cs.map Command.statement)).filter p ↔
      ∃ m ∈ moves, a ∈ (m.fate legacy).alterations := by
    intro a
    rw [List.mem_filter, harranges.mem_iff, Command.statement_mem_map_iff, hmem]
  obtain ⟨as, hplan, hrun⟩ := exists_plan hcommand (harranges.nodup.filter _)
    (harranges.ranked.filter _) hasked
  obtain ⟨new, hnew, hmigrates⟩ := applyAll_of_movable hold hplan
  exact ⟨new, (hrun old).trans hnew, hmigrates⟩

/-- A table of the modified bucket that is altered in place. -/
structure AlteredInPlace (s : Scope) (t : ChangeTree) (n : Child Table) (c : TableComparison) :
    Prop where
  mem : n ∈ t.children Table.ofJson? .tables .modified
  comparison : n.node.role.comparison = some c
  created : c.created = false
  deleted : c.deleted = false
  modified : c.modified = false
  kept : n.node.isReplaced c (n.node.columnIds s.definitions) = false

namespace Schema

/-- In-place migration is sound. The statements of a script for the columns of a table can be
    executed from top to bottom, drops applied, and they migrate the table; these are all statements
    for the columns of the table when no other node is about it. There is a script if the resolver
    always answers. -/
theorem run_of_altered_in_place (resolver : Resolver) (references : References) (mode : Mode)
    {root : Json} {t : ChangeTree}
    (ht : ChangeTree.ofJson root = .ok t) {n : Child Table} {c : TableComparison}
    (hn : AlteredInPlace (Script.scope resolver references mode.legacy t) t n c)
    {moves : List Move} {old : Schema}
    (hmoves : n.node.Moves (Script.scope resolver references mode.legacy t) moves)
    (hold : Movable moves old) :
    (resolver.Answers → ∃ final,
      Script.ofTree resolver references { mode with applyDrops := true } root = .ok final) ∧
    ∀ final, Script.ofTree resolver references { mode with applyDrops := true } root = .ok final →
    ∃ own new,
      n.node.commands (Script.scope resolver references mode.legacy t) .update n.key = .ok own ∧
      Migrates moves old new ∧
      run (QualifiedName.of c.keyspace (n.node.label n.key))
        (final.filter (· ∈ own.map Command.statement)) old = some new ∧
      ((∀ b, ∀ k ∈ t.children Table.ofJson? .tables b,
          k.node.target? k.key = n.node.target? n.key → b = .modified ∧ k = n) →
        run (QualifiedName.of c.keyspace (n.node.label n.key)) final old = some new) := by
  refine ⟨fun hr => Script.exists_ofTree_eq_ok hr references _ ht, fun final hfinal => ?_⟩
  obtain ⟨cs, hcs, rfl⟩ := (Script.ofTree_eq_ok_iff_of_ofJson ht).1 hfinal
  obtain ⟨own, hown⟩ := Script.exists_table_commands hcs hn.mem
  have hsubset : ∀ x ∈ own, x ∈ cs := fun x hx =>
    (Script.mem_commands_iff hcs).2 (Or.inl ⟨_, n, hn.mem, own, hown, hx⟩)
  have hasked := Table.mem_commands_iff_of_moves hn.comparison hn.created hn.deleted hn.modified
    hn.kept hmoves hown
  have hchosen : ∀ a : Alteration,
      a.command (QualifiedName.of c.keyspace (n.node.label n.key)) ∈ cs ∧
        decide ((a.command (QualifiedName.of c.keyspace (n.node.label n.key))).statement ∈
          own.map Command.statement) = true ↔
      ∃ m ∈ moves, a ∈ (m.fate mode.legacy).alterations := by
    intro a
    rw [decide_eq_true_eq, Command.statement_mem_map_iff]
    exact (and_iff_right_of_imp (hsubset _)).trans (hasked a)
  obtain ⟨new, hnew, hmigrates⟩ :=
    exists_run_of_commands (· ∈ own.map Command.statement) hold hchosen
  refine ⟨own, new, hown, hmigrates, hnew, fun honly => ?_⟩
  have hall : ∀ a : Alteration,
      a.command (QualifiedName.of c.keyspace (n.node.label n.key)) ∈ cs ∧ true = true ↔
      ∃ m ∈ moves, a ∈ (m.fate mode.legacy).alterations := by
    intro a
    refine (and_iff_left rfl).trans (Iff.trans ⟨fun h => ?_, hsubset _⟩ (hasked a))
    -- A command for a column of this table is one of a node about it, so of this node.
    obtain ⟨b, k, hk, ys, hys, hx⟩ := Script.ofTable_of_level hcs h (by simp)
    obtain ⟨q, a', hq, he⟩ := Table.exists_alteration_of_level hys hx (by simp)
    have htarget : k.node.target? k.key = n.node.target? n.key := by
      have hsame := Command.alterationOf_eq_some_iff.2 he
      rw [Command.alterationOf_command, Option.ite_none_right_eq_some] at hsame
      rw [hq, Table.target?, hn.comparison, Option.map_some, hsame.1]
    obtain ⟨rfl, rfl⟩ := honly b k hk htarget
    obtain rfl := Except.ok.inj (hys.symm.trans hown)
    exact hx
  obtain ⟨new', hnew', hmigrates'⟩ := exists_run_of_commands (fun _ => true) hold hall
  rw [List.filter_true] at hnew'
  rw [hnew', hmigrates'.unique hmigrates]

/-! ## A migrated table -/

/-- A table of which the key is renamed, two columns swap their names, and a type is converted. -/
def swappedUsers : Json :=
  let column (name type : String) (more old new : Entries Json) : Json :=
    .obj ([("name", .str name), ("type", .str type)] ++ more ++
      [("compMod", .obj [("oldField", .obj old), ("newField", .obj new)])])
  let renamed (old new type : String) (more : Entries Json) : Json :=
    column new type more [("name", .str old)] [("name", .str new)]
  let role : Json :=
    .obj [("code", .str "users"), ("compMod", .obj [("keyspaceName", .str "app")])]
  let columns : Entries Json :=
    [("user_id", renamed "id" "user_id" "uuid" [("primaryKey", .bool true)]),
      ("a", renamed "b" "a" "int" []),
      ("b", renamed "a" "b" "text" []),
      ("age", column "age" "varint" [] [("name", .str "age"), ("type", .str "int")]
        [("name", .str "age"), ("type", .str "varint")])]
  ChangeTree.rootOf .tables .modified
    [("users", .obj [("role", role), ("properties", .obj columns)])]

def swappedTree : ChangeTree := ⟨swappedUsers.get? "properties"⟩

/-- The table as it is read. -/
def swappedTable : Table where
  role := { code := some "users", comparison := some { keyspace := some "app" } }
  properties :=
    let renamed (old new type : String) (key : Bool) : Field :=
      { name := some new, typeName := some type, primaryKey := key
        comparison := some { old := some { name := some old }, new := some { name := some new } } }
    some (.named
      [("user_id", renamed "id" "user_id" "uuid" true), ("a", renamed "b" "a" "int" false),
        ("b", renamed "a" "b" "text" false),
        ("age",
          { name := some "age", typeName := some "varint"
            comparison := some
              { old := some { name := some "age", typeName := some "int" }
                new := some { name := some "age", typeName := some "varint" } } })])

def swappedMoves : List Move :=
  [⟨true, "id", "user_id", "uuid", "uuid"⟩, ⟨false, "b", "a", "int", "int"⟩,
    ⟨false, "a", "b", "text", "text"⟩, ⟨false, "age", "age", "int", "varint"⟩]

/-- The columns before, one of which does not change. -/
def oldUsers : Schema := fun n => Entries.find? n
  [("id", "uuid"), ("a", "text"), ("b", "int"), ("age", "int"), ("bio", "text")]

theorem alteredInPlace_swappedTable :
    AlteredInPlace (Script.scope Resolver.builtin .empty true swappedTree) swappedTree
      ⟨"users", swappedTable⟩ { keyspace := some "app" } :=
  ⟨List.mem_singleton.2 rfl, rfl, rfl, rfl, rfl, rfl⟩

theorem moves_swappedTable :
    swappedTable.Moves (Script.scope Resolver.builtin .empty true swappedTree) swappedMoves := by
  refine .cons ?_ (.cons ?_ (.cons ?_ (.cons ?_ .nil)))
  · exact ⟨rfl, rfl, rfl, rfl, ⟨_, rfl⟩, rfl, rfl⟩
  · exact ⟨rfl, rfl, rfl, rfl, ⟨_, rfl⟩, rfl, rfl⟩
  · exact ⟨rfl, rfl, rfl, rfl, ⟨_, rfl⟩, rfl, rfl⟩
  · exact ⟨rfl, rfl, rfl, rfl, ⟨_, rfl⟩, rfl, rfl⟩

theorem movable_swappedMoves : Movable swappedMoves oldUsers := by
  refine ⟨?_, ?_, ?_, ?_, ?_⟩ <;> decide

theorem eq_of_mem_swappedTree {b : Bucket} {k : Child Table}
    (h : k ∈ swappedTree.children Table.ofJson? .tables b) :
    b = .modified ∧ k = ⟨"users", swappedTable⟩ := by
  cases b with
  | modified => exact ⟨rfl, List.mem_singleton.1 h⟩
  | added => exact absurd h List.not_mem_nil
  | deleted => exact absurd h List.not_mem_nil

theorem run_of_swappedUsers :
    ∃ final new,
      Script.ofTree Resolver.builtin .empty { legacy := true, applyDrops := true } swappedUsers =
        .ok final ∧
      run ⟨some "app", "users"⟩ final oldUsers = some new ∧
      new "user_id" = some "uuid" ∧ new "a" = some "int" ∧ new "b" = some "text" ∧
      new "age" = some "varint" ∧ new "bio" = some "text" ∧ new "id" = none := by
  have ht : ChangeTree.ofJson swappedUsers = .ok swappedTree := rfl
  obtain ⟨hexists, hall⟩ :=
    run_of_altered_in_place Resolver.builtin .empty { legacy := true } ht
      alteredInPlace_swappedTable moves_swappedTable movable_swappedMoves
  obtain ⟨final, hfinal⟩ := hexists Resolver.answers_builtin
  obtain ⟨_, new, _, hnew, _, hrun⟩ := hall final hfinal
  refine ⟨final, new, hfinal, hrun fun b k hk _ => eq_of_mem_swappedTree hk, ?_, ?_, ?_, ?_, ?_, ?_⟩
  · exact hnew.renamed ⟨true, "id", "user_id", "uuid", "uuid"⟩ (by decide) rfl rfl
  · exact hnew.moved ⟨false, "b", "a", "int", "int"⟩ (by decide) rfl
  · exact hnew.moved ⟨false, "a", "b", "text", "text"⟩ (by decide) rfl
  · exact hnew.moved ⟨false, "age", "age", "int", "varint"⟩ (by decide) rfl
  · exact hnew.untouched "bio" (by decide) (by decide)
  · exact hnew.gone "id" (by decide) (by decide)

end Schema

end AlterScript
