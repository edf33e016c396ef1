/-
  Names of key columns that are freed and taken again.

  A key column is renamed in place (`Field.Renames`), so its old name is free behind that statement
  only. `Script.changedColumns` lists the columns of a tree in the order in which they are gone
  through, and `ComesFirst` says of two kinds of them which comes first. A script keeps that order
  for two renamings (`Script.sublist_renames_iff`), and it has every addition in front of them
  (`Script.sublist_add_rename`). `Script.freedFirst_iff` says when a name is free before something
  takes it.
-/
import AlterScript.Proofs.VersionNames

namespace AlterScript

/-! ## What comes first -/

/-- A thing of the first kind stands in a list in front of all things of the second kind. -/
def ComesFirst {α : Type} (P Q : α → Prop) : List α → Prop
  | [] => False
  | x :: xs => P x ∨ (¬ Q x ∧ ComesFirst P Q xs)

section ComesFirst

variable {α β : Type} {P Q P' Q' : α → Prop} {xs ys : List α} {a b : α}

theorem ComesFirst.exists (h : ComesFirst P Q xs) : ∃ x ∈ xs, P x := by
  induction xs with
  | nil => exact h.elim
  | cons x xs ih =>
    rcases h with hx | ⟨-, h⟩
    · exact ⟨x, List.mem_cons_self, hx⟩
    · obtain ⟨y, hy, hP⟩ := ih h
      exact ⟨y, List.mem_cons_of_mem x hy, hP⟩

theorem comesFirst_congr (hP : ∀ x ∈ xs, P x ↔ P' x) (hQ : ∀ x ∈ xs, Q x ↔ Q' x) :
    ComesFirst P Q xs ↔ ComesFirst P' Q' xs := by
  induction xs with
  | nil => exact Iff.rfl
  | cons x xs ih =>
    rw [List.forall_mem_cons] at hP hQ
    rw [ComesFirst, ComesFirst, hP.1, hQ.1, ih hP.2 hQ.2]

theorem comesFirst_append :
    ComesFirst P Q (xs ++ ys) ↔ ComesFirst P Q xs ∨ ((∀ x ∈ xs, ¬ Q x) ∧ ComesFirst P Q ys) := by
  induction xs with
  | nil => simp [ComesFirst]
  | cons x xs ih =>
    rw [List.cons_append, ComesFirst, ComesFirst, ih, List.forall_mem_cons]
    tauto

/-- What stands behind does not count if nothing in it is of the first kind. -/
theorem comesFirst_append_left (h : ∀ y ∈ ys, ¬ P y) :
    ComesFirst P Q (xs ++ ys) ↔ ComesFirst P Q xs := by
  rw [comesFirst_append, or_iff_left]
  rintro ⟨-, hys⟩
  obtain ⟨y, hy, hP⟩ := hys.exists
  exact h y hy hP

/-- What stands in front does not count if nothing in it is of either kind. -/
theorem comesFirst_append_right (hP : ∀ x ∈ xs, ¬ P x) (hQ : ∀ x ∈ xs, ¬ Q x) :
    ComesFirst P Q (xs ++ ys) ↔ ComesFirst P Q ys := by
  rw [comesFirst_append, and_iff_right hQ, or_iff_right]
  intro hxs
  obtain ⟨x, hx, h⟩ := hxs.exists
  exact hP x hx h

theorem comesFirst_map {f : β → α} {zs : List β} :
    ComesFirst P Q (zs.map f) ↔ ComesFirst (fun z => P (f z)) (fun z => Q (f z)) zs := by
  induction zs with
  | nil => exact Iff.rfl
  | cons z zs ih => rw [List.map_cons, ComesFirst, ComesFirst, ih]

theorem comesFirst_flatMap {f : β → List α} {zs : List β} :
    ComesFirst P Q (zs.flatMap f) ↔
      ComesFirst (fun z => ComesFirst P Q (f z)) (fun z => ∃ y ∈ f z, Q y) zs := by
  induction zs with
  | nil => exact Iff.rfl
  | cons z zs ih =>
    rw [List.flatMap_cons, comesFirst_append, ComesFirst, ih]
    push Not
    rfl

theorem comesFirst_eq_iff_idxOf_lt [DecidableEq α] (hne : a ≠ b) :
    ComesFirst (· = a) (· = b) xs ↔ xs.idxOf a < xs.idxOf b := by
  induction xs with
  | nil => simp [ComesFirst]
  | cons x xs ih =>
    rw [ComesFirst, ih]
    by_cases ha : x = a
    · subst ha
      simp [List.idxOf_cons_ne xs hne]
    · rw [List.idxOf_cons_ne xs ha]
      by_cases hb : x = b
      · subst hb
        simp [ha]
      · rw [List.idxOf_cons_ne xs hb]
        simp [ha, hb]

theorem comesFirst_eq_iff_mem (h : a ∈ xs → b ∉ xs) : ComesFirst (· = a) (· = b) xs ↔ a ∈ xs := by
  constructor
  · intro hfirst
    obtain ⟨x, hx, rfl⟩ := hfirst.exists
    exact hx
  · intro ha
    obtain ⟨front, back, rfl⟩ := List.append_of_mem ha
    refine comesFirst_append.2 (.inr ⟨?_, .inl rfl⟩)
    rintro x hx rfl
    exact h ha (List.mem_append_left _ hx)

end ComesFirst

/-! ## Key columns -/

namespace ChangedColumn

theorem afterRename_eq_renamed_iff {c : ChangedColumn} {o n old new : String} :
    c.afterRename o n = .renamed old new ↔
      c.primaryKey = true ∧ o = old ∧ n = new ∧ c.oldType = c.newType := by
  rw [afterRename]
  cases c.primaryKey with
  | false => simp [replacement]
  | true => by_cases h : c.oldType = c.newType <;> simp [h]

theorem afterRetype_ne_renamed {legacy : Bool} {c : ChangedColumn} {o n old new : String} :
    c.afterRetype legacy o n ≠ .renamed old new := by
  rw [afterRetype]
  split
  · split
    · exact ColumnChange.noConfusion
    · split <;> exact ColumnChange.noConfusion
  · exact ColumnChange.noConfusion

/-- A column is renamed in place if it is a key column and gets another name and no other type. -/
theorem change_eq_renamed_iff {legacy : Bool} {c : ChangedColumn} {old new : String} :
    c.change legacy = .renamed old new ↔
      c.primaryKey = true ∧ c.oldName = some old ∧ c.newName = some new ∧ old ≠ new ∧
        c.oldType = c.newType := by
  rw [change]
  cases hold : c.oldName with
  | none => simp
  | some o =>
    cases hnew : c.newName with
    | none => simp
    | some n =>
      simp only [Option.some.injEq]
      by_cases hname : o = n
      · have hnot : ¬ (o ≠ n) := not_not_intro hname
        rw [if_neg hnot]
        refine iff_of_false ?_ ?_
        · split
          · exact afterRetype_ne_renamed
          · exact ColumnChange.noConfusion
        · rintro ⟨-, rfl, rfl, hne, -⟩
          exact hne hname
      · rw [if_pos hname, afterRename_eq_renamed_iff]
        constructor
        · rintro ⟨hkey, rfl, rfl, htype⟩
          exact ⟨hkey, rfl, rfl, hname, htype⟩
        · rintro ⟨hkey, rfl, rfl, -, htype⟩
          exact ⟨hkey, rfl, rfl, htype⟩

end ChangedColumn

theorem ColumnChange.renameColumn_mem_commands_iff {x : ColumnChange} {q table : QualifiedName}
    {old new : String} :
    .renameColumn q old new ∈ x.commands table ↔ q = table ∧ x = .renamed old new := by
  cases x <;> simp [commands, eq_comm]

namespace Field

variable {s : Scope} {key old new : String} {f : Field}

/-- A changed column is a key column, and gets another name and no other type. -/
structure Renames (s : Scope) (key : String) (f : Field) (old new : String) : Prop where
  changed : f.comparison.isSome = true
  primaryKey : f.primaryKey = true
  versions : ∃ own type, f.Versions s key own old new type type
  differ : old ≠ new

theorem renames_iff {type : String} {c : ChangedColumn} (hchanged : f.comparison.isSome = true)
    (htype : s.typeOf f key = .ok (some type))
    (hc : ChangedColumn.ofField s ⟨key, type⟩ f = .ok c) (legacy : Bool) :
    f.Renames s key old new ↔ c.change legacy = .renamed old new := by
  simp only [ChangedColumn.ofField, bind_eq_ok_iff, pure_eq_ok_iff] at hc
  obtain ⟨oldType, hold, newType, hnew, rfl⟩ := hc
  rw [ChangedColumn.change_eq_renamed_iff]
  dsimp only
  constructor
  · rintro ⟨-, hkey, ⟨_, _, hv⟩, hdiffer⟩
    rw [hv.oldName, Option.getD_some, hv.oldType, Except.ok.injEq] at hold
    rw [hv.newName, Option.getD_some, hv.newType, Except.ok.injEq] at hnew
    exact ⟨hkey, hv.oldName, hv.newName, hdiffer, hold.symm.trans hnew⟩
  · rintro ⟨hkey, holdName, hnewName, hdiffer, rfl⟩
    rw [holdName, Option.getD_some] at hold
    rw [hnewName, Option.getD_some] at hnew
    exact ⟨hchanged, hkey, ⟨type, oldType, htype, holdName, hnewName, hold, hnew⟩, hdiffer⟩

/-- A column is renamed from one name to one name. -/
theorem Renames.unique {old' new' : String} (h : f.Renames s key old new)
    (h' : f.Renames s key old' new') : old = old' ∧ new = new' := by
  obtain ⟨_, _, hv⟩ := h.versions
  obtain ⟨_, _, hv'⟩ := h'.versions
  exact ⟨Option.some.inj (hv.oldName.symm.trans hv'.oldName),
    Option.some.inj (hv.newName.symm.trans hv'.newName)⟩

end Field

namespace Table

variable {s : Scope} {d : Direction} {t : Table} {key old new : String} {q table : QualifiedName}
  {indexed : List String} {e : String × Field} {own ys : List Command}

/-- The commands for a column rename it if it is a changed key column that gets another name. -/
theorem renameColumn_mem_commandsOfColumn_iff (h : commandsOfColumn s d table indexed e = .ok ys)
    (hindexed : e.2.comparison.isSome = true → e.1 ∉ indexed) :
    .renameColumn q old new ∈ ys ↔ q = table ∧ d = .update ∧ e.2.Renames s e.1 old new := by
  cases d with
  | create =>
    rw [mem_commandsOfColumn_create_iff h]
    simp
  | delete =>
    rw [mem_commandsOfColumn_delete_iff h]
    simp
  | update =>
    by_cases hchanged : e.2.comparison.isSome = true
    · have huntouched := isUntouched_eq_false_iff.2 ⟨hchanged, hindexed hchanged⟩
      rw [commandsOfColumn_update] at h
      obtain ⟨type, htype, h⟩ := bind_eq_ok_iff.1 h
      cases type with
      | none =>
        obtain rfl := Except.ok.inj h
        refine iff_of_false List.not_mem_nil ?_
        rintro ⟨-, -, hrenames⟩
        obtain ⟨_, _, hv⟩ := hrenames.versions
        have := htype.symm.trans hv.ownType
        simp at this
      | some type =>
        dsimp only at h
        rw [huntouched, if_neg Bool.false_ne_true] at h
        simp only [columnCommands, bind_eq_ok_iff, pure_eq_ok_iff] at h
        obtain ⟨c, hc, rfl⟩ := h
        rw [ColumnChange.renameColumn_mem_commands_iff,
          ← Field.renames_iff hchanged htype hc s.legacy, eq_self_iff_true, true_and]
    · obtain rfl := commandsOfColumn_of_not_changed (by simpa using hchanged) h
      refine iff_of_false List.not_mem_nil ?_
      rintro ⟨-, -, hrenames⟩
      exact hchanged hrenames.changed

theorem renameColumn_mem_commands_iff (h : t.commands s d key = .ok own) :
    .renameColumn q old new ∈ own ↔
      ∃ c, t.ByColumn s c ∧ q = QualifiedName.of c.keyspace (t.label key) ∧
        ∃ e ∈ t.columns, d = .update ∧ e.2.Renames s e.1 old new := by
  constructor
  · intro hx
    obtain ⟨c, hc⟩ := exists_byColumn h hx rfl
    exact ⟨c, hc, (mem_commands_iff_of_byColumn hc h rfl fun _ _ _ hys hindexed =>
      renameColumn_mem_commandsOfColumn_iff hys hindexed).1 hx⟩
  · rintro ⟨c, hc, hrenames⟩
    exact (mem_commands_iff_of_byColumn hc h rfl fun _ _ _ hys hindexed =>
      renameColumn_mem_commandsOfColumn_iff hys hindexed).2 hrenames

end Table

/-! ## Trees -/

namespace Script

theorem comesFirst_ofEach {α : Type} {f : α → Except ResolveError (List Command)} {xs : List α}
    {cs : List Command} {P Q : Command → Prop} {P' Q' : α → Prop} (h : ofEach f xs = .ok cs)
    (hP : ∀ x ∈ xs, ∀ ys, f x = .ok ys → (ComesFirst P Q ys ↔ P' x))
    (hQ : ∀ x ∈ xs, ∀ ys, f x = .ok ys → ((∃ y ∈ ys, Q y) ↔ Q' x)) :
    ComesFirst P Q cs ↔ ComesFirst P' Q' xs := by
  induction xs generalizing cs with
  | nil =>
    obtain rfl := Except.ok.inj h
    exact Iff.rfl
  | cons x xs ih =>
    obtain ⟨first, rest, hfirst, hrest, rfl⟩ := ofEach_cons_eq_ok_iff.1 h
    rw [List.forall_mem_cons] at hP hQ
    rw [comesFirst_append, ComesFirst, hP.1 first hfirst, ih hrest hP.2 hQ.2, ← hQ.1 first hfirst]
    push Not
    rfl

variable {s : Scope} {t : ChangeTree} {q : QualifiedName} {old new x y z : String}

/-- The columns of the modified tables, each with its table, in the order in which they are gone
    through. -/
def changedColumns (t : ChangeTree) : List (Child Table × String × Field) :=
  (t.children Table.ofJson? .tables .modified).flatMap fun n => n.node.columns.map (Prod.mk n)

/-- A table is altered column by column, and a key column of it is renamed in place. -/
def RenamesKey (s : Scope) (q : QualifiedName) (site : Child Table × String × Field)
    (old new : String) : Prop :=
  ∃ c, site.1.node.ByColumn s c ∧
    q = QualifiedName.of c.keyspace (site.1.node.label site.1.key) ∧
    site.2.2.Renames s site.2.1 old new

section Nodes

variable {n : Child Table} {own : List Command} (h : n.node.commands s .update n.key = .ok own)

include h

theorem renameColumn_mem_node_commands_iff :
    .renameColumn q old new ∈ own ↔
      ∃ site ∈ n.node.columns.map (Prod.mk n), RenamesKey s q site old new := by
  rw [Table.renameColumn_mem_commands_iff h]
  constructor
  · rintro ⟨c, hc, hq, e, he, -, hrenames⟩
    exact ⟨(n, e), List.mem_map_of_mem he, c, hc, hq, hrenames⟩
  · rintro ⟨site, hsite, c, hc, hq, hrenames⟩
    obtain ⟨e, he, rfl⟩ := List.mem_map.1 hsite
    exact ⟨c, hc, hq, e, he, rfl, hrenames⟩

/-- The renamings of a table stand in the order of the columns. -/
theorem comesFirst_node_commands_iff (hne : x ≠ y) :
    ComesFirst (· = .renameColumn q z x) (· = .renameColumn q x y) own ↔
      ComesFirst (RenamesKey s q · z x) (RenamesKey s q · x y)
        (n.node.columns.map (Prod.mk n)) := by
  by_cases hbyColumn : ∃ c, n.node.ByColumn s c
  · obtain ⟨c, hc⟩ := hbyColumn
    obtain ⟨front, columns, rfl, hfront, hcolumns⟩ := Table.exists_columns_of_byColumn hc h
    have hnot : ∀ old new, ∀ x ∈ front, x ≠ .renameColumn q old new := by
      rintro old new x hx rfl
      exact hfront _ hx rfl
    have hrename : ∀ e ∈ n.node.columns, ∀ ys,
        Table.commandsOfColumn s .update (QualifiedName.of c.keyspace (n.node.label n.key))
          (n.node.indexedColumns (n.node.columnIds s.definitions)) e = .ok ys →
        ∀ old new, .renameColumn q old new ∈ ys ↔ RenamesKey s q (n, e) old new := by
      intro e he ys hys old new
      rw [Table.renameColumn_mem_commandsOfColumn_iff hys fun hchanged =>
        Table.notMem_indexedColumns hc.kept (List.mem_filter.2 ⟨he, hchanged⟩)]
      constructor
      · rintro ⟨hq, -, hrenames⟩
        exact ⟨c, hc, hq, hrenames⟩
      · rintro ⟨c', hc', hq, hrenames⟩
        obtain rfl := Option.some.inj (hc.comparison.symm.trans hc'.comparison)
        exact ⟨hq, rfl, hrenames⟩
    rw [comesFirst_append_right (hnot z x) (hnot x y), comesFirst_map]
    refine comesFirst_ofEach hcolumns (fun e he ys hys => ?_) (fun e he ys hys => ?_)
    · rw [comesFirst_eq_iff_mem, hrename e he ys hys]
      -- One column gets one name only.
      intro hzx hxy
      obtain ⟨_, _, _, hzx⟩ := (hrename e he ys hys z x).1 hzx
      obtain ⟨_, _, _, hxy⟩ := (hrename e he ys hys x y).1 hxy
      exact hne (hzx.unique hxy).2
    · rw [exists_eq_right, hrename e he ys hys]
  · refine iff_of_false (fun hfirst => ?_) (fun hfirst => ?_)
    · obtain ⟨_, hx, rfl⟩ := hfirst.exists
      exact hbyColumn (Table.exists_byColumn h hx rfl)
    · obtain ⟨site, hsite, c, hc, -⟩ := hfirst.exists
      obtain ⟨e, -, rfl⟩ := List.mem_map.1 hsite
      exact hbyColumn ⟨c, hc⟩

end Nodes

section Commands

variable {skipKeyspaces : Bool} {cs : List Command} (h : commands s skipKeyspaces t = .ok cs)

include h

/-- Columns are renamed for modified tables only, and these come first. -/
theorem exists_modified_tables :
    ∃ front rest, tables s t .modified = .ok front ∧ cs = front ++ rest ∧
      ∀ q old new, .renameColumn q old new ∉ rest := by
  simp only [commands, bind_eq_ok_iff, pure_eq_ok_iff] at h
  obtain ⟨ts, hts, us, hus, rfl⟩ := h
  obtain ⟨front, others, hfront, hothers, rfl⟩ := ofEach_cons_eq_ok_iff.1 hts
  refine ⟨front, others ++ ((if skipKeyspaces then [] else
      [.added, .modified, .deleted].flatMap (keyspaces t)) ++
    ([.modified, .added, .deleted].flatMap (views t) ++ us)), hfront,
    by simp only [List.append_assoc], ?_⟩
  intro q old new hx
  simp only [List.mem_append] at hx
  rcases hx with hx | hx | hx | hx
  · obtain ⟨b, hb, ys, hys, hx⟩ := (mem_ofEach_iff hothers _).1 hx
    obtain ⟨n, -, own, hown, hx⟩ := (mem_ofEach_iff hys _).1 hx
    obtain ⟨_, _, _, _, _, hupdate, _⟩ := (Table.renameColumn_mem_commands_iff hown).1 hx
    rcases List.mem_cons.1 hb with rfl | hb
    · cases hupdate
    · obtain rfl := List.mem_singleton.1 hb
      cases hupdate
  · split at hx
    · exact List.not_mem_nil hx
    · obtain ⟨b, -, hx⟩ := List.mem_flatMap.1 hx
      obtain ⟨n, -, hx⟩ := List.mem_flatMap.1 hx
      cases Keyspace.level_of_mem_commands hx
  · obtain ⟨b, -, hx⟩ := List.mem_flatMap.1 hx
    obtain ⟨n, -, hx⟩ := List.mem_flatMap.1 hx
    cases View.level_of_mem_commands hx
  · obtain ⟨b, -, ys, hys, hx⟩ := (mem_ofEach_iff hus _).1 hx
    obtain ⟨n, -, own, hown, hx⟩ := (mem_ofEach_iff hys _).1 hx
    cases UserType.level_of_mem_commands hown hx

theorem renameColumn_mem_commands_iff :
    .renameColumn q old new ∈ cs ↔ ∃ site ∈ changedColumns t, RenamesKey s q site old new := by
  obtain ⟨front, rest, hfront, rfl, hrest⟩ := exists_modified_tables h
  rw [List.mem_append, or_iff_left (hrest q old new), mem_ofEach_iff hfront]
  constructor
  · rintro ⟨n, hn, own, hown, hx⟩
    obtain ⟨site, hsite, hrenames⟩ := (renameColumn_mem_node_commands_iff hown).1 hx
    exact ⟨site, List.mem_flatMap.2 ⟨n, hn, hsite⟩, hrenames⟩
  · rintro ⟨site, hsite, hrenames⟩
    obtain ⟨n, hn, hsite⟩ := List.mem_flatMap.1 hsite
    obtain ⟨own, hown⟩ := exists_of_mem_of_ofEach hfront hn
    exact ⟨n, hn, own, hown, (renameColumn_mem_node_commands_iff hown).2 ⟨site, hsite, hrenames⟩⟩

/-- The renamings of a tree stand in the order of its columns. -/
theorem comesFirst_commands_iff (hne : x ≠ y) :
    ComesFirst (· = .renameColumn q z x) (· = .renameColumn q x y) cs ↔
      ComesFirst (RenamesKey s q · z x) (RenamesKey s q · x y) (changedColumns t) := by
  obtain ⟨front, rest, hfront, rfl, hrest⟩ := exists_modified_tables h
  have hnot : ∀ c ∈ rest, c ≠ .renameColumn q z x := by
    rintro c hc rfl
    exact hrest _ _ _ hc
  rw [comesFirst_append_left hnot, changedColumns, comesFirst_flatMap]
  refine comesFirst_ofEach hfront (fun n _ own hown => comesFirst_node_commands_iff hown hne) ?_
  intro n _ own hown
  rw [exists_eq_right]
  exact renameColumn_mem_node_commands_iff hown

/-! ## Scripts -/

theorem renameColumn_mem_ofStatements_iff (applyDrops : Bool) :
    (Command.renameColumn q old new).statement ∈ ofStatements applyDrops
        (cs.map Command.statement) ↔
      ∃ site ∈ changedColumns t, RenamesKey s q site old new := by
  rw [mem_ofStatements_iff_of_kept (by simp [Command.action]), ← renameColumn_mem_commands_iff h]
  exact Command.statement_mem_map_iff (a := .rename old new)

/-- An addition of the old name stands in front of the renaming. -/
theorem sublist_add_rename (type : String) (applyDrops : Bool)
    (hrename : (Command.renameColumn q x y).statement ∈
      ofStatements applyDrops (cs.map Command.statement)) :
    [(Command.addColumn q ⟨x, type⟩).statement, (Command.renameColumn q x y).statement].Sublist
        (ofStatements applyDrops (cs.map Command.statement)) ↔
      AddsColumn s t q ⟨x, type⟩ := by
  have hadd : (Command.addColumn q ⟨x, type⟩).statement ∈
      ofStatements applyDrops (cs.map Command.statement) ↔ AddsColumn s t q ⟨x, type⟩ := by
    rw [mem_ofStatements_iff_of_kept (by simp [Command.action]), ← addColumn_mem_commands_iff h]
    exact Command.statement_mem_map_iff (a := .add ⟨x, type⟩)
  rw [← hadd]
  refine ⟨fun hsub => hsub.subset List.mem_cons_self, fun hmem => ?_⟩
  have hranks : 11 + (Alteration.add ⟨x, type⟩).phase < 11 + (Alteration.rename x y).phase := by
    simp [Alteration.phase]
  rw [← Alteration.rank_command q, ← Alteration.rank_command q] at hranks
  exact sublist_of_rank_lt hmem hrename hranks

/-- Two renamings stand in the order in which their columns are gone through. -/
theorem sublist_renames_iff (hne : x ≠ y) (applyDrops : Bool)
    (hrename : ∃ site ∈ changedColumns t, RenamesKey s q site x y) :
    [(Command.renameColumn q z x).statement, (Command.renameColumn q x y).statement].Sublist
        (ofStatements applyDrops (cs.map Command.statement)) ↔
      ComesFirst (RenamesKey s q · z x) (RenamesKey s q · x y) (changedColumns t) := by
  have heq : ∀ (c : Command) (old new : String),
      c.statement = (Command.renameColumn q old new).statement ↔ c = .renameColumn q old new :=
    fun c old new => Command.statement_eq_command_iff (a := .rename old new)
  have hstatements : (Command.renameColumn q z x).statement ≠
      (Command.renameColumn q x y).statement := by
    intro he
    exact hne (Command.renameColumn.inj ((heq _ _ _).1 he)).2.2
  have hmem : (Command.renameColumn q x y).statement ∈ cs.map Command.statement :=
    (Command.statement_mem_map_iff (a := .rename x y)).2
      ((renameColumn_mem_commands_iff h).2 hrename)
  have hfirst : ComesFirst (· = (Command.renameColumn q z x).statement)
        (· = (Command.renameColumn q x y).statement) (cs.map Command.statement) ↔
      ComesFirst (RenamesKey s q · z x) (RenamesKey s q · x y) (changedColumns t) := by
    rw [comesFirst_map, comesFirst_congr (fun c _ => heq c z x) (fun c _ => heq c x y),
      comesFirst_commands_iff h hne]
  rw [sublist_ofStatements_iff hstatements rfl (by simp [Command.action]), ← hfirst,
    comesFirst_eq_iff_idxOf_lt hstatements]
  refine ⟨fun h => h.2.2, fun hlt => ⟨?_, hmem, hlt⟩⟩
  exact List.idxOf_lt_length_iff.1 (Nat.lt_trans hlt (List.idxOf_lt_length_iff.2 hmem))

end Commands

/-- In a script no addition of the old name of a renamed column stands in front of the renaming, and
    no renaming of another column to this name. -/
def FreedFirst (q : QualifiedName) (old new : String) (final : List Statement) : Prop :=
  (∀ type, ¬ [(Command.addColumn q ⟨old, type⟩).statement,
    (Command.renameColumn q old new).statement].Sublist final) ∧
  ∀ name, ¬ [(Command.renameColumn q name old).statement,
    (Command.renameColumn q old new).statement].Sublist final

/-- A script has the renaming of a key column behind every addition of its old name, and behind the
    renaming of another column to its old name exactly if that column is gone through first. So the
    name is free before something takes it exactly if no column of this name is added, and no column
    that is gone through first gets this name. -/
theorem freedFirst_iff (resolver : Resolver) (references : References) (mode : Mode) {root : Json}
    (ht : ChangeTree.ofJson root = .ok t) {site : Child Table × String × Field}
    (hsite : site ∈ changedColumns t)
    (hrenames : RenamesKey (scope resolver references mode.legacy t) q site x y) :
    (resolver.Answers → ∃ final, ofTree resolver references mode root = .ok final) ∧
    ∀ final, ofTree resolver references mode root = .ok final →
      (Command.renameColumn q x y).statement ∈ final ∧
      (∀ type,
        [(Command.addColumn q ⟨x, type⟩).statement, (Command.renameColumn q x y).statement].Sublist
            final ↔
          AddsColumn (scope resolver references mode.legacy t) t q ⟨x, type⟩) ∧
      (∀ z,
        [(Command.renameColumn q z x).statement, (Command.renameColumn q x y).statement].Sublist
            final ↔
          ComesFirst (RenamesKey (scope resolver references mode.legacy t) q · z x)
            (RenamesKey (scope resolver references mode.legacy t) q · x y) (changedColumns t)) ∧
      (FreedFirst q x y final ↔
        (∀ type, ¬ AddsColumn (scope resolver references mode.legacy t) t q ⟨x, type⟩) ∧
        ∀ z, ¬ ComesFirst (RenamesKey (scope resolver references mode.legacy t) q · z x)
          (RenamesKey (scope resolver references mode.legacy t) q · x y) (changedColumns t)) := by
  refine ⟨fun hr => exists_ofTree_eq_ok hr references mode ht, fun final hfinal => ?_⟩
  obtain ⟨cs, hcs, rfl⟩ := (ofTree_eq_ok_iff_of_ofJson ht).1 hfinal
  have hrename : ∃ site ∈ changedColumns t,
      RenamesKey (scope resolver references mode.legacy t) q site x y := ⟨site, hsite, hrenames⟩
  have hmem := (renameColumn_mem_ofStatements_iff hcs mode.applyDrops).2 hrename
  obtain ⟨_, _, _, hchanged⟩ := hrenames
  have hadds := fun type => sublist_add_rename hcs type mode.applyDrops hmem
  have hfirst := fun z => sublist_renames_iff (z := z) hcs hchanged.differ mode.applyDrops hrename
  refine ⟨hmem, hadds, hfirst, ?_⟩
  simp only [FreedFirst, hadds, hfirst]

/-! ## Keys that take each other's names -/

/-- A column that gets another name, as it comes in. -/
def renamedColumn (old new : String) (key : Bool) : String × Json :=
  (new, .obj [("name", .str new), ("type", .str "uuid"), ("primaryKey", .bool key),
    ("compMod", .obj
      [("oldField", .obj [("name", .str old)]), ("newField", .obj [("name", .str new)])])])

/-- The column as it is read. -/
def renamedField (old new : String) (key : Bool) : String × Field :=
  (new,
    { name := some new, typeName := some "uuid", primaryKey := key
      comparison := some { old := some { name := some old }, new := some { name := some new } } })

theorem renames_renamedField {old new : String} (hne : old ≠ new) (t : ChangeTree) :
    (renamedField old new true).2.Renames (scope Resolver.builtin .empty false t) new old new :=
  ⟨rfl, rfl, ⟨"uuid", "uuid", rfl, rfl, rfl, rfl, rfl⟩, hne⟩

/-- A table of which columns change. -/
def usersOf (columns : Entries Json) : Json :=
  let role : Json := .obj [("code", .str "users"), ("compMod", .obj [("keyspaceName", .str "app")])]
  ChangeTree.rootOf .tables .modified
    [("users", .obj [("role", role), ("properties", .obj columns)])]

/-- The table as it is read. -/
def usersTable (columns : Entries Field) : Table where
  role := { code := some "users", comparison := some { keyspace := some "app" } }
  properties := some (.named columns)

/-- Key columns of which one takes the name of the other, which is renamed first. -/
def shiftedKeys : Json := usersOf [renamedColumn "b" "c" true, renamedColumn "a" "b" true]

def shiftedTree : ChangeTree := ⟨shiftedKeys.get? "properties"⟩

/-- The table of the tree. -/
def shiftedUsers : Child Table :=
  ⟨"users", usersTable [renamedField "b" "c" true, renamedField "a" "b" true]⟩

theorem changedColumns_shiftedTree :
    changedColumns shiftedTree =
      [(shiftedUsers, renamedField "b" "c" true), (shiftedUsers, renamedField "a" "b" true)] := rfl

/-- The name is free before the other column takes it. -/
theorem freedFirst_of_shiftedKeys :
    ∃ final, ofTree Resolver.builtin .empty {} shiftedKeys = .ok final ∧
      FreedFirst ⟨some "app", "users"⟩ "b" "c" final := by
  have ht : ChangeTree.ofJson shiftedKeys = .ok shiftedTree := rfl
  have hrenames : RenamesKey (scope Resolver.builtin .empty false shiftedTree)
      ⟨some "app", "users"⟩ (shiftedUsers, renamedField "b" "c" true) "b" "c" :=
    ⟨{ keyspace := some "app" }, ⟨rfl, rfl, rfl, rfl, rfl⟩, rfl,
      renames_renamedField (by decide) shiftedTree⟩
  obtain ⟨hexists, hall⟩ := freedFirst_iff Resolver.builtin .empty {} ht (.head _) hrenames
  obtain ⟨final, hfinal⟩ := hexists Resolver.answers_builtin
  obtain ⟨-, -, -, hiff⟩ := hall final hfinal
  refine ⟨final, hfinal, hiff.2 ⟨?_, ?_⟩⟩
  · rintro type ⟨b, n, hn, c, hc, -, e, he, hadded⟩
    cases b with
    | modified =>
      obtain rfl : n = shiftedUsers := List.mem_singleton.1 hn
      have hkeys : ∀ e ∈ shiftedUsers.node.columns, e.2.primaryKey = true := by decide
      cases hadded with
      | displaced _ hkey => exact Bool.noConfusion (hkey.symm.trans (hkeys e he))
    | added => exact List.not_mem_nil hn
    | deleted => exact List.not_mem_nil hn
  · intro z hfirst
    rw [changedColumns_shiftedTree] at hfirst
    rcases hfirst with ⟨_, _, _, hfirst⟩ | ⟨hnot, -⟩
    · obtain ⟨_, _, _, hrenamed⟩ := hrenames
      exact absurd (hfirst.unique hrenamed).2 (by decide)
    · exact hnot hrenames

/-- Key columns of which one takes the name of the other, which is renamed later, and a column that
    takes the name that gets free. -/
def reusedKeys : Json :=
  usersOf [renamedColumn "a" "b" true, renamedColumn "b" "c" true, renamedColumn "d" "a" false]

def reusedTree : ChangeTree := ⟨reusedKeys.get? "properties"⟩

/-- The columns of the table of the tree. -/
def reusedFields : Entries Field :=
  [renamedField "a" "b" true, renamedField "b" "c" true, renamedField "d" "a" false]

/-- The commands for the table, in the order of the script. -/
def reusedCommands : List Command :=
  [.alterTableOptions ⟨some "app", "users"⟩ [], .dropColumn ⟨some "app", "users"⟩ "d",
    .addColumn ⟨some "app", "users"⟩ ⟨"a", "uuid"⟩, .renameColumn ⟨some "app", "users"⟩ "a" "b",
    .renameColumn ⟨some "app", "users"⟩ "b" "c"]

/-- Both names are taken before they are free. -/
theorem not_freedFirst_of_reusedKeys :
    ∃ final, ofTree Resolver.builtin .empty { applyDrops := true } reusedKeys = .ok final ∧
      ChangeTree.ofJson reusedKeys = .ok reusedTree ∧
      (∃ site ∈ changedColumns reusedTree, RenamesKey
        (scope Resolver.builtin .empty false reusedTree) ⟨some "app", "users"⟩ site "a" "b") ∧
      (∃ site ∈ changedColumns reusedTree, RenamesKey
        (scope Resolver.builtin .empty false reusedTree) ⟨some "app", "users"⟩ site "b" "c") ∧
      ¬ FreedFirst ⟨some "app", "users"⟩ "a" "b" final ∧
      ¬ FreedFirst ⟨some "app", "users"⟩ "b" "c" final := by
  have hbyColumn : (usersTable reusedFields).ByColumn
      (scope Resolver.builtin .empty false reusedTree) { keyspace := some "app" } :=
    ⟨rfl, rfl, rfl, rfl, rfl⟩
  refine ⟨reusedCommands.map Command.statement, rfl, rfl,
    ⟨(⟨"users", usersTable reusedFields⟩, renamedField "a" "b" true), .head _, ?_⟩,
    ⟨(⟨"users", usersTable reusedFields⟩, renamedField "b" "c" true), .tail _ (.head _), ?_⟩,
    fun hfreed => ?_, fun hfreed => ?_⟩
  · exact ⟨_, hbyColumn, rfl, renames_renamedField (by decide) reusedTree⟩
  · exact ⟨_, hbyColumn, rfl, renames_renamedField (by decide) reusedTree⟩
  · exact hfreed.1 "uuid" (.cons _ (.cons _ (.cons_cons _ (.cons_cons _ (.cons _ .slnil)))))
  · exact hfreed.2 "a" (.cons _ (.cons _ (.cons _ (.cons_cons _ (.cons_cons _ .slnil)))))

end Script

end AlterScript
