/-
  Which columns the statements of a table drop and add.

  Only a node that is neither created nor deleted nor created anew has statements for single
  columns (`Table.ByColumn`). `Table.dropColumn_mem_commands_iff` and
  `Table.addColumn_mem_commands_iff` say which columns these drop and add: those of a deleted or
  added node that are in no composite key, and changed columns without the flag for a primary key
  that cannot be changed in place (`Field.Displaced`). `Script.dropColumn_mem_commands_iff` and
  `Script.addColumn_mem_commands_iff` say it for whole trees.
-/
import AlterScript.Proofs.InPlace

namespace AlterScript

/-! ## Changed columns -/

namespace ChangedColumn

theorem afterRename_eq_replaced_iff {c : ChangedColumn} {o n old : String} {new : Column} :
    c.afterRename o n = .replaced old new ↔
      c.primaryKey = false ∧ o = old ∧ n = new.name ∧ c.newType.getD c.column.type = new.type := by
  obtain ⟨name, type⟩ := new
  rw [afterRename]
  cases c.primaryKey with
  | false => simp [replacement]
  | true => by_cases h : c.oldType = c.newType <;> simp [h]

theorem afterRetype_eq_replaced_iff {legacy : Bool} {c : ChangedColumn} {o n old : String}
    {new : Column} (hne : c.oldType ≠ c.newType) :
    c.afterRetype legacy o n = .replaced old new ↔
      c.primaryKey = false ∧ o = old ∧ n = new.name ∧ c.newType.getD c.column.type = new.type ∧
        CqlType.Inconvertible legacy c.oldType c.newType := by
  obtain ⟨name, type⟩ := new
  rw [afterRetype]
  cases hold : c.oldType with
  | none => simp
  | some oldType =>
    cases hnew : c.newType with
    | none => simp
    | some newType =>
      have hne : oldType ≠ newType := fun he => hne (by rw [hold, hnew, he])
      cases c.primaryKey with
      | true => simp
      | false =>
        by_cases hconvert : legacy = true ∧ CqlType.isConvertible oldType newType = true
        · simp [hconvert]
        · simp [hconvert, hne, replacement, hnew]

/-- A column is dropped and added anew if it is no key column, and gets another name or a type that
    its old one cannot be converted to. -/
theorem change_eq_replaced_iff {legacy : Bool} {c : ChangedColumn} {old : String} {new : Column} :
    c.change legacy = .replaced old new ↔
      c.primaryKey = false ∧ c.oldName = some old ∧ c.newName = some new.name ∧
        c.newType.getD c.column.type = new.type ∧
        (old ≠ new.name ∨ CqlType.Inconvertible legacy c.oldType c.newType) := by
  rw [change]
  cases hold : c.oldName with
  | none => simp
  | some o =>
    cases hnew : c.newName with
    | none => simp
    | some n =>
      simp only [Option.some.injEq]
      by_cases hname : o = n
      · subst hname
        rw [if_neg (not_not_intro rfl)]
        by_cases htype : c.oldType = c.newType
        · rw [if_neg (not_not_intro htype)]
          constructor
          · intro h
            simp at h
          · rintro ⟨_, rfl, hnew, _, hne | ⟨_, _, h1, h2, hne, _⟩⟩
            · exact absurd hnew hne
            · rw [htype, h2, Option.some.injEq] at h1
              exact absurd h1.symm hne
        · rw [if_pos htype, afterRetype_eq_replaced_iff htype]
          constructor
          · rintro ⟨hkey, rfl, hn, ht, hinconvertible⟩
            exact ⟨hkey, rfl, hn, ht, Or.inr hinconvertible⟩
          · rintro ⟨hkey, rfl, hn, ht, hne | hinconvertible⟩
            · exact absurd hn hne
            · exact ⟨hkey, rfl, hn, ht, hinconvertible⟩
      · rw [if_pos hname, afterRename_eq_replaced_iff]
        constructor
        · rintro ⟨hkey, rfl, rfl, ht⟩
          exact ⟨hkey, rfl, rfl, ht, Or.inl hname⟩
        · rintro ⟨hkey, rfl, rfl, ht, _⟩
          exact ⟨hkey, rfl, rfl, ht⟩

end ChangedColumn

namespace ColumnChange

theorem dropColumn_mem_commands_iff {x : ColumnChange} {q table : QualifiedName} {name : String} :
    .dropColumn q name ∈ x.commands table ↔ q = table ∧ ∃ new, x = .replaced name new := by
  cases x <;> simp [commands, eq_comm]

theorem addColumn_mem_commands_iff {x : ColumnChange} {q table : QualifiedName} {column : Column} :
    .addColumn q column ∈ x.commands table ↔ q = table ∧ ∃ old, x = .replaced old column := by
  cases x <;> simp [commands, eq_comm]

end ColumnChange

namespace Field

variable {s : Scope} {name old : String} {new : Column} {f : Field}

/-- A column has a type and two versions, with or without a type each. -/
structure Versions (s : Scope) (name : String) (f : Field) (type old new : String)
    (oldType newType : Option String) : Prop where
  ownType : s.typeOf f name = .ok (some type)
  oldName : f.oldVersion.label = some old
  newName : f.newVersion.label = some new
  oldType : s.typeOf f.oldVersion old = .ok oldType
  newType : s.typeOf f.newVersion new = .ok newType

/-- The change of a column cannot be made in place: the column gets another name, or a type that its
    old one cannot be converted to. -/
def Displaced (s : Scope) (name : String) (f : Field) (old : String) (new : Column) : Prop :=
  ∃ type oldType newType, f.Versions s name type old new.name oldType newType ∧
    newType.getD type = new.type ∧
    (old ≠ new.name ∨ CqlType.Inconvertible s.legacy oldType newType)

theorem change_eq_replaced_iff_displaced {type : String} {c : ChangedColumn}
    (htype : s.typeOf f name = .ok (some type))
    (hc : ChangedColumn.ofField s ⟨name, type⟩ f = .ok c) :
    c.change s.legacy = .replaced old new ↔ f.primaryKey = false ∧ f.Displaced s name old new := by
  simp only [ChangedColumn.ofField, bind_eq_ok_iff, pure_eq_ok_iff] at hc
  obtain ⟨oldType, hold, newType, hnew, rfl⟩ := hc
  rw [ChangedColumn.change_eq_replaced_iff]
  dsimp only
  constructor
  · rintro ⟨hkey, hoName, hnName, ht, hdisplaced⟩
    rw [hoName, Option.getD_some] at hold
    rw [hnName, Option.getD_some] at hnew
    exact ⟨hkey, type, oldType, newType, ⟨htype, hoName, hnName, hold, hnew⟩, ht, hdisplaced⟩
  · rintro ⟨hkey, type', oldType', newType', hv, ht, hdisplaced⟩
    have htype' := hv.ownType
    have hold' := hv.oldType
    have hnew' := hv.newType
    rw [htype, Except.ok.injEq, Option.some.injEq] at htype'
    rw [hv.oldName, Option.getD_some, hold', Except.ok.injEq] at hold
    rw [hv.newName, Option.getD_some, hnew', Except.ok.injEq] at hnew
    subst htype' hold hnew
    exact ⟨hkey, hv.oldName, hv.newName, ht, hdisplaced⟩

/-- The columns that the commands for a column drop: that of a deleted node if it is in no composite
    key, and a changed one that is displaced and no primary key. -/
inductive Dropped (s : Scope) : Direction → String → Field → String → Prop
  | deleted {name type : String} {f : Field} (hkey : f.inCompositeKey = false)
      (htype : s.typeOf f name = .ok (some type)) : Dropped s .delete name f name
  | displaced {name old : String} {f : Field} {new : Column}
      (hchanged : f.comparison.isSome = true) (hkey : f.primaryKey = false)
      (h : f.Displaced s name old new) : Dropped s .update name f old

/-- The columns that the commands for a column add: that of an added node if it is in no composite
    key and has no comparison, and a changed one that is displaced and no primary key. -/
inductive Added (s : Scope) : Direction → String → Field → Column → Prop
  | added {name type : String} {f : Field} (hkey : f.inCompositeKey = false)
      (hnew : f.comparison = none) (htype : s.typeOf f name = .ok (some type)) :
      Added s .create name f ⟨name, type⟩
  | displaced {name old : String} {f : Field} {new : Column}
      (hchanged : f.comparison.isSome = true) (hkey : f.primaryKey = false)
      (h : f.Displaced s name old new) : Added s .update name f new

end Field

/-! ## Tables -/

namespace Table

variable {s : Scope} {d : Direction} {t : Table} {key name : String} {own : List Command}
  {q : QualifiedName} {column : Column}

/-- The table is altered column by column: it is neither created nor deleted nor created anew, and
    the change is not about its options only. -/
structure ByColumn (s : Scope) (t : Table) (c : TableComparison) : Prop where
  comparison : t.role.comparison = some c
  created : c.created = false
  deleted : c.deleted = false
  modified : c.modified = false
  kept : t.isReplaced c (t.columnIds s.definitions) = false

/-- Some column of the table asks for the drop of a column. -/
def Drops (s : Scope) (d : Direction) (t : Table) (name : String) : Prop :=
  ∃ e ∈ t.columns, e.2.Dropped s d e.1 name

/-- Some column of the table asks for the addition of a column. -/
def Adds (s : Scope) (d : Direction) (t : Table) (column : Column) : Prop :=
  ∃ e ∈ t.columns, e.2.Added s d e.1 column

section Columns

variable {table : QualifiedName} {indexed : List String} {e : String × Field} {ys : List Command}

theorem mem_commandsOfColumn_delete_iff
    (h : commandsOfColumn s .delete table indexed e = .ok ys) (x : Command) :
    x ∈ ys ↔ x = .dropColumn table e.1 ∧ e.2.inCompositeKey = false ∧
      ∃ type, s.typeOf e.2 e.1 = .ok (some type) := by
  rw [commandsOfColumn] at h
  by_cases hkey : e.2.inCompositeKey = true
  · have hp : isPassedOver .delete e.2 = true := hkey
    rw [if_pos hp] at h
    obtain rfl := Except.ok.inj h
    simp [hkey]
  · have hp : ¬ isPassedOver .delete e.2 = true := hkey
    rw [if_neg hp] at h
    obtain ⟨type, htype, h⟩ := bind_eq_ok_iff.1 h
    cases type with
    | none =>
      obtain rfl := Except.ok.inj h
      simp [htype]
    | some type =>
      obtain rfl : [Command.dropColumn table e.1] = ys := Except.ok.inj h
      simp [htype, hkey]

theorem mem_commandsOfColumn_create_iff
    (h : commandsOfColumn s .create table indexed e = .ok ys) (x : Command) :
    x ∈ ys ↔ ∃ type, x = .addColumn table ⟨e.1, type⟩ ∧ e.2.inCompositeKey = false ∧
      e.2.comparison = none ∧ s.typeOf e.2 e.1 = .ok (some type) := by
  rw [commandsOfColumn] at h
  by_cases hp : isPassedOver .create e.2 = true
  · rw [if_pos hp] at h
    obtain rfl := Except.ok.inj h
    refine iff_of_false List.not_mem_nil ?_
    rintro ⟨_, _, hkey, hnone, _⟩
    simp [isPassedOver, hkey, hnone] at hp
  · rw [if_neg hp] at h
    obtain ⟨hkey, hnone⟩ : e.2.inCompositeKey = false ∧ e.2.comparison = none := by
      simpa [isPassedOver] using hp
    obtain ⟨type, htype, h⟩ := bind_eq_ok_iff.1 h
    cases type with
    | none =>
      obtain rfl := Except.ok.inj h
      simp [htype]
    | some type =>
      obtain rfl : [Command.addColumn table ⟨e.1, type⟩] = ys := Except.ok.inj h
      simp [htype, hkey, hnone]

/-- The commands for a changed column that is under no index are those of some change. It is a
    replacement if the column is displaced and no primary key. -/
theorem exists_change_of_commandsOfColumn
    (h : commandsOfColumn s .update table indexed e = .ok ys)
    (hchanged : e.2.comparison.isSome = true) (hindexed : e.1 ∉ indexed) :
    ∃ x : ColumnChange, ys = x.commands table ∧ ∀ old new,
      x = .replaced old new ↔ e.2.primaryKey = false ∧ e.2.Displaced s e.1 old new := by
  have huntouched : isUntouched indexed .update e.1 e.2 = false := by
    obtain ⟨c, hc⟩ := Option.isSome_iff_exists.1 hchanged
    simp [isUntouched, hc, hindexed]
  rw [commandsOfColumn_update] at h
  obtain ⟨type, htype, h⟩ := bind_eq_ok_iff.1 h
  cases type with
  | none =>
    obtain rfl := Except.ok.inj h
    refine ⟨.kept, rfl, fun old new => iff_of_false (by simp) ?_⟩
    rintro ⟨_, _, _, _, hv, _⟩
    have := hv.ownType
    simp [htype] at this
  | some type =>
    dsimp only at h
    rw [huntouched, if_neg Bool.false_ne_true] at h
    simp only [columnCommands, bind_eq_ok_iff, pure_eq_ok_iff] at h
    obtain ⟨c, hc, rfl⟩ := h
    exact ⟨_, rfl, fun old new => Field.change_eq_replaced_iff_displaced htype hc⟩

theorem dropColumn_mem_commandsOfColumn_iff (h : commandsOfColumn s d table indexed e = .ok ys)
    (hindexed : e.2.comparison.isSome = true → e.1 ∉ indexed) :
    .dropColumn q name ∈ ys ↔ q = table ∧ e.2.Dropped s d e.1 name := by
  cases d with
  | create =>
    rw [mem_commandsOfColumn_create_iff h]
    refine iff_of_false ?_ ?_
    · rintro ⟨_, hx, _⟩
      simp at hx
    · rintro ⟨_, hdropped⟩
      cases hdropped
  | delete =>
    rw [mem_commandsOfColumn_delete_iff h, Command.dropColumn.injEq]
    constructor
    · rintro ⟨⟨rfl, rfl⟩, hkey, type, htype⟩
      exact ⟨rfl, .deleted hkey htype⟩
    · rintro ⟨rfl, ⟨hkey, htype⟩⟩
      exact ⟨⟨rfl, rfl⟩, hkey, _, htype⟩
  | update =>
    by_cases hchanged : e.2.comparison.isSome = true
    · obtain ⟨x, rfl, hreplaced⟩ := exists_change_of_commandsOfColumn h hchanged (hindexed hchanged)
      rw [ColumnChange.dropColumn_mem_commands_iff]
      constructor
      · rintro ⟨rfl, new, hx⟩
        obtain ⟨hkey, hdisplaced⟩ := (hreplaced name new).1 hx
        exact ⟨rfl, .displaced hchanged hkey hdisplaced⟩
      · rintro ⟨rfl, hdropped⟩
        cases hdropped with
        | displaced _ hkey hdisplaced => exact ⟨rfl, _, (hreplaced _ _).2 ⟨hkey, hdisplaced⟩⟩
    · obtain rfl := commandsOfColumn_of_not_changed (by simpa using hchanged) h
      refine iff_of_false List.not_mem_nil ?_
      rintro ⟨_, hdropped⟩
      cases hdropped with
      | displaced hchanged' => exact hchanged hchanged'

theorem addColumn_mem_commandsOfColumn_iff (h : commandsOfColumn s d table indexed e = .ok ys)
    (hindexed : e.2.comparison.isSome = true → e.1 ∉ indexed) :
    .addColumn q column ∈ ys ↔ q = table ∧ e.2.Added s d e.1 column := by
  cases d with
  | create =>
    rw [mem_commandsOfColumn_create_iff h]
    constructor
    · rintro ⟨type, hx, hkey, hnone, htype⟩
      obtain ⟨rfl, rfl⟩ := Command.addColumn.inj hx
      exact ⟨rfl, .added hkey hnone htype⟩
    · rintro ⟨rfl, ⟨hkey, hnone, htype⟩⟩
      exact ⟨_, rfl, hkey, hnone, htype⟩
  | delete =>
    rw [mem_commandsOfColumn_delete_iff h]
    refine iff_of_false ?_ ?_
    · rintro ⟨hx, _⟩
      simp at hx
    · rintro ⟨_, hadded⟩
      cases hadded
  | update =>
    by_cases hchanged : e.2.comparison.isSome = true
    · obtain ⟨x, rfl, hreplaced⟩ := exists_change_of_commandsOfColumn h hchanged (hindexed hchanged)
      rw [ColumnChange.addColumn_mem_commands_iff]
      constructor
      · rintro ⟨rfl, old, hx⟩
        obtain ⟨hkey, hdisplaced⟩ := (hreplaced old column).1 hx
        exact ⟨rfl, .displaced hchanged hkey hdisplaced⟩
      · rintro ⟨rfl, hadded⟩
        cases hadded with
        | displaced _ hkey hdisplaced => exact ⟨rfl, _, (hreplaced _ _).2 ⟨hkey, hdisplaced⟩⟩
    · obtain rfl := commandsOfColumn_of_not_changed (by simpa using hchanged) h
      refine iff_of_false List.not_mem_nil ?_
      rintro ⟨_, hadded⟩
      cases hadded with
      | displaced hchanged' => exact hchanged hchanged'

end Columns

/-! ## Nodes -/

/-- Only a table that is altered column by column has commands for single columns. -/
theorem exists_byColumn (h : t.commands s d key = .ok own) {x : Command} (hx : x ∈ own)
    (hlevel : x.level = .field) : ∃ c, t.ByColumn s c := by
  rw [commands] at h
  split at h
  · obtain rfl := Except.ok.inj h
    simp at hx
  · rename_i c hc
    dsimp only at h
    split at h
    · obtain rfl := Except.ok.inj h
      rcases List.mem_cons.1 hx with rfl | hx
      · simp [Command.level] at hlevel
      · simp [IndexSet.level_of_mem_drops hx] at hlevel
    · rename_i hdeleted
      split at h
      · simp only [bind_eq_ok_iff, pure_eq_ok_iff] at h
        obtain ⟨made, hmade, rfl⟩ := h
        rcases List.mem_append.1 hx with hx | hx
        · simp [level_of_mem_create hmade hx] at hlevel
        · simp [IndexSet.level_of_mem_creations hx] at hlevel
      · rename_i hcreated
        split at h
        · simpa using mem_columns_of_mem_update h hx hlevel
        · rename_i hmodified
          obtain ⟨columns, _, hupdate⟩ := bind_eq_ok_iff.1 h
          exact ⟨c, hc, by simpa using hcreated, by simpa using hdeleted,
            by simpa using hmodified, ((mem_update_iff_of_level hupdate hlevel).1 hx).1⟩

/-- The commands for single columns stand behind the other ones, in the order of the columns. -/
theorem exists_columns_of_byColumn {c : TableComparison} (hc : t.ByColumn s c)
    (h : t.commands s d key = .ok own) :
    ∃ front columns, own = front ++ columns ∧ (∀ x ∈ front, x.level ≠ .field) ∧
      Script.ofEach (commandsOfColumn s d (QualifiedName.of c.keyspace (t.label key))
        (t.indexedColumns (t.columnIds s.definitions))) t.columns = .ok columns := by
  simp only [commands, hc.comparison, hc.deleted, hc.created, hc.modified, Bool.false_eq_true,
    if_false] at h
  obtain ⟨columns, hcolumns, hupdate⟩ := bind_eq_ok_iff.1 h
  rw [updateColumns_eq_ofEach] at hcolumns
  simp only [update, hc.kept, Bool.false_eq_true, if_false] at hupdate
  obtain rfl := Except.ok.inj hupdate
  refine ⟨_, columns, rfl, fun x hx => ?_, hcolumns⟩
  rcases List.mem_cons.1 hx with rfl | hx
  · simp [Command.level]
  · simp [level_of_mem_alterIndexes hx]

/-- The commands for single columns are made column by column, from columns that are under no index
    if they change. -/
theorem mem_commands_iff_of_byColumn {c : TableComparison} (hc : t.ByColumn s c)
    (h : t.commands s d key = .ok own) {x : Command} (hlevel : x.level = .field)
    {P : String × Field → Prop}
    (hP : ∀ indexed e ys,
      commandsOfColumn s d (QualifiedName.of c.keyspace (t.label key)) indexed e = .ok ys →
      (e.2.comparison.isSome = true → e.1 ∉ indexed) →
      (x ∈ ys ↔ q = QualifiedName.of c.keyspace (t.label key) ∧ P e)) :
    x ∈ own ↔ q = QualifiedName.of c.keyspace (t.label key) ∧ ∃ e ∈ t.columns, P e := by
  obtain ⟨front, columns, rfl, hfront, hcolumns⟩ := exists_columns_of_byColumn hc h
  rw [List.mem_append, or_iff_right fun hx => hfront x hx hlevel, Script.mem_ofEach_iff hcolumns]
  have hindexed : ∀ e ∈ t.columns, e.2.comparison.isSome = true →
      e.1 ∉ t.indexedColumns (t.columnIds s.definitions) := fun e he hchanged =>
    notMem_indexedColumns hc.kept (List.mem_filter.2 ⟨he, hchanged⟩)
  constructor
  · rintro ⟨e, he, ys, hys, hx⟩
    obtain ⟨hq, hPe⟩ := (hP _ e ys hys (hindexed e he)).1 hx
    exact ⟨hq, e, he, hPe⟩
  · rintro ⟨hq, e, he, hPe⟩
    obtain ⟨ys, hys⟩ := Script.exists_of_mem_of_ofEach hcolumns he
    exact ⟨e, he, ys, hys, (hP _ e ys hys (hindexed e he)).2 ⟨hq, hPe⟩⟩

theorem dropColumn_mem_commands_iff (h : t.commands s d key = .ok own) :
    .dropColumn q name ∈ own ↔
      ∃ c, t.ByColumn s c ∧ q = QualifiedName.of c.keyspace (t.label key) ∧ t.Drops s d name := by
  constructor
  · intro hx
    obtain ⟨c, hc⟩ := exists_byColumn h hx rfl
    exact ⟨c, hc, (mem_commands_iff_of_byColumn hc h rfl fun _ _ _ hys hindexed =>
      dropColumn_mem_commandsOfColumn_iff hys hindexed).1 hx⟩
  · rintro ⟨c, hc, hdrops⟩
    exact (mem_commands_iff_of_byColumn hc h rfl fun _ _ _ hys hindexed =>
      dropColumn_mem_commandsOfColumn_iff hys hindexed).2 hdrops

theorem addColumn_mem_commands_iff (h : t.commands s d key = .ok own) :
    .addColumn q column ∈ own ↔
      ∃ c, t.ByColumn s c ∧ q = QualifiedName.of c.keyspace (t.label key) ∧ t.Adds s d column := by
  constructor
  · intro hx
    obtain ⟨c, hc⟩ := exists_byColumn h hx rfl
    exact ⟨c, hc, (mem_commands_iff_of_byColumn hc h rfl fun _ _ _ hys hindexed =>
      addColumn_mem_commandsOfColumn_iff hys hindexed).1 hx⟩
  · rintro ⟨c, hc, hadds⟩
    exact (mem_commands_iff_of_byColumn hc h rfl fun _ _ _ hys hindexed =>
      addColumn_mem_commandsOfColumn_iff hys hindexed).2 hadds

end Table

/-! ## Trees -/

namespace Script

variable {s : Scope} {t : ChangeTree} {cs : List Command} {skipKeyspaces : Bool}
  {q : QualifiedName}

/-- Some table of the tree that is altered column by column asks for the drop of a column. -/
def DropsColumn (s : Scope) (t : ChangeTree) (q : QualifiedName) (name : String) : Prop :=
  ∃ b, ∃ n ∈ t.children Table.ofJson? .tables b, ∃ c, n.node.ByColumn s c ∧
    q = QualifiedName.of c.keyspace (n.node.label n.key) ∧ n.node.Drops s (.ofBucket b) name

/-- Some table of the tree that is altered column by column asks for the addition of a column. -/
def AddsColumn (s : Scope) (t : ChangeTree) (q : QualifiedName) (column : Column) : Prop :=
  ∃ b, ∃ n ∈ t.children Table.ofJson? .tables b, ∃ c, n.node.ByColumn s c ∧
    q = QualifiedName.of c.keyspace (n.node.label n.key) ∧ n.node.Adds s (.ofBucket b) column

/-- A command for a column is one of some table of the tree. -/
theorem mem_commands_iff_of_level (h : commands s skipKeyspaces t = .ok cs) {x : Command}
    (hlevel : x.level = .field) : x ∈ cs ↔ OfTable s t x :=
  ⟨fun hx => ofTable_of_level h hx hlevel, fun hx => (mem_commands_iff h).2 (Or.inl hx)⟩

theorem dropColumn_mem_commands_iff (h : commands s skipKeyspaces t = .ok cs) {name : String} :
    .dropColumn q name ∈ cs ↔ DropsColumn s t q name := by
  rw [mem_commands_iff_of_level h rfl]
  constructor
  · rintro ⟨b, n, hn, ys, hys, hx⟩
    exact ⟨b, n, hn, (Table.dropColumn_mem_commands_iff hys).1 hx⟩
  · rintro ⟨b, n, hn, hdrops⟩
    obtain ⟨ys, hys⟩ := exists_table_commands h hn
    exact ⟨b, n, hn, ys, hys, (Table.dropColumn_mem_commands_iff hys).2 hdrops⟩

theorem addColumn_mem_commands_iff (h : commands s skipKeyspaces t = .ok cs) {column : Column} :
    .addColumn q column ∈ cs ↔ AddsColumn s t q column := by
  rw [mem_commands_iff_of_level h rfl]
  constructor
  · rintro ⟨b, n, hn, ys, hys, hx⟩
    exact ⟨b, n, hn, (Table.addColumn_mem_commands_iff hys).1 hx⟩
  · rintro ⟨b, n, hn, hadds⟩
    obtain ⟨ys, hys⟩ := exists_table_commands h hn
    exact ⟨b, n, hn, ys, hys, (Table.addColumn_mem_commands_iff hys).2 hadds⟩

/-! ## Scripts -/

theorem dropColumn_mem_ofStatements_iff (h : commands s skipKeyspaces t = .ok cs) {name : String} :
    (Command.dropColumn q name).statement ∈ ofStatements true (cs.map Command.statement) ↔
      DropsColumn s t q name := by
  rw [mem_ofStatements_true_iff, ← dropColumn_mem_commands_iff h]
  exact Command.statement_mem_map_iff (a := .drop name)

theorem addColumn_mem_ofStatements_iff (h : commands s skipKeyspaces t = .ok cs) {column : Column} :
    (Command.addColumn q column).statement ∈ ofStatements true (cs.map Command.statement) ↔
      AddsColumn s t q column := by
  rw [mem_ofStatements_true_iff, ← addColumn_mem_commands_iff h]
  exact Command.statement_mem_map_iff (a := .add column)

/-- With drops applied, the commands of a table are all in the script. -/
theorem statement_mem_ofStatements (h : commands s skipKeyspaces t = .ok cs) {b : Bucket}
    {n : Child Table} (hn : n ∈ t.children Table.ofJson? .tables b) {own : List Command}
    (hown : n.node.commands s (.ofBucket b) n.key = .ok own) {x : Command} (hx : x ∈ own) :
    x.statement ∈ ofStatements true (cs.map Command.statement) := by
  rw [mem_ofStatements_true_iff]
  exact List.mem_map_of_mem ((mem_commands_iff h).2 (Or.inl ⟨b, n, hn, own, hown, hx⟩))

end Script

end AlterScript
