/-
  Nodes and the levels of their commands.

  The commands of a keyspace, of a view and of a type are of the level of the node:
  `Keyspace.level_of_mem_commands`, `View.level_of_mem_commands`, `UserType.level_of_mem_commands`.
  Only tables have commands for columns, and these are about the table of the node:
  `Table.exists_alteration_of_level`, and for whole trees `Script.ofTable_of_level`. The other
  commands of a table are about it or its indexes: `Table.level_of_mem_commands`.
-/
import AlterScript.Proofs.ColumnMoves
import AlterScript.Proofs.Generated

namespace AlterScript

variable {s : Scope} {d : Direction} {key : String} {c : Command} {cs : List Command}

theorem Command.level_of_mem_toList {α : Type} {f : α → Command} {level : Level}
    (hf : ∀ x, (f x).level = level) {o : Option α} (h : c ∈ (o.map f).toList) :
    c.level = level := by
  obtain ⟨x, _, rfl⟩ := Option.map_eq_some_iff.1 (Option.mem_toList.1 h)
  exact hf x

/-! ## Keyspaces and views -/

theorem Keyspace.level_of_mem_commands {k : Keyspace} (h : c ∈ k.commands d) :
    c.level = .keyspace := by
  have hupdate : c ∈ k.update → c.level = .keyspace := by
    intro h
    rw [update] at h
    split at h
    · simp at h
    · rename_i comparison _
      have haltered : ∀ names : Option String × Option String,
          c ∈ (if isAltered comparison then
            ((names.2 <|> k.label).map fun n => Command.alterKeyspace (k.definition n)).toList
            else []) → c.level = .keyspace := by
        intro names h
        split at h
        · exact Command.level_of_mem_toList (fun _ => rfl) h
        · simp at h
      dsimp only at h
      split at h
      · split at h
        · rcases List.mem_cons.1 h with rfl | h
          · rfl
          · obtain rfl := List.mem_singleton.1 h
            rfl
        · exact haltered _ h
      · exact haltered _ h
  cases d with
  | update => exact hupdate h
  | create =>
    exact Command.level_of_mem_toList (fun _ => rfl) h
  | delete =>
    exact Command.level_of_mem_toList (fun _ => rfl) h

theorem View.level_of_mem_create {v : View} {name : String} (h : c ∈ v.create name) :
    c.level = .view := by
  exact Command.level_of_mem_toList (fun _ => rfl) h

theorem View.level_of_mem_commands {v : View} (h : c ∈ v.commands d) : c.level = .view := by
  have hupdate : c ∈ v.update → c.level = .view := by
    intro h
    rw [update] at h
    split at h
    · dsimp only at h
      split at h
      · rcases List.mem_cons.1 h with rfl | h
        · rfl
        · exact level_of_mem_create h
      · split at h
        · simp at h
        · obtain rfl := List.mem_singleton.1 h
          rfl
    · simp at h
  unfold commands at h
  split at h
  · exact hupdate h
  · exact level_of_mem_create h
  · obtain rfl := List.mem_singleton.1 h
    rfl
  · simp at h

/-! ## User-defined types -/

namespace UserType

theorem level_of_mem_create {t : UserType} {q : QualifiedName} (h : t.create s q = .ok cs)
    (hc : c ∈ cs) : c.level = .userType := by
  simp only [create, bind_eq_ok_iff, pure_eq_ok_iff] at h
  obtain ⟨fields, _, rfl⟩ := h
  split at hc
  · simp at hc
  · obtain rfl := List.mem_singleton.1 hc
    rfl

theorem level_of_mem_replace {t : UserType} {old new : QualifiedName}
    (h : t.replace s old new = .ok cs) (hc : c ∈ cs) : c.level = .userType := by
  simp only [replace, bind_eq_ok_iff, pure_eq_ok_iff] at h
  obtain ⟨created, hcreated, rfl⟩ := h
  rcases List.mem_cons.1 hc with rfl | hc
  · rfl
  · exact level_of_mem_create hcreated hc

theorem level_of_mem_updateFields {t : UserType} {q : QualifiedName}
    (h : t.updateFields s q t.fields = .ok cs) (hc : c ∈ cs) : c.level = .userType := by
  rw [updateFields_eq_ofEach] at h
  obtain ⟨e, _, ys, hys, hc⟩ := (Script.mem_ofEach_iff h c).1 hc
  obtain ⟨change, _, hys⟩ := bind_eq_ok_iff.1 hys
  cases change with
  | kept =>
    obtain rfl := Except.ok.inj hys
    simp at hc
  | added field =>
    obtain rfl := Except.ok.inj hys
    obtain rfl := List.mem_singleton.1 hc
    rfl
  | altered names converted =>
    obtain rfl := Except.ok.inj hys
    rcases List.mem_append.1 hc with hc | hc
    · exact Command.level_of_mem_toList (fun _ => rfl) hc
    · exact Command.level_of_mem_toList (fun _ => rfl) hc
  | inconvertible => exact level_of_mem_replace hys hc

theorem level_of_mem_commands {t : UserType} (h : t.commands s d key = .ok cs) (hc : c ∈ cs) :
    c.level = .userType := by
  cases d with
  | create => exact level_of_mem_create h hc
  | delete =>
    obtain rfl := Except.ok.inj h
    obtain rfl := List.mem_singleton.1 hc
    rfl
  | update =>
    have h : t.update s key = .ok cs := h
    rw [update] at h
    split at h
    · split at h
      · exact level_of_mem_replace h hc
      · exact level_of_mem_updateFields h hc
    · exact level_of_mem_updateFields h hc

end UserType

/-! ## Tables -/

namespace IndexSet

theorem level_of_mem_creations {i : IndexSet} {q : QualifiedName} (h : c ∈ i.creations q) :
    c.level = .index := by
  rcases List.mem_append.1 h with h | h
  · obtain ⟨x, _, rfl⟩ := List.mem_map.1 h
    rfl
  · split at h
    · simp at h
    · obtain rfl := List.mem_singleton.1 h
      rfl

theorem level_of_mem_drops {i : IndexSet} {q : QualifiedName} (h : c ∈ i.drops q) :
    c.level = .index := by
  rcases List.mem_append.1 h with h | h
  · obtain ⟨x, _, rfl⟩ := List.mem_map.1 h
    rfl
  · split at h
    · simp at h
    · obtain rfl := List.mem_singleton.1 h
      rfl

end IndexSet

namespace Table

/-- The table that the statements of a node are about; none without a comparison. -/
def target? (key : String) (t : Table) : Option QualifiedName :=
  t.role.comparison.map fun c => QualifiedName.of c.keyspace (t.label key)

theorem level_of_mem_create {t : Table} {q : QualifiedName} {columns : Entries Field}
    {options : Options} {comment : Option String}
    (h : t.create s q columns options comment = .ok cs) (hc : c ∈ cs) : c.level = .table := by
  simp only [create, bind_eq_ok_iff, pure_eq_ok_iff] at h
  obtain ⟨typed, _, rfl⟩ := h
  obtain rfl := List.mem_singleton.1 hc
  rfl

theorem level_of_mem_alterIndexes {t : Table} {ids : ColumnIds} {q : QualifiedName}
    (h : c ∈ t.alterIndexes ids q) : c.level = .index := by
  rcases List.mem_append.1 h with h | h
  · exact IndexSet.level_of_mem_drops h
  · exact IndexSet.level_of_mem_creations h

theorem level_of_mem_replaceIndexes {t : Table} {ids : ColumnIds} {old new : QualifiedName}
    (h : c ∈ t.replaceIndexes ids old new) : c.level = .index := by
  rcases List.mem_append.1 h with h | h
  · exact IndexSet.level_of_mem_drops h
  · exact IndexSet.level_of_mem_creations h

theorem exists_alteration_of_mem_columns {t : Table} {q : QualifiedName} {indexed : List String}
    (h : updateColumns s d q indexed t.columns = .ok cs) (hc : c ∈ cs) :
    ∃ a : Alteration, c = a.command q := by
  rw [updateColumns_eq_ofEach] at h
  obtain ⟨e, _, ys, hys, hc⟩ := (Script.mem_ofEach_iff h c).1 hc
  rw [commandsOfColumn] at hys
  split at hys
  · obtain rfl := Except.ok.inj hys
    simp at hc
  · obtain ⟨type, _, hys⟩ := bind_eq_ok_iff.1 hys
    cases type with
    | none =>
      obtain rfl := Except.ok.inj hys
      simp at hc
    | some type =>
      dsimp only at hys
      split at hys
      · obtain rfl := Except.ok.inj hys
        simp at hc
      · cases d with
        | create =>
          obtain rfl := Except.ok.inj hys
          obtain rfl := List.mem_singleton.1 hc
          exact ⟨.add _, rfl⟩
        | delete =>
          obtain rfl := Except.ok.inj hys
          obtain rfl := List.mem_singleton.1 hc
          exact ⟨.drop _, rfl⟩
        | update =>
          simp only [columnCommands, bind_eq_ok_iff, pure_eq_ok_iff] at hys
          obtain ⟨changed, _, rfl⟩ := hys
          rw [ColumnChange.commands_eq] at hc
          obtain ⟨a, _, rfl⟩ := List.mem_map.1 hc
          exact ⟨a, rfl⟩

/-- Of the commands for single columns those are made that are given, unless the table is created
    anew. -/
theorem mem_update_iff_of_level {t : Table} {comparison : TableComparison} {q : QualifiedName}
    {withOptions : Bool} {columns : List Command}
    (h : t.update s comparison q withOptions columns = .ok cs) (hlevel : c.level = .field) :
    c ∈ cs ↔ t.isReplaced comparison (t.columnIds s.definitions) = false ∧ c ∈ columns := by
  rw [update] at h
  dsimp only at h
  by_cases hr : t.isReplaced comparison (t.columnIds s.definitions) = true
  · rw [if_pos hr] at h
    refine iff_of_false (fun hc => ?_) fun hc => Bool.noConfusion (hr.symm.trans hc.1)
    split at h
    · simp only [replace, bind_eq_ok_iff, pure_eq_ok_iff] at h
      obtain ⟨created, hcreated, rfl⟩ := h
      rcases List.mem_append.1 hc with hc | hc
      · rcases List.mem_cons.1 hc with rfl | hc
        · simp [Command.level] at hlevel
        · simp [level_of_mem_create hcreated hc] at hlevel
      · simp [level_of_mem_replaceIndexes hc] at hlevel
    · obtain rfl := Except.ok.inj h
      simp at hc
  · rw [if_neg hr] at h
    obtain rfl := Except.ok.inj h
    refine ⟨fun hc => ⟨by simpa using hr, ?_⟩, fun hc => List.mem_append_right _ hc.2⟩
    rcases List.mem_append.1 hc with hc | hc
    · rcases List.mem_cons.1 hc with rfl | hc
      · simp [Command.level] at hlevel
      · simp [level_of_mem_alterIndexes hc] at hlevel
    · exact hc

theorem mem_columns_of_mem_update {t : Table} {comparison : TableComparison} {q : QualifiedName}
    {withOptions : Bool} {columns : List Command}
    (h : t.update s comparison q withOptions columns = .ok cs) (hc : c ∈ cs)
    (hlevel : c.level = .field) : c ∈ columns :=
  ((mem_update_iff_of_level h hlevel).1 hc).2

/-- What changes a table is about the table or its indexes, or is given for a column. -/
theorem level_of_mem_update {t : Table} {comparison : TableComparison} {q : QualifiedName}
    {withOptions : Bool} {columns : List Command}
    (h : t.update s comparison q withOptions columns = .ok cs) (hc : c ∈ cs) :
    c.level = .table ∨ c.level = .index ∨ c ∈ columns := by
  rw [update] at h
  dsimp only at h
  split at h
  · split at h
    · simp only [replace, bind_eq_ok_iff, pure_eq_ok_iff] at h
      obtain ⟨created, hcreated, rfl⟩ := h
      rcases List.mem_append.1 hc with hc | hc
      · rcases List.mem_cons.1 hc with rfl | hc
        · exact Or.inl rfl
        · exact Or.inl (level_of_mem_create hcreated hc)
      · exact Or.inr (Or.inl (level_of_mem_replaceIndexes hc))
    · obtain rfl := Except.ok.inj h
      simp at hc
  · obtain rfl := Except.ok.inj h
    rcases List.mem_append.1 hc with hc | hc
    · rcases List.mem_cons.1 hc with rfl | hc
      · exact Or.inl rfl
      · exact Or.inr (Or.inl (level_of_mem_alterIndexes hc))
    · exact Or.inr (Or.inr hc)

theorem level_of_mem_commands {t : Table} (h : t.commands s d key = .ok cs) (hc : c ∈ cs) :
    c.level = .table ∨ c.level = .index ∨ c.level = .field := by
  rw [commands] at h
  split at h
  · obtain rfl := Except.ok.inj h
    simp at hc
  · dsimp only at h
    split at h
    · obtain rfl := Except.ok.inj h
      rcases List.mem_cons.1 hc with rfl | hc
      · exact Or.inl rfl
      · exact Or.inr (Or.inl (IndexSet.level_of_mem_drops hc))
    · split at h
      · simp only [bind_eq_ok_iff, pure_eq_ok_iff] at h
        obtain ⟨created, hcreated, rfl⟩ := h
        rcases List.mem_append.1 hc with hc | hc
        · exact Or.inl (level_of_mem_create hcreated hc)
        · exact Or.inr (Or.inl (IndexSet.level_of_mem_creations hc))
      · split at h
        · exact (level_of_mem_update h hc).imp id (Or.imp id (absurd · List.not_mem_nil))
        · obtain ⟨columns, hcolumns, h⟩ := bind_eq_ok_iff.1 h
          refine (level_of_mem_update h hc).imp id (Or.imp id fun hc => ?_)
          obtain ⟨a, rfl⟩ := exists_alteration_of_mem_columns hcolumns hc
          exact Command.level_command _ a

/-- A command of a table for a column makes an alteration to this table. -/
theorem exists_alteration_of_level {t : Table} (h : t.commands s d key = .ok cs) (hc : c ∈ cs)
    (hlevel : c.level = .field) :
    ∃ (q : QualifiedName) (a : Alteration), t.target? key = some q ∧ c = a.command q := by
  rw [commands] at h
  split at h
  · obtain rfl := Except.ok.inj h
    simp at hc
  · rename_i comparison hcomparison
    have htarget : t.target? key =
        some (QualifiedName.of comparison.keyspace (t.label key)) := by
      rw [target?, hcomparison]
      rfl
    dsimp only at h
    split at h
    · obtain rfl := Except.ok.inj h
      rcases List.mem_cons.1 hc with rfl | hc
      · simp [Command.level] at hlevel
      · simp [IndexSet.level_of_mem_drops hc] at hlevel
    · split at h
      · simp only [bind_eq_ok_iff, pure_eq_ok_iff] at h
        obtain ⟨created, hcreated, rfl⟩ := h
        rcases List.mem_append.1 hc with hc | hc
        · simp [level_of_mem_create hcreated hc] at hlevel
        · simp [IndexSet.level_of_mem_creations hc] at hlevel
      · split at h
        · simpa using mem_columns_of_mem_update h hc hlevel
        · obtain ⟨columns, hcolumns, h⟩ := bind_eq_ok_iff.1 h
          obtain ⟨a, rfl⟩ := exists_alteration_of_mem_columns hcolumns
            (mem_columns_of_mem_update h hc hlevel)
          exact ⟨_, a, htarget, rfl⟩

end Table

/-! ## Trees -/

/-- A command for a column is a command of some table of the tree. -/
theorem Script.ofTable_of_level {skipKeyspaces : Bool} {t : ChangeTree}
    (h : Script.commands s skipKeyspaces t = .ok cs) (hc : c ∈ cs) (hlevel : c.level = .field) :
    Script.OfTable s t c := by
  rcases (Script.mem_commands_iff h).1 hc with hc | ⟨_, b, hc⟩ | ⟨b, hc⟩ | ⟨b, n, _, ys, hys, hc⟩
  · exact hc
  · obtain ⟨n, _, hc⟩ := List.mem_flatMap.1 hc
    simp [Keyspace.level_of_mem_commands hc] at hlevel
  · obtain ⟨n, _, hc⟩ := List.mem_flatMap.1 hc
    simp [View.level_of_mem_commands hc] at hlevel
  · simp [UserType.level_of_mem_commands hys hc] at hlevel

/-- A command for a user-defined type is a command of some type of the tree. -/
theorem Script.ofType_of_level {skipKeyspaces : Bool} {t : ChangeTree}
    (h : Script.commands s skipKeyspaces t = .ok cs) (hc : c ∈ cs) (hlevel : c.level = .userType) :
    Script.OfType s t c := by
  rcases (Script.mem_commands_iff h).1 hc with ⟨b, n, _, ys, hys, hc⟩ | ⟨_, b, hc⟩ | ⟨b, hc⟩ | hc
  · have := Table.level_of_mem_commands hys hc
    simp [hlevel] at this
  · obtain ⟨n, _, hc⟩ := List.mem_flatMap.1 hc
    simp [Keyspace.level_of_mem_commands hc] at hlevel
  · obtain ⟨n, _, hc⟩ := List.mem_flatMap.1 hc
    simp [View.level_of_mem_commands hc] at hlevel
  · exact hc

end AlterScript
