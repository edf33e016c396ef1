/-
  Comparisons that show no change.

  A node is `Unchanged` when its comparison has equal old and new values and its columns or fields
  keep their name and type. Such keyspaces, views and types give no statement, and such a table
  gives an empty one: `Keyspace.update_of_unchanged`, `View.update_of_unchanged`,
  `UserType.update_of_unchanged`, `Table.update_of_unchanged`. A table is the exception when a
  column that has a comparison is under an index: it is dropped and created anew.
-/
import Mathlib.Data.List.Perm.Subperm
import AlterScript.Proofs.Answers
import AlterScript.Proofs.UniqueNames

namespace AlterScript

/-! ## Values -/

namespace Change

variable {α : Type}

theorem bind_old_of_unchanged [BEq α] [LawfulBEq α] {c : Option (Change α)}
    (h : differs? c = false) : c.bind Change.old = c.bind Change.new := by
  cases c with
  | none => rfl
  | some c => simpa [differs?, differs] using h

theorem bind_oldName_of_unchanged {c : Option (Change String)} (h : differs? c = false) :
    c.bind oldName = c.bind newName := by
  have := congrArg (Option.bind · Text.nonBlank) (bind_old_of_unchanged h)
  simp only [Option.bind_assoc] at this
  exact this

theorem renamed_of_unchanged {code name : Option (Change String)} (hcode : differs? code = false)
    (hname : differs? name = false) : (renamed code name).1 = (renamed code name).2 := by
  rw [renamed, bind_oldName_of_unchanged hcode, bind_oldName_of_unchanged hname]

end Change

namespace Json

theorem sameEntries_iff (es ds : List (String × Json)) :
    sameEntries es ds = true ↔
      ∀ e ∈ es, ∃ v, Entries.find? e.1 ds = some v ∧ same e.2 v = true := by
  induction es with
  | nil => simp [sameEntries]
  | cons e es ih =>
    obtain ⟨k, j⟩ := e
    rw [sameEntries, Bool.and_eq_true, ih, List.forall_mem_cons]
    refine and_congr_left fun _ => ?_
    cases Entries.find? k ds with
    | none => simp
    | some v => simp

end Json

namespace Options

/-- Nothing has to be set where the new options are the old ones. The old ones hold no name twice,
    so both have the same names, and a new value is the one that the old value was compared with. -/
theorem diff_of_same {old new : Options} (hn : (Entries.keys old.entries).Nodup)
    (h : same old new = true) : (diff new old).entries = [] := by
  have h : (old.entries.length == new.entries.length
      && Json.sameEntries old.entries new.entries) = true := h
  rw [Bool.and_eq_true, beq_iff_eq, Json.sameEntries_iff] at h
  obtain ⟨hlength, hsame⟩ := h
  have hsubset : Entries.keys old.entries ⊆ Entries.keys new.entries := by
    intro k hk
    obtain ⟨e, he, rfl⟩ := List.mem_map.1 hk
    obtain ⟨v, hv, _⟩ := hsame e he
    exact List.mem_map.2 ⟨_, Entries.mem_of_find? hv, rfl⟩
  have hperm : (Entries.keys old.entries).Perm (Entries.keys new.entries) := by
    refine (List.subperm_of_subset hn hsubset).perm_of_length_le ?_
    simp [Entries.keys, hlength]
  rw [List.eq_nil_iff_forall_not_mem]
  rintro ⟨k, v⟩ he
  obtain ⟨hmem, hchanged⟩ := (mem_diff_iff new old (k, v)).1 he
  obtain ⟨⟨k', w⟩, hw, rfl⟩ := List.mem_map.1 (hperm.mem_iff.2 (List.mem_map.2 ⟨_, hmem, rfl⟩))
  obtain ⟨v', hv', hwv⟩ := hsame _ hw
  obtain rfl : v = v' := by
    rw [Entries.find?_of_mem (hperm.nodup_iff.1 hn) hmem] at hv'
    exact Option.some.inj hv'
  rw [isChanged, Entries.find?_of_mem hn hw, Bool.and_eq_true] at hchanged
  have hne : (!Json.same w v) = true := hchanged.2
  rw [hwv] at hne
  exact Bool.noConfusion hne

theorem changedClauses_of_unchanged {options : Option (Change Options)}
    {comment : Option (Change String)} (hoptions : Change.differs? options = false)
    (hcomment : Change.differs? comment = false)
    (hn : ∀ c, options = some c → ∀ old, c.old = some old → (Entries.keys old.entries).Nodup) :
    changedClauses options comment = [] := by
  have hdiff : (diff ((options.bind Change.new).getD .empty)
      ((options.bind Change.old).getD .empty)).entries = [] := by
    cases options with
    | none => rfl
    | some c =>
      obtain ⟨old, new⟩ := c
      have h : (old != new) = false := hoptions
      cases old with
      | none =>
        cases new with
        | none => rfl
        | some new => exact Bool.noConfusion h
      | some old =>
        cases new with
        | none => exact Bool.noConfusion h
        | some new =>
          refine diff_of_same (hn _ rfl old rfl) ?_
          have h : (!same old new) = false := h
          simpa using h
  have hset : (comment.bind fun c => changedComment c.old c.new) = none := by
    cases comment with
    | none => rfl
    | some c =>
      have : c.old = c.new := Change.bind_old_of_unchanged (c := some c) hcomment
      rw [Option.bind_some, this]
      cases c.new with
      | none => rfl
      | some new => exact if_pos rfl
  rw [changedClauses, hset, clauses, hdiff]
  rfl

end Options

/-! ## Fields -/

/-- A field keeps its name and its type; how else its versions differ does not count. -/
structure Field.Kept (s : Scope) (name : String) (f : Field) (c : FieldComparison Field) :
    Prop where
  created : c.created = false
  deleted : c.deleted = false
  label : f.oldVersion.label = f.newVersion.label
  type : s.typeOf f.oldVersion (f.oldVersion.label.getD name) =
    s.typeOf f.newVersion (f.newVersion.label.getD name)

/-- A field keeps its name and its type, where it has a comparison. -/
def Field.Unchanged (s : Scope) (name : String) (f : Field) : Prop :=
  ∀ c, f.comparison = some c → f.Kept s name c

/-! ## Keyspaces and views -/

structure KeyspaceComparison.Unchanged (c : KeyspaceComparison) : Prop where
  name : Change.differs? c.name = false
  code : Change.differs? c.code = false
  strategy : Change.differs? c.strategy = false
  factor : Change.differs? c.factor = false
  dataCenters : Change.differs? c.dataCenters = false
  durableWrites : Change.differs? c.durableWrites = false

namespace Keyspace

/-- The comparison shows no change. -/
def Unchanged (k : Keyspace) : Prop := ∀ c, k.comparison = some c → c.Unchanged

theorem update_of_unchanged {k : Keyspace} (h : k.Unchanged) : k.update = [] := by
  rw [update]
  split
  · rfl
  · rename_i c hc
    have haltered : isAltered c = false := by
      rw [isAltered, (h c hc).strategy, (h c hc).factor, (h c hc).dataCenters,
        (h c hc).durableWrites]
      rfl
    have hnames := Change.renamed_of_unchanged (h c hc).code (h c hc).name
    simp only [haltered, Bool.false_eq_true, if_false]
    split
    · rename_i old new heq
      rw [heq] at hnames
      obtain rfl : old = new := Option.some.inj hnames
      exact if_neg (not_not_intro rfl)
    · rfl

end Keyspace

structure ViewComparison.Unchanged (c : ViewComparison) : Prop where
  name : Change.differs? c.name = false
  code : Change.differs? c.code = false
  base : Change.differs? c.base = false
  condition : Change.differs? c.condition = false
  partitionKey : Change.differs? c.partitionKey = false
  clusteringKey : Change.differs? c.clusteringKey = false
  options : Change.differs? c.options = false
  comment : Change.differs? c.comment = false

namespace View

/-- The comparison shows no change. -/
def Unchanged (v : View) : Prop := ∀ c, v.comparison = some c → c.Unchanged

theorem update_of_unchanged {v : View} (h : v.Unchanged)
    (hn : ∀ c, v.comparison = some c → ∀ o, c.options = some o → ∀ old, o.old = some old →
      (Entries.keys old.entries).Nodup) : v.update = [] := by
  rw [update]
  split
  · rename_i c current hc _
    have hredefined : isRedefined c = false := by
      rw [isRedefined, (h c hc).partitionKey, (h c hc).clusteringKey, (h c hc).base,
        (h c hc).condition]
      rfl
    have hnames := Change.renamed_of_unchanged (h c hc).code (h c hc).name
    have hclauses : Options.changedClauses c.options c.comment = [] :=
      Options.changedClauses_of_unchanged (h c hc).options (h c hc).comment (hn c hc)
    dsimp only
    rw [hnames, if_neg (by simp [hredefined]), hclauses]
  · rfl

end View

/-! ## User-defined types -/

structure UserTypeComparison.Unchanged (c : UserTypeComparison) : Prop where
  name : Change.differs? c.name = false
  code : Change.differs? c.code = false

namespace UserType

/-- The comparison shows no change, and neither do those of the fields. -/
structure Unchanged (s : Scope) (t : UserType) : Prop where
  comparison : ∀ c, t.comparison = some c → c.Unchanged
  fields : ∀ e ∈ t.fields, e.2.Unchanged s e.1

theorem fieldChange_self (legacy : Bool) (name : String) (type : Option String) :
    fieldChange legacy name name type type = .altered none none := by
  cases type with
  | none => simp [fieldChange]
  | some type => simp [fieldChange]

theorem commandsOfField_of_unchanged {s : Scope} {t : UserType} {target : QualifiedName}
    {e : String × Field} (h : e.2.Unchanged s e.1) {cs : List Command}
    (hcs : t.commandsOfField s target e = .ok cs) : cs = [] := by
  obtain ⟨change, hchange, hcs⟩ := bind_eq_ok_iff.1 hcs
  rw [changeOf] at hchange
  split at hchange
  · obtain rfl := Except.ok.inj hchange
    exact (Except.ok.inj hcs).symm
  · rename_i c hc
    have hkept := h c hc
    rw [hkept.created, hkept.deleted, if_neg Bool.false_ne_true, if_neg Bool.false_ne_true]
      at hchange
    simp only [bind_eq_ok_iff, pure_eq_ok_iff] at hchange
    obtain ⟨oldType, hold, newType, hnew, rfl⟩ := hchange
    rw [hkept.type, hnew] at hold
    obtain rfl := Except.ok.inj hold
    rw [hkept.label, fieldChange_self] at hcs
    exact (Except.ok.inj hcs).symm

theorem update_of_unchanged {s : Scope} {key : String} {t : UserType} (h : t.Unchanged s)
    {cs : List Command} (hcs : t.update s key = .ok cs) : cs = [] := by
  have hfields : ∀ target, t.updateFields s target t.fields = .ok cs → cs = [] := by
    intro target hcs
    rw [updateFields_eq_ofEach] at hcs
    rw [List.eq_nil_iff_forall_not_mem]
    intro c hc
    obtain ⟨e, he, ys, hys, hc⟩ := (Script.mem_ofEach_iff hcs c).1 hc
    rw [commandsOfField_of_unchanged (h.fields e he) hys] at hc
    simp at hc
  have hnames : t.names.1 = t.names.2 := by
    refine Change.renamed_of_unchanged ?_ ?_
    · cases hc : t.comparison with
      | none => rfl
      | some c => exact (h.comparison c hc).code
    · cases hc : t.comparison with
      | none => rfl
      | some c => exact (h.comparison c hc).name
  rw [update] at hcs
  split at hcs
  · rename_i old new heq
    rw [heq] at hnames
    obtain rfl : old = new := Option.some.inj hnames
    rw [if_neg (not_not_intro rfl)] at hcs
    exact hfields _ hcs
  · exact hfields _ hcs

end UserType

/-! ## Tables -/

structure TableComparison.Unchanged (c : TableComparison) : Prop where
  created : c.created = false
  deleted : c.deleted = false
  name : Change.differs? c.name = false
  code : Change.differs? c.code = false
  collectionName : Change.differs? c.collectionName = false
  partitionKey : Change.differs? c.partitionKey = false
  clusteringKey : Change.differs? c.clusteringKey = false
  options : Change.differs? c.options = false
  comment : Change.differs? c.comment = false
  indexes : Change.differs? c.indexes = false
  searchColumns : Change.differs? c.searchColumns = false

namespace ChangedColumn

theorem commands_of_unchanged {s : Scope} {column : Column} {f : Field} {c : ChangedColumn}
    (hlabel : f.oldVersion.label = f.newVersion.label)
    (htype : s.typeOf f.oldVersion (f.oldVersion.label.getD column.name) =
      s.typeOf f.newVersion (f.newVersion.label.getD column.name))
    (hc : ofField s column f = .ok c) (target : QualifiedName) :
    (c.change s.legacy).commands target = [] := by
  simp only [ofField, bind_eq_ok_iff, pure_eq_ok_iff] at hc
  obtain ⟨oldType, hold, newType, hnew, rfl⟩ := hc
  rw [htype, hnew] at hold
  obtain rfl := Except.ok.inj hold
  rw [hlabel, change]
  cases f.newVersion.label with
  | none => rfl
  | some name => simp [ColumnChange.commands]

end ChangedColumn

namespace IndexSet

theorem minus_self (i : IndexSet) : i.minus i = {} := by
  have : i.secondary.filter (fun x => !i.secondary.contains x) = [] := by
    rw [List.filter_eq_nil_iff]
    intro x hx
    simp [hx]
  rw [minus, this, if_pos rfl]

end IndexSet

namespace Table

/-- The comparison shows no change, and neither do those of the columns. -/
structure Unchanged (s : Scope) (t : Table) : Prop where
  comparison : ∀ c, t.role.comparison = some c → c.Unchanged
  columns : ∀ e ∈ t.columns, e.2.Unchanged s e.1

/-- Some column that has a comparison is under an index, and the comparison of the table gives it an
    old and a new name. -/
def RebuildsIndexed (s : Scope) (t : Table) : Prop :=
  t.changesIndexed (t.columnIds s.definitions) = true ∧
    ∃ c, t.role.comparison = some c ∧ ∃ old new, names c = (some old, some new)

theorem commandsOfColumn_of_unchanged {s : Scope} {target : QualifiedName}
    {indexed : List String} {e : String × Field} (h : e.2.Unchanged s e.1) {cs : List Command}
    (hcs : commandsOfColumn s .update target indexed e = .ok cs) : cs = [] := by
  obtain ⟨name, f⟩ := e
  rw [commandsOfColumn_update] at hcs
  obtain ⟨type, _, hcs⟩ := bind_eq_ok_iff.1 hcs
  cases type with
  | none => exact (Except.ok.inj hcs).symm
  | some type =>
    dsimp only at hcs
    split at hcs
    · exact (Except.ok.inj hcs).symm
    · rename_i hu
      obtain ⟨c, hc⟩ : ∃ c, f.comparison = some c := by
        cases hf : f.comparison with
        | none => simp [isUntouched, hf] at hu
        | some c => exact ⟨c, rfl⟩
      simp only [columnCommands, bind_eq_ok_iff, pure_eq_ok_iff] at hcs
      obtain ⟨changed, hchanged, rfl⟩ := hcs
      exact ChangedColumn.commands_of_unchanged (h c hc).label (h c hc).type hchanged target

theorem updateColumns_of_unchanged {s : Scope} {t : Table} (h : t.Unchanged s)
    {target : QualifiedName} {indexed : List String} {cs : List Command}
    (hcs : updateColumns s .update target indexed t.columns = .ok cs) : cs = [] := by
  rw [updateColumns_eq_ofEach] at hcs
  rw [List.eq_nil_iff_forall_not_mem]
  intro c hc
  obtain ⟨e, he, ys, hys, hc⟩ := (Script.mem_ofEach_iff hcs c).1 hc
  rw [commandsOfColumn_of_unchanged (h.columns e he) hys] at hc
  simp at hc

theorem alterIndexes_of_unchanged {t : Table} {c : TableComparison}
    (hc : t.role.comparison = some c) (h : c.Unchanged) (ids : ColumnIds)
    (target : QualifiedName) : t.alterIndexes ids target = [] := by
  have hindexes : t.indexChange.bind Change.old = t.indexChange.bind Change.new := by
    rw [indexChange, hc]
    exact Change.bind_old_of_unchanged h.indexes
  have hsearch : t.searchChange.bind Change.old = t.searchChange.bind Change.new := by
    rw [searchChange, hc]
    exact Change.bind_old_of_unchanged h.searchColumns
  rw [alterIndexes, comparedIndexes, comparedIndexes, hindexes, hsearch, IndexSet.minus_self]
  rfl

theorem isReplaced_of_unchanged {t : Table} {c : TableComparison} (h : c.Unchanged)
    (ids : ColumnIds) : t.isReplaced c ids = t.changesIndexed ids := by
  have hnames : isRenamed (names c) = false := by
    have := Change.renamed_of_unchanged h.code h.collectionName
    rw [names]
    cases heq : Change.renamed c.code c.collectionName with
    | mk old new =>
      rw [heq] at this
      obtain rfl : old = new := this
      cases old with
      | none => rfl
      | some old => simp [isRenamed]
  rw [isReplaced, hnames, h.partitionKey, h.clusteringKey]
  rfl

/-- A table without a change is altered by an empty statement, unless a column that has a comparison
    is under an index. -/
theorem update_of_unchanged {s : Scope} {t : Table} {c : TableComparison}
    (hc : t.role.comparison = some c) (h : c.Unchanged)
    (hn : ∀ o, c.options = some o → ∀ old, o.old = some old → (Entries.keys old.entries).Nodup)
    {target : QualifiedName} {cs : List Command} (hcs : t.update s c target true [] = .ok cs) :
    (t.RebuildsIndexed s ∧ ∃ old new, .dropTable old ∈ cs ∧ .createTable new ∈ cs) ∨
      (¬ t.RebuildsIndexed s ∧ ∀ x ∈ cs, ∃ target, x = .alterTableOptions target []) := by
  rw [update] at hcs
  dsimp only at hcs
  rw [isReplaced_of_unchanged h] at hcs
  by_cases hi : t.changesIndexed (t.columnIds s.definitions) = true
  · rw [if_pos hi] at hcs
    split at hcs
    · rename_i old new hnames
      refine Or.inl ⟨⟨hi, c, hc, old, new, hnames⟩, ?_⟩
      simp only [replace, create, bind_eq_ok_iff, pure_eq_ok_iff] at hcs
      obtain ⟨_, ⟨_, _, rfl⟩, rfl⟩ := hcs
      exact ⟨_, _, List.mem_cons_self, List.mem_cons_of_mem _ List.mem_cons_self⟩
    · rename_i hnames
      obtain rfl := Except.ok.inj hcs
      refine Or.inr ⟨?_, by simp⟩
      rintro ⟨_, d, hd, old, new, hold⟩
      obtain rfl : d = c := Option.some.inj (hd.symm.trans hc)
      exact hnames old new hold
  · rw [if_neg hi, if_pos rfl, Options.changedClauses_of_unchanged h.options h.comment hn,
      alterIndexes_of_unchanged hc h] at hcs
    obtain rfl := Except.ok.inj hcs
    refine Or.inr ⟨fun hr => hi hr.1, ?_⟩
    intro x hx
    exact ⟨target, by simpa using hx⟩

theorem commands_of_unchanged {s : Scope} {key : String} {t : Table} (h : t.Unchanged s)
    (hn : ∀ c, t.role.comparison = some c → ∀ o, c.options = some o → ∀ old, o.old = some old →
      (Entries.keys old.entries).Nodup)
    {cs : List Command} (hcs : t.commands s .update key = .ok cs) :
    (t.RebuildsIndexed s ∧ ∃ old new, .dropTable old ∈ cs ∧ .createTable new ∈ cs) ∨
      (¬ t.RebuildsIndexed s ∧ ∀ x ∈ cs, ∃ target, x = .alterTableOptions target []) := by
  rw [commands] at hcs
  split at hcs
  · rename_i hc
    obtain rfl := Except.ok.inj hcs
    refine Or.inr ⟨?_, by simp⟩
    rintro ⟨_, c, hc', _⟩
    simp [hc] at hc'
  · rename_i c hc
    have hcomparison := h.comparison c hc
    dsimp only at hcs
    rw [hcomparison.deleted, hcomparison.created, if_neg Bool.false_ne_true,
      if_neg Bool.false_ne_true] at hcs
    split at hcs
    · exact update_of_unchanged hc hcomparison (hn c hc) hcs
    · obtain ⟨columns, hcolumns, hcs⟩ := bind_eq_ok_iff.1 hcs
      obtain rfl := updateColumns_of_unchanged h hcolumns
      exact update_of_unchanged hc hcomparison (hn c hc) hcs

end Table

end AlterScript
