/-
  The names under which statements address a changed column.

  A drop, an addition and a renaming go by the names of the two versions of a column. A conversion in
  place goes by the name under which the column is stored. `Table.namesVersions_iff`: the statements
  for a changed column name only its versions, in both dialects, exactly if a column that is
  converted in place is stored under the name of its versions.
-/
import AlterScript.Proofs.ColumnStatements
import AlterScript.Proofs.Dialects

namespace AlterScript

/-! ## Changed columns -/

/-- What becomes of a column goes by the names of its versions. Only a conversion goes by the name
    under which the column is stored. -/
def ColumnChange.GoesBy (c : ChangedColumn) : ColumnChange → Prop
  | kept => True
  | skipped => True
  | renamed old new => c.oldName = some old ∧ c.newName = some new
  | converted column => column.name = c.column.name ∧ c.oldName = c.newName
  | replaced old new => c.oldName = some old ∧ c.newName = some new.name

namespace ChangedColumn

variable {c : ChangedColumn} {old new : String}

theorem goesBy_replacement (hold : c.oldName = some old) (hnew : c.newName = some new) :
    (c.replacement old new).GoesBy c :=
  ⟨hold, hnew⟩

theorem goesBy_afterRename (hold : c.oldName = some old) (hnew : c.newName = some new) :
    (c.afterRename old new).GoesBy c := by
  rw [afterRename]
  split
  · exact goesBy_replacement hold hnew
  · split
    · exact ⟨hold, hnew⟩
    · trivial

theorem goesBy_afterRetype (legacy : Bool) (hold : c.oldName = some old)
    (hnew : c.newName = some old) : (c.afterRetype legacy old old).GoesBy c := by
  rw [afterRetype]
  split
  · split
    · trivial
    · split
      · exact ⟨rfl, hold.trans hnew.symm⟩
      · exact goesBy_replacement hold hnew
  · trivial

theorem goesBy_change (legacy : Bool) (c : ChangedColumn) : (c.change legacy).GoesBy c := by
  rw [change]
  split
  · rename_i old new hold hnew
    by_cases hname : old = new
    · subst hname
      rw [if_neg (not_not_intro rfl)]
      split
      · exact goesBy_afterRetype legacy hold hnew
      · trivial
    · rw [if_pos hname]
      exact goesBy_afterRename hold hnew
  · trivial

/-- Of a column that is no primary key the type alone changes, and both types are known. -/
structure Retyped (c : ChangedColumn) (name old new : String) : Prop where
  primaryKey : c.primaryKey = false
  oldName : c.oldName = some name
  newName : c.newName = some name
  oldType : c.oldType = some old
  newType : c.newType = some new
  differ : old ≠ new

theorem change_of_retyped {name : String} (h : c.Retyped name old new) (legacy : Bool) :
    c.change legacy = if legacy && CqlType.isConvertible old new then
      .converted ⟨c.column.name, new⟩ else .replaced name ⟨name, new⟩ := by
  rw [change, h.oldName, h.newName, h.oldType, h.newType]
  simp only [ne_eq, not_true_eq_false, if_false, Option.some.injEq, h.differ, not_false_eq_true,
    if_true, afterRetype, h.oldType, h.newType, h.primaryKey, Bool.false_eq_true, replacement,
    Option.getD_some]

/-- A column is converted in place only if its type alone changes, and only in the old dialect. -/
theorem exists_retyped_of_converted {legacy : Bool} {column : Column}
    (h : c.change legacy = .converted column) :
    legacy = true ∧ ∃ name old new, c.Retyped name old new ∧
      CqlType.isConvertible old new = true := by
  rw [change] at h
  split at h
  · rename_i o n hold hnew
    split at h
    · rw [afterRename] at h
      split at h
      · cases h
      · split at h <;> cases h
    · rename_i hname
      obtain rfl : o = n := not_not.1 hname
      split at h
      · rename_i htype
        rw [afterRetype] at h
        split at h
        · rename_i oldType newType holdType hnewType
          split at h
          · cases h
          · rename_i hkey
            split at h
            · rename_i hconvert
              obtain ⟨hlegacy, hconvert⟩ := Bool.and_eq_true_iff.1 hconvert
              refine ⟨hlegacy, o, oldType, newType, ⟨by simpa using hkey, hold, hnew, holdType,
                hnewType, ?_⟩, hconvert⟩
              rintro rfl
              exact htype (holdType.trans hnewType.symm)
            · cases h
        · cases h
      · cases h
  · cases h

/-- A changed column is addressed by the names of its versions only, unless it is converted in place
    and stored under another name. -/
theorem names_alterations_iff (legacy : Bool) (c : ChangedColumn) :
    (∀ a ∈ (c.change legacy).alterations, ∀ n ∈ a.names, c.oldName = some n ∨ c.newName = some n) ↔
      ∀ name old new, legacy = true → c.Retyped name old new →
        CqlType.isConvertible old new = true → name = c.column.name := by
  have hgoes := goesBy_change legacy c
  constructor
  · rintro hnames name old new rfl hretyped hconvert
    have hchange := change_of_retyped hretyped true
    rw [hconvert, Bool.and_self, if_pos rfl] at hchange
    rw [hchange] at hnames
    have hstored := hnames _ (.head _) c.column.name (.head _)
    rw [hretyped.oldName, hretyped.newName, or_self, Option.some.injEq] at hstored
    exact hstored
  · intro hstored a ha n hn
    cases hchange : c.change legacy with
    | kept =>
      rw [hchange] at ha
      exact absurd ha List.not_mem_nil
    | skipped =>
      rw [hchange] at ha
      exact absurd ha List.not_mem_nil
    | renamed old new =>
      rw [hchange] at ha hgoes
      obtain rfl := List.mem_singleton.1 ha
      rcases List.mem_cons.1 hn with rfl | hn
      · exact .inl hgoes.1
      · obtain rfl := List.mem_singleton.1 hn
        exact .inr hgoes.2
    | replaced old new =>
      rw [hchange] at ha hgoes
      rcases List.mem_cons.1 ha with rfl | ha
      · obtain rfl := List.mem_singleton.1 hn
        exact .inl hgoes.1
      · obtain rfl := List.mem_singleton.1 ha
        obtain rfl := List.mem_singleton.1 hn
        exact .inr hgoes.2
    | converted column =>
      obtain ⟨hlegacy, name, old, new, hretyped, hconvert⟩ := exists_retyped_of_converted hchange
      rw [hchange] at ha hgoes
      obtain rfl := List.mem_singleton.1 ha
      obtain rfl := List.mem_singleton.1 hn
      rw [hgoes.1, ← hstored name old new hlegacy hretyped hconvert]
      exact .inr hretyped.newName

end ChangedColumn

/-! ## Columns of tables -/

namespace Field

variable {s : Scope} {key name old new : String} {f : Field}

/-- Of a column that is no primary key the type alone changes, and both types are known. -/
structure Retyped (s : Scope) (key : String) (f : Field) (name old new : String) : Prop where
  primaryKey : f.primaryKey = false
  versions : ∃ type, f.Versions s key type name name (some old) (some new)
  differ : old ≠ new

theorem Retyped.isSome_comparison (h : f.Retyped s key name old new) :
    f.comparison.isSome = true := by
  cases hc : f.comparison with
  | some c => rfl
  | none =>
    obtain ⟨type, hv⟩ := h.versions
    have hsame : f.oldVersion = f.newVersion := by simp only [oldVersion, newVersion, hc]; rfl
    have hold := hv.oldType
    rw [hsame, hv.newType, Except.ok.injEq, Option.some.injEq] at hold
    exact absurd hold.symm h.differ

theorem retyped_iff {type : String} {c : ChangedColumn} (htype : s.typeOf f key = .ok (some type))
    (hc : ChangedColumn.ofField s ⟨key, type⟩ f = .ok c) :
    f.Retyped s key name old new ↔ c.Retyped name old new := by
  simp only [ChangedColumn.ofField, bind_eq_ok_iff, pure_eq_ok_iff] at hc
  obtain ⟨oldType, hold, newType, hnew, rfl⟩ := hc
  constructor
  · rintro ⟨hkey, ⟨_, hv⟩, hdiffer⟩
    rw [hv.oldName, Option.getD_some, hv.oldType, Except.ok.injEq] at hold
    rw [hv.newName, Option.getD_some, hv.newType, Except.ok.injEq] at hnew
    exact ⟨hkey, hv.oldName, hv.newName, hold.symm, hnew.symm, hdiffer⟩
  · rintro ⟨hkey, holdName, hnewName, holdType, hnewType, hdiffer⟩
    dsimp only at holdName hnewName holdType hnewType
    subst holdType hnewType
    rw [holdName, Option.getD_some] at hold
    rw [hnewName, Option.getD_some] at hnew
    exact ⟨hkey, ⟨type, htype, holdName, hnewName, hold, hnew⟩, hdiffer⟩

theorem retyped_inDialect {legacy : Bool} :
    f.Retyped (s.inDialect legacy) key name old new ↔ f.Retyped s key name old new := by
  constructor
  · rintro ⟨hkey, ⟨type, hv⟩, hdiffer⟩
    exact ⟨hkey, ⟨type, hv.ownType, hv.oldName, hv.newName, hv.oldType, hv.newType⟩, hdiffer⟩
  · rintro ⟨hkey, ⟨type, hv⟩, hdiffer⟩
    exact ⟨hkey, ⟨type, hv.ownType, hv.oldName, hv.newName, hv.oldType, hv.newType⟩, hdiffer⟩

end Field

namespace Table

variable {s : Scope} {q : QualifiedName} {indexed : List String} {key : String} {f : Field}
  {cs : List Command}

theorem isUntouched_eq_false_iff :
    isUntouched indexed .update key f = false ↔ f.comparison.isSome = true ∧ key ∉ indexed := by
  cases hc : f.comparison with
  | none => simp [isUntouched, hc]
  | some c => simp [isUntouched, hc]

/-- The commands for a column of a modified table make alterations, and these name only the versions
    of the column unless it is converted in place and stored under another name. -/
theorem exists_alterations_of_commandsOfColumn
    (h : commandsOfColumn s .update q indexed (key, f) = .ok cs) :
    ∃ as : List Alteration, cs = as.map (Alteration.command q) ∧
      ((∀ a ∈ as, ∀ n ∈ a.names, f.oldVersion.label = some n ∨ f.newVersion.label = some n) ↔
        ∀ name old new, s.legacy = true → f.Retyped s key name old new →
          CqlType.isConvertible old new = true → key ∉ indexed → name = key) := by
  rw [commandsOfColumn_update] at h
  obtain ⟨type, htype, h⟩ := bind_eq_ok_iff.1 h
  cases type with
  | none =>
    obtain rfl := Except.ok.inj h
    refine ⟨[], rfl, iff_of_true (fun _ ha => absurd ha List.not_mem_nil) ?_⟩
    rintro name old new - ⟨-, ⟨_, hv⟩, -⟩
    have hnone := htype.symm.trans hv.ownType
    simp at hnone
  | some type =>
    dsimp only at h
    by_cases huntouched : isUntouched indexed .update key f = false
    · rw [huntouched, if_neg Bool.false_ne_true] at h
      simp only [columnCommands, bind_eq_ok_iff, pure_eq_ok_iff] at h
      obtain ⟨c, hc, rfl⟩ := h
      refine ⟨(c.change s.legacy).alterations, ColumnChange.commands_eq q _, ?_⟩
      have hiff := ChangedColumn.names_alterations_iff s.legacy c
      simp only [← Field.retyped_iff htype hc] at hiff
      simp only [ChangedColumn.ofField, bind_eq_ok_iff, pure_eq_ok_iff] at hc
      obtain ⟨oldType, -, newType, -, rfl⟩ := hc
      obtain ⟨-, hindexed⟩ := isUntouched_eq_false_iff.1 huntouched
      rw [hiff]
      simp only [hindexed, not_false_eq_true, true_imp_iff]
    · rw [if_pos (by simpa using huntouched)] at h
      obtain rfl := Except.ok.inj h
      refine ⟨[], rfl, iff_of_true (fun _ ha => absurd ha List.not_mem_nil) ?_⟩
      intro name old new _ hretyped _ hindexed
      exact absurd (isUntouched_eq_false_iff.2 ⟨hretyped.isSome_comparison, hindexed⟩) huntouched

/-- A column of which the type alone changes is converted under the name under which it is stored,
    or dropped and added anew under the name of its versions. -/
theorem commandsOfColumn_of_retyped {name old new : String} (h : f.Retyped s key name old new)
    (hindexed : key ∉ indexed) :
    commandsOfColumn s .update q indexed (key, f) =
      .ok (if s.legacy && CqlType.isConvertible old new then [.alterColumnType q ⟨key, new⟩]
        else [.dropColumn q name, .addColumn q ⟨name, new⟩]) := by
  obtain ⟨type, hv⟩ := h.versions
  have huntouched := isUntouched_eq_false_iff.2 ⟨h.isSome_comparison, hindexed⟩
  have hc : ChangedColumn.ofField s ⟨key, type⟩ f =
      .ok ⟨⟨key, type⟩, f.primaryKey, some name, some name, some old, some new⟩ := by
    simp only [ChangedColumn.ofField, bind_eq_ok_iff, pure_eq_ok_iff, hv.oldName, hv.newName,
      Option.getD_some]
    exact ⟨_, hv.oldType, _, hv.newType, rfl⟩
  have hchange := ChangedColumn.change_of_retyped ((Field.retyped_iff hv.ownType hc).1 h) s.legacy
  rw [commandsOfColumn_update]
  refine bind_eq_ok_iff.2 ⟨some type, hv.ownType, ?_⟩
  show (if isUntouched indexed .update key f = true then _ else _) = _
  rw [huntouched, if_neg Bool.false_ne_true]
  simp only [columnCommands, bind_eq_ok_iff, pure_eq_ok_iff]
  refine ⟨_, hc, ?_⟩
  rw [hchange]
  split <;> rfl

/-- The statements for a column of a modified table name only the old and the new name of the
    column, unless its type alone changes, it is converted in place, and it is stored under another
    name: then the conversion addresses the column under that name, and the drop and the addition
    that newer versions of the database need address it under the name of its versions. -/
theorem namesVersions_iff (s : Scope) (q : QualifiedName) (indexed : List String) (key : String)
    (f : Field) :
    (s.resolver.Answers → ∀ legacy, ∃ cs,
      commandsOfColumn (s.inDialect legacy) .update q indexed (key, f) = .ok cs) ∧
    (∀ legacy cs, commandsOfColumn (s.inDialect legacy) .update q indexed (key, f) = .ok cs →
      ∃ as : List Alteration, cs = as.map (Alteration.command q) ∧
        ((∀ a ∈ as, ∀ n ∈ a.names, f.oldVersion.label = some n ∨ f.newVersion.label = some n) ↔
          ∀ name old new, legacy = true → f.Retyped s key name old new →
            CqlType.isConvertible old new = true → key ∉ indexed → name = key)) ∧
    ∀ name old new, f.Retyped s key name old new → key ∉ indexed →
      commandsOfColumn (s.inDialect false) .update q indexed (key, f) =
        .ok [.dropColumn q name, .addColumn q ⟨name, new⟩] ∧
      commandsOfColumn (s.inDialect true) .update q indexed (key, f) =
        .ok (if CqlType.isConvertible old new then [.alterColumnType q ⟨key, new⟩]
          else [.dropColumn q name, .addColumn q ⟨name, new⟩]) := by
  refine ⟨fun hr legacy => ?_, fun legacy cs hcs => ?_, fun name old new h hindexed => ⟨?_, ?_⟩⟩
  · exact exists_commandsOfColumn (s := s.inDialect legacy) hr .update q indexed (key, f)
  · have := exists_alterations_of_commandsOfColumn hcs
    simp only [Field.retyped_inDialect, Scope.legacy_inDialect] at this
    exact this
  · rw [commandsOfColumn_of_retyped (Field.retyped_inDialect.2 h) hindexed,
      Scope.legacy_inDialect, Bool.false_and, if_neg Bool.false_ne_true]
  · rw [commandsOfColumn_of_retyped (Field.retyped_inDialect.2 h) hindexed,
      Scope.legacy_inDialect, Bool.true_and]

end Table

/-! ## A column that is stored under another name -/

/-- A number that gets wider. Its code is not the name under which it is stored. -/
def codedAge : Field :=
  let version (mode : String) : Field :=
    { code := some "user_age", typeName := some "numeric", mode := some mode }
  { version "varint" with
    comparison := some { old := some (version "int"), new := some (version "varint") } }

theorem retyped_codedAge : codedAge.Retyped {} "age" "user_age" "int" "varint" :=
  ⟨rfl, ⟨"varint", rfl, rfl, rfl, rfl, rfl⟩, by decide⟩

namespace Script

/-- The table as it comes in. -/
def codedAgeUsers : Json :=
  let version (mode : String) : Entries Json :=
    [("code", .str "user_age"), ("type", .str "numeric"), ("mode", .str mode)]
  let age : Json := .obj (version "varint" ++
    [("compMod", .obj [("oldField", .obj (version "int")), ("newField", .obj (version "varint"))])])
  let role : Json := .obj [("code", .str "users"), ("compMod", .obj [("keyspaceName", .str "app")])]
  ChangeTree.rootOf .tables .modified
    [("users", .obj [("role", role), ("properties", .obj [("age", age)])])]

/-- Old versions are told to convert a column that newer ones do not touch. -/
theorem not_namesVersions_of_codedAge :
    (∃ old new,
      ofTree Resolver.builtin .empty { legacy := true, applyDrops := true } codedAgeUsers = .ok old ∧
      ofTree Resolver.builtin .empty { applyDrops := true } codedAgeUsers = .ok new ∧
      old.map Statement.text = ["", "ALTER TABLE \"app\".\"users\" ALTER \"age\" TYPE varint;"] ∧
      new.map Statement.text =
        ["", "ALTER TABLE \"app\".\"users\" DROP \"user_age\";",
          "ALTER TABLE \"app\".\"users\" ADD \"user_age\" varint;"]) ∧
    codedAge.Retyped {} "age" "user_age" "int" "varint" ∧
    ∃ as : List Alteration,
      Table.commandsOfColumn (Scope.inDialect {} true) .update ⟨some "app", "users"⟩ []
        ("age", codedAge) = .ok (as.map (Alteration.command ⟨some "app", "users"⟩)) ∧
      ¬ ∀ a ∈ as, ∀ n ∈ a.names,
        codedAge.oldVersion.label = some n ∨ codedAge.newVersion.label = some n := by
  obtain ⟨hexists, hiff, -⟩ :=
    Table.namesVersions_iff {} ⟨some "app", "users"⟩ [] "age" codedAge
  obtain ⟨cs, hcs⟩ := hexists Resolver.answers_builtin true
  obtain ⟨as, rfl, hnames⟩ := hiff true cs hcs
  refine ⟨⟨_, _, rfl, rfl, rfl, rfl⟩, retyped_codedAge, as, hcs, fun h => ?_⟩
  have hstored := hnames.1 h "user_age" "int" "varint" rfl retyped_codedAge (by decide)
    List.not_mem_nil
  exact absurd hstored (by decide)

end Script

end AlterScript
