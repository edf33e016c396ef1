/-
  Columns and fields of which only the spelling of the type changes.

  `Field.Respelled`: the name stays, and the old and the new type are one type but for case and for
  blanks around it. Such a type can be converted in place (`CqlType.isConvertible_of_keyword_eq`),
  so old versions of the database drop nothing. `Field.Respelled.drops_iff` says when newer ones do:
  the two types are compared as they are spelled before it matters whether one converts to the
  other.
-/
import AlterScript.Proofs.TypeReplacement
import AlterScript.Proofs.VersionNames

namespace AlterScript

namespace CqlType

/-- A type that is spelled anew stands in the way of a change in place in newer dialects only. -/
theorem inconvertible_iff_of_keyword_eq {legacy : Bool} {old new : String}
    (h : Text.keyword old = Text.keyword new) :
    Inconvertible legacy (some old) (some new) ↔ legacy = false ∧ old ≠ new := by
  rw [inconvertible_some_some, isConvertible_of_keyword_eq h, and_comm]
  simp

end CqlType

namespace Field

variable {s : Scope} {key old new : String} {f : Field}

/-- The name of a field stays, and its old and new type are the same but for the case of letters and
    for blanks around them. -/
structure Respelled (s : Scope) (key : String) (f : Field) (old new : String) : Prop where
  name : f.oldVersion.label.getD key = f.newVersion.label.getD key
  oldType : s.typeOf f.oldVersion (f.oldVersion.label.getD key) = .ok (some old)
  newType : s.typeOf f.newVersion (f.newVersion.label.getD key) = .ok (some new)
  sameType : Text.keyword old = Text.keyword new

theorem Respelled.inDialect (h : f.Respelled s key old new) (legacy : Bool) :
    f.Respelled (s.inDialect legacy) key old new :=
  ⟨h.name, h.oldType, h.newType, h.sameType⟩

/-! ## Columns -/

/-- A change of spelling displaces a column only if the dialect is new and the spellings differ. -/
theorem Respelled.displaced_iff (h : f.Respelled s key old new) (hkey : f.primaryKey = false)
    {name : String} :
    (∃ column, f.Displaced s key name column) ↔
      s.legacy = false ∧ f.Retyped s key name old new := by
  constructor
  · rintro ⟨column, type, oldType, newType, hv, -, hdisplaced⟩
    have hname := h.name
    rw [hv.oldName, hv.newName, Option.getD_some, Option.getD_some] at hname
    have holdType := h.oldType
    rw [hv.oldName, Option.getD_some, hv.oldType, Except.ok.injEq] at holdType
    have hnewType := h.newType
    rw [hv.newName, Option.getD_some, hv.newType, Except.ok.injEq] at hnewType
    subst hname holdType hnewType
    rcases hdisplaced with hne | hinconvertible
    · exact absurd rfl hne
    · obtain ⟨hlegacy, hdiffer⟩ :=
        (CqlType.inconvertible_iff_of_keyword_eq h.sameType).1 hinconvertible
      exact ⟨hlegacy, hkey, ⟨type, hv⟩, hdiffer⟩
  · rintro ⟨hlegacy, -, ⟨type, hv⟩, hdiffer⟩
    exact ⟨⟨name, new⟩, type, some old, some new, hv, rfl,
      .inr ((CqlType.inconvertible_iff_of_keyword_eq h.sameType).2 ⟨hlegacy, hdiffer⟩)⟩

end Field

namespace Table

variable {s : Scope} {q : QualifiedName} {indexed : List String} {key old new : String} {f : Field}
  {cs : List Command}

theorem commandsOfColumn_of_untouched (huntouched : isUntouched indexed .update key f = true)
    (h : commandsOfColumn s .update q indexed (key, f) = .ok cs) : cs = [] := by
  rw [commandsOfColumn_update] at h
  obtain ⟨type, -, h⟩ := bind_eq_ok_iff.1 h
  cases type with
  | none => exact (Except.ok.inj h).symm
  | some type =>
    dsimp only at h
    rw [if_pos huntouched] at h
    exact (Except.ok.inj h).symm

/-- The commands for a changed column drop something if the column is displaced, is no primary key
    and is under no index; then they drop the column. -/
theorem exists_drop_mem_commandsOfColumn_iff
    (h : commandsOfColumn s .update q indexed (key, f) = .ok cs) :
    (∃ x ∈ cs, x.action = .drop) ↔ key ∉ indexed ∧ f.comparison.isSome = true ∧
      f.primaryKey = false ∧ ∃ name column, f.Displaced s key name column := by
  by_cases huntouched : isUntouched indexed .update key f = false
  · obtain ⟨hchanged, hindexed⟩ := isUntouched_eq_false_iff.1 huntouched
    obtain ⟨x, rfl, hreplaced⟩ := exists_change_of_commandsOfColumn h hchanged hindexed
    simp only [hindexed, hchanged, not_false_eq_true, true_and, ← exists_and_left, ← hreplaced]
    cases x <;> simp [ColumnChange.commands, Command.action]
  · obtain rfl := commandsOfColumn_of_untouched (by simpa using huntouched) h
    refine iff_of_false (by simp) ?_
    rintro ⟨hindexed, hchanged, -⟩
    exact huntouched (isUntouched_eq_false_iff.2 ⟨hchanged, hindexed⟩)

theorem exists_drop_iff_of_respelled (hf : f.Respelled s key old new)
    (h : commandsOfColumn s .update q indexed (key, f) = .ok cs) :
    (∃ x ∈ cs, x.action = .drop) ↔
      s.legacy = false ∧ key ∉ indexed ∧ ∃ name, f.Retyped s key name old new := by
  rw [exists_drop_mem_commandsOfColumn_iff h]
  constructor
  · rintro ⟨hindexed, -, hkey, name, hdisplaced⟩
    obtain ⟨hlegacy, hretyped⟩ := (hf.displaced_iff hkey).1 hdisplaced
    exact ⟨hlegacy, hindexed, name, hretyped⟩
  · rintro ⟨hlegacy, hindexed, name, hretyped⟩
    exact ⟨hindexed, hretyped.isSome_comparison, hretyped.primaryKey, name,
      (hf.displaced_iff hretyped.primaryKey).2 ⟨hlegacy, hretyped⟩⟩

end Table

/-! ## Fields of types -/

namespace UserType

variable {s : Scope} {t : UserType} {q : QualifiedName} {key old new : String} {f : Field}
  {ys : List Command}

theorem exists_drop_iff_of_respelled (hf : f.Respelled s key old new)
    (h : t.commandsOfField s q (key, f) = .ok ys) :
    (∃ x ∈ ys, x.action = .drop) ↔ s.legacy = false ∧ f.Stays ∧ old ≠ new := by
  have hinconvertible : f.Inconvertible s key ↔ s.legacy = false ∧ f.Stays ∧ old ≠ new := by
    by_cases hstays : f.Stays
    · have hcompared : f.Compared s key (some old) (some new) := ⟨hstays, hf.oldType, hf.newType⟩
      rw [hcompared.inconvertible_iff, CqlType.inconvertible_iff_of_keyword_eq hf.sameType,
        and_iff_right hstays]
    · refine iff_of_false ?_ fun h => hstays h.2.1
      rintro ⟨_, _, hcompared, -⟩
      exact hstays hcompared.stays
  rw [← hinconvertible]
  rcases commandsOfField_cases h with ⟨hdrops, -, hreplace⟩ | ⟨hkeeps, -, hmodify⟩
  · obtain ⟨fields, -, rfl⟩ := replace_eq_ok_iff.1 hreplace
    exact iff_of_true ⟨_, List.mem_cons_self, rfl⟩ hdrops
  · refine iff_of_false ?_ hkeeps
    rintro ⟨x, hx, hdrop⟩
    rw [hmodify x hx] at hdrop
    cases hdrop

end UserType

/-! ## Drops -/

/-- The statements for a column or a field of which only the spelling of the type changes drop
    nothing in the old dialect. In the new one they drop the column exactly if the spellings differ,
    it is no key column and under no index and its versions carry a name, and they drop the type of
    the field exactly if the spellings differ and the field neither came nor went. -/
theorem Field.Respelled.drops_iff {s : Scope} {key old new : String} {f : Field}
    (h : f.Respelled s key old new) (legacy : Bool) (q : QualifiedName) :
    (s.resolver.Answers →
      (∀ indexed, ∃ cs,
        Table.commandsOfColumn (s.inDialect legacy) .update q indexed (key, f) = .ok cs) ∧
      ∀ t : UserType, ∃ ys, t.commandsOfField (s.inDialect legacy) q (key, f) = .ok ys) ∧
    (∀ indexed cs,
      Table.commandsOfColumn (s.inDialect legacy) .update q indexed (key, f) = .ok cs →
      ((∃ x ∈ cs, x.action = .drop) ↔
        legacy = false ∧ key ∉ indexed ∧ ∃ name, f.Retyped s key name old new)) ∧
    ∀ (t : UserType) ys, t.commandsOfField (s.inDialect legacy) q (key, f) = .ok ys →
      ((∃ x ∈ ys, x.action = .drop) ↔ legacy = false ∧ f.Stays ∧ old ≠ new) := by
  refine ⟨fun hr => ⟨fun indexed => ?_, fun t => ?_⟩, fun indexed cs hcs => ?_, fun t ys hys => ?_⟩
  · exact Table.exists_commandsOfColumn (s := s.inDialect legacy) hr .update q indexed (key, f)
  · exact exists_bind_eq_ok (UserType.exists_changeOf (s := s.inDialect legacy) hr key f)
      fun change => UserType.exists_fieldCommands (s := s.inDialect legacy) hr t q change
  · rw [Table.exists_drop_iff_of_respelled (h.inDialect legacy) hcs, Scope.legacy_inDialect]
    simp only [Field.retyped_inDialect]
  · exact UserType.exists_drop_iff_of_respelled (h.inDialect legacy) hys

/-! ## A number that is spelled in lower case -/

/-- A number of which the type was spelled in upper case. -/
def lowerCasedAge : Field where
  name := some "age"
  typeName := some "int"
  comparison := some
    { old := some { name := some "age", typeName := some "numeric", mode := some "INT" }
      new := some { name := some "age", typeName := some "int" } }

theorem respelled_lowerCasedAge : lowerCasedAge.Respelled {} "age" "INT" "int" :=
  ⟨rfl, rfl, rfl, by decide⟩

namespace Script

/-- The table as it comes in. -/
def lowerCasedUsers : Json :=
  let version (type : Entries Json) : Json := .obj (("name", .str "age") :: type)
  let age : Json := .obj [("name", .str "age"), ("type", .str "int"),
    ("compMod", .obj
      [("oldField", version [("type", .str "numeric"), ("mode", .str "INT")]),
        ("newField", version [("type", .str "int")])])]
  let role : Json := .obj [("code", .str "users"), ("compMod", .obj [("keyspaceName", .str "app")])]
  ChangeTree.rootOf .tables .modified
    [("users", .obj [("role", role), ("properties", .obj [("age", age)])])]

/-- Newer versions of the database are told to drop the column, and a type with such a field. Old
    ones are not. -/
theorem drops_of_lowerCasedAge :
    (∃ old new,
      ofTree Resolver.builtin .empty { legacy := true, applyDrops := true } lowerCasedUsers =
        .ok old ∧
      ofTree Resolver.builtin .empty { applyDrops := true } lowerCasedUsers = .ok new ∧
      old.map Statement.text = ["", "ALTER TABLE \"app\".\"users\" ALTER \"age\" TYPE int;"] ∧
      new.map Statement.text =
        ["", "ALTER TABLE \"app\".\"users\" DROP \"age\";",
          "ALTER TABLE \"app\".\"users\" ADD \"age\" int;"]) ∧
    lowerCasedAge.Respelled {} "age" "INT" "int" ∧
    (∃ cs, Table.commandsOfColumn (Scope.inDialect {} false) .update ⟨some "app", "users"⟩ []
        ("age", lowerCasedAge) = .ok cs ∧ ∃ x ∈ cs, x.action = .drop) ∧
    (∃ cs, Table.commandsOfColumn (Scope.inDialect {} true) .update ⟨some "app", "users"⟩ []
        ("age", lowerCasedAge) = .ok cs ∧ ¬ ∃ x ∈ cs, x.action = .drop) ∧
    ∃ ys, UserType.commandsOfField (Scope.inDialect {} false) {} ⟨some "app", "person"⟩
        ("age", lowerCasedAge) = .ok ys ∧ ∃ x ∈ ys, x.action = .drop := by
  have hretyped : lowerCasedAge.Retyped {} "age" "age" "INT" "int" :=
    ⟨rfl, ⟨"int", rfl, rfl, rfl, rfl, rfl⟩, by decide⟩
  have hstays : lowerCasedAge.Stays := ⟨_, rfl, rfl, rfl⟩
  obtain ⟨hexists, hcolumn, -⟩ := respelled_lowerCasedAge.drops_iff false ⟨some "app", "users"⟩
  obtain ⟨hexists', hcolumn', -⟩ := respelled_lowerCasedAge.drops_iff true ⟨some "app", "users"⟩
  obtain ⟨hexists'', -, hfield⟩ := respelled_lowerCasedAge.drops_iff false ⟨some "app", "person"⟩
  obtain ⟨cs, hcs⟩ := (hexists Resolver.answers_builtin).1 []
  obtain ⟨cs', hcs'⟩ := (hexists' Resolver.answers_builtin).1 []
  obtain ⟨ys, hys⟩ := (hexists'' Resolver.answers_builtin).2 {}
  refine ⟨⟨_, _, rfl, rfl, rfl, rfl⟩, respelled_lowerCasedAge, ⟨cs, hcs, ?_⟩, ⟨cs', hcs', ?_⟩,
    ys, hys, ?_⟩
  · exact (hcolumn [] cs hcs).2 ⟨rfl, List.not_mem_nil, "age", hretyped⟩
  · intro hdrop
    exact absurd ((hcolumn' [] cs' hcs').1 hdrop).1 (by decide)
  · exact (hfield {} ys hys).2 ⟨rfl, hstays, by decide⟩

end Script

end AlterScript
