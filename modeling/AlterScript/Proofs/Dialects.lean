/-
  Scripts for old and for newer versions of the database.

  Old versions can convert a column or a field of a user-defined type in place where newer ones need
  it dropped and added anew. `Softens` says this of the commands of one node, it is kept when nodes
  are put together (`Softens.append`, `Softens.of_ofEach`), and `Script.ofTree_legacy` says it of
  whole scripts: with drops applied, a script for old versions has no drop and no addition that the
  script for newer ones lacks.
-/
import AlterScript.Proofs.ScriptOrder
import AlterScript.Proofs.TypeReplacement

namespace AlterScript

/-- The level of columns, or that of user-defined types. -/
def Level.OfTypes (l : Level) : Prop := l = .field ∨ l = .userType

/-- What only the first commands have modifies a column or a user-defined type in place, and what
    only the second ones have drops or adds one. -/
structure Softens (legacy modern : List Command) : Prop where
  extra : ∀ c ∈ legacy, c ∈ modern ∨ (c.action = .modify ∧ c.level.OfTypes)
  missing : ∀ c ∈ modern, c ∈ legacy ∨ (c.action ≠ .modify ∧ c.level.OfTypes)

namespace Softens

variable {legacy modern legacy' modern' : List Command}

theorem refl (cs : List Command) : Softens cs cs := ⟨fun _ => Or.inl, fun _ => Or.inl⟩

theorem of_eq_ok {x : Except ResolveError (List Command)} (h : x = .ok legacy)
    (h' : x = .ok modern) : Softens legacy modern := by
  obtain rfl := Except.ok.inj (h.symm.trans h')
  exact refl _

/-- Both dialects take the same branch, and one of the branches is the same in both. -/
theorem of_ite {p : Prop} [Decidable p] {x y z : Except ResolveError (List Command)}
    (hl : (if p then x else y) = .ok legacy) (hm : (if p then x else z) = .ok modern)
    (h : y = .ok legacy → z = .ok modern → Softens legacy modern) : Softens legacy modern := by
  by_cases hp : p
  · rw [if_pos hp] at hl hm
    exact of_eq_ok hl hm
  · rw [if_neg hp] at hl hm
    exact h hl hm

/-- Both dialects go on with the same value. -/
theorem of_bind {α : Type} {x : Except ResolveError α}
    {f g : α → Except ResolveError (List Command)} (hl : (x >>= f) = .ok legacy)
    (hm : (x >>= g) = .ok modern)
    (h : ∀ a, f a = .ok legacy → g a = .ok modern → Softens legacy modern) :
    Softens legacy modern := by
  obtain ⟨a, ha, hl⟩ := bind_eq_ok_iff.1 hl
  obtain ⟨a', ha', hm⟩ := bind_eq_ok_iff.1 hm
  obtain rfl := Except.ok.inj (ha.symm.trans ha')
  exact h a hl hm

/-- A conversion in place against a replacement. -/
theorem of_conversion (hlegacy : ∀ c ∈ legacy, c.action = .modify ∧ c.level.OfTypes)
    (hmodern : ∀ c ∈ modern, c.action ≠ .modify ∧ c.level.OfTypes) : Softens legacy modern :=
  ⟨fun c hc => Or.inr (hlegacy c hc), fun c hc => Or.inr (hmodern c hc)⟩

theorem append (h : Softens legacy modern) (h' : Softens legacy' modern') :
    Softens (legacy ++ legacy') (modern ++ modern') := by
  constructor
  · intro c hc
    rcases List.mem_append.1 hc with hc | hc
    · exact (h.extra c hc).imp_left (List.mem_append_left _)
    · exact (h'.extra c hc).imp_left (List.mem_append_right _)
  · intro c hc
    rcases List.mem_append.1 hc with hc | hc
    · exact (h.missing c hc).imp_left (List.mem_append_left _)
    · exact (h'.missing c hc).imp_left (List.mem_append_right _)

theorem of_ofEach {α : Type} {f g : α → Except ResolveError (List Command)} {xs : List α}
    (h : ∀ x ∈ xs, ∀ ys zs, f x = .ok ys → g x = .ok zs → Softens ys zs)
    (hf : Script.ofEach f xs = .ok legacy) (hg : Script.ofEach g xs = .ok modern) :
    Softens legacy modern := by
  induction xs generalizing legacy modern with
  | nil => exact of_eq_ok hf hg
  | cons x xs ih =>
    obtain ⟨ys, restLegacy, hys, hrestLegacy, rfl⟩ := Script.ofEach_cons_eq_ok_iff.1 hf
    obtain ⟨zs, restModern, hzs, hrestModern, rfl⟩ := Script.ofEach_cons_eq_ok_iff.1 hg
    have hrest := ih (fun x hx => h x (List.mem_cons_of_mem _ hx)) hrestLegacy hrestModern
    exact (h x List.mem_cons_self ys zs hys hzs).append hrest

end Softens

/-- The scope for old versions of the database, or for newer ones. -/
def Scope.inDialect (s : Scope) (legacy : Bool) : Scope := { s with legacy }

variable {s : Scope} {legacy modern : List Command}

theorem Scope.legacy_inDialect (legacy : Bool) : (s.inDialect legacy).legacy = legacy := rfl

/-! ## What does not depend on the dialect -/

theorem Scope.definitions_inDialect (legacy : Bool) :
    (s.inDialect legacy).definitions = s.definitions := rfl

theorem Scope.columns_inDialect (legacy : Bool) (fs : List (String × Field)) :
    (s.inDialect legacy).columns fs = s.columns fs := by
  induction fs with
  | nil => rfl
  | cons e r ih =>
    rw [columns, columns, ih]
    rfl

theorem Table.create_inDialect (t : Table) (legacy : Bool) (target : QualifiedName)
    (columns : Entries Field) (options : Options) (comment : Option String) :
    t.create (s.inDialect legacy) target columns options comment =
      t.create s target columns options comment := by
  rw [create, create, Scope.columns_inDialect]
  rfl

theorem Table.replace_inDialect (t : Table) (legacy : Bool) (c : TableComparison)
    (ids : ColumnIds) (old new : QualifiedName) :
    t.replace (s.inDialect legacy) c ids old new = t.replace s c ids old new := by
  rw [replace, replace]
  simp only [create_inDialect]

theorem UserType.create_inDialect (t : UserType) (legacy : Bool) (target : QualifiedName) :
    t.create (s.inDialect legacy) target = t.create s target := by
  rw [create, create, Scope.columns_inDialect]

theorem UserType.replace_inDialect (t : UserType) (legacy : Bool) (old new : QualifiedName) :
    t.replace (s.inDialect legacy) old new = t.replace s old new := by
  rw [replace, replace, create_inDialect]

/-! ## Tables -/

/-- Old versions convert a column that newer ones replace, if they can. -/
theorem ChangedColumn.afterRetype_true (c : ChangedColumn) (old new : String) :
    c.afterRetype true old new = c.afterRetype false old new ∨
      ∃ converted added, c.afterRetype true old new = .converted converted ∧
        c.afterRetype false old new = .replaced old added := by
  rw [afterRetype, afterRetype]
  split
  · rename_i oldType newType _ _
    by_cases hkey : c.primaryKey = true
    · simp only [hkey, if_true, true_or]
    · by_cases hconvertible : CqlType.isConvertible oldType newType = true
      · refine Or.inr ⟨⟨c.column.name, newType⟩, ⟨new, c.newType.getD c.column.type⟩, ?_, ?_⟩
        · simp only [hkey, hconvertible, Bool.false_eq_true, if_false, Bool.and_self, if_true]
        · simp only [hkey, Bool.false_eq_true, if_false, Bool.false_and, replacement]
      · simp only [hconvertible, Bool.and_false, Bool.false_eq_true, if_false, true_or]
  · exact Or.inl rfl

theorem ChangedColumn.softens_change (c : ChangedColumn) (target : QualifiedName) :
    Softens ((c.change true).commands target) ((c.change false).commands target) := by
  rw [change, change]
  split
  · rename_i old new _ _
    split
    · exact .refl _
    · split
      · rcases c.afterRetype_true old new with h | ⟨converted, added, hold, hnew⟩
        · rw [h]
          exact .refl _
        · rw [hold, hnew]
          refine .of_conversion (fun x hx => ?_) fun x hx => ?_
          · obtain rfl := List.mem_singleton.1 hx
            exact ⟨rfl, Or.inl rfl⟩
          · rcases List.mem_cons.1 hx with rfl | hx
            · exact ⟨by simp [Command.action], Or.inl rfl⟩
            · obtain rfl := List.mem_singleton.1 hx
              exact ⟨by simp [Command.action], Or.inl rfl⟩
      · exact .refl _
  · exact .refl _

theorem Table.softens_commandsOfColumn {d : Direction} {target : QualifiedName}
    {indexed : List String} {e : String × Field}
    (hl : commandsOfColumn (s.inDialect true) d target indexed e = .ok legacy)
    (hm : commandsOfColumn (s.inDialect false) d target indexed e = .ok modern) :
    Softens legacy modern := by
  rw [commandsOfColumn] at hl hm
  refine .of_ite hl hm fun hl hm => .of_bind hl hm fun type hl hm => ?_
  cases type with
  | none => exact .of_eq_ok hl hm
  | some type =>
    refine .of_ite hl hm fun hl hm => ?_
    cases d with
    | create => exact .of_eq_ok hl hm
    | delete => exact .of_eq_ok hl hm
    | update =>
      refine .of_bind hl hm fun c hl hm => ?_
      obtain rfl := pure_eq_ok_iff.1 hl
      obtain rfl := pure_eq_ok_iff.1 hm
      exact c.softens_change target

theorem Table.softens_update {t : Table} {c : TableComparison} {target : QualifiedName}
    {withOptions : Bool} {old new : List Command} (hcolumns : Softens old new)
    (hl : t.update (s.inDialect true) c target withOptions old = .ok legacy)
    (hm : t.update (s.inDialect false) c target withOptions new = .ok modern) :
    Softens legacy modern := by
  simp only [update, replace_inDialect, Scope.definitions_inDialect] at hl hm
  refine .of_ite hl hm fun hl hm => ?_
  obtain rfl := Except.ok.inj hl
  obtain rfl := Except.ok.inj hm
  exact (Softens.refl _).append hcolumns

theorem Table.softens_commands {t : Table} {d : Direction} {key : String}
    (hl : t.commands (s.inDialect true) d key = .ok legacy)
    (hm : t.commands (s.inDialect false) d key = .ok modern) : Softens legacy modern := by
  cases hc : t.role.comparison with
  | none =>
    simp only [commands, hc] at hl hm
    exact .of_eq_ok hl hm
  | some c =>
    simp only [commands, hc, create_inDialect, Scope.definitions_inDialect] at hl hm
    refine .of_ite hl hm fun hl hm => .of_ite hl hm fun hl hm => ?_
    by_cases hmodified : c.modified = true
    · rw [if_pos hmodified] at hl hm
      exact softens_update (.refl []) hl hm
    · rw [if_neg hmodified] at hl hm
      obtain ⟨old, hold, hl⟩ := bind_eq_ok_iff.1 hl
      obtain ⟨new, hnew, hm⟩ := bind_eq_ok_iff.1 hm
      rw [updateColumns_eq_ofEach] at hold hnew
      have hcolumns : Softens old new := .of_ofEach
        (fun _ _ _ _ hys hzs => softens_commandsOfColumn hys hzs) hold hnew
      exact softens_update hcolumns hl hm

/-! ## User-defined types -/

namespace UserType

/-- Old versions convert a field in place where newer ones create the type anew, if they can. -/
theorem fieldChange_true (oldName newName : String) (oldType newType : Option String) :
    fieldChange true oldName newName oldType newType =
        fieldChange false oldName newName oldType newType ∨
      ((∃ names converted,
        fieldChange true oldName newName oldType newType = .altered names converted) ∧
        fieldChange false oldName newName oldType newType = .inconvertible) := by
  by_cases hmodern : CqlType.Inconvertible false oldType newType
  · by_cases hlegacy : CqlType.Inconvertible true oldType newType
    · rw [fieldChange_of_inconvertible hlegacy, fieldChange_of_inconvertible hmodern]
      exact Or.inl rfl
    · obtain ⟨names, converted, hchange, _⟩ :=
        fieldChange_of_convertible oldName newName hlegacy
      exact Or.inr ⟨⟨names, converted, hchange⟩, fieldChange_of_inconvertible hmodern⟩
  · left
    cases oldType with
    | none => rfl
    | some o =>
      cases newType with
      | none => rfl
      | some n =>
        have hsame : o = n := by simpa using hmodern
        simp [fieldChange, hsame]

theorem changeOf_true {name : String} {f : Field} {old new : FieldChange}
    (hl : changeOf (s.inDialect true) name f = .ok old)
    (hm : changeOf (s.inDialect false) name f = .ok new) :
    old = new ∨ ((∃ names converted, old = .altered names converted) ∧ new = .inconvertible) := by
  cases hc : f.comparison with
  | none =>
    simp only [changeOf, hc] at hl hm
    exact Or.inl (Except.ok.inj (hl.symm.trans hm))
  | some c =>
    simp only [changeOf, hc] at hl hm
    by_cases hcreated : c.created = true
    · rw [if_pos hcreated] at hl hm
      exact Or.inl (Except.ok.inj (hl.symm.trans hm))
    · rw [if_neg hcreated] at hl hm
      by_cases hdeleted : c.deleted = true
      · rw [if_pos hdeleted] at hl hm
        exact Or.inl (Except.ok.inj (hl.symm.trans hm))
      · rw [if_neg hdeleted] at hl hm
        simp only [bind_eq_ok_iff, pure_eq_ok_iff] at hl hm
        obtain ⟨oldType, hold, newType, hnew, rfl⟩ := hl
        obtain ⟨oldType', hold', newType', hnew', rfl⟩ := hm
        obtain rfl : oldType = oldType' := Except.ok.inj (hold.symm.trans hold')
        obtain rfl : newType = newType' := Except.ok.inj (hnew.symm.trans hnew')
        exact fieldChange_true _ _ oldType newType

theorem fieldCommands_inDialect (t : UserType) (legacy : Bool) (target : QualifiedName)
    (change : FieldChange) :
    t.fieldCommands (s.inDialect legacy) target change = t.fieldCommands s target change := by
  cases change with
  | kept => rfl
  | added f => rfl
  | altered names converted => rfl
  | inconvertible => exact replace_inDialect t legacy target target

theorem level_of_mem_altered {t : UserType} {target : QualifiedName}
    {names : Option (String × String)} {converted : Option Column} {c : Command}
    (h : t.fieldCommands s target (.altered names converted) = .ok legacy) (hc : c ∈ legacy) :
    c.level = .userType := by
  obtain rfl := Except.ok.inj h
  rcases List.mem_append.1 hc with hc | hc
  · exact Command.level_of_mem_toList (fun _ => rfl) hc
  · exact Command.level_of_mem_toList (fun _ => rfl) hc

theorem softens_commandsOfField {t : UserType} {target : QualifiedName} {e : String × Field}
    (hl : t.commandsOfField (s.inDialect true) target e = .ok legacy)
    (hm : t.commandsOfField (s.inDialect false) target e = .ok modern) :
    Softens legacy modern := by
  obtain ⟨old, hold, hl⟩ := bind_eq_ok_iff.1 hl
  obtain ⟨new, hnew, hm⟩ := bind_eq_ok_iff.1 hm
  rw [fieldCommands_inDialect] at hl hm
  rcases changeOf_true hold hnew with rfl | ⟨⟨names, converted, rfl⟩, rfl⟩
  · exact .of_eq_ok hl hm
  · exact .of_conversion
      (fun c hc => ⟨(fieldCommands_altered hl).2 c hc, Or.inr (level_of_mem_altered hl hc)⟩)
      fun c hc => ⟨action_ne_modify_of_mem_replace hm hc, Or.inr (level_of_mem_replace hm hc)⟩

theorem softens_commands {t : UserType} {d : Direction} {key : String}
    (hl : t.commands (s.inDialect true) d key = .ok legacy)
    (hm : t.commands (s.inDialect false) d key = .ok modern) : Softens legacy modern := by
  cases d with
  | create =>
    simp only [commands, create_inDialect] at hl hm
    exact .of_eq_ok hl hm
  | delete => exact .of_eq_ok hl hm
  | update =>
    rcases update_cases hl with ⟨o, n, hrenamed, hl⟩ | ⟨hsame, hl⟩
    · rcases update_cases hm with ⟨o', n', hrenamed', hm⟩ | ⟨hsame, _⟩
      · obtain ⟨rfl, rfl⟩ := names_unique hrenamed.1 hrenamed'.1
        rw [replace_inDialect] at hl hm
        exact .of_eq_ok hl hm
      · exact absurd hrenamed (hsame o n)
    · rcases update_cases hm with ⟨o, n, hrenamed, _⟩ | ⟨_, hm⟩
      · exact absurd hrenamed (hsame o n)
      · exact .of_ofEach (fun _ _ _ _ hys hzs => softens_commandsOfField hys hzs) hl hm

end UserType

/-! ## Scripts -/

namespace Script

theorem softens_commands {skipKeyspaces : Bool} {t : ChangeTree}
    (hl : commands (s.inDialect true) skipKeyspaces t = .ok legacy)
    (hm : commands (s.inDialect false) skipKeyspaces t = .ok modern) : Softens legacy modern := by
  simp only [commands, bind_eq_ok_iff, pure_eq_ok_iff] at hl hm
  obtain ⟨tables, htables, types, htypes, rfl⟩ := hl
  obtain ⟨tables', htables', types', htypes', rfl⟩ := hm
  have hsoftTables : Softens tables tables' := by
    refine .of_ofEach (fun b _ ys zs hys hzs => ?_) htables htables'
    exact .of_ofEach (fun _ _ _ _ h h' => Table.softens_commands h h') hys hzs
  have hsoftTypes : Softens types types' := by
    refine .of_ofEach (fun b _ ys zs hys hzs => ?_) htypes htypes'
    exact .of_ofEach (fun _ _ _ _ h h' => UserType.softens_commands h h') hys hzs
  exact ((hsoftTables.append (.refl _)).append (.refl _)).append hsoftTypes

theorem softens_of_ofTree {resolver : Resolver} {references : References} {mode : Mode}
    {root : Json} {old new : List Statement}
    (hold : ofTree resolver references { mode with legacy := true, applyDrops := true } root =
      .ok old)
    (hnew : ofTree resolver references { mode with legacy := false, applyDrops := true } root =
      .ok new) :
    ∃ legacy modern, Softens legacy modern ∧
      (∀ st, st ∈ old ↔ ∃ c ∈ legacy, c.statement = st) ∧
      (∀ st, st ∈ new ↔ ∃ c ∈ modern, c.statement = st) := by
  obtain ⟨raw, hraw, rfl⟩ := ofTree_eq_ok_iff.1 hold
  obtain ⟨raw', hraw', rfl⟩ := ofTree_eq_ok_iff.1 hnew
  obtain ⟨t, legacy, ht, hlegacy, rfl⟩ := generated_eq_ok_iff.1 hraw
  obtain ⟨t', modern, ht', hmodern, rfl⟩ := generated_eq_ok_iff.1 hraw'
  obtain rfl := Except.ok.inj (ht.symm.trans ht')
  refine ⟨legacy, modern, ?_, fun st => ?_, fun st => ?_⟩
  · exact softens_commands (s := scope resolver references true t) hlegacy hmodern
  · rw [mem_ofStatements_true_iff, List.mem_map]
  · rw [mem_ofStatements_true_iff, List.mem_map]

/-- With drops applied, a script for old versions of the database has only drops and additions that
    the script for newer ones has too. Statements of the old script alone modify a column or a
    user-defined type in place, and those of the newer one alone drop or add one. -/
theorem ofTree_legacy {resolver : Resolver} {references : References} {mode : Mode} {root : Json}
    {old new : List Statement}
    (hold : ofTree resolver references { mode with legacy := true, applyDrops := true } root =
      .ok old)
    (hnew : ofTree resolver references { mode with legacy := false, applyDrops := true } root =
      .ok new) :
    (∀ st ∈ old, st.action = .drop ∨ st.action = .add → st ∈ new) ∧
    (∀ st ∈ old, st ∉ new → st.action = .modify ∧ (st.level = .field ∨ st.level = .userType)) ∧
    (∀ st ∈ new, st ∉ old →
      (st.action = .drop ∨ st.action = .add) ∧ (st.level = .field ∨ st.level = .userType)) := by
  obtain ⟨legacy, modern, hsoftens, hmemOld, hmemNew⟩ := softens_of_ofTree hold hnew
  have hextra : ∀ st ∈ old, st ∉ new →
      st.action = .modify ∧ (st.level = .field ∨ st.level = .userType) := by
    intro st hst hnot
    obtain ⟨c, hc, rfl⟩ := (hmemOld st).1 hst
    exact (hsoftens.extra c hc).resolve_left fun hc => hnot ((hmemNew _).2 ⟨c, hc, rfl⟩)
  refine ⟨fun st hst haction => ?_, hextra, fun st hst hnot => ?_⟩
  · by_contra hnot
    have hmodify := (hextra st hst hnot).1
    simp [hmodify] at haction
  · obtain ⟨c, hc, rfl⟩ := (hmemNew st).1 hst
    obtain ⟨haction, hlevel⟩ :=
      (hsoftens.missing c hc).resolve_left fun hc => hnot ((hmemOld _).2 ⟨c, hc, rfl⟩)
    refine ⟨?_, hlevel⟩
    cases h : c.action with
    | add => exact Or.inr h
    | modify => exact absurd h haction
    | drop => exact Or.inl h

/-- A table and a type of the same keyspace, each with a number that gets wider. In the type the
    number gets a new name too, in the table another column does. -/
def widened : Json :=
  let number (name mode : String) (change : Entries Json) : Json :=
    .obj ([("name", .str name), ("type", .str "numeric"), ("mode", .str mode)] ++ change)
  let wider (old new : String) : Json :=
    number new "varint" [("compMod",
      .obj [("oldField", number old "int" []), ("newField", number new "varint" [])])]
  let mail : Json := .obj [("name", .str "mail"), ("type", .str "string"),
    ("compMod", .obj [("oldField", .obj [("name", .str "email")]),
      ("newField", .obj [("name", .str "mail")])])]
  let users : Json := .obj [
    ("role", .obj [("code", .str "users"), ("compMod", .obj [("keyspaceName", .str "app")])]),
    ("properties", .obj [("age", wider "age" "age"), ("mail", mail)])]
  let address : Json := .obj [("keyspaceName", .str "app"),
    ("properties", .obj [("zip", wider "code" "zip")])]
  ChangeTree.rootOfParts [
    ChangeTree.partOf .tables .modified (ChangeTree.wrapperOf [("users", users)]),
    ChangeTree.partOf .userTypes .modified (ChangeTree.wrapperOf [("address", address)])]

/-- Only the drop and the addition for the column with a new name are in both scripts, and a
    statement that says nothing. -/
theorem ofTree_legacy_widened :
    ∃ old new,
      ofTree Resolver.builtin .empty { legacy := true, applyDrops := true } widened = .ok old ∧
      ofTree Resolver.builtin .empty { legacy := false, applyDrops := true } widened = .ok new ∧
      old.map Statement.text =
        ["ALTER TYPE \"app\".\"address\" RENAME \"code\" TO \"zip\";",
          "ALTER TYPE \"app\".\"address\" ALTER \"zip\" TYPE varint;",
          "",
          "ALTER TABLE \"app\".\"users\" DROP \"email\";",
          "ALTER TABLE \"app\".\"users\" ADD \"mail\" text;",
          "ALTER TABLE \"app\".\"users\" ALTER \"age\" TYPE varint;"] ∧
      new.map Statement.text =
        ["DROP TYPE IF EXISTS \"app\".\"address\";",
          "CREATE TYPE IF NOT EXISTS \"app\".\"address\" (\n\t\"zip\" varint\n);",
          "",
          "ALTER TABLE \"app\".\"users\" DROP \"age\";",
          "ALTER TABLE \"app\".\"users\" DROP \"email\";",
          "ALTER TABLE \"app\".\"users\" ADD \"age\" varint;",
          "ALTER TABLE \"app\".\"users\" ADD \"mail\" text;"] ∧
      (∀ st ∈ old, st.action = .drop ∨ st.action = .add → st ∈ new) ∧
      (∀ st ∈ old, st ∉ new → st.action = .modify ∧ (st.level = .field ∨ st.level = .userType)) ∧
      (∀ st ∈ new, st ∉ old →
        (st.action = .drop ∨ st.action = .add) ∧ (st.level = .field ∨ st.level = .userType)) :=
  ⟨[⟨"ALTER TYPE \"app\".\"address\" RENAME \"code\" TO \"zip\";", true, .modify, .userType⟩,
      ⟨"ALTER TYPE \"app\".\"address\" ALTER \"zip\" TYPE varint;", true, .modify, .userType⟩,
      ⟨"", true, .modify, .table⟩,
      ⟨"ALTER TABLE \"app\".\"users\" DROP \"email\";", true, .drop, .field⟩,
      ⟨"ALTER TABLE \"app\".\"users\" ADD \"mail\" text;", true, .add, .field⟩,
      ⟨"ALTER TABLE \"app\".\"users\" ALTER \"age\" TYPE varint;", true, .modify, .field⟩],
    [⟨"DROP TYPE IF EXISTS \"app\".\"address\";", true, .drop, .userType⟩,
      ⟨"CREATE TYPE IF NOT EXISTS \"app\".\"address\" (\n\t\"zip\" varint\n);", true, .add,
        .userType⟩,
      ⟨"", true, .modify, .table⟩,
      ⟨"ALTER TABLE \"app\".\"users\" DROP \"age\";", true, .drop, .field⟩,
      ⟨"ALTER TABLE \"app\".\"users\" DROP \"email\";", true, .drop, .field⟩,
      ⟨"ALTER TABLE \"app\".\"users\" ADD \"age\" varint;", true, .add, .field⟩,
      ⟨"ALTER TABLE \"app\".\"users\" ADD \"mail\" text;", true, .add, .field⟩],
    rfl, rfl, rfl, rfl, @ofTree_legacy Resolver.builtin .empty {} widened _ _ rfl rfl⟩

end Script

end AlterScript
