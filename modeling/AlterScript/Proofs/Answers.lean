/-
  Runs that cannot fail.

  A resolver may give up on a column, and nothing else can: `exists_ofTree_eq_ok` says that a tree
  has a script whenever the resolver always answers.
-/
import AlterScript.Proofs.Generated

namespace AlterScript

theorem exists_bind_eq_ok {ε α β : Type} {x : Except ε α} {f : α → Except ε β}
    (hx : ∃ a, x = .ok a) (hf : ∀ a, ∃ b, f a = .ok b) : ∃ b, (x >>= f) = .ok b := by
  obtain ⟨a, ha⟩ := hx
  obtain ⟨b, hb⟩ := hf a
  exact ⟨b, bind_eq_ok_iff.2 ⟨a, ha, hb⟩⟩

theorem exists_pure_eq_ok {ε α : Type} (a : α) : ∃ b, (pure a : Except ε α) = .ok b := ⟨a, rfl⟩

namespace Script

theorem exists_ofEach {α : Type} {f : α → Except ResolveError (List Command)} {xs : List α}
    (hf : ∀ x ∈ xs, ∃ ys, f x = .ok ys) : ∃ cs, ofEach f xs = .ok cs := by
  induction xs with
  | nil => exact ⟨[], rfl⟩
  | cons x xs ih =>
    exact exists_bind_eq_ok (hf x List.mem_cons_self) fun _ =>
      exists_bind_eq_ok (ih fun y hy => hf y (List.mem_cons_of_mem x hy)) fun _ =>
        exists_pure_eq_ok _

end Script

namespace Resolver

/-- A resolver that never gives up. -/
def Answers (r : Resolver) : Prop := ∀ refs f name, ∃ type, r refs f name = .ok type

theorem answers_builtin : builtin.Answers := fun _ _ _ => ⟨_, rfl⟩

theorem Answers.exists_columnType {r : Resolver} (h : r.Answers) (refs : References) (f : Field)
    (name : String) : ∃ type, r.columnType refs f name = .ok type := by
  obtain ⟨type, ht⟩ := h refs f name
  exact ⟨_, by rw [columnType, ht]; rfl⟩

end Resolver

variable {s : Scope} (h : s.resolver.Answers)

namespace Scope

include h

theorem exists_typeOf (f : Field) (name : String) : ∃ type, s.typeOf f name = .ok type :=
  h.exists_columnType s.references f name

theorem exists_columns (fs : List (String × Field)) : ∃ cs, s.columns fs = .ok cs := by
  induction fs with
  | nil => exact ⟨[], rfl⟩
  | cons e r ih =>
    exact exists_bind_eq_ok (exists_typeOf h e.2 e.1) fun _ =>
      exists_bind_eq_ok ih fun _ => exists_pure_eq_ok _

end Scope

/-! ## Tables -/

namespace ChangedColumn

include h

theorem exists_ofField (column : Column) (f : Field) : ∃ c, ofField s column f = .ok c :=
  exists_bind_eq_ok (Scope.exists_typeOf h _ _) fun _ =>
    exists_bind_eq_ok (Scope.exists_typeOf h _ _) fun _ => exists_pure_eq_ok _

end ChangedColumn

namespace Table

include h

theorem exists_create (t : Table) (target : QualifiedName) (columns : Entries Field)
    (options : Options) (comment : Option String) :
    ∃ cs, t.create s target columns options comment = .ok cs :=
  exists_bind_eq_ok (Scope.exists_columns h columns) fun _ => exists_pure_eq_ok _

theorem exists_replace (t : Table) (c : TableComparison) (ids : ColumnIds)
    (old new : QualifiedName) : ∃ cs, t.replace s c ids old new = .ok cs :=
  exists_bind_eq_ok (exists_create h t new _ _ _) fun _ => exists_pure_eq_ok _

theorem exists_update (t : Table) (c : TableComparison) (target : QualifiedName)
    (withOptions : Bool) (columns : List Command) :
    ∃ cs, t.update s c target withOptions columns = .ok cs := by
  rw [update]
  by_cases hr : t.isReplaced c (t.columnIds s.definitions) = true
  · rw [if_pos hr]
    split
    · exact exists_replace h t c _ _ _
    · exact ⟨[], rfl⟩
  · rw [if_neg hr]
    exact ⟨_, rfl⟩

theorem exists_columnCommands (d : Direction) (target : QualifiedName) (column : Column)
    (f : Field) : ∃ cs, columnCommands s d target column f = .ok cs := by
  cases d with
  | create => exact ⟨_, rfl⟩
  | delete => exact ⟨_, rfl⟩
  | update =>
    exact exists_bind_eq_ok (ChangedColumn.exists_ofField h column f) fun _ =>
      exists_pure_eq_ok _

theorem exists_commandsOfColumn (d : Direction) (target : QualifiedName) (indexed : List String)
    (e : String × Field) : ∃ cs, commandsOfColumn s d target indexed e = .ok cs := by
  rw [commandsOfColumn]
  by_cases hp : isPassedOver d e.2 = true
  · exact ⟨[], if_pos hp⟩
  · rw [if_neg hp]
    refine exists_bind_eq_ok (Scope.exists_typeOf h e.2 e.1) fun type => ?_
    cases type with
    | none => exact ⟨[], rfl⟩
    | some type =>
      dsimp only
      split
      · exact ⟨[], rfl⟩
      · exact exists_columnCommands h d target _ _

theorem exists_updateColumns (d : Direction) (target : QualifiedName) (indexed : List String)
    (fs : List (String × Field)) : ∃ cs, updateColumns s d target indexed fs = .ok cs := by
  rw [updateColumns_eq_ofEach]
  exact Script.exists_ofEach fun e _ => exists_commandsOfColumn h d target indexed e

theorem exists_commands (d : Direction) (key : String) (t : Table) :
    ∃ cs, t.commands s d key = .ok cs := by
  rw [commands]
  split
  · exact ⟨[], rfl⟩
  · rename_i c _
    dsimp only
    split
    · exact ⟨_, rfl⟩
    · split
      · exact exists_bind_eq_ok (exists_create h t _ _ _ _) fun _ => exists_pure_eq_ok _
      · split
        · exact exists_update h t c _ true []
        · exact exists_bind_eq_ok (exists_updateColumns h d _ _ _) fun columns =>
            exists_update h t c _ _ columns

end Table

/-! ## User-defined types -/

namespace UserType

include h

theorem exists_create (t : UserType) (target : QualifiedName) :
    ∃ cs, t.create s target = .ok cs :=
  exists_bind_eq_ok (Scope.exists_columns h _) fun _ => exists_pure_eq_ok _

theorem exists_replace (t : UserType) (old new : QualifiedName) :
    ∃ cs, t.replace s old new = .ok cs :=
  exists_bind_eq_ok (exists_create h t new) fun _ => exists_pure_eq_ok _

theorem exists_changeOf (name : String) (f : Field) : ∃ c, changeOf s name f = .ok c := by
  rw [changeOf]
  split
  · exact ⟨_, rfl⟩
  · split
    · exact exists_bind_eq_ok (Scope.exists_typeOf h f name) fun _ => exists_pure_eq_ok _
    · split
      · exact ⟨_, rfl⟩
      · exact exists_bind_eq_ok (Scope.exists_typeOf h _ _) fun _ =>
          exists_bind_eq_ok (Scope.exists_typeOf h _ _) fun _ => exists_pure_eq_ok _

theorem exists_fieldCommands (t : UserType) (target : QualifiedName) (c : FieldChange) :
    ∃ cs, t.fieldCommands s target c = .ok cs := by
  cases c with
  | kept => exact ⟨_, rfl⟩
  | added f => exact ⟨_, rfl⟩
  | altered names converted => exact ⟨_, rfl⟩
  | inconvertible => exact exists_replace h t target target

theorem exists_updateFields (t : UserType) (target : QualifiedName)
    (fs : List (String × Field)) : ∃ cs, t.updateFields s target fs = .ok cs := by
  rw [updateFields_eq_ofEach]
  exact Script.exists_ofEach fun e _ =>
    exists_bind_eq_ok (exists_changeOf h e.1 e.2) fun c => exists_fieldCommands h t target c

theorem exists_commands (d : Direction) (key : String) (t : UserType) :
    ∃ cs, t.commands s d key = .ok cs := by
  cases d with
  | create => exact exists_create h t _
  | delete => exact ⟨_, rfl⟩
  | update =>
    show ∃ cs, t.update s key = .ok cs
    rw [update]
    split
    · split
      · exact exists_replace h t _ _
      · exact exists_updateFields h t _ _
    · exact exists_updateFields h t _ _

end UserType

/-! ## Scripts -/

namespace Script

include h in
theorem exists_commands_eq_ok (skipKeyspaces : Bool) (t : ChangeTree) :
    ∃ cs, commands s skipKeyspaces t = .ok cs := by
  have htables : ∀ b, ∃ cs, tables s t b = .ok cs := fun b =>
    exists_ofEach fun n _ => n.node.exists_commands h _ _
  have htypes : ∀ b, ∃ cs, types s t b = .ok cs := fun b =>
    exists_ofEach fun n _ => n.node.exists_commands h _ _
  exact exists_bind_eq_ok (exists_ofEach fun b _ => htables b) fun _ =>
    exists_bind_eq_ok (exists_ofEach fun b _ => htypes b) fun _ => exists_pure_eq_ok _

/-- With a resolver that always answers, every tree has a script. -/
theorem exists_ofTree_eq_ok {resolver : Resolver} (hr : resolver.Answers)
    (references : References) (mode : Mode) {root : Json} {t : ChangeTree}
    (ht : ChangeTree.ofJson root = .ok t) :
    ∃ final, ofTree resolver references mode root = .ok final := by
  obtain ⟨cs, hcs⟩ := exists_commands_eq_ok (s := scope resolver references mode.legacy t) hr
    mode.skipKeyspaces t
  exact ⟨_, (ofTree_eq_ok_iff_of_ofJson ht).2 ⟨cs, hcs, rfl⟩⟩

end Script

end AlterScript
