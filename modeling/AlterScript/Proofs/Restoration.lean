/-
  Objects that are dropped and created anew.

  A node of which the object is dropped creates it anew exactly if the object can be defined
  (`ChangedNode.restored_iff`). A table and a keyspace always can be, a view only with a base table,
  and a user-defined type only with a field that has a type.
-/
import AlterScript.Proofs.TypeReplacement

namespace AlterScript

variable {s : Scope} {cs : List Command}

/-- Some of the commands do this to an object of this level. -/
def Command.Act (cs : List Command) (level : Level) (action : Action) : Prop :=
  ∃ c ∈ cs, c.level = level ∧ c.action = action

/-! ## Tables and keyspaces -/

namespace Table

variable {d : Direction} {key : String} {t : Table}

theorem createTable_mem_of_drop {c : TableComparison} {q : QualifiedName} {withOptions : Bool}
    {columns : List Command} (h : t.update s c q withOptions columns = .ok cs)
    (hcolumns : ∀ x ∈ columns, x.level = .field) (hdrop : Command.Act cs .table .drop) :
    ∃ definition, .createTable definition ∈ cs := by
  obtain ⟨x, hx, hlevel, haction⟩ := hdrop
  rw [update] at h
  dsimp only at h
  split at h
  · split at h
    · simp only [replace, create, bind_eq_ok_iff, pure_eq_ok_iff] at h
      obtain ⟨_, ⟨typed, _, rfl⟩, rfl⟩ := h
      exact ⟨_, .tail _ (.head _)⟩
    · obtain rfl := Except.ok.inj h
      exact absurd hx List.not_mem_nil
  · -- A table that stays is not dropped.
    obtain rfl := Except.ok.inj h
    rcases List.mem_append.1 hx with hx | hx
    · rcases List.mem_cons.1 hx with rfl | hx
      · cases haction
      · rw [level_of_mem_alterIndexes hx] at hlevel
        cases hlevel
    · rw [hcolumns x hx] at hlevel
      cases hlevel

/-- A table of which a comparison is neither new nor gone. -/
def Stays (t : Table) : Prop :=
  ∀ c, t.role.comparison = some c → c.created = false ∧ c.deleted = false

theorem createTable_mem_commands_of_drop (ht : t.Stays) (h : t.commands s d key = .ok cs)
    (hdrop : Command.Act cs .table .drop) : ∃ definition, .createTable definition ∈ cs := by
  rw [commands] at h
  split at h
  · obtain rfl := Except.ok.inj h
    obtain ⟨x, hx, _⟩ := hdrop
    exact absurd hx List.not_mem_nil
  · rename_i c hc
    obtain ⟨hcreated, hdeleted⟩ := ht c hc
    simp only [hcreated, hdeleted, Bool.false_eq_true, if_false] at h
    split at h
    · exact createTable_mem_of_drop h (by simp) hdrop
    · obtain ⟨columns, hcolumns, h⟩ := bind_eq_ok_iff.1 h
      refine createTable_mem_of_drop h (fun x hx => ?_) hdrop
      obtain ⟨a, rfl⟩ := exists_alteration_of_mem_columns hcolumns hx
      exact Command.level_command _ a

end Table

/-- A changed keyspace is dropped and created anew, or it is altered. -/
theorem Keyspace.update_cases (k : Keyspace) :
    (∃ old new, k.update = [.dropKeyspace old, .createKeyspace (k.definition new)]) ∨
      ∀ x ∈ k.update, x.action = .modify := by
  rw [update]
  cases k.comparison with
  | none => exact Or.inr (by simp)
  | some c =>
    have haltered : ∀ x ∈ (if isAltered c then (((Change.renamed c.code c.name).2 <|> k.label).map
        fun n => Command.alterKeyspace (k.definition n)).toList else []), x.action = .modify := by
      intro x hx
      split at hx
      · obtain ⟨n, _, rfl⟩ := Option.map_eq_some_iff.1 (Option.mem_toList.1 hx)
        rfl
      · exact absurd hx List.not_mem_nil
    dsimp only
    split
    · split
      · exact Or.inl ⟨_, _, rfl⟩
      · exact Or.inr haltered
    · exact Or.inr haltered

theorem Keyspace.act_add_of_drop {k : Keyspace} (hdrop : Command.Act k.update .keyspace .drop) :
    Command.Act k.update .keyspace .add := by
  rcases k.update_cases with ⟨old, new, hupdate⟩ | hmodify
  · rw [hupdate]
    exact ⟨.createKeyspace (k.definition new), .tail _ (.head _), rfl, rfl⟩
  · obtain ⟨x, hx, _, haction⟩ := hdrop
    cases haction.symm.trans (hmodify x hx)

/-! ## Views -/

/-- A changed view is dropped, and created anew if it has a base table, or it is altered. -/
theorem View.update_cases (v : View) :
    (∃ old new, v.update = v.drop old :: v.create new) ∨ ∀ x ∈ v.update, x.action = .modify := by
  rw [update]
  split
  · dsimp only
    split
    · exact Or.inl ⟨_, _, rfl⟩
    · refine Or.inr ?_
      split
      · simp
      · intro x hx
        obtain rfl := List.mem_singleton.1 hx
        rfl
  · exact Or.inr (by simp)

theorem View.act_add_iff_of_drop {v : View} (hdrop : Command.Act v.update .view .drop) :
    Command.Act v.update .view .add ↔ v.base.isSome = true := by
  rcases v.update_cases with ⟨old, new, hupdate⟩ | hmodify
  · rw [hupdate, create, definition?]
    cases v.base with
    | none =>
      refine iff_of_false ?_ (by simp)
      rintro ⟨x, hx, _, haction⟩
      obtain rfl := List.mem_singleton.1 hx
      cases haction
    | some base => exact iff_of_true ⟨_, .tail _ (.head _), rfl, rfl⟩ rfl
  · obtain ⟨x, hx, _, haction⟩ := hdrop
    cases haction.symm.trans (hmodify x hx)

/-! ## User-defined types -/

theorem Scope.mem_columns_iff {fs : List (String × Field)} {typed : List Column}
    (h : s.columns fs = .ok typed) {c : Column} :
    c ∈ typed ↔ ∃ e ∈ fs, e.1 = c.name ∧ s.typeOf e.2 e.1 = .ok (some c.type) := by
  induction fs generalizing typed with
  | nil =>
    obtain rfl := Except.ok.inj h
    simp
  | cons e r ih =>
    simp only [columns, bind_eq_ok_iff, pure_eq_ok_iff] at h
    obtain ⟨type, htype, rest, hrest, rfl⟩ := h
    rw [List.mem_append, ih hrest, List.exists_mem_cons_iff, htype]
    cases type with
    | none => simp
    | some type =>
      have hc : c = ⟨e.1, type⟩ ↔ e.1 = c.name ∧ type = c.type := by
        cases c
        rw [Column.mk.injEq, eq_comm, @eq_comm _ type]
      simp only [Option.map_some, Option.toList_some, List.mem_singleton, Except.ok.injEq,
        Option.some.injEq, hc]

namespace UserType

variable {key : String} {t : UserType}

/-- Some field has a type. -/
def HasTypedField (s : Scope) (t : UserType) : Prop :=
  ∃ e ∈ t.fields, ∃ type, s.typeOf e.2 e.1 = .ok (some type)

theorem columns_ne_nil_iff {fields : List Column} (h : s.columns t.fields = .ok fields) :
    fields ≠ [] ↔ t.HasTypedField s := by
  constructor
  · intro hne
    obtain ⟨c, hc⟩ := List.exists_mem_of_ne_nil fields hne
    obtain ⟨e, he, _, htype⟩ := (Scope.mem_columns_iff h).1 hc
    exact ⟨e, he, c.type, htype⟩
  · rintro ⟨e, he, type, htype⟩
    exact List.ne_nil_of_mem ((Scope.mem_columns_iff h (c := ⟨e.1, type⟩)).2 ⟨e, he, rfl, htype⟩)

theorem act_add_iff_of_drop (h : t.commands s .update key = .ok cs)
    (hdrop : Command.Act cs .userType .drop) :
    Command.Act cs .userType .add ↔ t.HasTypedField s := by
  obtain ⟨x, hx, _, haction⟩ := hdrop
  obtain ⟨old, new, ys, hreplaces, hys, hx⟩ := exists_replaces_of_mem h hx (by simp [haction])
  obtain ⟨zs, hzs, hmem⟩ := exists_replacement h hreplaces
  obtain ⟨fields, hfields, rfl⟩ := replace_eq_ok_iff.1 hzs
  rw [← columns_ne_nil_iff hfields]
  constructor
  · rintro ⟨y, hy, _, hadd⟩ rfl
    have hy := (hmem y (by simp [hadd])).1 hy
    obtain rfl : y = .dropType old := by simpa using hy
    cases hadd
  · intro hne
    refine ⟨.createType ⟨new, fields⟩, (hmem _ (by simp [Command.action])).2 ?_, rfl, rfl⟩
    rw [if_neg (by simpa using hne)]
    exact .tail _ (.head _)

end UserType

/-! ## Nodes -/

/-- A node that may change its object: of a table whatever bucket it stands in, and of the other
    parts a modified one. -/
inductive ChangedNode
  | table (d : Direction) (key : String) (t : Table)
  | keyspace (k : Keyspace)
  | view (v : View)
  | userType (key : String) (t : UserType)

namespace ChangedNode

def level : ChangedNode → Level
  | table _ _ _ => .table
  | keyspace _ => .keyspace
  | view _ => .view
  | userType _ _ => .userType

/-- The commands that change the object. -/
def commands (s : Scope) : ChangedNode → Except ResolveError (List Command)
  | table d key t => t.commands s d key
  | keyspace k => .ok (k.commands .update)
  | view v => .ok (v.commands .update)
  | userType key t => t.commands s .update key

/-- The object is neither new nor gone. -/
def Stays : ChangedNode → Prop
  | table _ _ t => t.Stays
  | _ => True

/-- There is enough known of the object to create it. -/
def Definable (s : Scope) : ChangedNode → Prop
  | table _ _ _ => True
  | keyspace _ => True
  | view v => v.base.isSome = true
  | userType _ t => t.HasTypedField s

/-- A node that drops its object creates it anew exactly if the object can be defined. -/
theorem restored_iff (s : Scope) (n : ChangedNode) (hn : n.Stays) :
    (s.resolver.Answers → ∃ cs, n.commands s = .ok cs) ∧
    ∀ cs, n.commands s = .ok cs → Command.Act cs n.level .drop →
      (Command.Act cs n.level .add ↔ n.Definable s) := by
  refine ⟨fun hr => ?_, fun cs h hdrop => ?_⟩
  · cases n with
    | table d key t => exact Table.exists_commands hr d key t
    | keyspace k => exact ⟨_, rfl⟩
    | view v => exact ⟨_, rfl⟩
    | userType key t => exact UserType.exists_commands hr .update key t
  · cases n with
    | table d key t =>
      obtain ⟨definition, hcreate⟩ := Table.createTable_mem_commands_of_drop hn h hdrop
      exact iff_of_true ⟨_, hcreate, rfl, rfl⟩ trivial
    | keyspace k =>
      obtain rfl := Except.ok.inj h
      exact iff_of_true (Keyspace.act_add_of_drop hdrop) trivial
    | view v =>
      obtain rfl := Except.ok.inj h
      exact View.act_add_iff_of_drop hdrop
    | userType key t => exact UserType.act_add_iff_of_drop h hdrop

end ChangedNode

/-! ## A view without a base table -/

namespace Script

/-- A view with a new name, of which the base table is not known. -/
def renamedView : Json :=
  let names : Json := .obj [("old", .str "by_mail"), ("new", .str "users_by_email")]
  ChangeTree.rootOf .views .modified
    [("users_by_email", .obj [("role", .obj [("code", .str "users_by_email"),
      ("keyspaceName", .str "app"), ("compMod", .obj [("code", names)])])])]

/-- The view as it is read. -/
def viewWithoutBase : View where
  code := some "users_by_email"
  keyspace := some "app"
  comparison := some { code := some { old := some "by_mail", new := some "users_by_email" } }

/-- The view is dropped and does not come back. -/
theorem not_restored_of_renamedView :
    ∃ cs,
      (ChangedNode.view viewWithoutBase).commands {} = .ok cs ∧
      ofTree Resolver.builtin .empty { applyDrops := true } renamedView =
        .ok (cs.map Command.statement) ∧
      Command.Act cs .view .drop ∧ ¬ Command.Act cs .view .add := by
  obtain ⟨hexists, hall⟩ := ChangedNode.restored_iff {} (.view viewWithoutBase) trivial
  obtain ⟨cs, hcs⟩ := hexists Resolver.answers_builtin
  have hdrop : Command.Act cs .view .drop := by
    obtain rfl := Except.ok.inj hcs
    exact ⟨_, .head _, rfl, rfl⟩
  refine ⟨cs, hcs, ?_, hdrop, fun hadd => ?_⟩
  · obtain rfl := Except.ok.inj hcs
    rfl
  · cases (hall cs hcs hdrop).1 hadd

end Script

end AlterScript
