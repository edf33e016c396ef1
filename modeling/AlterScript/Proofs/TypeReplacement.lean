/-
  User-defined types that are dropped and created anew.

  A type is created anew under a new name, or because of a field that cannot be converted in place
  (`UserType.Replaces`). `dropType_mem_commands_iff` and `createType_mem_commands_iff` say what such
  a node drops and creates, and `exists_modify_iff` says when it has statements besides that alter
  the type in place. `Script.replaced_alone_iff` puts them together for whole scripts.
-/
import AlterScript.Proofs.Answers
import AlterScript.Proofs.Levels
import AlterScript.Proofs.ScriptOrder

namespace AlterScript

/-! ## Fields -/

namespace Field

variable {s : Scope} {name : String} {f : Field}

/-- A field of a type that has an old and a new version: it neither came nor went. -/
def Stays (f : Field) : Prop :=
  ∃ c, f.comparison = some c ∧ c.created = false ∧ c.deleted = false

/-- A field that stays, with the types of its versions. -/
structure Compared (s : Scope) (name : String) (f : Field) (oldType newType : Option String) :
    Prop where
  stays : f.Stays
  oldType : s.typeOf f.oldVersion (f.oldVersion.label.getD name) = .ok oldType
  newType : s.typeOf f.newVersion (f.newVersion.label.getD name) = .ok newType

/-- The field cannot be converted to its new type in place. -/
def Inconvertible (s : Scope) (name : String) (f : Field) : Prop :=
  ∃ oldType newType, f.Compared s name oldType newType ∧
    CqlType.Inconvertible s.legacy oldType newType

/-- The type is altered in place for the field: a new field with a type, or one that is renamed or
    converted. -/
inductive InPlace (s : Scope) (name : String) (f : Field) : Prop
  | added {c : FieldComparison Field} {type : String} (hc : f.comparison = some c)
      (hcreated : c.created = true) (htype : s.typeOf f name = .ok (some type))
  | renamed {oldType newType : Option String} (h : f.Compared s name oldType newType)
      (hconvertible : ¬ CqlType.Inconvertible s.legacy oldType newType)
      (hname : f.oldVersion.label.getD name ≠ f.newVersion.label.getD name)
  | converted {old new : String} (h : f.Compared s name (some old) (some new))
      (hconvertible : ¬ CqlType.Inconvertible s.legacy (some old) (some new)) (htype : old ≠ new)

theorem Compared.unique {oldType newType oldType' newType' : Option String}
    (h : f.Compared s name oldType newType) (h' : f.Compared s name oldType' newType') :
    oldType = oldType' ∧ newType = newType' := by
  obtain rfl := Except.ok.inj (h.oldType.symm.trans h'.oldType)
  obtain rfl := Except.ok.inj (h.newType.symm.trans h'.newType)
  exact ⟨rfl, rfl⟩

theorem Compared.inconvertible_iff {oldType newType : Option String}
    (h : f.Compared s name oldType newType) :
    f.Inconvertible s name ↔ CqlType.Inconvertible s.legacy oldType newType := by
  constructor
  · rintro ⟨_, _, h', hinconvertible⟩
    obtain ⟨rfl, rfl⟩ := h.unique h'
    exact hinconvertible
  · exact fun hinconvertible => ⟨oldType, newType, h, hinconvertible⟩

theorem Stays.created {c : FieldComparison Field} (h : f.Stays) (hc : f.comparison = some c) :
    c.created = false := by
  obtain ⟨c', hc', hcreated, _⟩ := h
  obtain rfl := Option.some.inj (hc.symm.trans hc')
  exact hcreated

/-- For a field that stays, the type is altered in place if the field is convertible and gets
    another name or another type. -/
theorem Compared.inPlace_iff {oldType newType : Option String}
    (h : f.Compared s name oldType newType) :
    f.InPlace s name ↔ ¬ CqlType.Inconvertible s.legacy oldType newType ∧
      (f.oldVersion.label.getD name ≠ f.newVersion.label.getD name ∨
        ∃ o n, oldType = some o ∧ newType = some n ∧ o ≠ n) := by
  constructor
  · intro hinPlace
    cases hinPlace with
    | added hc hcreated => exact absurd hcreated (by simp [h.stays.created hc])
    | renamed h' hconvertible hname =>
      obtain ⟨rfl, rfl⟩ := h.unique h'
      exact ⟨hconvertible, Or.inl hname⟩
    | converted h' hconvertible htype =>
      obtain ⟨rfl, rfl⟩ := h.unique h'
      exact ⟨hconvertible, Or.inr ⟨_, _, rfl, rfl, htype⟩⟩
  · rintro ⟨hconvertible, hname | ⟨o, n, rfl, rfl, htype⟩⟩
    · exact .renamed h hconvertible hname
    · exact .converted h hconvertible htype

/-- For a field that does not stay, the type is altered in place only if the field is new. -/
theorem InPlace.of_not_stays (h : f.InPlace s name) (hs : ¬ f.Stays) :
    ∃ c type, f.comparison = some c ∧ c.created = true ∧ s.typeOf f name = .ok (some type) := by
  cases h with
  | added hc hcreated htype => exact ⟨_, _, hc, hcreated, htype⟩
  | renamed h => exact absurd h.stays hs
  | converted h => exact absurd h.stays hs

end Field

namespace UserType

variable {s : Scope} {t : UserType} {key : String} {q old new : QualifiedName}
  {own ys : List Command} {e : String × Field} {fields : List Column}

theorem fieldChange_of_inconvertible {legacy : Bool} {oldName newName : String}
    {oldType newType : Option String} (h : CqlType.Inconvertible legacy oldType newType) :
    fieldChange legacy oldName newName oldType newType = .inconvertible := by
  obtain ⟨o, n, rfl, rfl, hne, hconvertible⟩ := h
  simpa [fieldChange, hne] using hconvertible

/-- A field that is convertible is renamed if its names differ, and converted if its types are known
    and differ. -/
theorem fieldChange_of_convertible {legacy : Bool} (oldName newName : String)
    {oldType newType : Option String} (h : ¬ CqlType.Inconvertible legacy oldType newType) :
    ∃ names converted,
      fieldChange legacy oldName newName oldType newType = .altered names converted ∧
      (names.isSome = true ↔ oldName ≠ newName) ∧
      (converted.isSome = true ↔ ∃ o n, oldType = some o ∧ newType = some n ∧ o ≠ n) := by
  have hnames : (if oldName = newName then none else some (oldName, newName)).isSome = true ↔
      oldName ≠ newName := by
    by_cases hname : oldName = newName <;> simp [hname]
  cases oldType with
  | none => exact ⟨_, _, rfl, hnames, by simp⟩
  | some o =>
    cases newType with
    | none => exact ⟨_, _, rfl, hnames, by simp⟩
    | some n =>
      by_cases htype : o = n
      · refine ⟨_, none, ?_, hnames, by simp [htype]⟩
        simp [fieldChange, htype]
      · have hconvert : legacy = true ∧ CqlType.isConvertible o n = true := by
          by_contra hconvert
          exact h (CqlType.inconvertible_some_some.2 ⟨htype, hconvert⟩)
        refine ⟨_, some ⟨newName, n⟩, ?_, hnames, by simp [htype]⟩
        simp [fieldChange, htype, hconvert]

/-- The commands for a field that is renamed, converted or both. -/
theorem fieldCommands_altered {names : Option (String × String)} {converted : Option Column}
    (h : t.fieldCommands s q (.altered names converted) = .ok ys) :
    (ys ≠ [] ↔ names.isSome = true ∨ converted.isSome = true) ∧ ∀ x ∈ ys, x.action = .modify := by
  obtain rfl := Except.ok.inj h
  refine ⟨by cases names <;> cases converted <;> simp, fun x hx => ?_⟩
  rcases List.mem_append.1 hx with hx | hx
  · obtain ⟨_, _, rfl⟩ := Option.map_eq_some_iff.1 (Option.mem_toList.1 hx)
    rfl
  · obtain ⟨_, _, rfl⟩ := Option.map_eq_some_iff.1 (Option.mem_toList.1 hx)
    rfl

/-- What becomes of a field that stays. -/
theorem exists_compared_of_changeOf {name : String} {f : Field} {change : FieldChange}
    (hs : f.Stays) (h : changeOf s name f = .ok change) :
    ∃ oldType newType, f.Compared s name oldType newType ∧
      change = fieldChange s.legacy (f.oldVersion.label.getD name)
        (f.newVersion.label.getD name) oldType newType := by
  obtain ⟨c, hc, hcreated, hdeleted⟩ := hs
  simp only [changeOf, hc, hcreated, hdeleted, Bool.false_eq_true, if_false, bind_eq_ok_iff,
    pure_eq_ok_iff] at h
  obtain ⟨oldType, hold, newType, hnew, rfl⟩ := h
  exact ⟨oldType, newType, ⟨⟨c, hc, hcreated, hdeleted⟩, hold, hnew⟩, rfl⟩

/-- What becomes of a field that does not stay. -/
theorem changeOf_of_not_stays {name : String} {f : Field} {change : FieldChange}
    (hs : ¬ f.Stays) (h : changeOf s name f = .ok change) :
    (¬ f.InPlace s name ∧ change = .kept) ∨
      (f.InPlace s name ∧ ∃ column, change = .added column) := by
  rw [changeOf] at h
  split at h
  · rename_i hnone
    refine Or.inl ⟨fun hinPlace => ?_, (Except.ok.inj h).symm⟩
    obtain ⟨c, _, hc, _⟩ := hinPlace.of_not_stays hs
    simp [hnone] at hc
  · rename_i c hc
    by_cases hcreated : c.created = true
    · rw [if_pos hcreated] at h
      obtain ⟨type, htype, h⟩ := bind_eq_ok_iff.1 h
      cases type with
      | none =>
        refine Or.inl ⟨fun hinPlace => ?_, (Except.ok.inj h).symm⟩
        obtain ⟨_, _, _, _, htype'⟩ := hinPlace.of_not_stays hs
        simp [htype] at htype'
      | some type => exact Or.inr ⟨.added hc hcreated htype, _, (Except.ok.inj h).symm⟩
    · have hdeleted : c.deleted = true := by
        by_contra hdeleted
        exact hs ⟨c, hc, by simpa using hcreated, by simpa using hdeleted⟩
      rw [if_neg hcreated, if_pos hdeleted] at h
      refine Or.inl ⟨fun hinPlace => ?_, (Except.ok.inj h).symm⟩
      obtain ⟨c', _, hc', hcreated', _⟩ := hinPlace.of_not_stays hs
      obtain rfl := Option.some.inj (hc.symm.trans hc')
      exact hcreated hcreated'

/-- The commands for a field create the type anew, or all alter it in place. -/
theorem commandsOfField_cases (h : t.commandsOfField s q e = .ok ys) :
    (e.2.Inconvertible s e.1 ∧ ¬ e.2.InPlace s e.1 ∧ t.replace s q q = .ok ys) ∨
      (¬ e.2.Inconvertible s e.1 ∧ (ys ≠ [] ↔ e.2.InPlace s e.1) ∧
        ∀ x ∈ ys, x.action = .modify) := by
  obtain ⟨change, hchange, hys⟩ := bind_eq_ok_iff.1 h
  by_cases hs : e.2.Stays
  · obtain ⟨oldType, newType, hcompared, rfl⟩ := exists_compared_of_changeOf hs hchange
    rw [hcompared.inconvertible_iff, hcompared.inPlace_iff]
    by_cases hinconvertible : CqlType.Inconvertible s.legacy oldType newType
    · rw [fieldChange_of_inconvertible hinconvertible] at hys
      exact Or.inl ⟨hinconvertible, fun h => h.1 hinconvertible, hys⟩
    · obtain ⟨names, converted, hfield, hnames, hconverted⟩ :=
        fieldChange_of_convertible (e.2.oldVersion.label.getD e.1)
          (e.2.newVersion.label.getD e.1) hinconvertible
      rw [hfield] at hys
      obtain ⟨hne, hmodify⟩ := fieldCommands_altered hys
      rw [hne, hnames, hconverted]
      exact Or.inr ⟨hinconvertible, (and_iff_right hinconvertible).symm, hmodify⟩
  · have hconvertible : ¬ e.2.Inconvertible s e.1 := by
      rintro ⟨_, _, hcompared, _⟩
      exact hs hcompared.stays
    rcases changeOf_of_not_stays hs hchange with ⟨hinPlace, rfl⟩ | ⟨hinPlace, column, rfl⟩
    · obtain rfl := Except.ok.inj hys
      exact Or.inr ⟨hconvertible, by simpa using hinPlace, by simp⟩
    · obtain rfl := Except.ok.inj hys
      refine Or.inr ⟨hconvertible, by simpa using hinPlace, fun x hx => ?_⟩
      obtain rfl := List.mem_singleton.1 hx
      rfl

/-! ## Types -/

theorem replace_eq_ok_iff :
    t.replace s old new = .ok ys ↔ ∃ fields, s.columns t.fields = .ok fields ∧
      ys = .dropType old :: if fields.isEmpty then [] else [.createType ⟨new, fields⟩] := by
  simp only [replace, create, bind_eq_ok_iff, pure_eq_ok_iff]
  constructor
  · rintro ⟨_, ⟨fields, hfields, rfl⟩, rfl⟩
    exact ⟨fields, hfields, rfl⟩
  · rintro ⟨fields, hfields, rfl⟩
    exact ⟨_, ⟨fields, hfields, rfl⟩, rfl⟩

theorem action_ne_modify_of_mem_replace (h : t.replace s old new = .ok ys) {x : Command}
    (hx : x ∈ ys) : x.action ≠ .modify := by
  obtain ⟨fields, _, rfl⟩ := replace_eq_ok_iff.1 h
  rcases List.mem_cons.1 hx with rfl | hx
  · simp [Command.action]
  · split at hx
    · simp at hx
    · obtain rfl := List.mem_singleton.1 hx
      simp [Command.action]

/-- The comparison knows an old and a new name, and they differ. -/
def Renamed (t : UserType) (old new : String) : Prop := t.names = (some old, some new) ∧ old ≠ new

/-- The type is dropped under its old name and created anew under its new name: it is renamed, or it
    has a field that cannot be converted in place. -/
inductive Replaces (s : Scope) (key : String) (t : UserType) : QualifiedName → QualifiedName → Prop
  | renamed {old new : String} (h : t.Renamed old new) :
      Replaces s key t (t.target old) (t.target new)
  | retyped {e : String × Field} (hsame : ∀ old new, ¬ t.Renamed old new) (he : e ∈ t.fields)
      (h : e.2.Inconvertible s e.1) :
      Replaces s key t (t.target (t.label key)) (t.target (t.label key))

theorem names_unique {o n o' n' : String} (h : t.names = (some o, some n))
    (h' : t.names = (some o', some n')) : o = o' ∧ n = n' := by
  have hnames := h.symm.trans h'
  rwa [Prod.mk.injEq, Option.some.injEq, Option.some.injEq] at hnames

theorem Replaces.unique {old' new' : QualifiedName} (h : t.Replaces s key old new)
    (h' : t.Replaces s key old' new') : old = old' ∧ new = new' := by
  cases h with
  | renamed h =>
    cases h' with
    | renamed h' =>
      obtain ⟨rfl, rfl⟩ := names_unique h.1 h'.1
      exact ⟨rfl, rfl⟩
    | retyped hsame => exact absurd h (hsame _ _)
  | retyped hsame =>
    cases h' with
    | renamed h' => exact absurd h' (hsame _ _)
    | retyped => exact ⟨rfl, rfl⟩

/-- A modified type is created anew under another name, or its fields are gone through one by
    one. -/
theorem update_cases (h : t.commands s .update key = .ok own) :
    (∃ o n, t.Renamed o n ∧ t.replace s (t.target o) (t.target n) = .ok own) ∨
      ((∀ o n, ¬ t.Renamed o n) ∧
        Script.ofEach (t.commandsOfField s (t.target (t.label key))) t.fields = .ok own) := by
  have h : t.update s key = .ok own := h
  rw [update, updateFields_eq_ofEach] at h
  split at h
  · rename_i o n hnames
    by_cases hne : o = n
    · rw [if_neg (not_not_intro hne)] at h
      refine Or.inr ⟨fun o' n' hrenamed => ?_, h⟩
      obtain ⟨rfl, rfl⟩ := names_unique hnames hrenamed.1
      exact hrenamed.2 hne
    · rw [if_pos hne] at h
      exact Or.inl ⟨o, n, ⟨hnames, hne⟩, h⟩
  · rename_i hnames
    exact Or.inr ⟨fun o n hrenamed => hnames o n hrenamed.1, h⟩

/-- What does not alter a type in place creates it anew. -/
theorem exists_replaces_of_mem (h : t.commands s .update key = .ok own) {x : Command} (hx : x ∈ own)
    (haction : x.action ≠ .modify) :
    ∃ old new ys, t.Replaces s key old new ∧ t.replace s old new = .ok ys ∧ x ∈ ys := by
  rcases update_cases h with ⟨o, n, hrenamed, hreplace⟩ | ⟨hsame, heach⟩
  · exact ⟨_, _, own, .renamed hrenamed, hreplace, hx⟩
  · obtain ⟨e, he, ys, hys, hx⟩ := (Script.mem_ofEach_iff heach x).1 hx
    rcases commandsOfField_cases hys with ⟨hinconvertible, _, hreplace⟩ | ⟨_, _, hmodify⟩
    · exact ⟨_, _, ys, .retyped hsame he hinconvertible, hreplace, hx⟩
    · exact absurd (hmodify x hx) haction

/-- A type that is created anew has the commands for that, once or more often, and besides them only
    such as alter it in place. -/
theorem exists_replacement (h : t.commands s .update key = .ok own)
    (hreplaces : t.Replaces s key old new) :
    ∃ ys, t.replace s old new = .ok ys ∧
      ∀ x : Command, x.action ≠ .modify → (x ∈ own ↔ x ∈ ys) := by
  obtain ⟨ys, hys, hmem⟩ : ∃ ys, t.replace s old new = .ok ys ∧ ∀ x ∈ ys, x ∈ own := by
    rcases update_cases h with ⟨o, n, hrenamed, hreplace⟩ | ⟨hsame, heach⟩
    · obtain ⟨rfl, rfl⟩ := hreplaces.unique (.renamed hrenamed)
      exact ⟨own, hreplace, fun _ hx => hx⟩
    · cases hreplaces with
      | renamed hrenamed => exact absurd hrenamed (hsame _ _)
      | retyped _ he hinconvertible =>
        obtain ⟨ys, hys⟩ := Script.exists_of_mem_of_ofEach heach he
        rcases commandsOfField_cases hys with ⟨_, _, hreplace⟩ | ⟨hconvertible, _⟩
        · exact ⟨ys, hreplace, fun x hx => (Script.mem_ofEach_iff heach x).2 ⟨_, he, ys, hys, hx⟩⟩
        · exact absurd hinconvertible hconvertible
  refine ⟨ys, hys, fun x haction => ⟨fun hx => ?_, hmem x⟩⟩
  obtain ⟨old', new', ys', hreplaces', hys', hx⟩ := exists_replaces_of_mem h hx haction
  obtain ⟨rfl, rfl⟩ := hreplaces.unique hreplaces'
  obtain rfl := Except.ok.inj (hys.symm.trans hys')
  exact hx

theorem dropType_mem_commands_iff (h : t.commands s .update key = .ok own) :
    .dropType q ∈ own ↔ ∃ new, t.Replaces s key q new := by
  constructor
  · intro hx
    obtain ⟨old, new, ys, hreplaces, hys, hx⟩ :=
      exists_replaces_of_mem h hx (by simp [Command.action])
    obtain ⟨fields, _, rfl⟩ := replace_eq_ok_iff.1 hys
    obtain rfl : q = old := by
      rcases List.mem_cons.1 hx with hx | hx
      · exact Command.dropType.inj hx
      · split at hx <;> simp at hx
    exact ⟨new, hreplaces⟩
  · rintro ⟨new, hreplaces⟩
    obtain ⟨ys, hys, hmem⟩ := exists_replacement h hreplaces
    obtain ⟨fields, _, rfl⟩ := replace_eq_ok_iff.1 hys
    exact (hmem _ (by simp [Command.action])).2 List.mem_cons_self

/-- A type that is created anew is created with all its fields that have a type. -/
theorem createType_mem_commands_iff (h : t.commands s .update key = .ok own)
    (hreplaces : t.Replaces s key old new) (hfields : s.columns t.fields = .ok fields)
    (hne : fields ≠ []) {d : TypeDefinition} : .createType d ∈ own ↔ d = ⟨new, fields⟩ := by
  obtain ⟨ys, hys, hmem⟩ := exists_replacement h hreplaces
  obtain ⟨fields', hfields', rfl⟩ := replace_eq_ok_iff.1 hys
  obtain rfl := Except.ok.inj (hfields.symm.trans hfields')
  rw [hmem _ (by simp [Command.action]), if_neg (by simpa using hne)]
  simp

/-- A modified type has commands that alter it in place if it keeps its name and some field asks for
    that. -/
theorem exists_modify_iff (h : t.commands s .update key = .ok own) :
    (∃ x ∈ own, x.action = .modify) ↔
      (∀ o n, ¬ t.Renamed o n) ∧ ∃ e ∈ t.fields, e.2.InPlace s e.1 := by
  rcases update_cases h with ⟨o, n, hrenamed, hreplace⟩ | ⟨hsame, heach⟩
  · refine iff_of_false ?_ fun hsame => hsame.1 o n hrenamed
    rintro ⟨x, hx, haction⟩
    exact action_ne_modify_of_mem_replace hreplace hx haction
  · rw [and_iff_right hsame]
    constructor
    · rintro ⟨x, hx, haction⟩
      obtain ⟨e, he, ys, hys, hx⟩ := (Script.mem_ofEach_iff heach x).1 hx
      rcases commandsOfField_cases hys with ⟨_, _, hreplace⟩ | ⟨_, hinPlace, _⟩
      · exact absurd haction (action_ne_modify_of_mem_replace hreplace hx)
      · exact ⟨e, he, hinPlace.1 (List.ne_nil_of_mem hx)⟩
    · rintro ⟨e, he, he'⟩
      obtain ⟨ys, hys⟩ := Script.exists_of_mem_of_ofEach heach he
      rcases commandsOfField_cases hys with ⟨_, hnot, _⟩ | ⟨_, hinPlace, hmodify⟩
      · exact absurd he' hnot
      · obtain ⟨x, hx⟩ := List.exists_mem_of_ne_nil ys (hinPlace.2 he')
        exact ⟨x, (Script.mem_ofEach_iff heach x).2 ⟨e, he, ys, hys, hx⟩, hmodify x hx⟩

theorem forall_not_modify_iff (h : t.commands s .update key = .ok own) :
    (∀ x ∈ own, x.action ≠ .modify) ↔
      (∃ o n, t.Renamed o n) ∨ ∀ e ∈ t.fields, ¬ e.2.InPlace s e.1 := by
  have hmodify := not_congr (exists_modify_iff h)
  push Not at hmodify
  rw [hmodify]
  constructor
  · intro hnone
    by_cases hrenamed : ∃ o n, t.Renamed o n
    · exact Or.inl hrenamed
    · push Not at hrenamed
      exact Or.inr (hnone hrenamed)
  · rintro (⟨o, n, hrenamed⟩ | hnone) hsame
    · exact absurd hrenamed (hsame o n)
    · exact hnone

/-- The names under which a node drops or creates a type. -/
def about (key : String) (t : UserType) : List QualifiedName :=
  t.target (t.label key) :: (t.names.1.toList ++ t.names.2.toList).map t.target

theorem Replaces.new_mem_about (h : t.Replaces s key old new) : new ∈ t.about key := by
  cases h with
  | renamed h => simp [about, h.1]
  | retyped => exact List.mem_cons_self

theorem target_mem_about {d : Direction} (h : t.commands s d key = .ok own) {x : TypeDefinition}
    (hx : .createType x ∈ own) : x.target ∈ t.about key := by
  have hmade : ∀ {fields : List Column} {target : QualifiedName},
      .createType x ∈ (if fields.isEmpty then [] else [Command.createType ⟨target, fields⟩]) →
        x.target = target := by
    intro fields target hx
    split at hx
    · simp at hx
    · rw [List.mem_singleton, Command.createType.injEq] at hx
      rw [hx]
  cases d with
  | create =>
    have h : t.create s (t.target (t.label key)) = .ok own := h
    simp only [create, bind_eq_ok_iff, pure_eq_ok_iff] at h
    obtain ⟨fields, _, rfl⟩ := h
    rw [hmade hx]
    exact List.mem_cons_self
  | delete =>
    obtain rfl := Except.ok.inj h
    simp at hx
  | update =>
    obtain ⟨old, new, ys, hreplaces, hys, hx⟩ :=
      exists_replaces_of_mem h hx (by simp [Command.action])
    obtain ⟨fields, _, rfl⟩ := replace_eq_ok_iff.1 hys
    rcases List.mem_cons.1 hx with hx | hx
    · simp at hx
    · rw [hmade hx]
      exact hreplaces.new_mem_about

end UserType

/-! ## Statements -/

namespace Statement

variable {st : Statement} {action : Action} {beginning : String} {q : QualifiedName} {c : Command}

/-- The user-defined type to which a statement does something, as the text names it behind its
    beginning. -/
def typeBehind? (action : Action) (beginning : String) (st : Statement) : Option QualifiedName :=
  if st.level = .userType ∧ st.action = action then
    (Text.behind? beginning st.text.toList).bind fun r => (QualifiedName.read? r).map Prod.fst
  else none

/-- The user-defined type that a statement drops. -/
def droppedType? : Statement → Option QualifiedName := typeBehind? .drop "DROP TYPE IF EXISTS "

/-- The user-defined type that a statement creates. -/
def createdType? : Statement → Option QualifiedName := typeBehind? .add "CREATE TYPE IF NOT EXISTS "

theorem slot_of_typeBehind? (h : typeBehind? action beginning st = some q) :
    st.level = .userType ∧ st.action = action := by
  by_contra hslot
  rw [typeBehind?, if_neg hslot] at h
  simp at h

theorem typeBehind?_of_text (hslot : st.level = .userType ∧ st.action = action) {x : Char}
    {rest : List Char}
    (htext : st.text.toList = beginning.toList ++ (q.text.toList ++ x :: rest)) (hquote : x ≠ '"')
    (hpoint : x ≠ '.') : typeBehind? action beginning st = some q := by
  rw [typeBehind?, if_pos hslot, htext, Text.behind?_append, Option.bind_some,
    QualifiedName.read?_text q (by simpa using hquote) (by simpa using hpoint)]
  rfl

theorem droppedType?_dropType (q : QualifiedName) :
    (Command.dropType q).statement.droppedType? = some q := by
  have htext : (Command.dropType q).statement.text.toList =
      "DROP TYPE IF EXISTS ".toList ++ (q.text.toList ++ [';']) := by
    show ("DROP TYPE IF EXISTS " ++ q.text ++ ";").toList = _
    simp only [String.toList_append, List.append_assoc]
    rfl
  exact typeBehind?_of_text ⟨rfl, rfl⟩ htext (by decide) (by decide)

theorem createdType?_createType (d : TypeDefinition) :
    (Command.createType d).statement.createdType? = some d.target := by
  obtain ⟨rest, htext⟩ : ∃ rest, (Command.createType d).statement.text.toList =
      "CREATE TYPE IF NOT EXISTS ".toList ++ (d.target.text.toList ++ ' ' :: rest) := by
    show ∃ rest, ("CREATE TYPE IF NOT EXISTS " ++ d.target.text ++ " (\n"
      ++ Text.join ",\n" (d.fields.map fun f => "\t" ++ f.text) ++ "\n);").toList = _
    simp only [String.toList_append, List.append_assoc]
    exact ⟨_, rfl⟩
  exact typeBehind?_of_text ⟨rfl, rfl⟩ htext (by decide) (by decide)

theorem droppedType?_statement_iff : c.statement.droppedType? = some q ↔ c = .dropType q := by
  constructor
  · intro h
    have hslot := slot_of_typeBehind? h
    obtain ⟨q', rfl⟩ : ∃ q', c = .dropType q' := by
      cases c <;> simp [Command.level, Command.action] at hslot ⊢
    rw [droppedType?_dropType, Option.some.injEq] at h
    rw [h]
  · rintro rfl
    exact droppedType?_dropType q

theorem createdType?_statement_iff :
    c.statement.createdType? = some q ↔ ∃ d, c = .createType d ∧ d.target = q := by
  constructor
  · intro h
    have hslot := slot_of_typeBehind? h
    obtain ⟨d, rfl⟩ : ∃ d, c = .createType d := by
      cases c <;> simp [Command.level, Command.action] at hslot ⊢
    rw [createdType?_createType, Option.some.injEq] at h
    exact ⟨d, rfl, h⟩
  · rintro ⟨d, rfl, rfl⟩
    exact createdType?_createType d

end Statement

/-! ## Scripts -/

theorem filter_eq_singleton {α : Type} [DecidableEq α] {p : α → Bool} {l : List α} {x : α}
    (hnodup : l.Nodup) (hx : x ∈ l) (h : ∀ y ∈ l, p y = true ↔ y = x) : l.filter p = [x] := by
  have hp : l.filter p = l.filter (· = x) := List.filter_congr fun y hy => by
    rw [Bool.eq_iff_iff, h y hy, decide_eq_true_eq]
  rw [hp, List.filter_eq, List.count_eq_one_of_mem hnodup hx]
  rfl

namespace Script

section Statements

variable {cs : List Command}

/-- A script drops a type once, however many of its commands drop it. -/
theorem filter_droppedType? {q : QualifiedName} (h : .dropType q ∈ cs) :
    (ofStatements true (cs.map Command.statement)).filter (·.droppedType? = some q) =
      [(Command.dropType q).statement] := by
  refine filter_eq_singleton (nodup_ofStatements_true _)
    (mem_ofStatements_true_iff.2 (List.mem_map_of_mem h)) fun st hst => ?_
  obtain ⟨x, _, rfl⟩ := List.mem_map.1 (mem_ofStatements_true_iff.1 hst)
  rw [decide_eq_true_eq, Statement.droppedType?_statement_iff]
  constructor
  · rintro rfl
    rfl
  · intro hstatement
    rw [← Statement.droppedType?_statement_iff, hstatement, Statement.droppedType?_dropType]

/-- A script creates a type once if its commands agree on the fields. -/
theorem filter_createdType? {d : TypeDefinition} (h : .createType d ∈ cs)
    (honly : ∀ d', .createType d' ∈ cs → d'.target = d.target → d' = d) :
    (ofStatements true (cs.map Command.statement)).filter (·.createdType? = some d.target) =
      [(Command.createType d).statement] := by
  refine filter_eq_singleton (nodup_ofStatements_true _)
    (mem_ofStatements_true_iff.2 (List.mem_map_of_mem h)) fun st hst => ?_
  obtain ⟨x, hx, rfl⟩ := List.mem_map.1 (mem_ofStatements_true_iff.1 hst)
  rw [decide_eq_true_eq]
  constructor
  · intro hcreated
    obtain ⟨d', rfl, htarget⟩ := Statement.createdType?_statement_iff.1 hcreated
    rw [honly d' hx htarget]
  · intro hstatement
    rw [hstatement, Statement.createdType?_createType]

end Statements

/-- A type that a modified node drops is created anew. The node alters it in place besides exactly
    if it keeps its name and some field asks for that. If the type has a field with a type, the node
    creates it once, with all such fields, and in the script with drops applied this is the only
    statement that creates the type, unless another node is about it; the only statement that drops
    the type is that of the node. There is a script if the resolver always answers. -/
theorem replaced_alone_iff (resolver : Resolver) (references : References) (mode : Mode)
    {root : Json} {t : ChangeTree} (ht : ChangeTree.ofJson root = .ok t) {n : Child UserType}
    (hn : n ∈ typeNodes t .modified) :
    (resolver.Answers → ∃ final, ofTree resolver references mode root = .ok final) ∧
    ∀ final, ofTree resolver references mode root = .ok final →
    ∃ own applied,
      n.node.commands (scope resolver references mode.legacy t) .update n.key = .ok own ∧
      ofTree resolver references { mode with applyDrops := true } root = .ok applied ∧
      final = gate mode.applyDrops applied ∧
      (∀ x ∈ own, x.statement ∈ applied) ∧
      ∀ old, .dropType old ∈ own →
        ((∀ x ∈ own, x.action ≠ .modify) ↔ (∃ o n', n.node.Renamed o n') ∨
          ∀ e ∈ n.node.fields, ¬ e.2.InPlace (scope resolver references mode.legacy t) e.1) ∧
        applied.filter (·.droppedType? = some old) = [(Command.dropType old).statement] ∧
        ∃ new fields,
          n.node.Replaces (scope resolver references mode.legacy t) n.key old new ∧
          (scope resolver references mode.legacy t).columns n.node.fields = .ok fields ∧
          (fields ≠ [] →
            (∀ d, .createType d ∈ own ↔ d = ⟨new, fields⟩) ∧
            ((∀ b, ∀ k ∈ typeNodes t b, new ∈ k.node.about k.key → b = .modified ∧ k = n) →
              applied.filter (·.createdType? = some new) =
                [(Command.createType ⟨new, fields⟩).statement])) := by
  refine ⟨fun hr => exists_ofTree_eq_ok hr references _ ht, fun final hfinal => ?_⟩
  obtain ⟨cs, hcs, rfl⟩ := (ofTree_eq_ok_iff_of_ofJson ht).1 hfinal
  obtain ⟨own, hown⟩ := exists_type_commands hcs hn
  have hown : n.node.commands (scope resolver references mode.legacy t) .update n.key = .ok own :=
    hown
  have hin : ∀ x ∈ own, x ∈ cs := fun x hx =>
    (mem_commands_iff hcs).2 (Or.inr (Or.inr (Or.inr ⟨_, n, hn, own, hown, hx⟩)))
  refine ⟨own, _, hown, (ofTree_eq_ok_iff_of_ofJson ht).2 ⟨cs, hcs, rfl⟩,
    ofStatements_eq_gate _ _,
    fun x hx => mem_ofStatements_true_iff.2 (List.mem_map_of_mem (hin x hx)), fun old hold =>
      ⟨UserType.forall_not_modify_iff hown, filter_droppedType? (hin _ hold), ?_⟩⟩
  obtain ⟨new, hreplaces⟩ := (UserType.dropType_mem_commands_iff hown).1 hold
  obtain ⟨ys, hys, _⟩ := UserType.exists_replacement hown hreplaces
  obtain ⟨fields, hfields, _⟩ := UserType.replace_eq_ok_iff.1 hys
  refine ⟨new, fields, hreplaces, hfields, fun hne => ?_⟩
  have hcreate : ∀ d, .createType d ∈ own ↔ d = ⟨new, fields⟩ := fun d =>
    UserType.createType_mem_commands_iff hown hreplaces hfields hne
  refine ⟨hcreate, fun honly => filter_createdType? (hin _ ((hcreate _).2 rfl)) ?_⟩
  -- A command that creates this type is one of a node about it, so of this node.
  intro d hd htarget
  obtain ⟨b, k, hk, zs, hzs, hd⟩ := ofType_of_level hcs hd rfl
  have hnew : new ∈ k.node.about k.key := by
    rw [show new = d.target from htarget.symm]
    exact UserType.target_mem_about hzs hd
  obtain ⟨rfl, rfl⟩ := honly b k hk hnew
  obtain rfl := Except.ok.inj (hown.symm.trans hzs)
  exact (hcreate d).1 hd

/-! ## A type with a retyped and a new field -/

/-- A type of which a field gets a type that its old one cannot be converted to, and another field
    is new. -/
def retypedAddress : Json :=
  let version (type : String) : Json := .obj [("name", .str "zip"), ("type", .str type)]
  let zip : Json := .obj [("type", .str "string"),
    ("compMod", .obj [("oldField", version "numeric"), ("newField", version "string")])]
  let country : Json := .obj [("type", .str "string"),
    ("compMod", .obj [("created", .bool true)])]
  ChangeTree.rootOf .userTypes .modified
    [("address", .obj [("code", .str "address"), ("keyspaceName", .str "app"),
      ("properties", .obj [("zip", zip), ("country", country)])])]

def addressTree : ChangeTree := ⟨retypedAddress.get? "properties"⟩

/-- The new field as it is read. -/
def countryField : Field where
  typeName := some "string"
  comparison := some { created := true }

/-- The type as it is read. -/
def addressType : UserType where
  code := some "address"
  keyspace := some "app"
  properties := some (.named
    [("zip",
      { typeName := some "string"
        comparison := some
          { old := some { name := some "zip", typeName := some "numeric" }
            new := some { name := some "zip", typeName := some "string" } } }),
      ("country", countryField)])

/-- The type is created anew with its new field, and the field is added to it once more. -/
theorem not_replaced_alone_of_retypedAddress :
    ∃ own final,
      addressType.commands (scope Resolver.builtin .empty false addressTree) .update "address" =
        .ok own ∧
      ofTree Resolver.builtin .empty { applyDrops := true } retypedAddress = .ok final ∧
      final.filter (·.droppedType? = some ⟨some "app", "address"⟩) =
        [(Command.dropType ⟨some "app", "address"⟩).statement] ∧
      final.filter (·.createdType? = some ⟨some "app", "address"⟩) =
        [(Command.createType ⟨⟨some "app", "address"⟩,
          [⟨"zip", "text"⟩, ⟨"country", "text"⟩]⟩).statement] ∧
      ∃ x ∈ own, x.action = .modify ∧ x.statement ∈ final := by
  have ht : ChangeTree.ofJson retypedAddress = .ok addressTree := rfl
  have hn : (⟨"address", addressType⟩ : Child UserType) ∈ typeNodes addressTree .modified :=
    List.mem_singleton.2 rfl
  have honly : ∀ b, ∀ k ∈ typeNodes addressTree b,
      b = .modified ∧ k = ⟨"address", addressType⟩ := by
    intro b k hk
    cases b with
    | modified => exact ⟨rfl, List.mem_singleton.1 hk⟩
    | added => exact absurd hk List.not_mem_nil
    | deleted => exact absurd hk List.not_mem_nil
  obtain ⟨hexists, hall⟩ := replaced_alone_iff Resolver.builtin .empty { applyDrops := true } ht hn
  obtain ⟨final, hfinal⟩ := hexists Resolver.answers_builtin
  obtain ⟨own, applied, hown, _, rfl, hin, hdropped⟩ := hall final hfinal
  have hdrop : Command.dropType ⟨some "app", "address"⟩ ∈ own := by
    obtain rfl := Except.ok.inj hown
    exact List.mem_cons_self
  obtain ⟨hmodify, hfilter, new, fields, hreplaces, hfields, hcreated⟩ := hdropped _ hdrop
  obtain rfl : [⟨"zip", "text"⟩, ⟨"country", "text"⟩] = fields := Except.ok.inj hfields
  have hnames : ∀ o n, ¬ addressType.Renamed o n := by
    rintro o n ⟨hnames, _⟩
    have : (none, none) = (some o, some n) := hnames
    simp at this
  have hcountry :
      countryField.InPlace (scope Resolver.builtin .empty false addressTree) "country" :=
    .added rfl rfl rfl
  obtain rfl : ⟨some "app", "address"⟩ = new := by
    cases hreplaces with
    | renamed hrenamed => exact absurd hrenamed (hnames _ _)
    | retyped => rfl
  obtain ⟨_, hfilter'⟩ := hcreated (by simp)
  refine ⟨own, _, hown, hfinal, hfilter, hfilter' fun b k hk _ => honly b k hk, ?_⟩
  by_contra hnone
  push Not at hnone
  rcases hmodify.1 fun x hx haction => hnone x hx haction (hin x hx) with ⟨o, n, hrenamed⟩ | hfields
  · exact hnames o n hrenamed
  · exact hfields ("country", countryField) (.tail _ (.head _)) hcountry

end Script

end AlterScript
