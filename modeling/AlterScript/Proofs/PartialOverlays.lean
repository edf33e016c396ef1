/-
  Changes of a type that overlays carry.

  The two versions of a column may say only what changes. A version without a type of its own takes
  from the column what it leaves out, and the column is in its new state, so an option that only the
  new version has is taken for the old one too. `ChangedColumn.typeChange_iff_isSet`: a change of one
  option of the type is seen exactly if the old version has the option.
-/
import AlterScript.Proofs.MergedColumns

namespace AlterScript

/-! ## Options of a type -/

/-- The attributes of a type that stand beside its name. -/
inductive TypeOption
  | mode
  | frozen
deriving DecidableEq, Repr

namespace TypeOption

/-- Whether a field has the option. -/
def isSet : TypeOption → Field → Bool
  | mode, f => f.mode.isSome
  | frozen, f => f.frozen

/-- Whether two fields have the same value of the option. -/
def Agrees : TypeOption → Field → Field → Prop
  | mode, f, g => f.mode = g.mode
  | frozen, f, g => f.frozen = g.frozen

/-- A field with the option as another one has it. -/
def copy : TypeOption → Field → Field → Field
  | mode, source, f => { f with mode := source.mode }
  | frozen, source, f => { f with frozen := source.frozen }

theorem copy_congr {o : TypeOption} {source source' : Field} (h : o.Agrees source source')
    (f : Field) : o.copy source f = o.copy source' f := by
  cases o with
  | mode => exact congrArg (fun value => { f with mode := value }) h
  | frozen => exact congrArg (fun value => { f with frozen := value }) h

theorem copy_self (o : TypeOption) (f : Field) : o.copy f f = f := by
  cases f
  cases o <;> rfl

end TypeOption

/-! ## Parts that are left out -/

theorem Alike.symm {α : Type} [BEq α] {x y : α} (h : Alike x y) : Alike y x :=
  Relation.EqvGen.symm x y h

theorem Alike.trans {α : Type} [BEq α] {x y z : α} (hxy : Alike x y) (hyz : Alike y z) :
    Alike x z :=
  Relation.EqvGen.trans x y z hxy hyz

/-- Alike values stay alike where a third one stands in for what is left out. -/
theorem Alike.orElse {α : Type} [BEq α] {x y : Option α} (h : Alike x y) (z : Option α) :
    Alike (x <|> z) (y <|> z) := by
  induction h with
  | rel x y h =>
    cases x with
    | none =>
      cases y with
      | none => exact .refl z
      | some y => cases h
    | some x =>
      cases y with
      | none => cases h
      | some y => exact .rel _ _ h
  | refl x => exact .refl _
  | symm x y _ ih => exact ih.symm
  | trans x y w _ _ hxy hyw => exact hxy.trans hyw

namespace Field

variable {s : Scope} {o : TypeOption} {f g old new : Field}

/-- Fields of the same type are of the same type with an option of a third one. -/
theorem SameType.copy (h : f.SameType g) (o : TypeOption) (source : Field) :
    (o.copy source f).SameType (o.copy source g) := by
  cases o with
  | mode =>
    exact ⟨h.typeName, rfl, h.childType, h.reference, h.items, h.properties, h.keySubtype,
      h.subtype, h.frozen⟩
  | frozen =>
    exact ⟨h.typeName, h.mode, h.childType, h.reference, h.items, h.properties, h.keySubtype,
      h.subtype, rfl⟩

theorem orTypeOf_of_not_hasType (h : f.hasType = false) (base : Field) :
    f.orTypeOf base = { f with
      typeName := base.typeName
      reference := base.reference
      mode := f.mode <|> base.mode
      childType := f.childType <|> base.childType
      items := f.items <|> base.items
      properties := f.properties <|> base.properties
      keySubtype := f.keySubtype <|> base.keySubtype
      subtype := f.subtype <|> base.subtype
      frozen := f.frozen || base.frozen } := by
  rw [orTypeOf, h, if_neg Bool.false_ne_true]

/-- Two versions of a field that say of its type only what changes, and that is one option. The
    field has the option of the new version. -/
structure PartlyOverlaid (o : TypeOption) (f old new : Field) : Prop where
  comparison : ∃ c, f.comparison = some c ∧ c.old = some old ∧ c.new = some new
  oldUntyped : old.hasType = false
  newUntyped : new.hasType = false
  label : old.label = new.label
  rest : old.SameType (o.copy old new)
  current : o.Agrees f new

namespace PartlyOverlaid

variable (h : f.PartlyOverlaid o old new)

include h

theorem oldVersion_eq : f.oldVersion = old.orTypeOf f := by
  obtain ⟨c, hc, hold, -⟩ := h.comparison
  rw [oldVersion, hc, Option.bind_some, hold]
  rfl

theorem newVersion_eq : f.newVersion = new.orTypeOf f := by
  obtain ⟨c, hc, -, hnew⟩ := h.comparison
  rw [newVersion, hc, Option.bind_some, hnew]
  rfl

theorem label_oldVersion : f.oldVersion.label = new.label := by
  rw [h.oldVersion_eq, label_orTypeOf, h.label]

theorem label_newVersion : f.newVersion.label = new.label := by
  rw [h.newVersion_eq, label_orTypeOf]

/-- In all but the option the versions are of one type. -/
theorem sameType_copy : f.oldVersion.SameType (o.copy f.oldVersion f.newVersion) := by
  rw [h.oldVersion_eq, h.newVersion_eq, orTypeOf_of_not_hasType h.oldUntyped,
    orTypeOf_of_not_hasType h.newUntyped]
  have hrest := h.rest
  cases o with
  | mode =>
    exact ⟨rfl, rfl, congrArg (· <|> f.childType) hrest.childType, rfl, hrest.items.orElse _,
      hrest.properties.orElse _, congrArg (· <|> f.keySubtype) hrest.keySubtype,
      congrArg (· <|> f.subtype) hrest.subtype, congrArg (· || f.frozen) hrest.frozen⟩
  | frozen =>
    exact ⟨rfl, congrArg (· <|> f.mode) hrest.mode, congrArg (· <|> f.childType) hrest.childType,
      rfl, hrest.items.orElse _, hrest.properties.orElse _,
      congrArg (· <|> f.keySubtype) hrest.keySubtype, congrArg (· <|> f.subtype) hrest.subtype, rfl⟩

/-- An option that the old version has is its own. -/
theorem agrees_of_isSet (hset : o.isSet old = true) : o.Agrees f.oldVersion old := by
  rw [h.oldVersion_eq, orTypeOf_of_not_hasType h.oldUntyped]
  cases o with
  | mode =>
    obtain ⟨mode, hmode⟩ := Option.isSome_iff_exists.1 hset
    show (old.mode <|> f.mode) = old.mode
    rw [hmode]
    rfl
  | frozen =>
    have hfrozen : old.frozen = true := hset
    show (old.frozen || f.frozen) = old.frozen
    rw [hfrozen, Bool.true_or]

/-- An option that the old version leaves out is the one of the column, which is the new one. -/
theorem agrees_of_not_isSet (hset : o.isSet old = false) : o.Agrees f.oldVersion f.newVersion := by
  rw [h.oldVersion_eq, h.newVersion_eq, orTypeOf_of_not_hasType h.oldUntyped,
    orTypeOf_of_not_hasType h.newUntyped]
  cases o with
  | mode =>
    have hmode : old.mode = none := Option.isNone_iff_eq_none.1 (Option.isSome_eq_false_iff.1 hset)
    have hcurrent : f.mode = new.mode := h.current
    show (old.mode <|> f.mode) = (new.mode <|> f.mode)
    rw [hmode, hcurrent]
    cases new.mode <;> rfl
  | frozen =>
    have hfrozen : old.frozen = false := hset
    have hcurrent : f.frozen = new.frozen := h.current
    show (old.frozen || f.frozen) = (new.frozen || f.frozen)
    rw [hfrozen, hcurrent, Bool.false_or, Bool.or_self]

theorem sameType_of_isSet (hset : o.isSet old = true) :
    f.oldVersion.SameType (o.copy old f.newVersion) := by
  rw [← TypeOption.copy_congr (h.agrees_of_isSet hset)]
  exact h.sameType_copy

theorem sameType_of_not_isSet (hset : o.isSet old = false) :
    f.oldVersion.SameType f.newVersion := by
  have hsame := h.sameType_copy
  rwa [TypeOption.copy_congr (h.agrees_of_not_isSet hset), TypeOption.copy_self] at hsame

end PartlyOverlaid

end Field

namespace ChangedColumn

variable {s : Scope} {o : TypeOption} {f old new : Field} {column : Column} {c : ChangedColumn}

/-- A column stays as it is exactly if its versions have one name and one type. -/
theorem change_eq_kept_iff {legacy : Bool} :
    c.change legacy = .kept ↔
      c.oldName.isSome = true ∧ c.oldName = c.newName ∧ c.oldType = c.newType := by
  rw [change]
  cases c.oldName with
  | none => simp
  | some old =>
    cases c.newName with
    | none => simp
    | some new =>
      by_cases hname : old = new
      · subst hname
        by_cases htype : c.oldType = c.newType
        · simp [htype]
        · simp only [ne_eq, not_true_eq_false, if_false, htype, not_false_eq_true, if_true,
            and_false, iff_false]
          rw [afterRetype]
          split
          · split
            · simp
            · split <;> simp [replacement]
          · simp
      · simp only [ne_eq, hname, not_false_eq_true, if_true, Option.some.injEq, false_and,
          and_false, iff_false]
        rw [afterRename]
        split
        · simp [replacement]
        · split <;> simp

theorem typeOf_of_partlyOverlaid (h : f.PartlyOverlaid o old new)
    (hc : ofField s column f = .ok c) :
    c.oldName = new.label ∧ c.newName = new.label ∧
      s.typeOf f.oldVersion (new.label.getD column.name) = .ok c.oldType ∧
      s.typeOf f.newVersion (new.label.getD column.name) = .ok c.newType := by
  simp only [ofField, bind_eq_ok_iff, pure_eq_ok_iff, h.label_oldVersion, h.label_newVersion] at hc
  obtain ⟨oldType, hold, newType, hnew, rfl⟩ := hc
  exact ⟨rfl, rfl, hold, hnew⟩

/-- A change of one option of a type that partial versions carry. It is seen exactly if the old
    version has the option, and if the option makes a difference with what else the versions say.
    Where the column is in its new state throughout, an option that makes a difference to the type
    of the column is seen exactly if the old version has it. What is not seen is left as it is. -/
theorem typeChange_iff_isSet (hr : s.resolver.ReadsType) (h : f.PartlyOverlaid o old new) :
    (s.resolver.Answers → ∀ column, ∃ c, ofField s column f = .ok c) ∧
    ∀ column c, ofField s column f = .ok c →
      (c.oldType ≠ c.newType ↔ o.isSet old = true ∧
        s.typeOf (o.copy old f.newVersion) (new.label.getD column.name) ≠ .ok c.newType) ∧
      (∀ before after, f.newVersion.SameType f →
        s.typeOf (o.copy old f) (new.label.getD column.name) = .ok before →
        s.typeOf f (new.label.getD column.name) = .ok after → before ≠ after →
        (c.oldType ≠ c.newType ↔ o.isSet old = true)) ∧
      ∀ legacy, c.change legacy = .kept ↔ new.label.isSome = true ∧ c.oldType = c.newType := by
  refine ⟨fun ha column => exists_ofField ha column f, fun column c hc => ?_⟩
  obtain ⟨holdName, hnewName, holdType, hnewType⟩ := typeOf_of_partlyOverlaid h hc
  have hseen : c.oldType ≠ c.newType ↔ o.isSet old = true ∧
      s.typeOf (o.copy old f.newVersion) (new.label.getD column.name) ≠ .ok c.newType := by
    by_cases hset : o.isSet old = true
    · rw [← Scope.typeOf_congr hr (h.sameType_of_isSet hset), holdType, and_iff_right hset, ne_eq,
        ne_eq, Except.ok.injEq]
    · have hset : o.isSet old = false := by simpa using hset
      rw [Scope.typeOf_congr hr (h.sameType_of_not_isSet hset), hnewType] at holdType
      simp [hset, Except.ok.inj holdType]
  refine ⟨hseen, fun before after hcurrent hbefore hafter hdiffer => ?_, fun legacy => ?_⟩
  · rw [hseen, Scope.typeOf_congr hr (hcurrent.copy o old), hbefore]
    rw [Scope.typeOf_congr hr hcurrent, hafter, Except.ok.injEq] at hnewType
    rw [← hnewType, and_iff_left]
    simpa using hdiffer
  · rw [change_eq_kept_iff, holdName, hnewName]
    simp

/-- An option that only the old version has is seen. -/
example :
    let f : Field :=
      { name := some "tags", typeName := some "set", items := some (.one { typeName := some "int" })
        comparison := some
          { old := some { name := some "tags", frozen := true }, new := some { name := some "tags" } } }
    (ofField {} ⟨"tags", "set<int>"⟩ f).map (fun c => (c.oldType, c.newType)) =
      .ok (some "frozen<set<int>>", some "set<int>") :=
  rfl

end ChangedColumn

/-! ## A list that is frozen -/

/-- A list of texts that is frozen now and was not before. -/
def frozenTags : Field where
  name := some "tags"
  typeName := some "list"
  items := some (.many [{ typeName := some "string" }])
  frozen := true
  comparison := some
    { old := some { name := some "tags" }, new := some { name := some "tags", frozen := true } }

theorem partlyOverlaid_frozenTags :
    frozenTags.PartlyOverlaid .frozen { name := some "tags" }
      { name := some "tags", frozen := true } :=
  ⟨⟨_, rfl, rfl, rfl⟩, rfl, rfl, rfl,
    ⟨rfl, rfl, rfl, rfl, .refl _, .refl _, rfl, rfl, rfl⟩, rfl⟩

namespace Script

/-- The table as it comes in. Its overlays say of the column whether it is frozen, and nothing
    else. -/
def frozenTagsUsers : Json :=
  let overlay (frozen : Bool) : Json := .obj [("name", .str "tags"), ("frozen", .bool frozen)]
  let tags : Json := .obj [("name", .str "tags"), ("type", .str "list"),
    ("items", .arr [.obj [("type", .str "string")]]), ("frozen", .bool true),
    ("compMod", .obj [("oldField", overlay false), ("newField", overlay true)])]
  let role : Json := .obj [("code", .str "users"), ("compMod", .obj [("keyspaceName", .str "app")])]
  ChangeTree.rootOf .tables .modified
    [("users", .obj [("role", role), ("properties", .obj [("tags", tags)])])]

/-- The column has another type than before, and nothing is done about it. -/
theorem not_typeChange_of_frozenTags :
    frozenTags.PartlyOverlaid .frozen { name := some "tags" }
      { name := some "tags", frozen := true } ∧
    Scope.typeOf {} { frozenTags with frozen := false } "tags" = .ok (some "list<text>") ∧
    Scope.typeOf {} frozenTags "tags" = .ok (some "frozen<list<text>>") ∧
    (∃ c, ChangedColumn.ofField {} ⟨"tags", "frozen<list<text>>"⟩ frozenTags = .ok c ∧
      c.oldType = c.newType ∧ ∀ legacy, c.change legacy = .kept) ∧
    ofTree Resolver.builtin .empty { applyDrops := true } frozenTagsUsers =
      .ok [⟨"", true, .modify, .table⟩] := by
  have hcurrent : frozenTags.newVersion.SameType frozenTags :=
    ⟨rfl, rfl, rfl, rfl, .refl _, .refl _, rfl, rfl, rfl⟩
  obtain ⟨hexists, hall⟩ := ChangedColumn.typeChange_iff_isSet (s := {})
    Resolver.readsType_builtin partlyOverlaid_frozenTags
  obtain ⟨c, hc⟩ := hexists Resolver.answers_builtin ⟨"tags", "frozen<list<text>>"⟩
  obtain ⟨-, hseen, hkept⟩ := hall _ c hc
  have hiff := hseen (some "list<text>") (some "frozen<list<text>>") hcurrent rfl rfl (by decide)
  have hsame : c.oldType = c.newType := Decidable.not_not.1 (mt hiff.1 Bool.false_ne_true)
  exact ⟨partlyOverlaid_frozenTags, rfl, rfl,
    ⟨c, hc, hsame, fun legacy => (hkept legacy).2 ⟨rfl, hsame⟩⟩, rfl⟩

end Script

end AlterScript
