/-
  What a changed column becomes.

  A table that is created anew gets each column with its change laid over it, attribute by
  attribute (`Field.overlay`); a table that stays gets the new version of the column.
  `Table.mergedAgrees_iff` says when both give a column the same name and the same type.
-/
import Mathlib.Logic.Relation
import AlterScript.Proofs.Answers

namespace AlterScript

/-! ## Fields that are equal but for the order of their parts -/

namespace Field

/-- The name, the type and the references of equal fields. -/
theorem attributes_of_same {f g : Field} (h : f.same g = true) :
    f.label = g.label ∧ f.typeName = g.typeName ∧ f.mode = g.mode ∧ f.childType = g.childType ∧
      f.reference = g.reference ∧ f.keySubtype = g.keySubtype ∧ f.subtype = g.subtype ∧
      f.frozen = g.frozen ∧ sameItems? f.items g.items = true := by
  cases f
  cases g
  simp only [same, sameAttributes, Bool.and_eq_true, beq_iff_eq] at h
  simp only [label]
  grind

end Field

namespace CqlType

variable {refs : References}

/-- The attributes that the built-in resolver reads. -/
theorem ofField_congr {fallback : String} {f g : Field} (htypeName : f.typeName = g.typeName)
    (hmode : f.mode = g.mode) (hchildType : f.childType = g.childType)
    (hreference : f.reference = g.reference) (hkeySubtype : f.keySubtype = g.keySubtype)
    (hsubtype : f.subtype = g.subtype) (hfrozen : f.frozen = g.frozen)
    (hfirst : ofFirst refs fallback f.items = ofFirst refs fallback g.items)
    (hall : ofAll refs fallback f.items = ofAll refs fallback g.items) :
    ofField refs fallback f = ofField refs fallback g := by
  cases f
  cases g
  dsimp only at htypeName hmode hchildType hreference hkeySubtype hsubtype hfrozen hfirst hall
  subst htypeName hmode hchildType hreference hkeySubtype hsubtype hfrozen
  simp only [ofField, hfirst, hall]

theorem ofItem_congr {fallback : String} {f g : Field} (h : f.same g = true)
    (htype : ∀ fallback, ofField refs fallback f = ofField refs fallback g) :
    ofItem refs fallback f = ofItem refs fallback g := by
  obtain ⟨hlabel, -, -, -, hreference, -⟩ := Field.attributes_of_same h
  rw [ofItem, ofItem, hlabel, htype, hreference]

mutual

/-- Equal fields have the same type. The induction is on the first field: both definitions walk it,
    and the order of named fields, which may differ, is part of no type. -/
theorem ofField_of_same : ∀ {f g : Field}, f.same g = true → ∀ fallback,
    ofField refs fallback f = ofField refs fallback g
  | ⟨n, c, u, t, m, ch, r, items, properties, ks, s, fr, pk, ppk, pck, comparison⟩, g, h,
      fallback => by
    obtain ⟨-, htypeName, hmode, hchildType, hreference, hkeySubtype, hsubtype, hfrozen, hitems⟩ :=
      Field.attributes_of_same h
    obtain ⟨hfirst, hall⟩ := ofItems?_of_same hitems fallback
    exact ofField_congr htypeName hmode hchildType hreference hkeySubtype hsubtype hfrozen hfirst
      hall
termination_by structural f => f

theorem ofItems?_of_same : ∀ {x y : Option (OneOrMany Field)}, Field.sameItems? x y = true →
    ∀ fallback, ofFirst refs fallback x = ofFirst refs fallback y ∧
      ofAll refs fallback x = ofAll refs fallback y
  | none, none, _, _ => ⟨rfl, rfl⟩
  | some _, some _, h, fallback => ofItems_of_same h fallback
termination_by structural x => x

theorem ofItems_of_same : ∀ {x y : OneOrMany Field}, Field.sameItems x y = true → ∀ fallback,
    ofFirstItem refs fallback x = ofFirstItem refs fallback y ∧
      ofAllItems refs fallback x = ofAllItems refs fallback y
  | .one f, .one g, h, fallback => by
    have hitem : ofItem refs fallback f = ofItem refs fallback g :=
      ofItem_congr h (ofField_of_same h)
    exact ⟨hitem, congrArg (Option.map ([·])) hitem⟩
  | .many fs, .many gs, h, fallback => ofList_of_same h fallback
termination_by structural x => x

theorem ofList_of_same : ∀ {fs gs : List Field}, Field.sameList fs gs = true → ∀ fallback,
    ofHead refs fallback fs = ofHead refs fallback gs ∧
      ofEach refs fallback fs = ofEach refs fallback gs
  | [], [], _, _ => ⟨rfl, rfl⟩
  | f :: fs, g :: gs, h, fallback => by
    obtain ⟨hf, hfs⟩ := Bool.and_eq_true_iff.1 h
    have hitem : ofItem refs fallback f = ofItem refs fallback g :=
      ofItem_congr hf (ofField_of_same hf)
    obtain ⟨-, heach⟩ := ofList_of_same hfs fallback
    exact ⟨hitem, congrArg₂ (fun t ts => t.bind fun t => ts.map fun ts => t :: ts) hitem heach⟩
termination_by structural fs => fs

end

end CqlType

/-! ## Types of fields -/

/-- Equal but for the order of parts. -/
def Alike {α : Type} [BEq α] : α → α → Prop := Relation.EqvGen fun x y => (x == y) = true

theorem Alike.refl {α : Type} [BEq α] (x : α) : Alike x x := Relation.EqvGen.refl x

namespace Field

/-- The attributes that a type is made of are those of another field. -/
structure SameType (f g : Field) : Prop where
  typeName : f.typeName = g.typeName
  mode : f.mode = g.mode
  childType : f.childType = g.childType
  reference : f.reference = g.reference
  items : Alike f.items g.items
  properties : Alike f.properties g.properties
  keySubtype : f.keySubtype = g.keySubtype
  subtype : f.subtype = g.subtype
  frozen : f.frozen = g.frozen

end Field

theorem CqlType.ofItems?_of_alike {x y : Option (OneOrMany Field)} (h : Alike x y)
    (refs : References) (fallback : String) :
    ofFirst refs fallback x = ofFirst refs fallback y ∧
      ofAll refs fallback x = ofAll refs fallback y := by
  induction h with
  | rel x y h =>
    refine ofItems?_of_same ?_ fallback
    cases x <;> cases y <;> exact h
  | refl x => exact ⟨rfl, rfl⟩
  | symm x y _ ih => exact ⟨ih.1.symm, ih.2.symm⟩
  | trans x y z _ _ hxy hyz => exact ⟨hxy.1.trans hyz.1, hxy.2.trans hyz.2⟩

/-- A resolver that looks at nothing but the type of a field. -/
def Resolver.ReadsType (r : Resolver) : Prop :=
  ∀ refs f g name, f.SameType g → r refs f name = r refs g name

theorem Resolver.readsType_builtin : builtin.ReadsType := by
  intro refs f g name h
  obtain ⟨hfirst, hall⟩ := CqlType.ofItems?_of_alike h.items refs name
  rw [builtin, builtin, CqlType.ofField_congr h.typeName h.mode h.childType h.reference h.keySubtype
    h.subtype h.frozen hfirst hall]

variable {s : Scope}

theorem Scope.typeOf_congr (hr : s.resolver.ReadsType) {f g : Field} (h : f.SameType g)
    (name : String) : s.typeOf f name = s.typeOf g name := by
  rw [typeOf, typeOf, Resolver.columnType, Resolver.columnType, hr _ _ _ _ h, h.reference]

/-! ## A change laid over a field -/

namespace Field

section Overlaid

variable {α : Type} [BEq α]

/-- Laid over the new value, a change gives the new value. -/
theorem alike_overlaid_of_new {base old new : Option α} (h : Alike base new) :
    Alike (overlaid base old new) new := by
  cases new with
  | none => exact h
  | some v =>
    rw [overlaid]
    split
    · exact h
    · exact .refl _

/-- Laid over the old value, a change gives the new value, or the old one if there is no new one. -/
theorem alike_overlaid_of_old {base old new : Option α} (h : Alike base old) :
    Alike (overlaid base old new) (new <|> old) := by
  cases new with
  | none => exact h
  | some v =>
    rw [overlaid]
    split
    · rename_i hkept
      exact h.trans _ _ _ (.rel _ _ hkept)
    · exact .refl _

theorem eq_of_alike [LawfulBEq α] {x y : α} (h : Alike x y) : x = y := by
  induction h with
  | rel x y h => exact eq_of_beq h
  | refl x => rfl
  | symm x y _ ih => exact ih.symm
  | trans x y z _ _ hxy hyz => exact hxy.trans hyz

theorem overlaid_new [LawfulBEq α] (old new : Option α) : overlaid new old new = new :=
  eq_of_alike (alike_overlaid_of_new (.refl new))

theorem overlaid_old [LawfulBEq α] (old new : Option α) : overlaid old old new = (new <|> old) :=
  eq_of_alike (alike_overlaid_of_old (.refl old))

end Overlaid

theorem overlaidFlag_new (old new : Bool) : overlaidFlag new old new = new := by
  simp [overlaidFlag]

theorem overlaidFlag_old (old new : Bool) : overlaidFlag old old new = new := by
  rw [overlaidFlag]
  split
  · rename_i h
    exact (eq_of_beq h).symm
  · rfl

/-- The name and the type of a field are those of a version. -/
structure DescribedAs (f v : Field) : Prop extends f.SameType v where
  name : f.name = v.name
  code : f.code = v.code

theorem DescribedAs.label {f v : Field} (h : f.DescribedAs v) : f.label = v.label := by
  rw [Field.label, Field.label, h.name, h.code]

/-- A version with the attributes of the type that it leaves out taken from the version before. -/
def completedBy (new old : Field) : Field :=
  { new with
    typeName := new.typeName <|> old.typeName
    mode := new.mode <|> old.mode
    childType := new.childType <|> old.childType
    reference := new.reference <|> old.reference
    items := new.items <|> old.items
    properties := new.properties <|> old.properties
    keySubtype := new.keySubtype <|> old.keySubtype
    subtype := new.subtype <|> old.subtype }

variable {f old new : Field}

/-- Laid over a field in its new state, a change leaves the type as it is. -/
theorem sameType_overlay_of_new (h : f.SameType new) (old : Field) :
    (f.overlay old new).SameType new where
  typeName := by rw [overlay, h.typeName, overlaid_new]
  mode := by rw [overlay, h.mode, overlaid_new]
  childType := by rw [overlay, h.childType, overlaid_new]
  reference := by rw [overlay, h.reference, overlaid_new]
  items := alike_overlaid_of_new h.items
  properties := alike_overlaid_of_new h.properties
  keySubtype := by rw [overlay, h.keySubtype, overlaid_new]
  subtype := by rw [overlay, h.subtype, overlaid_new]
  frozen := by rw [overlay, h.frozen, overlaidFlag_new]

/-- Laid over a field in its old state, a change keeps of the type what the new version leaves
    out. -/
theorem sameType_overlay_of_old (h : f.SameType old) (new : Field) :
    (f.overlay old new).SameType (new.completedBy old) where
  typeName := by rw [overlay, h.typeName, overlaid_old, completedBy]
  mode := by rw [overlay, h.mode, overlaid_old, completedBy]
  childType := by rw [overlay, h.childType, overlaid_old, completedBy]
  reference := by rw [overlay, h.reference, overlaid_old, completedBy]
  items := alike_overlaid_of_old h.items
  properties := alike_overlaid_of_old h.properties
  keySubtype := by rw [overlay, h.keySubtype, overlaid_old, completedBy]
  subtype := by rw [overlay, h.subtype, overlaid_old, completedBy]
  frozen := by rw [overlay, h.frozen, overlaidFlag_old, completedBy]

/-- The name that the new version goes by is found without its code: it is the new name where there
    is another one than before, and else the name of the column. -/
def NamedWithoutCode (new old : Field) (key : String) : Prop :=
  if new.name = none ∨ new.name = old.name then new.label = some key else new.label = new.name

theorem some_overlaidName_eq_label_iff (key : String) (old new : Field) :
    some (overlaidName key old new) = new.label ↔ new.NamedWithoutCode old key := by
  rw [overlaidName, NamedWithoutCode]
  cases new.name with
  | none =>
    rw [if_pos (Or.inl rfl)]
    exact eq_comm
  | some name =>
    by_cases hkept : old.name = some name
    · rw [overlaid, if_pos (beq_iff_eq.2 hkept), if_pos (Or.inr hkept.symm)]
      exact eq_comm
    · rw [overlaid, if_neg (by simpa using hkept), if_neg (by simpa using Ne.symm hkept)]
      exact eq_comm

/-- Versions without codes are named without codes. -/
theorem namedWithoutCode_of_name {key : String} (hold : old.label = old.name)
    (hnew : new.label = new.name) (hlabel : new.label.isSome = true)
    (hkey : old.label = some key ∨ new.label = some key) : new.NamedWithoutCode old key := by
  rw [NamedWithoutCode]
  split
  · rename_i h
    grind
  · exact hnew

/-- A field under its own name has an old and a new version and is in the state of one of them. The
    new version has a name and a type. -/
structure InState (f : Field) (key : String) (old new : Field) (label : String) : Prop where
  comparison : ∃ c, f.comparison = some c ∧ c.old = some old ∧ c.new = some new
  newLabel : new.label = some label
  newType : new.hasType = true
  key : f.label = some key
  state : f.DescribedAs old ∨ f.DescribedAs new

namespace InState

variable {key label : String} (h : f.InState key old new label)

include h

theorem merged_eq : f.merged key = (overlaidName key old new, f.overlay old new) := by
  obtain ⟨c, hc, hold, hnew⟩ := h.comparison
  rw [merged, hc]
  simp only [hold, hnew, Option.getD_some]

theorem newVersion_eq : f.newVersion = new := by
  obtain ⟨c, hc, -, hnew⟩ := h.comparison
  rw [newVersion, hc]
  simp only [Option.bind_some, hnew, Option.map_some, Option.getD_some]
  exact orTypeOf_of_hasType h.newType f

/-- The name and the type that the change in place arrives at are those of the new version. -/
theorem of_ofField {column : Column} {c : ChangedColumn}
    (hc : ChangedColumn.ofField s column f = .ok c) :
    c.newName = some label ∧ s.typeOf new label = .ok c.newType := by
  simp only [ChangedColumn.ofField, bind_eq_ok_iff, pure_eq_ok_iff, h.newVersion_eq, h.newLabel,
    Option.getD_some] at hc
  obtain ⟨_, _, type, htype, rfl⟩ := hc
  exact ⟨rfl, htype⟩

theorem key_eq : old.label = some key ∨ new.label = some key :=
  h.state.imp (fun hf => hf.label.symm.trans h.key) fun hf => hf.label.symm.trans h.key

/-- The type of the field with the change laid over it. -/
theorem typeOf_overlay_eq_ok_iff (hr : s.resolver.ReadsType) {type : Option String}
    (hnew : s.typeOf new label = .ok type) :
    s.typeOf (f.overlay old new) label = .ok type ↔
      f.DescribedAs new ∨ s.typeOf (new.completedBy old) label = .ok type := by
  by_cases hstate : f.DescribedAs new
  · rw [Scope.typeOf_congr hr (sameType_overlay_of_new hstate.toSameType old)]
    exact iff_of_true hnew (Or.inl hstate)
  · have hold : f.DescribedAs old := h.state.resolve_right hstate
    rw [Scope.typeOf_congr hr (sameType_overlay_of_old hold.toSameType new)]
    exact (or_iff_right hstate).symm

end InState

/-- The column of a table that is created anew has the name and the type at which the change in
    place arrives. -/
def MergedAgrees (s : Scope) (key : String) (f : Field) (c : ChangedColumn) : Prop :=
  c.newName = some (f.merged key).1 ∧ s.typeOf (f.merged key).2 (f.merged key).1 = .ok c.newType

end Field

/-! ## Columns of tables -/

namespace Entries

variable {α : Type}

theorem mem_put_self (key : String) (value : α) (es : Entries α) :
    (key, value) ∈ es.put key value := by
  induction es with
  | nil => simp [put]
  | cons e r ih => grind [put]

theorem mem_put_of_ne {key : String} {value : α} {es : Entries α} {e : String × α} (he : e ∈ es)
    (hne : e.1 ≠ key) : e ∈ es.put key value := by
  induction es with
  | nil => cases he
  | cons d r ih => grind [put]

/-- An entry that no other one has the name of stays. -/
theorem mem_putAll_of_unique {es : Entries α} {more : List (String × α)} {e : String × α}
    (he : e ∈ es ∨ e ∈ more) (hunique : ∀ d ∈ more, d.1 = e.1 → d = e) : e ∈ es.putAll more := by
  induction more generalizing es with
  | nil => exact he.resolve_right List.not_mem_nil
  | cons d r ih =>
    refine ih ?_ fun x hx => hunique x (List.mem_cons_of_mem d hx)
    by_cases hname : d.1 = e.1
    · obtain rfl := hunique d List.mem_cons_self hname
      exact Or.inl (mem_put_self d.1 d.2 es)
    · rcases he with he | he
      · exact Or.inl (mem_put_of_ne he (Ne.symm hname))
      · exact Or.inr ((List.mem_cons.1 he).resolve_left fun heq => hname (heq ▸ rfl))

theorem mem_ofList_of_unique {es : List (String × α)} {e : String × α} (he : e ∈ es)
    (hunique : ∀ d ∈ es, d.1 = e.1 → d = e) : e ∈ ofList es :=
  mem_putAll_of_unique (Or.inr he) hunique

end Entries

namespace Table

/-- A column with both versions. Where it is created anew, it gets the name and the type at which
    the change in place arrives exactly if the name of the new version is found without its code,
    and if the old version has no attribute of the type that the new one leaves out and that makes
    another type. -/
theorem mergedAgrees_iff (s : Scope) {t : Table} {key label : String} {f old new : Field}
    (hr : s.resolver.ReadsType) (hf : (key, f) ∈ t.allColumns)
    (hv : f.InState key old new label) :
    ((∀ e ∈ t.allColumns, (e.2.merged e.1).1 = (f.merged key).1 → e = (key, f)) →
      f.merged key ∈ t.mergedColumns) ∧
    (s.resolver.Answers → ∀ column, ∃ c, ChangedColumn.ofField s column f = .ok c) ∧
    ∀ column c, ChangedColumn.ofField s column f = .ok c →
      (f.MergedAgrees s key c ↔
        new.NamedWithoutCode old key ∧
          (f.DescribedAs new ∨ s.typeOf (new.completedBy old) label = .ok c.newType)) ∧
      (old.label = old.name → new.label = new.name → new.completedBy old = new →
        f.MergedAgrees s key c) := by
  refine ⟨fun hunique => ?_, fun ha column => ChangedColumn.exists_ofField ha column f,
    fun column c hc => ?_⟩
  · refine Entries.mem_ofList_of_unique (List.mem_map.2 ⟨(key, f), hf, rfl⟩) fun d hd hname => ?_
    obtain ⟨e, he, rfl⟩ := List.mem_map.1 hd
    obtain rfl := hunique e he hname
    rfl
  · obtain ⟨hname, htype⟩ := hv.of_ofField hc
    have hiff : f.MergedAgrees s key c ↔
        new.NamedWithoutCode old key ∧
          (f.DescribedAs new ∨ s.typeOf (new.completedBy old) label = .ok c.newType) := by
      rw [Field.MergedAgrees, hv.merged_eq, hname, ← Field.some_overlaidName_eq_label_iff,
        hv.newLabel, eq_comm, ← hv.typeOf_overlay_eq_ok_iff hr htype]
      refine and_congr_right fun h => ?_
      rw [Option.some.inj h]
    refine ⟨hiff, fun hold hnew hcomplete => hiff.2 ⟨?_, Or.inr ?_⟩⟩
    · exact Field.namedWithoutCode_of_name hold hnew (by simp [hv.newLabel]) hv.key_eq
    · rw [hcomplete, htype]

/-- A part of the type that the new version leaves out stays where the column is created anew. -/
example :
    let old : Field := { name := some "note", typeName := some "string", mode := some "ascii" }
    let new : Field := { name := some "note", typeName := some "string" }
    let f : Field := { old with comparison := some { old := some old, new := some new } }
    Scope.typeOf {} (f.merged "note").2 "note" = .ok (some "ascii") ∧
      Scope.typeOf {} f.newVersion "note" = .ok (some "text") :=
  ⟨rfl, rfl⟩

end Table

/-! ## A column that changes its code -/

/-- A version of the column. -/
def mailVersion (code : String) : Field where
  code := some code
  name := some "E-mail"
  typeName := some "string"

/-- The column in its old state. -/
def recodedMail : Field :=
  { mailVersion "mail" with
    comparison := some { old := some (mailVersion "mail"), new := some (mailVersion "email") } }

/-- The table with its new name. -/
def peopleTable : Table where
  role :=
    { code := some "people"
      comparison := some
        { keyspace := some "app"
          code := some { old := some "users", new := some "people" } }
      properties := some (.named
        [("id", { typeName := some "uuid", primaryKey := true }), ("mail", recodedMail)]) }
  properties := some (.named [("mail", recodedMail)])

namespace Script

/-- The table as it comes in. -/
def renamedUsers : Json :=
  let version (code : String) : Entries Json :=
    [("code", .str code), ("name", .str "E-mail"), ("type", .str "string")]
  let mail : Json := .obj (version "mail" ++ [("compMod", .obj
    [("oldField", .obj (version "mail")), ("newField", .obj (version "email"))])])
  let role : Json := .obj [("code", .str "people"),
    ("compMod", .obj [("keyspaceName", .str "app"),
      ("code", .obj [("old", .str "users"), ("new", .str "people")])]),
    ("properties", .obj [("id", .obj [("type", .str "uuid"), ("primaryKey", .bool true)]),
      ("mail", mail)])]
  ChangeTree.rootOf .tables .modified
    [("users", .obj [("role", role), ("properties", .obj [("mail", mail)])])]

/-- The new table has the column under its old code, while a change in place would rename it. -/
theorem not_mergedAgrees_of_recodedMail :
    ∃ c, ChangedColumn.ofField {} ⟨"mail", "text"⟩ recodedMail = .ok c ∧
      c.newName = some "email" ∧ c.newType = some "text" ∧
      recodedMail.merged "mail" ∈ peopleTable.mergedColumns ∧
      ¬ recodedMail.MergedAgrees {} "mail" c ∧
      ofTree Resolver.builtin .empty { applyDrops := true } renamedUsers =
        .ok ([.dropTable ⟨some "app", "users"⟩,
          .createTable
            { target := ⟨some "app", "people"⟩
              columns := [⟨"id", "uuid"⟩, ⟨"mail", "text"⟩]
              partitionKey := ["id"]
              clusteringKey := []
              clauses := [] }].map Command.statement) := by
  have hv : recodedMail.InState "mail" (mailVersion "mail") (mailVersion "email") "email" :=
    ⟨⟨_, rfl, rfl, rfl⟩, rfl, rfl, rfl, Or.inl ⟨⟨rfl, rfl, rfl, rfl, .refl _, .refl _, rfl, rfl, rfl⟩,
      rfl, rfl⟩⟩
  have hmail : ("mail", recodedMail) ∈ peopleTable.allColumns := .tail _ (.head _)
  obtain ⟨hmem, hexists, hiff⟩ := Table.mergedAgrees_iff {} Resolver.readsType_builtin hmail hv
  obtain ⟨c, hc⟩ := hexists Resolver.answers_builtin ⟨"mail", "text"⟩
  obtain ⟨hname, htype⟩ := hv.of_ofField hc
  refine ⟨c, hc, hname, (Except.ok.inj htype).symm, hmem ?_, fun hagrees => ?_, rfl⟩
  · intro e he hkey
    rcases List.mem_cons.1 he with rfl | he
    · exact absurd hkey (by decide)
    · exact List.mem_singleton.1 he
  · have hnamed := ((hiff _ c hc).1.1 hagrees).1
    have hkept : (mailVersion "email").name = (mailVersion "mail").name := rfl
    rw [Field.NamedWithoutCode, if_pos (Or.inr hkept)] at hnamed
    exact absurd hnamed (by decide)

end Script

end AlterScript
