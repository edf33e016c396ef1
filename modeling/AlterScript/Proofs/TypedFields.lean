/-
  Fields that have a type, and what more references change.

  `Field.Typed` says by what a field has a type: an entry for its reference, a keyword that stands
  for itself, or the types of the items that it needs. `CqlType.isSome_ofField_iff`: these are the
  fields to which the built-in resolver gives a type, whatever name they stand under. Where more is
  referred to, no field loses its type: `Scope.columns_kept` says that then every column of a table
  and every field of a user-defined type that was included still is, in the same order.
-/
import AlterScript.Proofs.Answers
import AlterScript.Proofs.TypeGrammar

namespace AlterScript

/-! ## Fields and their items -/

namespace Field

theorem sizeOf_lt_of_mem_itemList {f g : Field} (h : g ∈ f.itemList) : sizeOf g < sizeOf f := by
  rw [itemList] at h
  obtain ⟨_, _, _, _, _, _, _, items, _, _, _, _, _, _, _, _⟩ := f
  cases items with
  | none => cases h
  | some items =>
    cases items with
    | one k =>
      obtain rfl := List.mem_singleton.1 h
      simp
      omega
    | many gs =>
      have hlt := List.sizeOf_lt_of_mem (show g ∈ gs from h)
      simp
      omega

/-- What holds of a field if it holds of the items of the field holds of all fields. -/
theorem induction_items {p : Field → Prop} (h : ∀ f, (∀ g ∈ f.itemList, p g) → p f) (f : Field) :
    p f :=
  h f fun g _ => induction_items h g
termination_by sizeOf f
decreasing_by exact sizeOf_lt_of_mem_itemList ‹_›

end Field

/-! ## Fields that have a type -/

namespace CqlType

/-- The keywords of the types that need no items. -/
def itemless : List String := ["string", "numeric", "bool", "map", "udt"] ++ scalars

end CqlType

namespace Field

/-- A field has a type: its reference stands for one, its keyword needs no items, or each of the
    items that it needs has a type or ends in a name. -/
inductive Typed (refs : References) : Field → Prop
  | reference {f : Field} {r n : String} (href : f.reference = some r)
      (hn : refs.find? r = some n) : Typed refs f
  | itemless {f : Field} {keyword : String} (href : f.reference = none)
      (htype : f.typeName.map Text.keyword = some keyword)
      (hkeyword : keyword ∈ CqlType.itemless) : Typed refs f
  | collection {f : Field} {keyword : String} (href : f.reference = none)
      (htype : f.typeName.map Text.keyword = some keyword)
      (hkeyword : keyword ∈ ["list", "set", "tuple"]) (hne : f.neededItems ≠ [])
      (hitems : ∀ g ∈ f.neededItems, g.reference.bind Text.lastSegment = none → Typed refs g) :
      Typed refs f

theorem mem_itemList_of_mem_neededItems {f g : Field} (h : g ∈ f.neededItems) :
    g ∈ f.itemList := by
  rw [neededItems] at h
  split at h
  · exact h
  · exact List.mem_of_mem_take h

end Field

namespace CqlType

variable {refs refs' : References} {fallback keyword : String} {f g : Field}

theorem isSome_ofField_iff_of_keyword (href : f.reference = none)
    (htype : f.typeName.map Text.keyword = some keyword)
    (hkeyword : keyword ∉ ["list", "set", "tuple"]) :
    (ofField refs fallback f).isSome = true ↔ keyword ∈ itemless := by
  cases f
  dsimp only at href htype
  simp only [ofField, href, htype]
  split
  case h_1 h => cases h
  case h_2 h | h_3 h | h_4 h | h_5 h | h_8 h | h_10 h =>
    obtain rfl := Option.some.inj h
    exact iff_of_true rfl (by decide)
  case h_6 h | h_7 h | h_9 h =>
    obtain rfl := Option.some.inj h
    exact absurd (by decide) hkeyword
  case h_11 name hstring hnumeric _ hbool _ _ hmap _ hudt h =>
    obtain rfl := Option.some.inj h
    -- The keywords that are no scalars have been dealt with.
    have hother : keyword ∉ ["string", "numeric", "bool", "map", "udt"] := by
      simpa using ⟨hstring, hnumeric, hbool, hmap, hudt⟩
    rw [itemless, List.mem_append, or_iff_right hother]
    simp

theorem ofField_of_untyped (href : f.reference = none)
    (htype : f.typeName.map Text.keyword = none) : ofField refs fallback f = none := by
  cases f
  dsimp only at href htype
  simp only [ofField, href, htype]

theorem notMem_collections_of_itemless (h : keyword ∈ itemless) :
    keyword ∉ ["list", "set", "tuple"] := by
  have hall : ∀ k ∈ itemless, k ∉ ["list", "set", "tuple"] := by decide
  exact hall keyword h

theorem typed_of_ofField {t : CqlType} (h : ofField refs fallback f = some t) : f.Typed refs := by
  induction f using Field.induction_items generalizing fallback t with
  | h f ih =>
    cases href : f.reference with
    | some r =>
      rw [ofField_of_reference href] at h
      obtain ⟨n, hn, -⟩ := Option.map_eq_some_iff.1 h
      exact .reference href hn
    | none =>
      cases htype : f.typeName.map Text.keyword with
      | none =>
        rw [ofField_of_untyped href htype] at h
        cases h
      | some keyword =>
        by_cases hkeyword : keyword ∈ ["list", "set", "tuple"]
        · have hneeded := mt (ofField_eq_none_iff href htype hkeyword).2 (h ▸ Option.some_ne_none t)
          obtain ⟨hne, hitems⟩ := not_or.1 hneeded
          refine .collection href htype hkeyword hne fun g hg hsegment => ?_
          obtain ⟨u, hu⟩ := Option.ne_none_iff_exists'.1 fun hnone =>
            hitems ⟨g, hg, ofItem_eq_none_iff.2 ⟨hnone, hsegment⟩⟩
          exact ih g (Field.mem_itemList_of_mem_neededItems hg) hu
        · have hsome := Option.isSome_of_eq_some h
          exact .itemless href htype ((isSome_ofField_iff_of_keyword href htype hkeyword).1 hsome)

/-- The built-in resolver gives a type to a field exactly if the field has one. The name under
    which the field stands does not matter. -/
theorem isSome_ofField_iff : (ofField refs fallback f).isSome = true ↔ f.Typed refs := by
  constructor
  · intro h
    obtain ⟨t, ht⟩ := Option.isSome_iff_exists.1 h
    exact typed_of_ofField ht
  · intro h
    induction h generalizing fallback with
    | reference href hn =>
      rw [ofField_of_reference href, hn]
      rfl
    | itemless href htype hkeyword =>
      exact (isSome_ofField_iff_of_keyword href htype
        (notMem_collections_of_itemless hkeyword)).2 hkeyword
    | collection href htype hkeyword hne hitems ih =>
      rw [Option.isSome_iff_ne_none]
      intro hnone
      rcases (ofField_eq_none_iff href htype hkeyword).1 hnone with hnil | ⟨g, hg, hitem⟩
      · exact hne hnil
      · obtain ⟨hfield, hsegment⟩ := ofItem_eq_none_iff.1 hitem
        exact Option.isSome_iff_ne_none.1 (ih g hg hsegment) hfield

end CqlType

/-! ## More references -/

namespace References

/-- What a text stands for among fewer references it stands for among more. -/
def Extends (more fewer : References) : Prop :=
  ∀ r n, fewer.find? r = some n → more.find? r = some n

end References

variable {refs more : References}

theorem Field.Typed.extend {f : Field} (h : f.Typed refs) (hmore : more.Extends refs) :
    f.Typed more := by
  induction h with
  | reference href hn => exact .reference href (hmore _ _ hn)
  | itemless href htype hkeyword => exact .itemless href htype hkeyword
  | collection href htype hkeyword hne _ ih => exact .collection href htype hkeyword hne ih

namespace Resolver

/-- A column has a type if its field has one, or else if its reference ends in a name. -/
theorem exists_columnType_builtin_iff {f : Field} {fallback : String} :
    (∃ type, builtin.columnType refs f fallback = .ok (some type)) ↔
      f.Typed refs ∨ ∃ n, f.reference.bind Text.lastSegment = some n := by
  rw [← @CqlType.isSome_ofField_iff refs fallback, columnType_builtin]
  cases CqlType.ofField refs fallback f with
  | none => simp
  | some t => simp

theorem exists_columnType_of_extends {f : Field} {fallback type : String}
    (hmore : more.Extends refs) (h : builtin.columnType refs f fallback = .ok (some type)) :
    ∃ type', builtin.columnType more f fallback = .ok (some type') := by
  refine exists_columnType_builtin_iff.2 ?_
  exact (exists_columnType_builtin_iff.1 ⟨type, h⟩).imp_left fun h => h.extend hmore

end Resolver

/-! ## Columns -/

namespace Scope

variable {s : Scope}

/-- Where a field that has a type keeps one, so does every column that is included. -/
theorem sublist_columns {s' : Scope}
    (h : ∀ f fallback type, s.typeOf f fallback = .ok (some type) →
      ∃ type', s'.typeOf f fallback = .ok (some type'))
    {fs : List (String × Field)} {typed typed' : List Column} (ht : s.columns fs = .ok typed)
    (ht' : s'.columns fs = .ok typed') :
    (typed.map Column.name).Sublist (typed'.map Column.name) := by
  induction fs generalizing typed typed' with
  | nil =>
    obtain rfl := Except.ok.inj ht
    exact List.nil_sublist _
  | cons e r ih =>
    simp only [columns, bind_eq_ok_iff, pure_eq_ok_iff] at ht ht'
    obtain ⟨type, htype, rest, hrest, rfl⟩ := ht
    obtain ⟨type', htype', rest', hrest', rfl⟩ := ht'
    have hr := ih hrest hrest'
    rw [List.map_append, List.map_append]
    refine List.Sublist.append ?_ hr
    cases type with
    | none => exact List.nil_sublist _
    | some type =>
      obtain ⟨type'', h''⟩ := h e.2 e.1 type htype
      rw [h''] at htype'
      obtain rfl := Except.ok.inj htype'
      exact List.Sublist.refl _

/-- The same with other references. -/
def referring (s : Scope) (refs : References) : Scope := { s with references := refs }

theorem exists_columns_of_extends (hs : s.resolver = Resolver.builtin)
    (hmore : more.Extends s.references) (fs : List (String × Field)) :
    ∃ typed typed', s.columns fs = .ok typed ∧ (s.referring more).columns fs = .ok typed' ∧
      (typed.map Column.name).Sublist (typed'.map Column.name) := by
  have hanswers : s.resolver.Answers := hs ▸ Resolver.answers_builtin
  obtain ⟨typed, htyped⟩ := exists_columns hanswers fs
  obtain ⟨typed', htyped'⟩ := exists_columns (s := s.referring more) hanswers fs
  refine ⟨typed, typed', htyped, htyped', sublist_columns ?_ htyped htyped'⟩
  intro f fallback type h
  simp only [typeOf, referring, hs] at h ⊢
  exact Resolver.exists_columnType_of_extends hmore h

/-- With more references every field that had a type has one, and every column of a new table and
    every field of a new type that was included still is, in the same order. Nothing else of the
    definition of a table depends on the references. -/
theorem columns_kept (s : Scope) (hs : s.resolver = Resolver.builtin)
    (hmore : more.Extends s.references) :
    (∀ f fallback type, Resolver.builtin.columnType s.references f fallback = .ok (some type) →
      ∃ type', Resolver.builtin.columnType more f fallback = .ok (some type')) ∧
    (∀ (t : Table) target columns options comment, ∃ d d',
      t.create s target columns options comment = .ok [.createTable d] ∧
      t.create (s.referring more) target columns options comment = .ok [.createTable d'] ∧
      (d.columns.map Column.name).Sublist (d'.columns.map Column.name) ∧
      d' = { d with columns := d'.columns }) ∧
    ∀ (t : UserType) target, ∃ fields fields',
      t.create s target = .ok (if fields = [] then [] else [.createType ⟨target, fields⟩]) ∧
      t.create (s.referring more) target =
        .ok (if fields' = [] then [] else [.createType ⟨target, fields'⟩]) ∧
      (fields.map Column.name).Sublist (fields'.map Column.name) := by
  refine ⟨fun f fallback type => Resolver.exists_columnType_of_extends hmore,
    fun t target columns options comment => ?_, fun t target => ?_⟩
  · obtain ⟨typed, typed', htyped, htyped', hsublist⟩ := exists_columns_of_extends hs hmore columns
    simp only [Table.create, bind_eq_ok_iff, pure_eq_ok_iff]
    exact ⟨_, _, ⟨typed, htyped, rfl⟩, ⟨typed', htyped', rfl⟩, hsublist, rfl⟩
  · obtain ⟨typed, typed', htyped, htyped', hsublist⟩ := exists_columns_of_extends hs hmore t.fields
    simp only [UserType.create, bind_eq_ok_iff, pure_eq_ok_iff]
    exact ⟨typed, typed', ⟨typed, htyped, by simp⟩, ⟨typed', htyped', by simp⟩, hsublist⟩

/-- A place that is referred to by a path without a name, and a list of phone numbers. -/
def contacts : Entries Field :=
  [("id", { typeName := some "uuid" }),
    ("home", { reference := some "#/definitions/" }),
    ("phones",
      { typeName := some "list"
        items := some (.one { reference := some "#/definitions/phone" }) })]

def fewTypes : References := ⟨[("phone", "phone")]⟩

def moreTypes : References :=
  ⟨[("#/definitions/", "place"), ("#/definitions/phone", "phone_number"), ("phone", "phone")]⟩

theorem extends_moreTypes : moreTypes.Extends fewTypes := by
  intro r n h
  obtain ⟨rfl, rfl⟩ := Prod.mk.inj (List.mem_singleton.1 (Entries.mem_of_find? h))
  rfl

/-- With more types the place comes in between the others, of which one gets another type. -/
theorem columns_kept_of_contacts :
    moreTypes.Extends fewTypes ∧
    ∃ d d',
      Table.create { references := fewTypes } {} ⟨none, "contacts"⟩ contacts .empty none =
        .ok [.createTable d] ∧
      Table.create { references := moreTypes } {} ⟨none, "contacts"⟩ contacts .empty none =
        .ok [.createTable d'] ∧
      d.columns = [⟨"id", "uuid"⟩, ⟨"phones", "list<frozen<phone>>"⟩] ∧
      d'.columns =
        [⟨"id", "uuid"⟩, ⟨"home", "frozen<place>"⟩, ⟨"phones", "list<frozen<phone_number>>"⟩] ∧
      (d.columns.map Column.name).Sublist (d'.columns.map Column.name) := by
  obtain ⟨-, htables, -⟩ := columns_kept { references := fewTypes } rfl extends_moreTypes
  obtain ⟨d, d', hd, hd', hsublist, -⟩ := htables {} ⟨none, "contacts"⟩ contacts .empty none
  refine ⟨extends_moreTypes, d, d', hd, hd', ?_, ?_, hsublist⟩
  · cases hd
    rfl
  · cases hd'
    rfl

end Scope

end AlterScript
