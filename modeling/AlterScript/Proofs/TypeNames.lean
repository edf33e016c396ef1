/-
  How the fields of a type name other types.

  A type is named by a reference or by a hint (`TypeName`), at any depth of the items of a field
  (`Field.Draws`). `Field.Draws.within`: the type named so is part of the field's type.
  `Field.Draws.mem_mentions` says which of the names the order of types sees.
-/
import AlterScript.CqlType.Resolver
import AlterScript.UserType.Dependency

namespace AlterScript

/-! ## Parts of texts -/

namespace Text

/-- A text stands somewhere in another one. -/
def Within (part s : String) : Prop := ∃ before after, s = before ++ part ++ after

variable {part s : String}

theorem Within.refl (s : String) : Within s s := ⟨"", "", by simp⟩

theorem Within.append (h : Within part s) (before after : String) :
    Within part (before ++ s ++ after) := by
  obtain ⟨front, back, rfl⟩ := h
  exact ⟨before ++ front, back ++ after, by simp only [String.append_assoc]⟩

theorem Within.join (h : Within part s) {ss : List String} (hs : s ∈ ss) (separator : String) :
    Within part (join separator ss) := by
  induction ss with
  | nil => cases hs
  | cons t r ih =>
    cases r with
    | nil => exact List.mem_singleton.1 hs ▸ h
    | cons u r =>
      rw [join_cons_cons, String.append_assoc]
      rcases List.mem_cons.1 hs with rfl | hs
      · simpa using h.append "" (separator ++ Text.join separator (u :: r))
      · simpa [String.append_assoc] using (ih hs).append (t ++ separator) ""

end Text

namespace CqlType

theorem within_freeze {part : String} {t : CqlType} (h : Text.Within part t.text)
    (isFrozen : Bool) : Text.Within part (t.freeze isFrozen).text := by
  cases isFrozen with
  | false => exact h
  | true => exact h.append "frozen<" ">"

variable {refs : References} {fallback : String} {f : Field}

/-! ## Types of fields -/

theorem ofField_of_reference {r : String} (href : f.reference = some r) :
    ofField refs fallback f = (refs.find? r).map fun n => frozen (named n) := by
  cases f
  dsimp only at href
  simp only [ofField, href]

theorem ofField_of_hint {hint n : String} (href : f.reference = none)
    (htype : f.typeName.map Text.keyword = some "udt")
    (hhint : (f.childType <|> f.mode) = some hint) (hn : hinted refs hint = some n) :
    ofField refs fallback f = some (frozen (named n)) := by
  cases f
  dsimp only at href htype hhint
  simp only [ofField, href, htype, hhint, Option.bind_some, hn, Option.getD_some]

/-- The type of a collection has the type of its first item in it. -/
theorem exists_of_ofField_of_collection {keyword : String} {type t : CqlType}
    (href : f.reference = none) (htype : f.typeName.map Text.keyword = some keyword)
    (hkeyword : keyword ∈ ["list", "set", "map"]) (hitem : ofFirst refs fallback f.items = some t)
    (h : ofField refs fallback f = some type) :
    ∃ before after u, type = CqlType.freeze f.frozen u ∧ u.text = before ++ t.text ++ after := by
  cases f
  dsimp only at href htype hitem h ⊢
  have hkeyword : keyword = "list" ∨ keyword = "set" ∨ keyword = "map" := by simpa using hkeyword
  rcases hkeyword with rfl | rfl | rfl
  · simp only [ofField, href, htype, hitem, Option.map_some, Option.some.injEq] at h
    exact ⟨"list<", ">", _, h.symm, rfl⟩
  · simp only [ofField, href, htype, hitem, Option.map_some, Option.some.injEq] at h
    exact ⟨"set<", ">", _, h.symm, rfl⟩
  · simp only [ofField, href, htype, hitem, Option.some.injEq] at h
    exact ⟨_, ">", _, h.symm, rfl⟩

/-- The type of a tuple is made of the types of its items. -/
theorem exists_of_ofField_of_tuple {type : CqlType} (href : f.reference = none)
    (htype : f.typeName.map Text.keyword = some "tuple")
    (h : ofField refs fallback f = some type) :
    ∃ ts, ofAll refs fallback f.items = some ts ∧ type = .tuple ts := by
  cases f
  dsimp only at href htype h ⊢
  simp only [ofField, href, htype] at h
  split at h
  · rename_i t ts hall
    exact ⟨t :: ts, hall, (Option.some.inj h).symm⟩
  · cases h

theorem ofItem_of_ofField {t : CqlType} (h : ofField refs (f.label.getD fallback) f = some t) :
    ofItem refs fallback f = some t := by
  rw [ofItem, h]
  rfl

theorem ofFirst_eq (fallback : String) (items : Option (OneOrMany Field)) :
    ofFirst refs fallback items = (items.bind OneOrMany.first?).bind (ofItem refs fallback) := by
  cases items with
  | none => rfl
  | some items =>
    cases items with
    | one f => rfl
    | many fs => cases fs <;> rfl

theorem exists_of_mem_ofEach {fs : List Field} {ts : List CqlType}
    (h : ofEach refs fallback fs = some ts) (hf : f ∈ fs) :
    ∃ t ∈ ts, ofItem refs fallback f = some t := by
  induction fs generalizing ts with
  | nil => cases hf
  | cons g fs ih =>
    obtain ⟨t, ht, h⟩ := Option.bind_eq_some_iff.1 h
    obtain ⟨ts, hts, rfl⟩ := Option.map_eq_some_iff.1 h
    rcases List.mem_cons.1 hf with rfl | hf
    · exact ⟨t, List.mem_cons_self, ht⟩
    · obtain ⟨u, hu, hitem⟩ := ih hts hf
      exact ⟨u, List.mem_cons_of_mem t hu, hitem⟩

/-- Where all items have types, each of them has. -/
theorem exists_of_mem_ofAll {items : OneOrMany Field} {ts : List CqlType}
    (h : ofAll refs fallback (some items) = some ts) (hf : f ∈ items.toList) :
    ∃ t ∈ ts, ofItem refs fallback f = some t := by
  cases items with
  | one g =>
    obtain rfl := List.mem_singleton.1 hf
    obtain ⟨t, ht, rfl⟩ := Option.map_eq_some_iff.1 h
    exact ⟨t, List.mem_cons_self, ht⟩
  | many fs => exact exists_of_mem_ofEach h hf

end CqlType

/-! ## Names of types -/

/-- What a field names a user-defined type by. -/
inductive TypeName
  | reference (text : String)
  | childType (hint : String)
  | mode (hint : String)

namespace TypeName

/-- The type that is named, if it is known. -/
def resolve (refs : References) : TypeName → Option String
  | reference text => refs.find? text
  | childType hint => CqlType.hinted refs hint
  | mode hint => CqlType.hinted refs hint

/-- What the order of types sees: of a reference its end, and nothing of a mode. -/
def mention : TypeName → Option String
  | reference text => Text.lastSegment text
  | childType hint => some hint
  | mode _ => none

/-- The order of types sees that a type is named. -/
def Sees (x : TypeName) (c : Child UserType) : Prop :=
  x.mention = some c.key ∨ x.mention = some (UserType.label c.key c.node)

end TypeName

namespace Field

/-- The type of a field is drawn from the type that a name stands for: the field names it itself, or
    one of the items of which its type is made does. -/
inductive Draws (refs : References) : String → Field → TypeName → Prop
  | reference {fallback r : String} {f : Field} (href : f.reference = some r) :
      Draws refs fallback f (.reference r)
  | childType {fallback hint : String} {f : Field} (href : f.reference = none)
      (htype : f.typeName.map Text.keyword = some "udt") (hhint : f.childType = some hint) :
      Draws refs fallback f (.childType hint)
  | mode {fallback hint : String} {f : Field} (href : f.reference = none)
      (htype : f.typeName.map Text.keyword = some "udt") (hnone : f.childType = none)
      (hhint : f.mode = some hint) : Draws refs fallback f (.mode hint)
  | item {fallback keyword : String} {f g : Field} {t : CqlType} {x : TypeName}
      (href : f.reference = none) (htype : f.typeName.map Text.keyword = some keyword)
      (hkeyword : keyword ∈ ["list", "set", "map"])
      (hitem : f.items.bind OneOrMany.first? = some g)
      (htyped : CqlType.ofField refs (g.label.getD fallback) g = some t)
      (h : Draws refs (g.label.getD fallback) g x) : Draws refs fallback f x
  | member {fallback : String} {f g : Field} {items : OneOrMany Field} {t : CqlType}
      {x : TypeName} (href : f.reference = none)
      (htype : f.typeName.map Text.keyword = some "tuple") (hitems : f.items = some items)
      (hmember : g ∈ items.toList)
      (htyped : CqlType.ofField refs (g.label.getD fallback) g = some t)
      (h : Draws refs (g.label.getD fallback) g x) : Draws refs fallback f x

/-! ## Types that are drawn from others -/

/-- The type of a field has the types in it that it is drawn from. -/
theorem Draws.within {refs : References} {fallback n : String} {f : Field} {x : TypeName}
    (h : f.Draws refs fallback x) (hn : x.resolve refs = some n) {type : CqlType}
    (htype : CqlType.ofField refs fallback f = some type) :
    Text.Within ("frozen<" ++ n ++ ">") type.text := by
  induction h generalizing type with
  | reference href =>
    rw [CqlType.ofField_of_reference href, show refs.find? _ = some n from hn] at htype
    obtain rfl := Option.some.inj htype
    exact .refl _
  | childType href hudt hhint =>
    rw [CqlType.ofField_of_hint href hudt (by rw [hhint]; rfl) hn] at htype
    obtain rfl := Option.some.inj htype
    exact .refl _
  | mode href hudt hnone hhint =>
    rw [CqlType.ofField_of_hint href hudt (by rw [hnone, hhint]; rfl) hn] at htype
    obtain rfl := Option.some.inj htype
    exact .refl _
  | @item fallback _ f g t _ href hcollection hkeyword hitem htyped _ ih =>
    have hfirst : CqlType.ofFirst refs fallback f.items = some t := by
      rw [CqlType.ofFirst_eq, hitem]
      exact CqlType.ofItem_of_ofField htyped
    obtain ⟨before, after, u, rfl, hu⟩ :=
      CqlType.exists_of_ofField_of_collection href hcollection hkeyword hfirst htype
    exact CqlType.within_freeze (hu ▸ (ih hn htyped).append before after) _
  | member href htuple hitems hmember htyped _ ih =>
    -- A tuple has a type only if all its members have, so the one at hand is among them.
    obtain ⟨ts, hall, rfl⟩ := CqlType.exists_of_ofField_of_tuple href htuple htype
    rw [hitems] at hall
    obtain ⟨t, ht, hitem⟩ := CqlType.exists_of_mem_ofAll hall hmember
    obtain rfl := Option.some.inj ((CqlType.ofItem_of_ofField htyped).symm.trans hitem)
    have hjoined := (ih hn htyped).join (List.mem_map_of_mem ht) ", "
    rw [← CqlType.texts_eq_map] at hjoined
    exact hjoined.append "tuple<" ">"

/-! ## Names that are seen -/

theorem mentions_eq (f : Field) :
    f.mentions = (f.reference.bind Text.lastSegment).toList ++ f.childType.toList ++
      mentionsOfItems? f.items ++ mentionsOfSet? f.properties := by
  cases f
  rfl

theorem mem_mentionsOfList {fs : List Field} {f : Field} (hf : f ∈ fs) {m : String}
    (hm : m ∈ f.mentions) : m ∈ mentionsOfList fs := by
  induction fs with
  | nil => cases hf
  | cons g fs ih =>
    rw [mentionsOfList]
    rcases List.mem_cons.1 hf with rfl | hf
    · exact List.mem_append_left _ hm
    · exact List.mem_append_right _ (ih hf)

theorem mem_mentions_of_mem_items {f g : Field} {items : OneOrMany Field}
    (hitems : f.items = some items) (hg : g ∈ items.toList) {m : String} (hm : m ∈ g.mentions) :
    m ∈ f.mentions := by
  have hmem : m ∈ mentionsOfItems? f.items := by
    rw [hitems]
    cases items with
    | one k => exact List.mem_singleton.1 hg ▸ hm
    | many fs => exact mem_mentionsOfList hg hm
  rw [mentions_eq]
  exact List.mem_append_left _ (List.mem_append_right _ hmem)

/-- What is seen of a name is seen at any depth. -/
theorem Draws.mem_mentions {refs : References} {fallback m : String} {f : Field} {x : TypeName}
    (h : f.Draws refs fallback x) (hm : x.mention = some m) : m ∈ f.mentions := by
  induction h with
  | reference href =>
    rw [mentions_eq, href]
    simp [show Text.lastSegment _ = some m from hm]
  | childType href htype hhint =>
    obtain rfl := Option.some.inj hm
    rw [mentions_eq, hhint]
    simp
  | mode => cases hm
  | item href htype hkeyword hitem _ _ ih =>
    obtain ⟨items, hitems, hfirst⟩ := Option.bind_eq_some_iff.1 hitem
    exact mem_mentions_of_mem_items hitems (List.mem_of_mem_head? hfirst) (ih hm)
  | member href htype hitems hmember _ _ ih =>
    exact mem_mentions_of_mem_items hitems hmember (ih hm)

end Field

end AlterScript
