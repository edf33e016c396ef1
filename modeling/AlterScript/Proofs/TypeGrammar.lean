/-
  The grammar of the types that the built-in resolver gives.

  `CqlType.Written` is the grammar, over the words that may stand for names. `CqlType.MadeOf` says
  all that the type of a field can be made of, one level deep; from it, by induction on the items,
  `CqlType.written_of_ofField`: where the names of a field and of all its items are words, so is the
  text of its type written. `Resolver.columnType_builtin_grammar`: with plain names the column types
  belong to the grammar, and which collections have none.
-/
import AlterScript.Proofs.TypeNames
import AlterScript.Proofs.UniqueNames

namespace AlterScript

/-! ## Words and written types -/

namespace Text

/-- No sign that types are written with stands in the text, and no blank. -/
def IsPlain (s : String) : Prop := ∀ c ∈ s.toList, c ≠ '<' ∧ c ≠ '>' ∧ c ≠ ',' ∧ blank c = false

instance (s : String) : Decidable (IsPlain s) :=
  List.decidableBAll (fun c => c ≠ '<' ∧ c ≠ '>' ∧ c ≠ ',' ∧ blank c = false) s.toList

/-- A plain text that is not empty. -/
def IsIdentifier (s : String) : Prop := s ≠ "" ∧ IsPlain s

instance (s : String) : Decidable (IsIdentifier s) :=
  inferInstanceAs (Decidable (s ≠ "" ∧ IsPlain s))

theorem IsIdentifier.isPlain {s : String} (h : IsIdentifier s) : IsPlain s := h.2

end Text

namespace CqlType

/-- The texts of types, with words for the names in them. -/
inductive Written (word : String → Prop) : String → Prop
  | named {n : String} (h : word n) : Written word n
  | frozen {s : String} (h : Written word s) : Written word ("frozen<" ++ s ++ ">")
  | list {s : String} (h : Written word s) : Written word ("list<" ++ s ++ ">")
  | set {s : String} (h : Written word s) : Written word ("set<" ++ s ++ ">")
  | map {key s : String} (hkey : word key) (h : Written word s) :
      Written word ("map<" ++ key ++ ", " ++ s ++ ">")
  | tuple {ss : List String} (hne : ss ≠ []) (h : ∀ s ∈ ss, Written word s) :
      Written word ("tuple<" ++ Text.join ", " ss ++ ">")

theorem Written.freeze {word : String → Prop} {t : CqlType} (h : Written word t.text)
    (isFrozen : Bool) : Written word (t.freeze isFrozen).text := by
  cases isFrozen with
  | false => exact h
  | true => exact h.frozen

end CqlType

namespace Field

/-- The items of a field, whether it has one or a list of them. -/
def itemList (f : Field) : List Field := (f.items.map OneOrMany.toList).getD []

/-- The texts of a field itself that may become names in its type are words. -/
structure NamesAre (word : String → Prop) (f : Field) : Prop where
  mode : ∀ n ∈ f.mode, word n
  subtype : ∀ n ∈ f.subtype, word n
  keySubtype : ∀ n ∈ f.keySubtype, word n
  label : ∀ n ∈ f.label, word n
  segment : ∀ n ∈ f.reference.bind Text.lastSegment, word n

/-- So are those of its items, at any depth. -/
inductive Worded (word : String → Prop) : Field → Prop
  | intro {f : Field} (own : f.NamesAre word) (items : ∀ g ∈ f.itemList, Worded word g) :
      Worded word f

theorem NamesAre.mono {word word' : String → Prop} (h : ∀ s, word s → word' s) {f : Field}
    (hf : f.NamesAre word) : f.NamesAre word' where
  mode n hn := h n (hf.mode n hn)
  subtype n hn := h n (hf.subtype n hn)
  keySubtype n hn := h n (hf.keySubtype n hn)
  label n hn := h n (hf.label n hn)
  segment n hn := h n (hf.segment n hn)

theorem Worded.mono {word word' : String → Prop} (h : ∀ s, word s → word' s) {f : Field}
    (hf : f.Worded word) : f.Worded word' := by
  induction hf with
  | intro own _ ih => exact ⟨own.mono h, ih⟩

/-- The items without whose types a collection has none: of a tuple all, else the first. -/
def neededItems (f : Field) : List Field :=
  if f.typeName.map Text.keyword = some "tuple" then f.itemList else f.itemList.take 1

theorem mem_itemList_of_first? {f g : Field} (h : f.items.bind OneOrMany.first? = some g) :
    g ∈ f.itemList := by
  obtain ⟨items, hitems, hfirst⟩ := Option.bind_eq_some_iff.1 h
  rw [itemList, hitems]
  exact List.mem_of_mem_head? hfirst

theorem bind_first?_eq (f : Field) : f.items.bind OneOrMany.first? = f.itemList.head? := by
  rw [itemList]
  cases f.items <;> rfl

end Field

namespace CqlType

variable {refs : References} {fallback : String} {f g : Field} {word : String → Prop}

/-! ## What types are made of -/

/-- What the type of a field is made of. -/
inductive MadeOf (refs : References) (fallback : String) (f : Field) : CqlType → Prop
  | reference {r n : String} (hn : refs.find? r = some n) :
      MadeOf refs fallback f (frozen (named n))
  | mode {n : String} (hn : f.mode = some n) : MadeOf refs fallback f (named n)
  | scalar {n : String} (hn : n ∈ scalars) : MadeOf refs fallback f (named n)
  | list {g : Field} {t : CqlType} (hg : g ∈ f.itemList) (ht : ofItem refs fallback g = some t) :
      MadeOf refs fallback f ((list t).freeze f.frozen)
  | set {g : Field} {t : CqlType} (hg : g ∈ f.itemList) (ht : ofItem refs fallback g = some t) :
      MadeOf refs fallback f ((set t).freeze f.frozen)
  | map {t : CqlType}
      (ht : (∃ g ∈ f.itemList, ofItem refs fallback g = some t) ∨
        t = named (f.subtype.getD "text")) :
      MadeOf refs fallback f ((map (f.keySubtype.getD "text") t).freeze f.frozen)
  | tuple {ts : List CqlType} (hne : ts ≠ [])
      (hts : ∀ t ∈ ts, ∃ g ∈ f.itemList, ofItem refs fallback g = some t) :
      MadeOf refs fallback f (tuple ts)
  | hinted {hint n : String} (hn : hinted refs hint = some n) :
      MadeOf refs fallback f (frozen (named n))
  | fallback : MadeOf refs fallback f (frozen (named fallback))

theorem exists_of_ofFirst {t : CqlType} (h : ofFirst refs fallback f.items = some t) :
    ∃ g ∈ f.itemList, ofItem refs fallback g = some t := by
  rw [ofFirst_eq] at h
  obtain ⟨g, hg, ht⟩ := Option.bind_eq_some_iff.1 h
  exact ⟨g, Field.mem_itemList_of_first? hg, ht⟩

theorem ofAll_eq (items : Option (OneOrMany Field)) :
    ofAll refs fallback items = items.bind fun x => ofEach refs fallback x.toList := by
  cases items with
  | none => rfl
  | some items =>
    cases items with
    | one g => exact Option.map_eq_bind
    | many gs => rfl

theorem exists_of_ofEach {gs : List Field} {ts : List CqlType}
    (h : ofEach refs fallback gs = some ts) {t : CqlType} (ht : t ∈ ts) :
    ∃ g ∈ gs, ofItem refs fallback g = some t := by
  induction gs generalizing ts with
  | nil =>
    obtain rfl := Option.some.inj h
    cases ht
  | cons g gs ih =>
    obtain ⟨u, hu, h⟩ := Option.bind_eq_some_iff.1 h
    obtain ⟨us, hus, rfl⟩ := Option.map_eq_some_iff.1 h
    rcases List.mem_cons.1 ht with rfl | ht
    · exact ⟨g, List.mem_cons_self, hu⟩
    · obtain ⟨k, hk, hitem⟩ := ih hus ht
      exact ⟨k, List.mem_cons_of_mem g hk, hitem⟩

theorem exists_of_ofAll {ts : List CqlType} (h : ofAll refs fallback f.items = some ts)
    {t : CqlType} (ht : t ∈ ts) : ∃ g ∈ f.itemList, ofItem refs fallback g = some t := by
  rw [ofAll_eq] at h
  obtain ⟨items, hitems, h⟩ := Option.bind_eq_some_iff.1 h
  rw [Field.itemList, hitems]
  exact exists_of_ofEach h ht

/-- A mode, or else a type that a field may name directly. -/
theorem MadeOf.mode_or {n : String} (hn : n ∈ scalars) :
    MadeOf refs fallback f (named (f.mode.getD n)) := by
  cases hmode : f.mode with
  | none => exact .scalar hn
  | some m => exact .mode hmode

theorem madeOf_of_ofField {t : CqlType} (h : ofField refs fallback f = some t) :
    MadeOf refs fallback f t := by
  have hfirst := @exists_of_ofFirst refs fallback f
  have hall := @exists_of_ofAll refs fallback f
  obtain ⟨_, _, _, typeName, mode, childType, reference, items, _, keySubtype, subtype, isFrozen, _,
    _, _, _⟩ := f
  simp only [ofField] at h
  split at h
  · obtain ⟨n, hn, rfl⟩ := Option.map_eq_some_iff.1 h
    exact .reference hn
  · split at h
    case h_1 => cases h
    case h_2 =>
      obtain rfl := Option.some.inj h
      exact .mode_or (by decide)
    case h_3 =>
      obtain rfl := Option.some.inj h
      exact .mode_or (by decide)
    case h_4 | h_5 =>
      obtain rfl := Option.some.inj h
      exact .scalar (by decide)
    case h_6 =>
      obtain ⟨u, hu, rfl⟩ := Option.map_eq_some_iff.1 h
      obtain ⟨g, hg, hitem⟩ := hfirst hu
      exact .list hg hitem
    case h_7 =>
      obtain ⟨u, hu, rfl⟩ := Option.map_eq_some_iff.1 h
      obtain ⟨g, hg, hitem⟩ := hfirst hu
      exact .set hg hitem
    case h_8 =>
      obtain rfl := Option.some.inj h
      cases hu : ofFirst refs fallback items with
      | none => exact .map (.inr (by cases subtype <;> rfl))
      | some u => exact .map (.inl (hfirst hu))
    case h_9 =>
      split at h
      · rename_i u us hus
        obtain rfl := Option.some.inj h
        exact .tuple (List.cons_ne_nil u us) fun t ht => hall hus ht
      · cases h
    case h_10 =>
      obtain rfl := Option.some.inj h
      cases hhint : (childType <|> mode).bind (CqlType.hinted refs) with
      | none => exact .fallback
      | some n =>
        obtain ⟨hint, -, hn⟩ := Option.bind_eq_some_iff.1 hhint
        exact .hinted hn
    case h_11 n _ _ _ _ _ _ _ _ _ _ =>
      split at h
      · rename_i hn
        obtain rfl := Option.some.inj h
        exact .scalar (List.contains_iff_mem.1 hn)
      · cases h

/-! ## The grammar -/

theorem word_of_find? (hrefs : ∀ e ∈ refs.entries, word e.2) {r n : String}
    (hn : refs.find? r = some n) : word n :=
  hrefs (r, n) (Entries.mem_of_find? hn)

theorem word_of_hinted (hrefs : ∀ e ∈ refs.entries, word e.2) {hint n : String}
    (hn : hinted refs hint = some n) : word n := by
  cases hfind : refs.find? hint with
  | some m =>
    simp only [hinted, hfind, Option.orElse_eq_orElse, Option.orElse_some, Option.some.injEq] at hn
    exact hn ▸ word_of_find? hrefs hfind
  | none =>
    simp only [hinted, hfind, Option.orElse_eq_orElse, Option.orElse_none] at hn
    split at hn
    · -- The hint is the name of a type itself, and stands among the values.
      rename_i htype
      obtain ⟨e, he, heq⟩ := List.any_eq_true.1 htype
      exact Option.some.inj hn ▸ beq_iff_eq.1 heq ▸ hrefs e he
    · cases hn

theorem isIdentifier_of_mem_scalars {n : String} (hn : n ∈ scalars) : Text.IsIdentifier n := by
  have hall : ∀ n ∈ scalars, Text.IsIdentifier n := by decide
  exact hall n hn

/-- The type of an item is that of its field, or the one at the end of its reference. -/
theorem ofItem_cases {t : CqlType} (h : ofItem refs fallback g = some t) :
    ofField refs (g.label.getD fallback) g = some t ∨
      ∃ n, g.reference.bind Text.lastSegment = some n ∧ t = frozen (named n) := by
  cases hfield : ofField refs (g.label.getD fallback) g with
  | some u =>
    rw [ofItem_of_ofField hfield] at h
    exact .inl h
  | none =>
    simp only [ofItem, hfield, Option.orElse_eq_orElse, Option.orElse_none] at h
    obtain ⟨n, hn, rfl⟩ := Option.map_eq_some_iff.1 h
    exact .inr ⟨n, hn, rfl⟩

theorem word_getD {o : Option String} {n : String} (ho : ∀ m ∈ o, word m) (hn : word n) :
    word (o.getD n) := by
  cases o with
  | none => exact hn
  | some m => exact ho m rfl

section Written

variable (hscalars : ∀ n ∈ scalars, word n) (hrefs : ∀ e ∈ refs.entries, word e.2)

include hscalars hrefs in
/-- The text of a field's type is written with the names of the field and of its items. -/
theorem written_of_ofField (hf : f.Worded word) (hfallback : word fallback) {t : CqlType}
    (h : ofField refs fallback f = some t) : Written word t.text := by
  induction hf generalizing fallback t with
  | @intro f own items ih =>
    -- An item has the type of its own field, for which the claim holds by induction, or a name.
    have hitem : ∀ g ∈ f.itemList, ∀ u, ofItem refs fallback g = some u → Written word u.text := by
      intro g hg u hu
      obtain ⟨hnames, -⟩ := items g hg
      rcases ofItem_cases hu with hfield | ⟨n, hn, rfl⟩
      · exact ih g hg (word_getD hnames.label hfallback) hfield
      · exact .frozen (.named (hnames.segment n hn))
    have htext : word "text" := hscalars "text" (by decide)
    cases madeOf_of_ofField h with
    | reference hn => exact .frozen (.named (word_of_find? hrefs hn))
    | mode hn => exact .named (own.mode _ hn)
    | scalar hn => exact .named (hscalars _ hn)
    | @list g u hg hu =>
      have hlist : Written word (CqlType.list u).text := .list (hitem g hg u hu)
      exact hlist.freeze f.frozen
    | @set g u hg hu =>
      have hset : Written word (CqlType.set u).text := .set (hitem g hg u hu)
      exact hset.freeze f.frozen
    | @map u hu =>
      have hvalue : Written word u.text := by
        rcases hu with ⟨g, hg, hu⟩ | rfl
        · exact hitem g hg u hu
        · exact .named (word_getD own.subtype htext)
      have hmap : Written word (CqlType.map (f.keySubtype.getD "text") u).text :=
        .map (word_getD own.keySubtype htext) hvalue
      exact hmap.freeze f.frozen
    | @tuple us hne hus =>
      rw [text, texts_eq_map]
      refine .tuple (by simpa using hne) ?_
      rintro _ hs
      obtain ⟨u, hu, rfl⟩ := List.mem_map.1 hs
      obtain ⟨g, hg, hu⟩ := hus u hu
      exact hitem g hg u hu
    | hinted hn => exact .frozen (.named (word_of_hinted hrefs hn))
    | fallback => exact .frozen (.named hfallback)

end Written

/-! ## Collections without a type -/

theorem ofItem_eq_none_iff :
    ofItem refs fallback g = none ↔
      ofField refs (g.label.getD fallback) g = none ∧ g.reference.bind Text.lastSegment = none := by
  rw [ofItem, Option.orElse_eq_orElse, Option.orElse_eq_or, Option.or_eq_none_iff, ofReference,
    Option.map_eq_none_iff]

theorem ofEach_cons (g : Field) (gs : List Field) :
    ofEach refs fallback (g :: gs) = (ofItem refs fallback g).bind fun t =>
      (ofEach refs fallback gs).map fun ts => t :: ts := rfl

theorem ofEach_eq_none_iff {gs : List Field} :
    ofEach refs fallback gs = none ↔ ∃ g ∈ gs, ofItem refs fallback g = none := by
  induction gs with
  | nil => simp [ofEach]
  | cons g gs ih =>
    rw [ofEach_cons]
    cases hg : ofItem refs fallback g <;> simp [hg, ih]

theorem ofEach_eq_some_nil_iff {gs : List Field} : ofEach refs fallback gs = some [] ↔ gs = [] := by
  cases gs with
  | nil => simp [ofEach]
  | cons g gs =>
    rw [ofEach_cons]
    cases ofItem refs fallback g <;> simp

theorem ofFirst_eq_none_iff :
    ofFirst refs fallback f.items = none ↔
      f.itemList.take 1 = [] ∨ ∃ g ∈ f.itemList.take 1, ofItem refs fallback g = none := by
  rw [ofFirst_eq, Field.bind_first?_eq]
  cases f.itemList <;> simp

theorem ofField_eq_none_iff_of_tuple (href : f.reference = none)
    (htype : f.typeName.map Text.keyword = some "tuple") :
    ofField refs fallback f = none ↔
      f.itemList = [] ∨ ∃ g ∈ f.itemList, ofItem refs fallback g = none := by
  have hmatch : ofField refs fallback f = none ↔
      ofAll refs fallback f.items = some [] ∨ ofAll refs fallback f.items = none := by
    cases f
    dsimp only at href htype ⊢
    simp only [ofField, href, htype]
    cases ofAll refs fallback _ with
    | none => simp
    | some ts => cases ts <;> simp
  rw [hmatch, ofAll_eq, Field.itemList]
  cases f.items with
  | none => simp
  | some items =>
    simp only [Option.bind_some, Option.map_some, Option.getD_some]
    rw [ofEach_eq_some_nil_iff, ofEach_eq_none_iff]

/-- A list or a set has no type when its first item is missing or has none. -/
theorem ofField_eq_none_iff_of_first (href : f.reference = none)
    (htype : f.typeName.map Text.keyword = some "list" ∨ f.typeName.map Text.keyword = some "set") :
    ofField refs fallback f = none ↔
      f.itemList.take 1 = [] ∨ ∃ g ∈ f.itemList.take 1, ofItem refs fallback g = none := by
  rw [← ofFirst_eq_none_iff]
  cases f
  dsimp only at href htype ⊢
  rcases htype with htype | htype <;> simp only [ofField, href, htype, Option.map_eq_none_iff]

/-- A list, a set or a tuple has no type exactly when one of the items that it needs has none, or
    when it has no item. -/
theorem ofField_eq_none_iff {keyword : String} (href : f.reference = none)
    (htype : f.typeName.map Text.keyword = some keyword)
    (hkeyword : keyword ∈ ["list", "set", "tuple"]) :
    ofField refs fallback f = none ↔
      f.neededItems = [] ∨ ∃ g ∈ f.neededItems, ofItem refs fallback g = none := by
  have hkeyword : keyword = "list" ∨ keyword = "set" ∨ keyword = "tuple" := by simpa using hkeyword
  rcases hkeyword with rfl | rfl | rfl
  · rw [Field.neededItems, if_neg (by simp [htype])]
    exact ofField_eq_none_iff_of_first href (.inl htype)
  · rw [Field.neededItems, if_neg (by simp [htype])]
    exact ofField_eq_none_iff_of_first href (.inr htype)
  · rw [Field.neededItems, if_pos htype]
    exact ofField_eq_none_iff_of_tuple href htype

end CqlType

/-! ## Types of columns -/

namespace Resolver

variable {refs : References} {fallback : String} {f g : Field} {word : String → Prop}

theorem columnType_builtin (refs : References) (f : Field) (fallback : String) :
    builtin.columnType refs f fallback =
      .ok (((CqlType.ofField refs fallback f).map CqlType.text).or
        (f.reference.bind Text.lastSegment)) := by
  rw [columnType, builtin, Except.map, Option.orElse_eq_orElse, Option.orElse_eq_or]

theorem columnType_builtin_eq_none_iff :
    builtin.columnType refs f fallback = .ok none ↔
      CqlType.ofField refs fallback f = none ∧ f.reference.bind Text.lastSegment = none := by
  rw [columnType_builtin, Except.ok.injEq, Option.or_eq_none_iff, Option.map_eq_none_iff]

/-- An item has no type when a column with this field has none. -/
theorem columnType_builtin_item :
    builtin.columnType refs g (g.label.getD fallback) = .ok none ↔
      CqlType.ofItem refs fallback g = none := by
  rw [columnType_builtin_eq_none_iff, CqlType.ofItem_eq_none_iff]

/-- The names that the type of a column may be written with are words. -/
structure WordsOnly (word : String → Prop) (refs : References) (f : Field) (fallback : String) :
    Prop where
  references : ∀ e ∈ refs.entries, word e.2
  field : f.Worded word
  fallback : word fallback

theorem WordsOnly.isPlain (h : WordsOnly Text.IsIdentifier refs f fallback) :
    WordsOnly Text.IsPlain refs f fallback where
  references e he := (h.references e he).isPlain
  field := h.field.mono fun _ => Text.IsIdentifier.isPlain
  fallback := h.fallback.isPlain

theorem WordsOnly.written (h : WordsOnly word refs f fallback)
    (hword : ∀ s, Text.IsIdentifier s → word s) {type : String}
    (htype : builtin.columnType refs f fallback = .ok (some type)) : CqlType.Written word type := by
  rw [columnType_builtin, Except.ok.injEq, Option.or_eq_some_iff, Option.map_eq_some_iff] at htype
  rcases htype with ⟨t, ht, rfl⟩ | ⟨-, hsegment⟩
  · have hscalars : ∀ n ∈ CqlType.scalars, word n := fun n hn =>
      hword n (CqlType.isIdentifier_of_mem_scalars hn)
    exact CqlType.written_of_ofField hscalars h.references h.field h.fallback ht
  · obtain ⟨own, -⟩ := h.field
    exact .named (own.segment type hsegment)

/-- The built-in resolver always answers. With plain names the type of a column belongs to the
    grammar, and no name in it is empty if none of them is. A list, a set or a tuple without a
    reference has no type exactly when an item that it needs is missing or has none. -/
theorem columnType_builtin_grammar (refs : References) (f : Field) (fallback : String) :
    (∃ answer, builtin.columnType refs f fallback = .ok answer) ∧
    (WordsOnly Text.IsPlain refs f fallback →
      ∀ type, builtin.columnType refs f fallback = .ok (some type) →
        CqlType.Written Text.IsPlain type) ∧
    (WordsOnly Text.IsIdentifier refs f fallback →
      ∀ type, builtin.columnType refs f fallback = .ok (some type) →
        CqlType.Written Text.IsIdentifier type) ∧
    (f.reference = none → ∀ keyword ∈ ["list", "set", "tuple"],
      f.typeName.map Text.keyword = some keyword →
      (builtin.columnType refs f fallback = .ok none ↔
        f.neededItems = [] ∨
          ∃ g ∈ f.neededItems, builtin.columnType refs g (g.label.getD fallback) = .ok none)) := by
  refine ⟨⟨_, columnType_builtin refs f fallback⟩, ?_, ?_, ?_⟩
  · intro hplain type htype
    exact hplain.written (fun _ => Text.IsIdentifier.isPlain) htype
  · intro hidentifiers type htype
    exact hidentifiers.written (fun _ => id) htype
  · intro href keyword hkeyword htype
    simp only [columnType_builtin_item]
    rw [columnType_builtin_eq_none_iff, href, Option.bind_none,
      CqlType.ofField_eq_none_iff href htype hkeyword]
    exact and_iff_left rfl

/-- Lists of addresses by number; the type at the end of the reference is not declared. -/
def addressLists : Field :=
  { typeName := some "Map"
    keySubtype := some "int"
    items := some (.one
      { typeName := some "list"
        frozen := true
        items := some (.many [{ reference := some "#/definitions/address" }]) }) }

def labeledAddresses : Field :=
  { code := some "labeled"
    typeName := some "tuple"
    items := some (.many [{ typeName := some "string", mode := some "ascii" }, addressLists]) }

theorem wordsOnly_labeledAddresses :
    WordsOnly Text.IsIdentifier .empty labeledAddresses "labeled" := by
  have hlists : addressLists.Worded Text.IsIdentifier := by
    refine ⟨by constructor <;> decide, List.forall_mem_singleton.2 ?_⟩
    refine ⟨by constructor <;> decide, List.forall_mem_singleton.2 ?_⟩
    exact ⟨by constructor <;> decide, List.forall_mem_nil _⟩
  refine ⟨List.forall_mem_nil _, ⟨by constructor <;> decide, List.forall_mem_cons.2 ⟨?_, ?_⟩⟩,
    by decide⟩
  · exact ⟨by constructor <;> decide, List.forall_mem_nil _⟩
  · exact List.forall_mem_singleton.2 hlists

/-- The type of a tuple three types deep is in the grammar, and without its items it has none. -/
theorem columnType_labeledAddresses :
    builtin.columnType .empty labeledAddresses "labeled" =
        .ok (some "tuple<ascii, map<int, frozen<list<frozen<address>>>>>") ∧
      CqlType.Written Text.IsPlain "tuple<ascii, map<int, frozen<list<frozen<address>>>>>" ∧
      CqlType.Written Text.IsIdentifier
        "tuple<ascii, map<int, frozen<list<frozen<address>>>>>" ∧
      builtin.columnType .empty { labeledAddresses with items := some (.many []) } "labeled" =
        .ok none := by
  have hwords := wordsOnly_labeledAddresses
  have htype : builtin.columnType .empty labeledAddresses "labeled" =
      .ok (some "tuple<ascii, map<int, frozen<list<frozen<address>>>>>") := by rfl
  obtain ⟨-, hplain, hwritten, -⟩ := columnType_builtin_grammar .empty labeledAddresses "labeled"
  obtain ⟨-, -, -, hnone⟩ :=
    columnType_builtin_grammar .empty { labeledAddresses with items := some (.many []) } "labeled"
  refine ⟨htype, hplain hwords.isPlain _ htype, hwritten hwords _ htype, ?_⟩
  exact (hnone rfl "tuple" (by decide) (by rfl)).2 (.inl (by rfl))

end Resolver

end AlterScript
