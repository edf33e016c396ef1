/-
  Lists and objects of fields.

  A set of fields is written as a list, or as an object with the names of the fields as keys. Every
  pass over a node sees the named fields of a set in their order, and whether there are any fields:
  `FieldSet.keyed` has the same, so a node with its sets in this form gives the same commands
  (`Table.commands_keyed`, `View.commands_keyed`, `UserType.commands_keyed`). Both forms of a set
  are read alike up to it (`FieldSet.readsAlike`), and so are nodes, wrappers and trees:
  `Script.ofTree_of_setForms`.
-/
import Mathlib.Data.List.Forall2
import AlterScript.Proofs.Wrappers

namespace AlterScript

/-- Two forms of a value are read as the same thing, up to the form that this has. -/
def Json.ReadsAlike {α β : Type} (forms : Json → Json → Prop) (read : Json → Option α)
    (canonical : α → β) : Prop :=
  ∀ j j', forms j j' → (read j).map canonical = (read j').map canonical

/-! ## Sets of fields -/

namespace FieldSet

/-- Two forms of one set: a list of fields, and the object with their names as keys, where these
    are distinct. -/
inductive Forms : Json → Json → Prop
  | same (j : Json) : Forms j j
  | listed {entries : Entries Json}
      (hlabel : ∀ e ∈ entries, (Field.ofJson? e.2).bind Field.label = some e.1)
      (hnodup : (Entries.keys entries).Nodup) :
      Forms (.arr (entries.map Prod.snd)) (.obj entries)

/-- The set with its fields under their names, unless a field has none. -/
def keyed : FieldSet Field → FieldSet Field
  | named entries => named entries
  | listed fields =>
    if fields.all fun f => f.label.isSome then named (listed fields).named? else listed fields

@[simp] theorem named?_keyed (s : FieldSet Field) : s.keyed.named? = s.named? := by
  cases s with
  | named entries => rfl
  | listed fields =>
    rw [keyed]
    split <;> rfl

@[simp] theorem toEntries_keyed (s : FieldSet Field) : s.keyed.toEntries = s.toEntries := by
  rw [toEntries, toEntries, named?_keyed]

@[simp] theorem isEmpty_keyed (s : FieldSet Field) : s.keyed.isEmpty = s.isEmpty := by
  cases s with
  | named entries => rfl
  | listed fields =>
    rw [keyed]
    split
    · rename_i hall
      cases fields with
      | nil => rfl
      | cons f fields =>
        obtain ⟨name, hname⟩ := Option.isSome_iff_exists.1 (List.all_eq_true.1 hall f (.head _))
        simp only [isEmpty, named?, List.filterMap_cons, hname, Option.map_some, List.isEmpty_cons]
    · rfl

/-- Listed fields that are all named are keyed by their names. -/
theorem keyed_listed {fs : List (String × Field)} (h : ∀ e ∈ fs, e.2.label = some e.1) :
    keyed (.listed (fs.map Prod.snd)) = .named fs := by
  have hall : (fs.map Prod.snd).all (fun f => f.label.isSome) = true := by
    rw [List.all_eq_true]
    intro f hf
    obtain ⟨e, he, rfl⟩ := List.mem_map.1 hf
    rw [h e he]
    rfl
  have hnamed : (FieldSet.listed (fs.map Prod.snd)).named? = fs := by
    rw [named?, List.filterMap_map]
    have hsome : ∀ e ∈ fs, ((fun f => f.label.map fun n => (n, f)) ∘ Prod.snd) e = some e := by
      intro e he
      show e.2.label.map _ = _
      rw [h e he]
      rfl
    rw [List.filterMap_congr hsome, List.filterMap_some]
  rw [keyed, if_pos hall, hnamed]

/-- Objects that are fields are read as fields, as a list and under keys. -/
theorem exists_fields {entries : Entries Json}
    (h : ∀ e ∈ entries, (Field.ofJson? e.2).bind Field.label = some e.1) :
    ∃ fs : List (String × Field), (∀ e ∈ fs, e.2.label = some e.1) ∧
      (Field.itemRoles (entries.map Prod.snd)).mapM Field.Roles.field = some (fs.map Prod.snd) ∧
      (Field.entryRoles entries).mapM Field.named? = some fs := by
  induction entries with
  | nil => exact ⟨[], by simp, rfl, rfl⟩
  | cons e entries ih =>
    obtain ⟨f, hf, hlabel⟩ := Option.bind_eq_some_iff.1 (h e (.head _))
    obtain ⟨fs, hlabels, hitems, hentries⟩ := ih fun e he => h e (.tail _ he)
    refine ⟨(e.1, f) :: fs, ?_, ?_, ?_⟩
    · intro d hd
      rcases List.mem_cons.1 hd with rfl | hd
      · exact hlabel
      · exact hlabels d hd
    · have hf : (Field.roles e.2).field = some f := hf
      rw [List.map_cons, Field.itemRoles, List.mapM_cons, hf, hitems]
      rfl
    · have hnamed : Field.named? (e.1, Field.roles e.2) = some (e.1, f) :=
        Option.map_eq_some_iff.2 ⟨f, hf, rfl⟩
      obtain ⟨key, j⟩ := e
      rw [Field.entryRoles, List.mapM_cons, hnamed, hentries]
      rfl

theorem readsAlike : Json.ReadsAlike Forms ofJson? keyed := by
  intro j j' h
  cases h with
  | same => rfl
  | @listed entries hlabel _ =>
    obtain ⟨fs, hlabels, hitems, hentries⟩ := exists_fields hlabel
    show (((Field.itemRoles (entries.map Prod.snd)).mapM Field.Roles.field).map _).map keyed =
      (((Field.entryRoles entries).mapM Field.named?).map _).map keyed
    rw [hitems, hentries]
    exact congrArg some (keyed_listed hlabels)

theorem eq_null_iff_of_forms {j j' : Json} (h : Forms j j') : j = .null ↔ j' = .null := by
  cases h with
  | same => rfl
  | listed => exact ⟨fun h => Json.noConfusion h, fun h => Json.noConfusion h⟩

end FieldSet

/-! ## Records -/

section Options

variable {α β γ δ : Type}

theorem map_bind_congr {x : Option α} {f g : α → Option β} {k : β → γ}
    (h : ∀ a, (f a).map k = (g a).map k) : (x.bind f).map k = (x.bind g).map k := by
  cases x with
  | none => rfl
  | some a => exact h a

/-- What is read from two things that are the same up to `c` is the same up to `k`. -/
theorem map_bind_eq {x x' : Option α} {f f' : α → Option β} {c : α → γ} {k : β → δ}
    (hx : x.map c = x'.map c) (h : ∀ a a', c a = c a' → (f a).map k = (f' a').map k) :
    (x.bind f).map k = (x'.bind f').map k := by
  cases x with
  | none =>
    cases x' with
    | none => rfl
    | some a' => exact absurd hx.symm (Option.some_ne_none _)
  | some a =>
    cases x' with
    | none => exact absurd hx (Option.some_ne_none _)
    | some a' => exact h a a' (Option.some.inj hx)

theorem eq_of_rel_eq {x x' : Option α} (h : Option.Rel Eq x x') : x = x' := by
  cases h with
  | none => rfl
  | some h => exact congrArg some h

end Options

namespace Json

variable {α β : Type} {attributes : List String} {forms : Entries (Json → Json → Prop)}
  {es es' : Entries Json} {j j' : Json} {o o' : Option Json}

/-- Attributes under the same names: under some names in other forms, and the same under all
    others. -/
def Alike (forms : Entries (Json → Json → Prop)) (es es' : Entries Json) : Prop :=
  List.Forall₂ (fun e e' => e.1 = e'.1 ∧ ((forms.find? e.1).getD Eq) e.2 e'.2) es es'

/-- Two records, objects or arrays of attributes, some attributes of which have other forms. -/
inductive RecordForms (attributes : List String) (forms : Entries (Json → Json → Prop)) :
    Json → Json → Prop
  | same (j : Json) : RecordForms attributes forms j j
  | obj {es es' : Entries Json} (h : Alike forms es es') :
      RecordForms attributes forms (.obj es) (.obj es')
  | arr {js js' : List Json} (hlength : js.length = js'.length)
      (h : Alike forms (attributes.zip js) (attributes.zip js')) :
      RecordForms attributes forms (.arr js) (.arr js')

theorem Alike.find? (h : Alike forms es es') (key : String) :
    Option.Rel ((Entries.find? key forms).getD Eq) (es.find? key) (es'.find? key) := by
  induction h with
  | nil => exact .none
  | cons he _ ih =>
    rename_i e e' es es' _
    obtain ⟨name, j⟩ := e
    obtain ⟨name', j'⟩ := e'
    obtain ⟨rfl, hj⟩ : name = name' ∧ _ := he
    rw [Entries.find?, Entries.find?]
    by_cases hkey : name = key
    · subst hkey
      rw [if_pos rfl, if_pos rfl]
      exact .some hj
    · rw [if_neg hkey, if_neg hkey]
      exact ih

theorem Alike.find?_of_form {R : Json → Json → Prop} (h : Alike forms es es') (key : String)
    (hkey : Entries.find? key forms = some R) :
    Option.Rel R (es.find? key) (es'.find? key) := by
  have hrel := h.find? key
  rwa [hkey] at hrel

theorem Alike.find?_eq {key : String} (h : Alike forms es es')
    (hkey : Entries.find? key forms = none) : es.find? key = es'.find? key := by
  have hrel := h.find? key
  rw [hkey] at hrel
  exact eq_of_rel_eq hrel

/-- Records that are alike are read alike, where their attributes are. -/
theorem map_record?_bind {read : Entries Json → Option α} {c : α → β}
    (h : RecordForms attributes forms j j')
    (hread : ∀ es es', Alike forms es es' → (read es).map c = (read es').map c) :
    ((record? attributes j).bind read).map c = ((record? attributes j').bind read).map c := by
  cases h with
  | same => rfl
  | obj h => exact hread _ _ h
  | arr hlength h =>
    rw [record?, record?, hlength]
    split
    · exact hread _ _ h
    · rfl

theorem eq_null_iff_of_recordForms (h : RecordForms attributes forms j j') :
    j = .null ↔ j' = .null := by
  cases h with
  | same => rfl
  | obj => exact ⟨fun h => Json.noConfusion h, fun h => Json.noConfusion h⟩
  | arr => exact ⟨fun h => Json.noConfusion h, fun h => Json.noConfusion h⟩

variable {R : Json → Json → Prop} {read : Json → Option α} {c : α → β}

theorem map_optional_eq (hread : ReadsAlike R read c)
    (hnull : ∀ j j', R j j' → (j = .null ↔ j' = .null)) (h : Option.Rel R o o') :
    (optional read o).map (Option.map c) = (optional read o').map (Option.map c) := by
  cases h with
  | none => rfl
  | some h =>
    rename_i j j'
    have hsome : ∀ j : Json, j ≠ .null → optional read (some j) = (read j).map some := by
      intro j hj
      cases j with
      | null => exact absurd rfl hj
      | _ => rfl
    by_cases hj : j = .null
    · rw [hj, (hnull j j' h).1 hj]
    · rw [hsome j hj, hsome j' fun hj' => hj ((hnull j j' h).2 hj'), Option.map_map,
        Option.map_map]
      have := congrArg (Option.map some) (hread j j' h)
      rwa [Option.map_map, Option.map_map] at this

theorem map_orDefault_eq (hread : ReadsAlike R read c) (default : α) (h : Option.Rel R o o') :
    (orDefault default read o).map c = (orDefault default read o').map c := by
  cases h with
  | none => rfl
  | some h => exact hread _ _ h

end Json

/-- Two forms of a set under a name are read alike. -/
theorem FieldSet.map_keyed_optional {o o' : Option Json} (h : Option.Rel FieldSet.Forms o o') :
    (Json.optional FieldSet.ofJson? o).map (Option.map keyed) =
      (Json.optional FieldSet.ofJson? o').map (Option.map keyed) :=
  Json.map_optional_eq readsAlike (fun _ _ => eq_null_iff_of_forms) h

/-! ## Tables -/

namespace TableComparison

/-- The attributes that are sets of fields, in other forms. -/
def forms : Entries (Json → Json → Prop) :=
  [("newProperties", FieldSet.Forms), ("oldProperties", FieldSet.Forms)]

/-- Two forms of what a comparison says about a table. -/
def Forms : Json → Json → Prop := Json.RecordForms attributes forms

def keyed (c : TableComparison) : TableComparison :=
  { c with
    newProperties := c.newProperties.map FieldSet.keyed
    oldProperties := c.oldProperties.map FieldSet.keyed }

theorem readsAlike : Json.ReadsAlike Forms ofJson? keyed := by
  intro j j' h
  refine Json.map_record?_bind h fun es es' halike => ?_
  have hplain : ∀ key, Entries.find? key forms = none → es.find? key = es'.find? key :=
    fun key => halike.find?_eq
  have hnew := FieldSet.map_keyed_optional (halike.find?_of_form "newProperties" rfl)
  have hold := FieldSet.map_keyed_optional (halike.find?_of_form "oldProperties" rfl)
  simp (disch := simp [forms, Entries.find?]) only [hplain]
  refine map_bind_congr fun options => map_bind_congr fun comment => ?_
  refine map_bind_eq hnew fun new new' hnew => map_bind_eq hold fun old old' hold => ?_
  refine map_bind_congr fun name => map_bind_congr fun code => ?_
  refine map_bind_congr fun collectionName => map_bind_congr fun partitionKey => ?_
  refine map_bind_congr fun clusteringKey => map_bind_congr fun indexes => ?_
  refine map_bind_congr fun searchColumns => ?_
  show some (keyed _) = some (keyed _)
  simp only [keyed, hnew, hold]

end TableComparison

namespace TableRole

def forms : Entries (Json → Json → Prop) :=
  [("compMod", TableComparison.Forms), ("properties", FieldSet.Forms)]

/-- Two forms of the description of a table. -/
def Forms : Json → Json → Prop := Json.RecordForms attributes forms

def keyed (r : TableRole) : TableRole :=
  { r with
    comparison := r.comparison.map TableComparison.keyed
    properties := r.properties.map FieldSet.keyed }

theorem readsAlike : Json.ReadsAlike Forms ofJson? keyed := by
  intro j j' h
  refine Json.map_record?_bind h fun es es' halike => ?_
  have hplain : ∀ key, Entries.find? key forms = none → es.find? key = es'.find? key :=
    fun key => halike.find?_eq
  have hcomparison := Json.map_optional_eq TableComparison.readsAlike
    (fun _ _ => Json.eq_null_iff_of_recordForms) (halike.find?_of_form "compMod" rfl)
  have hproperties := FieldSet.map_keyed_optional (halike.find?_of_form "properties" rfl)
  simp (disch := simp [forms, Entries.find?]) only [hplain]
  refine map_bind_eq hcomparison fun comparison comparison' hcomparison => ?_
  refine map_bind_eq hproperties fun properties properties' hproperties => ?_
  refine map_bind_congr fun partitionKey => map_bind_congr fun clusteringKey => ?_
  refine map_bind_congr fun indexes => map_bind_congr fun searchColumns => ?_
  show some (keyed _) = some (keyed _)
  simp only [keyed, hcomparison, hproperties]

end TableRole

namespace Table

def forms : Entries (Json → Json → Prop) :=
  [("role", TableRole.Forms), ("properties", FieldSet.Forms)]

/-- Two forms of a table. -/
def Forms : Json → Json → Prop := Json.RecordForms ["role", "properties"] forms

def keyed (t : Table) : Table :=
  { role := t.role.keyed, properties := t.properties.map FieldSet.keyed }

theorem readsAlike : Json.ReadsAlike Forms ofJson? keyed := by
  intro j j' h
  refine Json.map_record?_bind h fun es es' halike => ?_
  have hrole := Json.map_orDefault_eq TableRole.readsAlike {} (halike.find?_of_form "role" rfl)
  have hproperties := FieldSet.map_keyed_optional (halike.find?_of_form "properties" rfl)
  refine map_bind_eq hrole fun role role' hrole => ?_
  refine map_bind_eq hproperties fun properties properties' hproperties => ?_
  show some (keyed _) = some (keyed _)
  simp only [keyed, hrole, hproperties]

/-! ### Commands -/

section Commands

variable (t : Table) (s : Scope)

theorem columns_keyed : t.keyed.columns = t.columns := by
  simp only [columns, keyed, Option.map_map, Function.comp_def, FieldSet.toEntries_keyed]

@[simp] theorem role_properties_keyed :
    t.keyed.role.properties = t.role.properties.map FieldSet.keyed := rfl

@[simp] theorem role_comparison_keyed :
    t.keyed.role.comparison = t.role.comparison.map TableComparison.keyed := rfl

theorem allColumns_keyed : t.keyed.allColumns = t.allColumns := by
  rw [allColumns, allColumns, columns_keyed, role_properties_keyed]
  cases t.role.properties with
  | none => rfl
  | some set => simp only [Option.map_some, FieldSet.isEmpty_keyed, FieldSet.toEntries_keyed]

/-- What a comparison says about anything but the two sets. -/
theorem bind_comparison_keyed {α : Type} {f : TableComparison → Option α}
    (h : ∀ c, f c.keyed = f c) :
    t.keyed.role.comparison.bind f = t.role.comparison.bind f := by
  rw [role_comparison_keyed, Option.bind_map]
  exact congrArg _ (funext h)

theorem columnSources_keyed : t.keyed.columnSources = t.columnSources.map FieldSet.keyed := by
  have hsources : t.keyed.role.comparison.bind TableComparison.newProperties =
        (t.role.comparison.bind TableComparison.newProperties).map FieldSet.keyed ∧
      t.keyed.role.comparison.bind TableComparison.oldProperties =
        (t.role.comparison.bind TableComparison.oldProperties).map FieldSet.keyed := by
    rw [role_comparison_keyed]
    cases t.role.comparison with
    | none => exact ⟨rfl, rfl⟩
    | some comparison => exact ⟨rfl, rfl⟩
  rw [columnSources, columnSources, List.map_filterMap, hsources.1, hsources.2]
  show ([t.properties, t.role.properties, t.role.comparison.bind TableComparison.newProperties,
    t.role.comparison.bind TableComparison.oldProperties].map (Option.map FieldSet.keyed)).filterMap
      id = _
  rw [List.filterMap_map]
  rfl

theorem columnIds_keyed (definitions : List (String × Field)) :
    t.keyed.columnIds definitions = t.columnIds definitions := by
  simp only [columnIds, columnSources_keyed, List.flatMap_map, FieldSet.named?_keyed]

theorem create_keyed (target : QualifiedName) (columns : Entries Field) (options : Options)
    (comment : Option String) :
    t.keyed.create s target columns options comment =
      t.create s target columns options comment := by
  rw [create, create, columnIds_keyed]
  rfl

theorem replaceIndexes_keyed (ids : ColumnIds) (old new : QualifiedName) :
    t.keyed.replaceIndexes ids old new = t.replaceIndexes ids old new := by
  have hindexes : t.keyed.indexChange = t.indexChange := t.bind_comparison_keyed fun _ => rfl
  have hsearch : t.keyed.searchChange = t.searchChange := t.bind_comparison_keyed fun _ => rfl
  simp only [replaceIndexes, indexesAt, hindexes, hsearch]
  rfl

theorem alterIndexes_keyed (ids : ColumnIds) (target : QualifiedName) :
    t.keyed.alterIndexes ids target = t.alterIndexes ids target := by
  have hindexes : t.keyed.indexChange = t.indexChange := t.bind_comparison_keyed fun _ => rfl
  have hsearch : t.keyed.searchChange = t.searchChange := t.bind_comparison_keyed fun _ => rfl
  simp only [alterIndexes, comparedIndexes, hindexes, hsearch]

theorem update_keyed (c : TableComparison) (target : QualifiedName) (withOptions : Bool)
    (columns : List Command) :
    t.keyed.update s c.keyed target withOptions columns =
      t.update s c target withOptions columns := by
  have hreplaced : ∀ ids, t.keyed.isReplaced c.keyed ids = t.isReplaced c ids := by
    intro ids
    rw [isReplaced, isReplaced, changesIndexed, changesIndexed, columns_keyed]
    rfl
  have hmerged : t.keyed.mergedColumns = t.mergedColumns := by
    rw [mergedColumns, mergedColumns, allColumns_keyed]
  have hreplace : ∀ ids old new, t.keyed.replace s c.keyed ids old new =
      t.replace s c ids old new := by
    intro ids old new
    rw [replace, replace, hmerged, create_keyed, replaceIndexes_keyed]
    rfl
  rw [update, update, columnIds_keyed]
  simp only [hreplaced, hreplace, alterIndexes_keyed]
  rfl

theorem commands_keyed (d : Direction) (key : String) :
    t.keyed.commands s d key = t.commands s d key := by
  rw [commands, commands, columnIds_keyed, allColumns_keyed, columns_keyed, role_comparison_keyed]
  cases t.role.comparison with
  | none => rfl
  | some c =>
    simp only [Option.map_some, create_keyed, update_keyed]
    rfl

end Commands

end Table

/-! ## Views -/

namespace View

def forms : Entries (Json → Json → Prop) := [("properties", FieldSet.Forms)]

/-- Two forms of a view, the description of which has its columns in two forms. -/
def Forms : Json → Json → Prop :=
  Json.RecordForms ["role"] [("role", Json.RecordForms attributes forms)]

def keyed (v : View) : View := { v with properties := v.properties.map FieldSet.keyed }

theorem readsAlike_role : Json.ReadsAlike (Json.RecordForms attributes forms) ofRole? keyed := by
  intro j j' h
  refine Json.map_record?_bind h fun es es' halike => ?_
  have hplain : ∀ key, Entries.find? key forms = none → es.find? key = es'.find? key :=
    fun key => halike.find?_eq
  have hproperties := FieldSet.map_keyed_optional (halike.find?_of_form "properties" rfl)
  simp (disch := simp [forms, Entries.find?]) only [hplain]
  refine map_bind_eq hproperties fun properties properties' hproperties => ?_
  refine map_bind_congr fun partitionKey => map_bind_congr fun clusteringKey => ?_
  refine map_bind_congr fun comparison => ?_
  show some (keyed _) = some (keyed _)
  simp only [keyed, hproperties]

theorem readsAlike : Json.ReadsAlike Forms ofJson? keyed := by
  intro j j' h
  refine Json.map_record?_bind h fun es es' halike => ?_
  exact Json.map_orDefault_eq readsAlike_role {} (halike.find?_of_form "role" rfl)

theorem commands_keyed (v : View) (d : Direction) : v.keyed.commands d = v.commands d := by
  have hcolumns : v.keyed.columns = v.columns := by
    simp only [columns, keyed, Option.map_map, Function.comp_def, FieldSet.named?_keyed]
  have hcreate : ∀ name, v.keyed.create name = v.create name := by
    intro name
    rw [create, create, definition?, definition?, hcolumns]
    rfl
  have hupdate : v.keyed.update = v.update := by
    simp only [update, hcreate]
    rfl
  simp only [commands, hupdate, hcreate]
  rfl

end View

/-! ## User-defined types -/

namespace UserType

def forms : Entries (Json → Json → Prop) := [("properties", FieldSet.Forms)]

/-- Two forms of a user-defined type. -/
def Forms : Json → Json → Prop := Json.RecordForms attributes forms

def keyed (t : UserType) : UserType := { t with properties := t.properties.map FieldSet.keyed }

theorem readsAlike : Json.ReadsAlike Forms ofJson? keyed := by
  intro j j' h
  refine Json.map_record?_bind h fun es es' halike => ?_
  have hplain : ∀ key, Entries.find? key forms = none → es.find? key = es'.find? key :=
    fun key => halike.find?_eq
  have hproperties := FieldSet.map_keyed_optional (halike.find?_of_form "properties" rfl)
  simp (disch := simp [forms, Entries.find?]) only [hplain]
  refine map_bind_eq hproperties fun properties properties' hproperties => ?_
  refine map_bind_congr fun comparison => ?_
  show some (keyed _) = some (keyed _)
  simp only [keyed, hproperties]

section Commands

variable (t : UserType) (s : Scope)

theorem fields_keyed : t.keyed.fields = t.fields := by
  simp only [fields, keyed, Option.map_map, Function.comp_def, FieldSet.toEntries_keyed]

theorem replace_keyed (old new : QualifiedName) :
    t.keyed.replace s old new = t.replace s old new := by
  rw [replace, replace, create, create, fields_keyed]

theorem updateFields_keyed (target : QualifiedName) (fs : List (String × Field)) :
    t.keyed.updateFields s target fs = t.updateFields s target fs := by
  have hchange : t.keyed.commandsOfField s target = t.commandsOfField s target := by
    funext e
    rw [commandsOfField, commandsOfField]
    congr 1
    funext change
    cases change with
    | inconvertible => exact t.replace_keyed s target target
    | _ => rfl
  rw [updateFields_eq_ofEach, updateFields_eq_ofEach, hchange]

theorem commands_keyed (d : Direction) (key : String) :
    t.keyed.commands s d key = t.commands s d key := by
  have hupdate : t.keyed.update s key = t.update s key := by
    simp only [update, fields_keyed, updateFields_keyed, replace_keyed]
    rfl
  cases d with
  | create =>
    show t.keyed.create s _ = t.create s _
    rw [create, create, fields_keyed]
    rfl
  | update => exact hupdate
  | delete => rfl

end Commands

end UserType

/-! ## Nodes -/

/-- A node that something is made of. -/
def Child.map {α β : Type} (f : α → β) (c : Child α) : Child β := ⟨c.key, f c.node⟩

theorem UserType.uses_keyed (a b : Child UserType) :
    UserType.uses (a.map keyed) (b.map keyed) = UserType.uses a b := by
  have hmentions : a.node.keyed.mentions = a.node.mentions := by
    rw [mentions, mentions, fields_keyed]
  show (a.node.keyed.mentions.contains b.key || a.node.keyed.mentions.contains _) = _
  rw [hmentions]
  rfl

namespace Dependency

variable {α β : Type} (uses : β → β → Bool) (g : α → β)

theorem isFree_map (rest : Placed α) (x : α × Nat) :
    isFree uses (rest.map (Prod.map g id)) (x.map g id) =
      isFree (fun a b => uses (g a) (g b)) rest x := by
  rw [isFree, isFree, List.all_map]
  rfl

theorem placed_map (n : Nat) (rest : Placed α) :
    placed uses n (rest.map (Prod.map g id)) =
      (placed (fun a b => uses (g a) (g b)) n rest).map (List.map (Prod.map g id)) := by
  induction n generalizing rest with
  | zero => cases rest <;> rfl
  | succ n ih =>
    cases rest with
    | nil => rfl
    | cons y rest =>
      have hfree : isFree uses ((y :: rest).map (Prod.map g id)) ∘ Prod.map g id =
          isFree (fun a b => uses (g a) (g b)) (y :: rest) :=
        funext fun x => isFree_map uses g (y :: rest) x
      have hfind := List.find?_map (f := Prod.map g id)
        (p := isFree uses ((y :: rest).map (Prod.map g id))) (l := y :: rest)
      rw [hfree] at hfind
      have hrest : ∀ x : α × Nat, ((y :: rest).map (Prod.map g id)).filter (fun z => z.2 != x.2) =
          ((y :: rest).filter fun z => z.2 != x.2).map (Prod.map g id) := fun x => List.filter_map
      rw [placed, placed, hfind]
      · cases (y :: rest).find? (isFree (fun a b => uses (g a) (g b)) (y :: rest)) with
        | none => rfl
        | some x =>
          show (placed uses n (((y :: rest).map _).filter fun z => z.2 != x.2)).map _ = _
          rw [hrest, ih, Option.map_map, Option.map_map]
          rfl
      · exact List.cons_ne_nil _ _
      · exact List.cons_ne_nil _ _

/-- The order depends on nothing but which things use each other. -/
theorem sorted_map (xs : List α) :
    sorted uses (xs.map g) = (sorted (fun a b => uses (g a) (g b)) xs).map g := by
  rw [sorted, sorted, List.length_map, List.zipIdx_map, placed_map, Option.map_map]
  cases placed (fun a b => uses (g a) (g b)) xs.length xs.zipIdx with
  | none => rfl
  | some placed =>
    show (placed.map (Prod.map g id)).map Prod.fst = (placed.map Prod.fst).map g
    rw [List.map_map, List.map_map]
    rfl

end Dependency

namespace Script

/-- Where a map does not change the commands of things, things with the same images have the same
    commands. -/
theorem ofEach_eq_of_map {α : Type} {f : α → Except ResolveError (List Command)} {g : α → α}
    {xs ys : List α} (h : xs.map g = ys.map g) (hf : ∀ x, f (g x) = f x) :
    ofEach f xs = ofEach f ys := by
  have hmap : ∀ zs : List α, ofEach f (zs.map g) = ofEach f zs := by
    intro zs
    induction zs with
    | nil => rfl
    | cons z zs ih => rw [List.map_cons, ofEach, ofEach, hf, ih]
  rw [← hmap xs, h, hmap ys]

theorem flatMap_eq_of_map {α β : Type} {f : α → List β} {g : α → α} {xs ys : List α}
    (h : xs.map g = ys.map g) (hf : ∀ x, f (g x) = f x) : xs.flatMap f = ys.flatMap f := by
  have hmap : ∀ zs : List α, (zs.map g).flatMap f = zs.flatMap f := by
    intro zs
    rw [List.flatMap_map]
    exact congrArg zs.flatMap (funext hf)
  rw [← hmap xs, h, hmap ys]

end Script

namespace ChangeTree

variable {α : Type} {read : Json → Option α} {canonical : α → α} {forms : Json → Json → Prop}
  {item item' : Json} {t t' : ChangeTree}

/-- Two wrappers with nodes under the same keys in the same order, each node in two forms, or one
    wrapper. -/
inductive WrapperForms (forms : Json → Json → Prop) (item item' : Json) : Prop
  | same (h : item = item')
  | nodes {w w' : Entries Json} (hw : wrapped? item = some w) (hw' : wrapped? item' = some w')
      (h : List.Forall₂ (fun e e' => e.1 = e'.1 ∧ forms e.2 e'.2) w w')

/-- Two trees that differ in the forms of sets of fields: of tables, views and types. -/
structure SetForms (t t' : ChangeTree) : Prop where
  tables : ∀ b, List.Forall₂ (WrapperForms Table.Forms) (t.items .tables b) (t'.items .tables b)
  keyspaces : ∀ b, t.items .keyspaces b = t'.items .keyspaces b
  views : ∀ b, List.Forall₂ (WrapperForms View.Forms) (t.items .views b) (t'.items .views b)
  types : ∀ b,
    List.Forall₂ (WrapperForms UserType.Forms) (t.items .userTypes b) (t'.items .userTypes b)

section Read

variable (hread : Json.ReadsAlike forms read canonical)

include hread

theorem map_child?_eq {e e' : String × Json} (hkey : e.1 = e'.1) (h : forms e.2 e'.2) :
    (child? read e).map (Child.map canonical) = (child? read e').map (Child.map canonical) := by
  have hnode := congrArg (Option.map (Child.mk e.1)) (hread _ _ h)
  rw [Option.map_map, Option.map_map] at hnode
  rw [child?, child?, Option.map_map, Option.map_map, ← hkey]
  exact hnode

theorem map_filterMap_child?_eq {w w' : Entries Json}
    (h : List.Forall₂ (fun e e' => e.1 = e'.1 ∧ forms e.2 e'.2) w w') :
    (w.filterMap (child? read)).map (Child.map canonical) =
      (w'.filterMap (child? read)).map (Child.map canonical) := by
  rw [List.map_filterMap, List.map_filterMap]
  induction h with
  | nil => rfl
  | cons he _ ih =>
    rw [List.filterMap_cons, List.filterMap_cons, map_child?_eq hread he.1 he.2, ih]

theorem map_nodesOf_eq (h : WrapperForms forms item item') :
    (nodesOf read item).map (Child.map canonical) =
      (nodesOf read item').map (Child.map canonical) := by
  cases h with
  | same h => rw [h]
  | nodes hw hw' h =>
    rw [nodesOf, nodesOf, hw, hw']
    exact map_filterMap_child?_eq hread h

theorem map_firstNodeOf?_eq (h : WrapperForms forms item item') :
    (firstNodeOf? read item).map (Child.map canonical) =
      (firstNodeOf? read item').map (Child.map canonical) := by
  cases h with
  | same h => rw [h]
  | nodes hw hw' h =>
    rw [firstNodeOf?, firstNodeOf?, hw, hw']
    cases h with
    | nil => rfl
    | cons he _ => exact map_child?_eq hread he.1 he.2

theorem map_children_eq {p : Partition} {b : Bucket}
    (h : List.Forall₂ (WrapperForms forms) (t.items p b) (t'.items p b)) :
    (t.children read p b).map (Child.map canonical) =
      (t'.children read p b).map (Child.map canonical) := by
  rw [children_eq_flatMap, children_eq_flatMap, List.map_flatMap, List.map_flatMap]
  generalize t.items p b = items, t'.items p b = items' at h
  induction h with
  | nil => rfl
  | cons hitem _ ih => rw [List.flatMap_cons, List.flatMap_cons, map_nodesOf_eq hread hitem, ih]

theorem map_firstChildren_eq {p : Partition} {b : Bucket}
    (h : List.Forall₂ (WrapperForms forms) (t.items p b) (t'.items p b)) :
    (t.firstChildren read p b).map (Child.map canonical) =
      (t'.firstChildren read p b).map (Child.map canonical) := by
  rw [firstChildren_eq_filterMap, firstChildren_eq_filterMap, List.map_filterMap,
    List.map_filterMap]
  generalize t.items p b = items, t'.items p b = items' at h
  induction h with
  | nil => rfl
  | cons hitem _ ih =>
    rw [List.filterMap_cons, List.filterMap_cons, map_firstNodeOf?_eq hread hitem, ih]

end Read

end ChangeTree

namespace Script

open ChangeTree (map_children_eq map_firstChildren_eq)

variable {t t' : ChangeTree} {root root' : Json}

theorem scope_of_setForms (h : t.SetForms t') (resolver : Resolver) (references : References)
    (legacy : Bool) : scope resolver references legacy t = scope resolver references legacy t' := by
  have hdeclared : (References.declared t).map (Child.map UserType.keyed) =
      (References.declared t').map (Child.map UserType.keyed) := by
    rw [References.declared, References.declared, List.map_flatMap, List.map_flatMap]
    exact congrArg Bucket.all.flatMap
      (funext fun b => map_children_eq UserType.readsAlike (h.types b))
  have hreferences : (References.declared t).flatMap References.ofChild =
      (References.declared t').flatMap References.ofChild :=
    flatMap_eq_of_map hdeclared fun _ => rfl
  have hfields : ((References.declared t).flatMap fun c => c.node.fields) =
      (References.declared t').flatMap fun c => c.node.fields :=
    flatMap_eq_of_map hdeclared fun c => c.node.fields_keyed
  rw [scope, scope, References.ofTree, References.ofTree, hreferences, hfields]

theorem map_typeNodes_eq (h : t.SetForms t') (b : Bucket) :
    (typeNodes t b).map (Child.map UserType.keyed) =
      (typeNodes t' b).map (Child.map UserType.keyed) := by
  have hfirst := map_firstChildren_eq UserType.readsAlike (h.types b)
  have hordered : ∀ nodes, (UserType.inOrder nodes).map (Child.map UserType.keyed) =
      UserType.inOrder (nodes.map (Child.map UserType.keyed)) := by
    intro nodes
    have huses : (fun a b => UserType.uses (a.map UserType.keyed) (b.map UserType.keyed)) =
        UserType.uses := funext fun a => funext fun b => UserType.uses_keyed a b
    rw [UserType.inOrder, UserType.inOrder, Dependency.sorted_map, huses]
  cases b with
  | added =>
    show (UserType.inOrder _).map _ = (UserType.inOrder _).map _
    rw [hordered, hordered, hfirst]
  | modified => exact hfirst
  | deleted => exact hfirst

theorem commands_of_setForms (h : t.SetForms t') (s : Scope) (skipKeyspaces : Bool) :
    commands s skipKeyspaces t = commands s skipKeyspaces t' := by
  have htables : tables s t = tables s t' := by
    funext b
    exact ofEach_eq_of_map (map_children_eq Table.readsAlike (h.tables b))
      fun c => c.node.commands_keyed s (.ofBucket b) c.key
  have hkeyspaces : keyspaces t = keyspaces t' := by
    funext b
    rw [keyspaces, keyspaces, ChangeTree.firstChildren_eq_filterMap,
      ChangeTree.firstChildren_eq_filterMap, h.keyspaces]
  have hviews : views t = views t' := by
    funext b
    exact flatMap_eq_of_map (map_firstChildren_eq View.readsAlike (h.views b))
      fun c => c.node.commands_keyed (.ofBucket b)
  have htypes : types s t = types s t' := by
    funext b
    exact ofEach_eq_of_map (map_typeNodes_eq h b)
      fun c => c.node.commands_keyed s (.ofBucket b) c.key
  rw [commands, commands, htables, hkeyspaces, hviews, htypes]

/-- Whether sets of fields are lists or objects changes neither the script nor whether it drops
    anything. -/
theorem ofTree_of_setForms (h : t.SetForms t') (ht : ChangeTree.ofJson root = .ok t)
    (ht' : ChangeTree.ofJson root' = .ok t') (resolver : Resolver) (references : References)
    (mode : Mode) :
    ofTree resolver references mode root = ofTree resolver references mode root' ∧
      compile resolver references mode root = compile resolver references mode root' ∧
      isDestructive resolver references mode root =
        isDestructive resolver references mode root' := by
  have hgenerated : generated resolver references mode root =
      generated resolver references mode root' := by
    rw [generated, generated, ht, ht']
    show ((commands _ _ t).mapError CompileError.resolve).bind _ =
      ((commands _ _ t').mapError CompileError.resolve).bind _
    rw [scope_of_setForms h, commands_of_setForms h]
  have hofTree : ofTree resolver references mode root = ofTree resolver references mode root' := by
    rw [ofTree, ofTree, hgenerated]
  refine ⟨hofTree, ?_, ?_⟩
  · rw [compile, compile, hofTree]
  · rw [isDestructive, isDestructive, hgenerated]

/-! ## A tree in both forms -/

/-- A set of fields, as a list or as an object. -/
def fieldSet (listed : Bool) (entries : Entries Json) : Json :=
  if listed then .arr (entries.map Prod.snd) else .obj entries

theorem fieldSet_forms {entries : Entries Json}
    (hlabel : ∀ e ∈ entries, (Field.ofJson? e.2).bind Field.label = some e.1)
    (hnodup : (Entries.keys entries).Nodup) :
    FieldSet.Forms (fieldSet true entries) (fieldSet false entries) := .listed hlabel hnodup

def textColumn (name id : String) : String × Json :=
  (name, .obj [("name", .str name), ("GUID", .str id), ("type", .str "text")])

/-- What a comparison says about a table that is new. -/
def shelfComparison (listed : Bool) : Json :=
  .obj [("created", .bool true), ("keyspaceName", .str "app"),
    ("newProperties", fieldSet listed [textColumn "room" "1", textColumn "height" "2"]),
    ("oldProperties", fieldSet listed [textColumn "height" "2"])]

def shelfRole (listed : Bool) : Json :=
  .obj [("code", .str "shelves"), ("compMod", shelfComparison listed),
    ("compositePartitionKey", .arr [.obj [("keyId", .str "1")]]),
    ("properties", fieldSet listed [textColumn "room" "1", textColumn "height" "2"])]

def shelf (listed : Bool) : Json :=
  .obj [("role", shelfRole listed), ("properties", fieldSet listed [textColumn "height" "2"])]

/-- A view of the new table. -/
def roomsRole (listed : Bool) : Json :=
  .obj [("code", .str "rooms"), ("keyspaceName", .str "app"), ("viewOn", .str "shelves"),
    ("properties", fieldSet listed [textColumn "room" "1"])]

def bookType (listed : Bool) : Json :=
  .obj [("keyspaceName", .str "app"),
    ("properties", fieldSet listed [textColumn "title" "3", textColumn "author" "4"])]

/-- A new table, a view of it and a new type, with all sets of fields as lists or as objects. -/
def library (listed : Bool) : Json :=
  let rooms : Json := .obj [("role", roomsRole listed)]
  ChangeTree.rootOfParts [
    ChangeTree.partOf .tables .added (ChangeTree.wrapperOf [("shelves", shelf listed)]),
    ChangeTree.partOf .views .added (ChangeTree.wrapperOf [("rooms", rooms)]),
    ChangeTree.partOf .userTypes .added (ChangeTree.wrapperOf [("book", bookType listed)])]

def libraryTree (listed : Bool) : ChangeTree := ⟨(library listed).get? "properties"⟩

theorem shelf_forms : Table.Forms (shelf true) (shelf false) := by
  have hheight : FieldSet.Forms (fieldSet true [textColumn "height" "2"])
      (fieldSet false [textColumn "height" "2"]) := fieldSet_forms (by decide) (by decide)
  have hboth : FieldSet.Forms (fieldSet true [textColumn "room" "1", textColumn "height" "2"])
      (fieldSet false [textColumn "room" "1", textColumn "height" "2"]) :=
    fieldSet_forms (by decide) (by decide)
  have hcomparison : TableComparison.Forms (shelfComparison true) (shelfComparison false) :=
    .obj (.cons ⟨rfl, rfl⟩ (.cons ⟨rfl, rfl⟩ (.cons ⟨rfl, hboth⟩ (.cons ⟨rfl, hheight⟩ .nil))))
  have hrole : TableRole.Forms (shelfRole true) (shelfRole false) :=
    .obj (.cons ⟨rfl, rfl⟩ (.cons ⟨rfl, hcomparison⟩ (.cons ⟨rfl, rfl⟩
      (.cons ⟨rfl, hboth⟩ .nil))))
  exact .obj (.cons ⟨rfl, hrole⟩ (.cons ⟨rfl, hheight⟩ .nil))

theorem setForms_library : (libraryTree true).SetForms (libraryTree false) where
  tables b := by
    cases b with
    | added => exact .cons (.nodes rfl rfl (.cons ⟨rfl, shelf_forms⟩ .nil)) .nil
    | modified => exact .nil
    | deleted => exact .nil
  keyspaces b := by
    have hnone : ∀ listed, (libraryTree listed).items .keyspaces b = [] := by
      intro listed
      cases b <;> rfl
    rw [hnone, hnone]
  views b := by
    cases b with
    | added =>
      have hrole : Json.RecordForms View.attributes View.forms (roomsRole true) (roomsRole false) :=
        .obj (.cons ⟨rfl, rfl⟩ (.cons ⟨rfl, rfl⟩ (.cons ⟨rfl, rfl⟩
          (.cons ⟨rfl, fieldSet_forms (by decide) (by decide)⟩ .nil))))
      have hview : View.Forms (.obj [("role", roomsRole true)])
          (.obj [("role", roomsRole false)]) := .obj (.cons ⟨rfl, hrole⟩ .nil)
      exact .cons (.nodes rfl rfl (.cons ⟨rfl, hview⟩ .nil)) .nil
    | modified => exact .nil
    | deleted => exact .nil
  types b := by
    cases b with
    | added =>
      have htype : UserType.Forms (bookType true) (bookType false) :=
        .obj (.cons ⟨rfl, rfl⟩ (.cons ⟨rfl, fieldSet_forms (by decide) (by decide)⟩ .nil))
      exact .cons (.nodes rfl rfl (.cons ⟨rfl, htype⟩ .nil)) .nil
    | modified => exact .nil
    | deleted => exact .nil

/-- The table, its view and the type are made alike. -/
theorem ofTree_of_setForms_library :
    ofTree Resolver.builtin .empty {} (library true) =
        ofTree Resolver.builtin .empty {} (library false) ∧
      isDestructive Resolver.builtin .empty {} (library true) = .ok false ∧
      compile Resolver.builtin .empty {} (library true) =
        compile Resolver.builtin .empty {} (library false) ∧
      (ofTree Resolver.builtin .empty {} (library true)).map (List.map Statement.text) = .ok
        ["CREATE TYPE IF NOT EXISTS \"app\".\"book\" (\n\t\"title\" text,\n\t\"author\" text\n);",
          "CREATE TABLE IF NOT EXISTS \"app\".\"shelves\" (\n\t\"room\" text,\n"
            ++ "\t\"height\" text,\n\tPRIMARY KEY ((\"room\"))\n);",
          "CREATE MATERIALIZED VIEW IF NOT EXISTS \"app\".\"rooms\" AS\n\tSELECT \"room\"\n"
            ++ "\tFROM \"app\".\"shelves\";"] := by
  have ht : ChangeTree.ofJson (library true) = .ok (libraryTree true) := rfl
  have ht' : ChangeTree.ofJson (library false) = .ok (libraryTree false) := rfl
  have hdrops : isDestructive Resolver.builtin .empty {} (library false) = .ok false := rfl
  obtain ⟨hofTree, hcompile, hdestructive⟩ :=
    ofTree_of_setForms setForms_library ht ht' Resolver.builtin .empty {}
  exact ⟨hofTree, hdestructive.trans hdrops, hcompile, rfl⟩

end Script

end AlterScript
