/-
  Objects that hold no name twice.

  `uniqueNames_ofText?`: every value that is read from a text is of this kind, at every depth.
  `ChangeTree.uniqueNames_of_mem_wrappers`, `Table.uniqueNames_options` and
  `View.uniqueNames_options`: so are the nodes of a change tree, and the options that a comparison
  of tables or of views gives.
-/
import AlterScript.Json.Reader
import AlterScript.Table.Basic
import AlterScript.View.Basic
import AlterScript.ChangeTree

namespace AlterScript

namespace Json

mutual

/-- No object holds a name twice, at any depth. -/
def UniqueNames : Json → Prop
  | .null => True
  | .bool _ => True
  | .num _ => True
  | .str _ => True
  | .arr js => UniqueNamesOfItems js
  | .obj es => (Entries.keys es).Nodup ∧ UniqueNamesOfEntries es

def UniqueNamesOfItems : List Json → Prop
  | [] => True
  | j :: js => UniqueNames j ∧ UniqueNamesOfItems js

def UniqueNamesOfEntries : List (String × Json) → Prop
  | [] => True
  | (_, j) :: es => UniqueNames j ∧ UniqueNamesOfEntries es

end

theorem uniqueNames_arr_iff (js : List Json) :
    (arr js).UniqueNames ↔ ∀ j ∈ js, j.UniqueNames := by
  rw [UniqueNames]
  induction js with
  | nil => simp [UniqueNamesOfItems]
  | cons j js ih => rw [UniqueNamesOfItems, ih, List.forall_mem_cons]

theorem uniqueNames_obj_iff (es : Entries Json) :
    (obj es).UniqueNames ↔ (Entries.keys es).Nodup ∧ ∀ e ∈ es, e.2.UniqueNames := by
  have : ∀ es : List (String × Json), UniqueNamesOfEntries es ↔ ∀ e ∈ es, e.2.UniqueNames := by
    intro es
    induction es with
    | nil => simp [UniqueNamesOfEntries]
    | cons e es ih => rw [UniqueNamesOfEntries, ih, List.forall_mem_cons]
  rw [UniqueNames, this]

end Json

namespace Entries

variable {α : Type}

theorem mem_of_find? {key : String} {es : Entries α} {v : α} (h : find? key es = some v) :
    (key, v) ∈ es := by
  induction es with
  | nil => simp at h
  | cons e r ih =>
    obtain ⟨k, w⟩ := e
    by_cases hk : k = key
    · rw [find?, if_pos hk, Option.some.injEq] at h
      rw [hk, h]
      exact List.mem_cons_self
    · rw [find?, if_neg hk] at h
      exact List.mem_cons_of_mem _ (ih h)

theorem find?_of_mem {key : String} {es : Entries α} {v : α} (hn : (keys es).Nodup)
    (h : (key, v) ∈ es) : find? key es = some v := by
  induction es with
  | nil => simp at h
  | cons e r ih =>
    obtain ⟨k, w⟩ := e
    obtain ⟨hk, hr⟩ := List.nodup_cons.1 hn
    rcases List.mem_cons.1 h with he | h
    · obtain ⟨rfl, rfl⟩ := Prod.mk.injEq .. ▸ he
      rw [find?, if_pos rfl]
    · have : k ≠ key := by
        rintro rfl
        exact hk (List.mem_map.2 ⟨_, h, rfl⟩)
      rw [find?, if_neg this]
      exact ih hr h

theorem forall_mem_put {p : α → Prop} {key : String} {value : α} {es : Entries α}
    (hv : p value) (h : ∀ e ∈ es, p e.2) : ∀ e ∈ put key value es, p e.2 := by
  induction es with
  | nil => simpa [put] using hv
  | cons e r ih =>
    obtain ⟨k, w⟩ := e
    obtain ⟨hw, hr⟩ := List.forall_mem_cons.1 h
    rw [put]
    split
    · exact List.forall_mem_cons.2 ⟨hv, hr⟩
    · exact List.forall_mem_cons.2 ⟨hw, ih hr⟩

theorem forall_mem_putAll {p : α → Prop} {es more : Entries α} (h : ∀ e ∈ es, p e.2)
    (hm : ∀ e ∈ more, p e.2) : ∀ e ∈ putAll es more, p e.2 := by
  induction more generalizing es with
  | nil => exact h
  | cons e r ih =>
    obtain ⟨he, hr⟩ := List.forall_mem_cons.1 hm
    exact ih (forall_mem_put he h) hr

end Entries

namespace Json

/-! ## Reading -/

/-- What a reader gives holds no name twice. -/
def ReadsUnique (read : List Char → Read Json) : Prop :=
  ∀ cs j r, read cs = some (j, r) → j.UniqueNames

theorem readsUnique_scalar : ReadsUnique scalar := by
  intro cs j r h
  fun_cases scalar cs with
  | case1 =>
    obtain ⟨rfl, _⟩ : null = j ∧ _ := by simpa [scalar] using h
    trivial
  | case2 =>
    obtain ⟨rfl, _⟩ : bool true = j ∧ _ := by simpa [scalar] using h
    trivial
  | case3 =>
    obtain ⟨rfl, _⟩ : bool false = j ∧ _ := by simpa [scalar] using h
    trivial
  | case4 q =>
    rw [scalar, Option.map_eq_some_iff] at h
    obtain ⟨p, _, hp⟩ := h
    obtain ⟨rfl, _⟩ := Prod.mk.injEq .. ▸ hp
    trivial
  | case5 _ h1 h2 h3 h4 =>
    rw [scalar, Option.map_eq_some_iff] at h
    · obtain ⟨p, _, hp⟩ := h
      obtain ⟨rfl, _⟩ := Prod.mk.injEq .. ▸ hp
      trivial
    all_goals assumption

section Bodies

variable {item : List Char → Read Json} (hitem : ReadsUnique item)

include hitem

theorem uniqueNames_of_items (n : Nat) {cs r : List Char} {js : List Json}
    (h : items item n cs = some (js, r)) : ∀ j ∈ js, j.UniqueNames := by
  induction n generalizing cs r js with
  | zero => simp [items] at h
  | succ n ih =>
    rw [items, Option.bind_eq_some_iff] at h
    obtain ⟨⟨j, s⟩, hj, h⟩ := h
    have hfirst := hitem cs j s hj
    dsimp only at h
    split at h
    · obtain ⟨⟨ks, _⟩, hks, he⟩ := Option.map_eq_some_iff.1 h
      obtain ⟨rfl, _⟩ := Prod.mk.injEq .. ▸ he
      exact List.forall_mem_cons.2 ⟨hfirst, ih hks⟩
    · obtain ⟨rfl, _⟩ := Prod.mk.injEq .. ▸ Option.some.inj h
      simpa using hfirst
    · simp at h

theorem uniqueNames_of_member {cs r : List Char} {m : String × Json}
    (h : member item cs = some (m, r)) : m.2.UniqueNames := by
  rw [member, Option.bind_eq_some_iff] at h
  obtain ⟨⟨k, s⟩, _, h⟩ := h
  dsimp only at h
  split at h
  · obtain ⟨⟨j, _⟩, hj, he⟩ := Option.map_eq_some_iff.1 h
    obtain ⟨rfl, _⟩ := Prod.mk.injEq .. ▸ he
    exact hitem _ _ _ hj
  · simp at h

theorem uniqueNames_of_members (n : Nat) {cs r : List Char} {ms : List (String × Json)}
    (h : members item n cs = some (ms, r)) : ∀ m ∈ ms, m.2.UniqueNames := by
  induction n generalizing cs r ms with
  | zero => simp [members] at h
  | succ n ih =>
    rw [members, Option.bind_eq_some_iff] at h
    obtain ⟨⟨m, s⟩, hm, h⟩ := h
    have hfirst := uniqueNames_of_member hitem hm
    dsimp only at h
    split at h
    · obtain ⟨⟨ks, _⟩, hks, he⟩ := Option.map_eq_some_iff.1 h
      obtain ⟨rfl, _⟩ := Prod.mk.injEq .. ▸ he
      exact List.forall_mem_cons.2 ⟨hfirst, ih hks⟩
    · obtain ⟨rfl, _⟩ := Prod.mk.injEq .. ▸ Option.some.inj h
      simpa using hfirst
    · simp at h

theorem uniqueNames_of_arrayBody {cs r : List Char} {js : List Json}
    (h : arrayBody item cs = some (js, r)) : (arr js).UniqueNames := by
  rw [uniqueNames_arr_iff]
  rw [arrayBody] at h
  split at h
  · obtain ⟨rfl, _⟩ := Prod.mk.injEq .. ▸ Option.some.inj h
    simp
  · exact uniqueNames_of_items hitem _ h

theorem uniqueNames_of_objectBody {cs r : List Char} {ms : List (String × Json)}
    (h : objectBody item cs = some (ms, r)) : (obj (Entries.ofList ms)).UniqueNames := by
  rw [uniqueNames_obj_iff]
  refine ⟨Entries.keys_nodup_ofList ms, Entries.forall_mem_putAll (by simp) ?_⟩
  rw [objectBody] at h
  split at h
  · obtain ⟨rfl, _⟩ := Prod.mk.injEq .. ▸ Option.some.inj h
    simp
  · exact uniqueNames_of_members hitem _ h

end Bodies

theorem readsUnique_value (depth : Nat) : ReadsUnique (value depth) := by
  induction depth with
  | zero => exact fun cs j r h => readsUnique_scalar _ j r h
  | succ depth ih =>
    intro cs j r h
    rw [value] at h
    split at h
    · obtain ⟨⟨js, _⟩, hjs, he⟩ := Option.map_eq_some_iff.1 h
      obtain ⟨rfl, _⟩ := Prod.mk.injEq .. ▸ he
      exact uniqueNames_of_arrayBody ih hjs
    · obtain ⟨⟨ms, _⟩, hms, he⟩ := Option.map_eq_some_iff.1 h
      obtain ⟨rfl, _⟩ := Prod.mk.injEq .. ▸ he
      exact uniqueNames_of_objectBody ih hms
    · exact readsUnique_scalar _ j r h

/-- A value that is read from a text holds no name twice. -/
theorem uniqueNames_ofText? {s : String} {j : Json} (h : ofText? s = some j) :
    j.UniqueNames := by
  rw [ofText?, whole, Option.bind_eq_some_iff] at h
  obtain ⟨⟨k, r⟩, hk, h⟩ := h
  dsimp only at h
  split at h
  · obtain rfl := Option.some.inj h
    exact readsUnique_value _ _ _ _ hk
  · simp at h

/-! ## Parts -/

theorem UniqueNames.entries? {j : Json} (h : j.UniqueNames) {es : Entries Json}
    (he : j.entries? = some es) : (Entries.keys es).Nodup ∧ ∀ e ∈ es, e.2.UniqueNames := by
  cases j with
  | obj ds =>
    obtain rfl : ds = es := by simpa [Json.entries?] using he
    exact (uniqueNames_obj_iff ds).1 h
  | _ => simp [Json.entries?] at he

theorem UniqueNames.get? {j v : Json} {key : String} (h : j.UniqueNames)
    (hv : j.get? key = some v) : v.UniqueNames := by
  obtain ⟨es, hes, hv⟩ := Option.bind_eq_some_iff.1 hv
  exact (h.entries? hes).2 _ (Entries.mem_of_find? hv)

/-- The attributes of a record hold no name twice, also when an array holds them. -/
theorem UniqueNames.record? {j v : Json} {keys : List String} {es : Entries Json} {key : String}
    (h : j.UniqueNames) (he : Json.record? keys j = some es) (hv : es.find? key = some v) :
    v.UniqueNames := by
  have hv := Entries.mem_of_find? hv
  cases j with
  | obj ds =>
    obtain rfl : ds = es := by simpa [Json.record?] using he
    exact ((uniqueNames_obj_iff ds).1 h).2 _ hv
  | arr js =>
    simp only [Json.record?, Option.ite_none_right_eq_some, Option.some.injEq] at he
    obtain ⟨_, rfl⟩ := he
    exact (uniqueNames_arr_iff js).1 h v (List.of_mem_zip hv).2
  | _ => simp [Json.record?] at he

theorem fullRecord?_eq_some {j : Json} {keys : List String} {es : Entries Json}
    (h : Json.fullRecord? keys j = some es) : Json.record? keys j = some es := by
  cases j with
  | obj ds => exact h
  | arr js =>
    simp only [Json.fullRecord?, Option.ite_none_right_eq_some] at h
    rw [Json.record?, if_pos (Nat.le_of_eq h.1), h.2]
  | _ => simp [Json.fullRecord?] at h

theorem optional_eq_some_some {α : Type} {read : Json → Option α} {j : Option Json} {a : α}
    (h : optional read j = some (some a)) : ∃ v, j = some v ∧ read v = some a := by
  fun_cases optional read j with
  | case1 => simp [optional] at h
  | case2 => simp [optional] at h
  | case3 v hv =>
    rw [optional, Option.map_eq_some_iff] at h
    · obtain ⟨b, hb, he⟩ := h
      exact ⟨v, rfl, Option.some.inj he ▸ hb⟩
    · exact hv

/-- The options of a comparison, old and new, hold no name twice. -/
theorem uniqueNames_of_optionsChange? {j : Option Json} {c : Change Options} {o : Options}
    (hj : ∀ v, j = some v → v.UniqueNames) (h : optionsChange? j = some (some c))
    (ho : c.old = some o ∨ c.new = some o) : (obj o.entries).UniqueNames := by
  obtain ⟨v, rfl, hv⟩ := optional_eq_some_some h
  simp only [Change.ofJson?, Option.bind_eq_some_iff, Option.map_eq_some_iff] at hv
  obtain ⟨es, hes, old, hold, new, hnew, rfl⟩ := hv
  -- Either side is read in the same way, each from under its own name.
  obtain ⟨key, hread⟩ : ∃ key,
      optional (fun j => j.entries?.map Options.mk) (es.find? key) = some (some o) := by
    rcases ho with ho | ho
    · obtain rfl : old = some o := ho
      exact ⟨"old", hold⟩
    · obtain rfl : new = some o := ho
      exact ⟨"new", hnew⟩
  obtain ⟨w, hw, hread⟩ := optional_eq_some_some hread
  obtain ⟨ds, hds, rfl⟩ := Option.map_eq_some_iff.1 hread
  have hunique : w.UniqueNames := (hj v rfl).record? (fullRecord?_eq_some hes) hw
  exact (uniqueNames_obj_iff ds).2 (hunique.entries? hds)

end Json

/-! ## Nodes -/

namespace ChangeTree

theorem uniqueNames_of_mem_wrappers {root : Json} (h : root.UniqueNames) {t : ChangeTree}
    (ht : ofJson root = .ok t) {p : Partition} {b : Bucket} {w : Entries Json}
    (hw : w ∈ t.wrappers p b) : ∀ e ∈ w, e.2.UniqueNames := by
  have hproperties : ∀ j, t.properties = some j → j.UniqueNames := by
    intro j hj
    cases root with
    | obj es =>
      obtain rfl : ⟨(Json.obj es).get? "properties"⟩ = t := Except.ok.inj ht
      exact h.get? hj
    | _ => simp [ofJson] at ht
  obtain ⟨i, hi, hw⟩ := List.mem_filterMap.1 hw
  suffices hitem : i.UniqueNames by
    obtain ⟨v, hv, hw⟩ := Option.bind_eq_some_iff.1 hw
    exact ((hitem.get? hv).entries? hw).2
  rw [items] at hi
  split at hi
  · rename_i js hjs
    simp only [Option.bind_eq_some_iff] at hjs
    obtain ⟨x, ⟨y, ⟨z, ⟨j, hj, hz⟩, hy⟩, hx⟩, hjs⟩ := hjs
    have hitems := ((((hproperties j hj).get? hz).get? hy).get? hx).get? hjs
    exact (Json.uniqueNames_arr_iff js).1 hitems i hi
  · rename_i es hes
    simp only [Option.bind_eq_some_iff] at hes
    obtain ⟨x, ⟨y, ⟨z, ⟨j, hj, hz⟩, hy⟩, hx⟩, hes⟩ := hes
    obtain rfl : i = .obj es := by simpa using hi
    exact ((((hproperties j hj).get? hz).get? hy).get? hx).get? hes
  · simp at hi

end ChangeTree

namespace Table

/-- The options that the comparison of a table gives, old and new, hold no name twice. -/
theorem uniqueNames_options {j : Json} (h : j.UniqueNames) {t : Table} (ht : ofJson? j = some t)
    {c : TableComparison} (hc : t.role.comparison = some c) {change : Change Options}
    (hchange : c.options = some change) {o : Options}
    (ho : change.old = some o ∨ change.new = some o) : (Json.obj o.entries).UniqueNames := by
  simp only [ofJson?, Option.bind_eq_bind, Option.bind_eq_some_iff, Option.pure_def,
    Option.some.injEq] at ht
  obtain ⟨es, hes, role, hrole, properties, _, rfl⟩ := ht
  rcases hrole' : es.find? "role" with _ | r
  · rw [hrole'] at hrole
    obtain rfl : ({} : TableRole) = role := Option.some.inj hrole
    simp at hc
  · rw [hrole'] at hrole
    have hr : r.UniqueNames := h.record? hes hrole'
    simp only [Json.orDefault, TableRole.ofJson?, Option.bind_eq_bind, Option.bind_eq_some_iff,
      Option.pure_def, Option.some.injEq] at hrole
    obtain ⟨ds, hds, comparison, hcomparison, _, _, _, _, _, _, _, _, _, _, rfl⟩ := hrole
    obtain rfl : comparison = some c := hc
    obtain ⟨k, hk, hread⟩ := Json.optional_eq_some_some hcomparison
    have hunique : k.UniqueNames := hr.record? hds hk
    simp only [TableComparison.ofJson?, Option.bind_eq_bind, Option.bind_eq_some_iff,
      Option.pure_def, Option.some.injEq] at hread
    obtain ⟨as, has, options, hoptions, hread⟩ := hread
    obtain ⟨_, _, _, _, _, _, _, _, _, _, _, _, _, _, _, _, _, _, _, _, rfl⟩ := hread
    obtain rfl : options = some change := hchange
    exact Json.uniqueNames_of_optionsChange? (fun v hv => hunique.record? has hv) hoptions ho

end Table

namespace View

/-- The options that the comparison of a view gives, old and new, hold no name twice. -/
theorem uniqueNames_options {j : Json} (h : j.UniqueNames) {v : View} (hv : ofJson? j = some v)
    {c : ViewComparison} (hc : v.comparison = some c) {change : Change Options}
    (hchange : c.options = some change) {o : Options}
    (ho : change.old = some o ∨ change.new = some o) : (Json.obj o.entries).UniqueNames := by
  obtain ⟨es, hes, hrole⟩ := Option.bind_eq_some_iff.1 hv
  rcases hrole' : es.find? "role" with _ | r
  · rw [hrole'] at hrole
    obtain rfl : ({} : View) = v := Option.some.inj hrole
    simp at hc
  · rw [hrole'] at hrole
    have hr : r.UniqueNames := h.record? hes hrole'
    simp only [Json.orDefault, ofRole?, Option.bind_eq_bind, Option.bind_eq_some_iff,
      Option.pure_def, Option.some.injEq] at hrole
    obtain ⟨ds, hds, _, _, _, _, _, _, comparison, hcomparison, rfl⟩ := hrole
    obtain rfl : comparison = some c := hc
    obtain ⟨k, hk, hread⟩ := Json.optional_eq_some_some hcomparison
    have hunique : k.UniqueNames := hr.record? hds hk
    simp only [ViewComparison.ofJson?, Option.bind_eq_bind, Option.bind_eq_some_iff,
      Option.pure_def, Option.some.injEq] at hread
    obtain ⟨as, has, _, _, _, _, _, _, _, _, _, _, _, _, options, hoptions, _, _, rfl⟩ := hread
    obtain rfl : options = some change := hchange
    exact Json.uniqueNames_of_optionsChange? (fun w hw => hunique.record? has hw) hoptions ho

end View

end AlterScript
