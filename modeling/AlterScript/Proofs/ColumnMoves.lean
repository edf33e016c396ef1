/-
  Moving the columns of a table that stays.

  A `Move` is a changed column with its names and types before and after. Of all moves the drops
  come first, then the additions, then the renamings and conversions. `AfterDrops`, `AfterAdditions`
  and `AfterRest` say which columns there are after each of the three phases; `applyAll_of_movable`:
  every phase can be made, whatever the order within it, and in the end every column that can be
  changed has its new name and type and no other is touched.
-/
import Mathlib.Data.List.Nodup
import AlterScript.Proofs.Alteration
import AlterScript.Table.Column

namespace AlterScript

/-- A changed column with its names and types before and after. -/
structure Move where
  key : Bool
  oldName : String
  newName : String
  oldType : String
  newType : String
deriving DecidableEq, Repr

/-- What becomes of a column, as alterations of its table. -/
def ColumnChange.alterations : ColumnChange → List Alteration
  | kept => []
  | skipped => []
  | renamed old new => [.rename old new]
  | converted column => [.convert column]
  | replaced old new => [.drop old, .add new]

theorem ColumnChange.commands_eq (q : QualifiedName) (x : ColumnChange) :
    x.commands q = x.alterations.map (Alteration.command q) := by
  cases x <;> rfl

namespace Move

/-- The changed column under its new name; `type` is the type under which it is kept. -/
def changed (m : Move) (type : String) : ChangedColumn where
  column := ⟨m.newName, type⟩
  primaryKey := m.key
  oldName := some m.oldName
  newName := some m.newName
  oldType := some m.oldType
  newType := some m.newType

/-- What becomes of the column. -/
def fate (legacy : Bool) (m : Move) : ColumnChange := (m.changed m.newType).change legacy

theorem change_changed (legacy : Bool) (m : Move) (type : String) :
    (m.changed type).change legacy = m.fate legacy := rfl

/-- The column is dropped and added anew. -/
def Replaced (legacy : Bool) (m : Move) : Prop :=
  m.fate legacy = .replaced m.oldName ⟨m.newName, m.newType⟩

def Renamed (legacy : Bool) (m : Move) : Prop := m.fate legacy = .renamed m.oldName m.newName

def Converted (legacy : Bool) (m : Move) : Prop :=
  m.fate legacy = .converted ⟨m.newName, m.newType⟩

/-- The column stays what it is: a key column cannot change its type. -/
def Stuck (m : Move) : Prop := m.key = true ∧ m.oldType ≠ m.newType

instance (m : Move) : Decidable m.Stuck := inferInstanceAs (Decidable (_ ∧ _))

/-- The name under which the column ends. -/
def finalName (m : Move) : String := if m.Stuck then m.oldName else m.newName

/-- What becomes of a column, and of which columns. -/
theorem fate_spec (legacy : Bool) (m : Move) :
    match m.fate legacy with
    | .kept => ¬ m.Stuck ∧ m.oldName = m.newName ∧ m.oldType = m.newType
    | .skipped => m.Stuck
    | .renamed old new => (old = m.oldName ∧ new = m.newName) ∧
        m.key = true ∧ m.oldName ≠ m.newName ∧ m.oldType = m.newType
    | .converted column => column = ⟨m.newName, m.newType⟩ ∧
        m.key = false ∧ m.oldName = m.newName
    | .replaced old new => (old = m.oldName ∧ new = ⟨m.newName, m.newType⟩) ∧ m.key = false := by
  obtain ⟨key, oldName, newName, oldType, newType⟩ := m
  simp only [Stuck, fate, changed, ChangedColumn.change, ChangedColumn.afterRename,
    ChangedColumn.afterRetype, ChangedColumn.replacement, Option.some.injEq, Option.getD_some]
  by_cases hname : oldName = newName
  · by_cases htype : oldType = newType
    · simp [hname, htype]
    · cases key with
      | true => simp [hname, htype]
      | false =>
        by_cases hconvert : (legacy && CqlType.isConvertible oldType newType) = true
        · simp [hname, htype, hconvert]
        · simp [hname, htype, hconvert]
  · cases key with
    | true =>
      by_cases htype : oldType = newType
      · simp [hname, htype]
      · simp [hname, htype]
    | false => simp [hname]

/-- Everything that can become of a column. -/
theorem fate_cases (legacy : Bool) (m : Move) :
    (m.fate legacy = .kept ∧ ¬ m.Stuck ∧ m.oldName = m.newName ∧ m.oldType = m.newType) ∨
    (m.fate legacy = .skipped ∧ m.Stuck) ∨
    (m.Renamed legacy ∧ m.key = true ∧ m.oldName ≠ m.newName ∧ m.oldType = m.newType) ∨
    (m.Converted legacy ∧ m.key = false ∧ m.oldName = m.newName) ∨
    (m.Replaced legacy ∧ m.key = false) := by
  have hspec := m.fate_spec legacy
  cases hfate : m.fate legacy with
  | kept =>
    rw [hfate] at hspec
    exact Or.inl ⟨rfl, hspec⟩
  | skipped =>
    rw [hfate] at hspec
    exact Or.inr (Or.inl ⟨rfl, hspec⟩)
  | renamed old new =>
    rw [hfate] at hspec
    obtain ⟨⟨rfl, rfl⟩, hspec⟩ := hspec
    exact Or.inr (Or.inr (Or.inl ⟨hfate, hspec⟩))
  | converted column =>
    rw [hfate] at hspec
    obtain ⟨rfl, hspec⟩ := hspec
    exact Or.inr (Or.inr (Or.inr (Or.inl ⟨hfate, hspec⟩)))
  | replaced old new =>
    rw [hfate] at hspec
    obtain ⟨⟨rfl, rfl⟩, hspec⟩ := hspec
    exact Or.inr (Or.inr (Or.inr (Or.inr ⟨hfate, hspec⟩)))

theorem mem_alterations_iff {legacy : Bool} {m : Move} {a : Alteration} :
    a ∈ (m.fate legacy).alterations ↔
      (m.Replaced legacy ∧ (a = .drop m.oldName ∨ a = .add ⟨m.newName, m.newType⟩)) ∨
      (m.Renamed legacy ∧ a = .rename m.oldName m.newName) ∨
      (m.Converted legacy ∧ a = .convert ⟨m.newName, m.newType⟩) := by
  rcases fate_cases legacy m with ⟨h, _⟩ | ⟨h, _⟩ | ⟨h, _⟩ | ⟨h, _⟩ | ⟨h, _⟩
  · simp [Replaced, Renamed, Converted, h, ColumnChange.alterations]
  · simp [Replaced, Renamed, Converted, h, ColumnChange.alterations]
  · have h : m.fate legacy = _ := h
    simp [Replaced, Renamed, Converted, h, ColumnChange.alterations]
  · have h : m.fate legacy = _ := h
    simp [Replaced, Renamed, Converted, h, ColumnChange.alterations]
  · have h : m.fate legacy = _ := h
    simp [Replaced, Renamed, Converted, h, ColumnChange.alterations]

theorem Replaced.key {legacy : Bool} {m : Move} (h : m.Replaced legacy) : m.key = false := by
  have hspec := m.fate_spec legacy
  rw [show m.fate legacy = _ from h] at hspec
  exact hspec.2

theorem Renamed.spec {legacy : Bool} {m : Move} (h : m.Renamed legacy) :
    m.key = true ∧ m.oldName ≠ m.newName ∧ m.oldType = m.newType := by
  have hspec := m.fate_spec legacy
  rw [show m.fate legacy = _ from h] at hspec
  exact hspec.2

theorem Converted.spec {legacy : Bool} {m : Move} (h : m.Converted legacy) :
    m.key = false ∧ m.oldName = m.newName := by
  have hspec := m.fate_spec legacy
  rw [show m.fate legacy = _ from h] at hspec
  exact hspec.2

end Move

/-! ## Tables that can be migrated -/

theorem Move.key_or_same_of_not_replaced {legacy : Bool} {m : Move} (h : ¬ m.Replaced legacy) :
    m.key = true ∨ m.oldName = m.newName := by
  rcases m.fate_cases legacy with ⟨_, _, hname, _⟩ | ⟨_, hstuck⟩ | ⟨_, hkey, _⟩ | ⟨_, _, hname⟩ |
    ⟨hr, _⟩
  · exact Or.inr hname
  · exact Or.inl hstuck.1
  · exact Or.inl hkey
  · exact Or.inr hname
  · exact absurd hr h

/-- A table with these columns can be migrated by these moves: every move finds its column, and no
    new name is the name of an unchanged column or the old name of another key column. -/
structure Movable (moves : List Move) (old : Schema) : Prop where
  present : ∀ m ∈ moves, old m.oldName = some m.oldType
  oldNames : (moves.map Move.oldName).Nodup
  newNames : (moves.map Move.newName).Nodup
  unchanged : ∀ m ∈ moves, m.newName ∉ moves.map Move.oldName → old m.newName = none
  keys : ∀ m ∈ moves, ∀ k ∈ moves, k.key = true → m.newName = k.oldName → m = k

/-- The alterations that the moves ask for, phase by phase. -/
structure Plan (legacy : Bool) (moves : List Move) (as : List Alteration) : Prop where
  nodup : as.Nodup
  sorted : as.Pairwise fun a b => a.phase ≤ b.phase
  mem_iff : ∀ a, a ∈ as ↔ ∃ m ∈ moves, a ∈ (m.fate legacy).alterations

/-- The table after the migration: every changed column that is not stuck has its new name and its
    new type, a stuck one is left as it was, and all other columns are as they were. -/
structure Migrates (moves : List Move) (old new : Schema) : Prop where
  moved : ∀ m ∈ moves, m.key = false → new m.newName = some m.newType
  renamed : ∀ m ∈ moves, m.key = true → m.oldType = m.newType → new m.newName = some m.oldType
  stuck : ∀ m ∈ moves, m.key = true → m.oldType ≠ m.newType → new m.oldName = some m.oldType
  gone : ∀ n ∈ moves.map Move.oldName, n ∉ moves.map Move.finalName → new n = none
  untouched : ∀ n, n ∉ moves.map Move.oldName → n ∉ moves.map Move.finalName → new n = old n

section Phases

variable {legacy : Bool} {moves : List Move} {old : Schema} {as : List Alteration}

theorem Movable.eq_of_oldName (h : Movable moves old) {m k : Move} (hm : m ∈ moves)
    (hk : k ∈ moves) (he : m.oldName = k.oldName) : m = k :=
  List.inj_on_of_nodup_map h.oldNames hm hk he

theorem Movable.eq_of_newName (h : Movable moves old) {m k : Move} (hm : m ∈ moves)
    (hk : k ∈ moves) (he : m.newName = k.newName) : m = k :=
  List.inj_on_of_nodup_map h.newNames hm hk he

/-- No column gets the old name of another one, unless that one is dropped. -/
theorem Movable.newName_ne_oldName (h : Movable moves old) {m k : Move} (hm : m ∈ moves)
    (hk : k ∈ moves) (hne : m ≠ k) (hr : ¬ k.Replaced legacy) : m.newName ≠ k.oldName := by
  intro he
  rcases Move.key_or_same_of_not_replaced hr with hkey | hname
  · exact hne (h.keys m hm k hk hkey he)
  · exact hne (h.eq_of_newName hm hk (he.trans hname))

/-- Two columns that are not dropped have no name in common. -/
theorem Movable.disjoint (h : Movable moves old) {m k : Move} (hm : m ∈ moves) (hk : k ∈ moves)
    (hne : m ≠ k) (hmr : ¬ m.Replaced legacy) (hkr : ¬ k.Replaced legacy) :
    [m.oldName, m.newName].Disjoint [k.oldName, k.newName] := by
  have hold : m.oldName ≠ k.oldName := fun he => hne (h.eq_of_oldName hm hk he)
  have hnew : m.newName ≠ k.newName := fun he => hne (h.eq_of_newName hm hk he)
  have hmk := h.newName_ne_oldName hm hk hne hkr
  have hkm := h.newName_ne_oldName hk hm hne.symm hmr
  intro n hn hn'
  simp only [List.mem_cons, List.not_mem_nil, or_false] at hn hn'
  rcases hn with rfl | rfl
  · rcases hn' with he | he
    · exact hold he
    · exact hkm he.symm
  · rcases hn' with he | he
    · exact hmk he
    · exact hnew he

theorem Plan.pairwise_ofPhase (h : Plan legacy moves as) (k : Nat)
    {R : Alteration → Alteration → Prop}
    (hR : ∀ a ∈ Alteration.ofPhase k as, ∀ b ∈ Alteration.ofPhase k as, a ≠ b → R a b) :
    (Alteration.ofPhase k as).Pairwise R := by
  have hnodup : (Alteration.ofPhase k as).Nodup := h.nodup.filter _
  exact hnodup.imp_of_mem fun {a b} ha hb hab => hR a ha b hb hab

theorem Plan.mem_drops_iff (h : Plan legacy moves as) {a : Alteration} :
    a ∈ Alteration.ofPhase 0 as ↔
      ∃ m ∈ moves, m.Replaced legacy ∧ a = .drop m.oldName := by
  rw [Alteration.mem_ofPhase_iff, h.mem_iff]
  simp only [Move.mem_alterations_iff]
  constructor
  · rintro ⟨⟨m, hm, ⟨hr, rfl | rfl⟩ | ⟨_, rfl⟩ | ⟨_, rfl⟩⟩, hphase⟩
    · exact ⟨m, hm, hr, rfl⟩
    all_goals simp [Alteration.phase] at hphase
  · rintro ⟨m, hm, hr, rfl⟩
    exact ⟨⟨m, hm, Or.inl ⟨hr, Or.inl rfl⟩⟩, rfl⟩

theorem Plan.mem_additions_iff (h : Plan legacy moves as) {a : Alteration} :
    a ∈ Alteration.ofPhase 1 as ↔
      ∃ m ∈ moves, m.Replaced legacy ∧ a = .add ⟨m.newName, m.newType⟩ := by
  rw [Alteration.mem_ofPhase_iff, h.mem_iff]
  simp only [Move.mem_alterations_iff]
  constructor
  · rintro ⟨⟨m, hm, ⟨hr, rfl | rfl⟩ | ⟨_, rfl⟩ | ⟨_, rfl⟩⟩, hphase⟩
    · simp [Alteration.phase] at hphase
    · exact ⟨m, hm, hr, rfl⟩
    all_goals simp [Alteration.phase] at hphase
  · rintro ⟨m, hm, hr, rfl⟩
    exact ⟨⟨m, hm, Or.inl ⟨hr, Or.inr rfl⟩⟩, rfl⟩

theorem Plan.mem_rest_iff (h : Plan legacy moves as) {a : Alteration} :
    a ∈ Alteration.ofPhase 2 as ↔
      ∃ m ∈ moves, (m.Renamed legacy ∧ a = .rename m.oldName m.newName) ∨
        (m.Converted legacy ∧ a = .convert ⟨m.newName, m.newType⟩) := by
  rw [Alteration.mem_ofPhase_iff, h.mem_iff]
  simp only [Move.mem_alterations_iff]
  constructor
  · rintro ⟨⟨m, hm, ⟨_, rfl | rfl⟩ | ⟨hr, rfl⟩ | ⟨hc, rfl⟩⟩, hphase⟩
    · simp [Alteration.phase] at hphase
    · simp [Alteration.phase] at hphase
    · exact ⟨m, hm, Or.inl ⟨hr, rfl⟩⟩
    · exact ⟨m, hm, Or.inr ⟨hc, rfl⟩⟩
  · rintro ⟨m, hm, ⟨hr, rfl⟩ | ⟨hc, rfl⟩⟩
    · exact ⟨⟨m, hm, Or.inr (Or.inl ⟨hr, rfl⟩)⟩, rfl⟩
    · exact ⟨⟨m, hm, Or.inr (Or.inr ⟨hc, rfl⟩)⟩, rfl⟩

/-! ## The three phases -/

/-- The columns `τ` after the drops, from the columns `σ` before them. -/
structure AfterDrops (legacy : Bool) (moves : List Move) (σ τ : Schema) : Prop where
  dropped : ∀ m ∈ moves, m.Replaced legacy → τ m.oldName = none
  others : ∀ n, (∀ m ∈ moves, m.Replaced legacy → m.oldName ≠ n) → τ n = σ n

/-- The columns `τ` after the additions, from the columns `σ` before them. -/
structure AfterAdditions (legacy : Bool) (moves : List Move) (σ τ : Schema) : Prop where
  added : ∀ m ∈ moves, m.Replaced legacy → τ m.newName = some m.newType
  others : ∀ n, (∀ m ∈ moves, m.Replaced legacy → m.newName ≠ n) → τ n = σ n

/-- The columns `τ` after the renamings and conversions, from the columns `σ` before them. -/
structure AfterRest (legacy : Bool) (moves : List Move) (σ τ : Schema) : Prop where
  source : ∀ m ∈ moves, m.Renamed legacy → τ m.oldName = none
  target : ∀ m ∈ moves, m.Renamed legacy → τ m.newName = σ m.oldName
  converted : ∀ m ∈ moves, m.Converted legacy → τ m.newName = some m.newType
  others : ∀ n, (∀ m ∈ moves, m.Renamed legacy → m.oldName ≠ n ∧ m.newName ≠ n) →
    (∀ m ∈ moves, m.Converted legacy → m.newName ≠ n) → τ n = σ n

/-- Dropped columns are there, and are dropped once each. -/
theorem exists_afterDrops (hold : Movable moves old) (h : Plan legacy moves as) :
    ∃ σ, Alteration.applyAll (Alteration.ofPhase 0 as) old = some σ ∧
      AfterDrops legacy moves old σ := by
  have hdisjoint : (Alteration.ofPhase 0 as).Pairwise fun a b => a.names.Disjoint b.names := by
    refine h.pairwise_ofPhase 0 fun a ha b hb hab => ?_
    obtain ⟨m, _, _, rfl⟩ := h.mem_drops_iff.1 ha
    obtain ⟨k, _, _, rfl⟩ := h.mem_drops_iff.1 hb
    simpa [Alteration.names, eq_comm] using hab
  have happlies : ∀ a ∈ Alteration.ofPhase 0 as, a.applies old = true := by
    intro a ha
    obtain ⟨m, hm, _, rfl⟩ := h.mem_drops_iff.1 ha
    rw [Alteration.applies, hold.present m hm]
    rfl
  obtain ⟨σ, hσ, hnames, hothers⟩ := Alteration.applyAll_of_disjoint hdisjoint happlies
  refine ⟨σ, hσ, ?_, ?_⟩
  · intro m hm hr
    have hmem := h.mem_drops_iff.2 ⟨m, hm, hr, rfl⟩
    rw [hnames _ hmem m.oldName (by simp [Alteration.names]), Alteration.after,
      Function.update_self]
  · intro n hn
    refine hothers n fun a ha => ?_
    obtain ⟨m, hm, hr, rfl⟩ := h.mem_drops_iff.1 ha
    simpa [Alteration.names] using (hn m hm hr).symm

/-- After the drops every name is free that a column gets anew. -/
theorem AfterDrops.free {σ : Schema} (hσ : AfterDrops legacy moves old σ)
    (hold : Movable moves old) {m : Move} (hm : m ∈ moves)
    (hr : m.Replaced legacy ∨ m.oldName ≠ m.newName) : σ m.newName = none := by
  by_cases hclash : m.newName ∈ moves.map Move.oldName
  · obtain ⟨k, hk, hname⟩ := List.mem_map.1 hclash
    have hkr : k.Replaced legacy := by
      by_contra hnot
      by_cases he : m = k
      · subst he
        exact hr.elim hnot fun hne => hne hname
      · exact hold.newName_ne_oldName hm hk he hnot hname.symm
    rw [← hname]
    exact hσ.dropped k hk hkr
  · rw [hσ.others m.newName, hold.unchanged m hm hclash]
    intro k hk _ he
    exact hclash (List.mem_map.2 ⟨k, hk, he⟩)

theorem exists_afterAdditions (hold : Movable moves old) (h : Plan legacy moves as) {σ : Schema}
    (hσ : AfterDrops legacy moves old σ) :
    ∃ τ, Alteration.applyAll (Alteration.ofPhase 1 as) σ = some τ ∧
      AfterAdditions legacy moves σ τ := by
  have hdisjoint : (Alteration.ofPhase 1 as).Pairwise fun a b => a.names.Disjoint b.names := by
    refine h.pairwise_ofPhase 1 fun a ha b hb hab => ?_
    obtain ⟨m, hm, _, rfl⟩ := h.mem_additions_iff.1 ha
    obtain ⟨k, hk, _, rfl⟩ := h.mem_additions_iff.1 hb
    have : m.newName ≠ k.newName := by
      intro he
      obtain rfl := hold.eq_of_newName hm hk he
      exact hab rfl
    simpa [Alteration.names, eq_comm] using this
  have happlies : ∀ a ∈ Alteration.ofPhase 1 as, a.applies σ = true := by
    intro a ha
    obtain ⟨m, hm, hr, rfl⟩ := h.mem_additions_iff.1 ha
    rw [Alteration.applies, hσ.free hold hm (Or.inl hr)]
    rfl
  obtain ⟨τ, hτ, hnames, hothers⟩ := Alteration.applyAll_of_disjoint hdisjoint happlies
  refine ⟨τ, hτ, ?_, ?_⟩
  · intro m hm hr
    have hmem := h.mem_additions_iff.2 ⟨m, hm, hr, rfl⟩
    rw [hnames _ hmem m.newName (by simp [Alteration.names]), Alteration.after,
      Function.update_self]
  · intro n hn
    refine hothers n fun a ha => ?_
    obtain ⟨m, hm, hr, rfl⟩ := h.mem_additions_iff.1 ha
    simpa [Alteration.names] using (hn m hm hr).symm

/-- After the additions a column that is not dropped is there as it was. -/
theorem AfterAdditions.present {σ τ : Schema} (hτ : AfterAdditions legacy moves σ τ)
    (hσ : AfterDrops legacy moves old σ) (hold : Movable moves old) {m : Move} (hm : m ∈ moves)
    (hr : ¬ m.Replaced legacy) : τ m.oldName = some m.oldType := by
  have hne : ∀ k, k.Replaced legacy → k ≠ m := fun k hk he => hr (he ▸ hk)
  rw [hτ.others, hσ.others, hold.present m hm]
  · intro k hk hkr he
    exact hne k hkr (hold.eq_of_oldName hk hm he)
  · intro k hk hkr
    exact hold.newName_ne_oldName hk hm (hne k hkr) hr

/-- After the additions the new name of a column that is to be renamed is free. -/
theorem AfterAdditions.free {σ τ : Schema} (hτ : AfterAdditions legacy moves σ τ)
    (hσ : AfterDrops legacy moves old σ) (hold : Movable moves old) {m : Move} (hm : m ∈ moves)
    (hr : m.Renamed legacy) : τ m.newName = none := by
  rw [hτ.others, hσ.free hold hm (Or.inr hr.spec.2.1)]
  intro k hk hkr he
  obtain rfl := hold.eq_of_newName hk hm he
  have := hkr.key
  rw [hr.spec.1] at this
  exact Bool.noConfusion this

theorem Move.Renamed.not_replaced {m : Move} (h : m.Renamed legacy) : ¬ m.Replaced legacy := by
  intro hr
  have := hr.key
  rw [h.spec.1] at this
  exact Bool.noConfusion this

theorem Move.Converted.not_replaced {m : Move} (h : m.Converted legacy) :
    ¬ m.Replaced legacy := by
  intro hr
  have h : m.fate legacy = _ := h
  have hr : m.fate legacy = _ := hr
  simp [h] at hr

theorem Plan.exists_of_mem_rest (h : Plan legacy moves as) {a : Alteration}
    (ha : a ∈ Alteration.ofPhase 2 as) :
    ∃ m ∈ moves, ¬ m.Replaced legacy ∧ (m.fate legacy).alterations = [a] ∧
      a.names ⊆ [m.oldName, m.newName] := by
  obtain ⟨m, hm, ⟨hr, rfl⟩ | ⟨hc, rfl⟩⟩ := h.mem_rest_iff.1 ha
  · have hfate : m.fate legacy = _ := hr
    exact ⟨m, hm, hr.not_replaced, by rw [hfate]; rfl, List.Subset.refl _⟩
  · have hfate : m.fate legacy = _ := hc
    exact ⟨m, hm, hc.not_replaced, by rw [hfate]; rfl, List.subset_cons_self _ _⟩

theorem exists_afterRest (hold : Movable moves old) (h : Plan legacy moves as) {σ τ : Schema}
    (hσ : AfterDrops legacy moves old σ) (hτ : AfterAdditions legacy moves σ τ) :
    ∃ υ, Alteration.applyAll (Alteration.ofPhase 2 as) τ = some υ ∧
      AfterRest legacy moves τ υ := by
  have hdisjoint : (Alteration.ofPhase 2 as).Pairwise fun a b => a.names.Disjoint b.names := by
    refine h.pairwise_ofPhase 2 fun a ha b hb hab => ?_
    obtain ⟨m, hm, hmr, hma, hmnames⟩ := h.exists_of_mem_rest ha
    obtain ⟨k, hk, hkr, hkb, hknames⟩ := h.exists_of_mem_rest hb
    have hne : m ≠ k := by
      rintro rfl
      rw [hma] at hkb
      exact hab (List.singleton_inj.1 hkb)
    exact fun n hna hnb => hold.disjoint hm hk hne hmr hkr (hmnames hna) (hknames hnb)
  have happlies : ∀ a ∈ Alteration.ofPhase 2 as, a.applies τ = true := by
    intro a ha
    obtain ⟨m, hm, ⟨hr, rfl⟩ | ⟨hc, rfl⟩⟩ := h.mem_rest_iff.1 ha
    · rw [Alteration.applies, hτ.present hσ hold hm hr.not_replaced, hτ.free hσ hold hm hr]
      rfl
    · have hpresent := hτ.present hσ hold hm hc.not_replaced
      rw [hc.spec.2] at hpresent
      rw [Alteration.applies, hpresent]
      rfl
  obtain ⟨υ, hυ, hnames, hothers⟩ := Alteration.applyAll_of_disjoint hdisjoint happlies
  refine ⟨υ, hυ, ?_, ?_, ?_, ?_⟩
  · intro m hm hr
    have hmem := h.mem_rest_iff.2 ⟨m, hm, Or.inl ⟨hr, rfl⟩⟩
    rw [hnames _ hmem m.oldName (by simp [Alteration.names]), Alteration.after,
      Function.update_of_ne hr.spec.2.1, Function.update_self]
  · intro m hm hr
    have hmem := h.mem_rest_iff.2 ⟨m, hm, Or.inl ⟨hr, rfl⟩⟩
    rw [hnames _ hmem m.newName (by simp [Alteration.names]), Alteration.after,
      Function.update_self]
  · intro m hm hc
    have hmem := h.mem_rest_iff.2 ⟨m, hm, Or.inr ⟨hc, rfl⟩⟩
    rw [hnames _ hmem m.newName (by simp [Alteration.names]), Alteration.after,
      Function.update_self]
  · intro n hrenamed hconverted
    refine hothers n fun a ha => ?_
    obtain ⟨m, hm, ⟨hr, rfl⟩ | ⟨hc, rfl⟩⟩ := h.mem_rest_iff.1 ha
    · obtain ⟨ho, hn⟩ := hrenamed m hm hr
      simp [Alteration.names, ho.symm, hn.symm]
    · simpa [Alteration.names] using (hconverted m hm hc).symm

/-! ## The whole migration -/

theorem Move.finalName_of_stuck {m : Move} (h : m.Stuck) : m.finalName = m.oldName := if_pos h

theorem Move.finalName_of_not_stuck {m : Move} (h : ¬ m.Stuck) : m.finalName = m.newName :=
  if_neg h

theorem Move.finalName_of_key_false {m : Move} (h : m.key = false) : m.finalName = m.newName :=
  finalName_of_not_stuck fun hs => Bool.noConfusion (h.symm.trans hs.1)

theorem Move.Renamed.finalName {m : Move} (h : m.Renamed legacy) : m.finalName = m.newName :=
  finalName_of_not_stuck fun hs => hs.2 h.spec.2.2

section Final

variable {σ τ υ : Schema} (hold : Movable moves old) (hσ : AfterDrops legacy moves old σ)
  (hτ : AfterAdditions legacy moves σ τ) (hυ : AfterRest legacy moves τ υ)

include hold hσ hτ hυ

/-- A column for which nothing is done is in the end what it was. -/
theorem final_oldName {m : Move} (hm : m ∈ moves) (h : (m.fate legacy).alterations = []) :
    υ m.oldName = some m.oldType := by
  have hne : ∀ k : Move, (k.fate legacy).alterations ≠ [] → k ≠ m := by
    rintro k hk rfl
    exact hk h
  have hreplaced : ¬ m.Replaced legacy := by
    intro hr
    have hr : m.fate legacy = _ := hr
    simp [hr, ColumnChange.alterations] at h
  rw [hυ.others, hτ.present hσ hold hm hreplaced]
  · intro k hk hkr
    have hkm : k ≠ m := hne k (by
      have hkr : k.fate legacy = _ := hkr
      simp [hkr, ColumnChange.alterations])
    exact ⟨fun he => hkm (hold.eq_of_oldName hk hm he),
      hold.newName_ne_oldName hk hm hkm hreplaced⟩
  · intro k hk hkc he
    have hkm : k ≠ m := hne k (by
      have hkc : k.fate legacy = _ := hkc
      simp [hkc, ColumnChange.alterations])
    exact hkm (hold.eq_of_oldName hk hm (hkc.spec.2.trans he))

omit hσ in
/-- A column that is added stays under its new name. -/
theorem final_newName {m : Move} (hm : m ∈ moves) (h : m.Replaced legacy) :
    υ m.newName = some m.newType := by
  rw [hυ.others, hτ.added m hm h]
  · intro k hk hkr
    have hkm : m ≠ k := fun he => hkr.not_replaced (he ▸ h)
    exact ⟨(hold.newName_ne_oldName hm hk hkm hkr.not_replaced).symm,
      fun he => hkm (hold.eq_of_newName hm hk he.symm)⟩
  · intro k hk hkc he
    have hkm : m ≠ k := fun he => hkc.not_replaced (he ▸ h)
    exact hkm (hold.eq_of_newName hm hk he.symm)

omit hold hσ in
/-- A name under which no column ends is free or taken as it was after the drops, unless a column of
    this name is renamed. -/
theorem final_of_notMem {n : String} (hn : n ∉ moves.map Move.finalName)
    (hrenamed : ∀ m ∈ moves, m.Renamed legacy → m.oldName ≠ n) : υ n = σ n := by
  have hfinal : ∀ m ∈ moves, m.finalName = m.newName → m.newName ≠ n := by
    rintro m hm hname rfl
    exact hn (List.mem_map.2 ⟨m, hm, hname⟩)
  rw [hυ.others, hτ.others]
  · intro m hm hr
    exact hfinal m hm (Move.finalName_of_key_false hr.key)
  · intro m hm hr
    exact ⟨hrenamed m hm hr, hfinal m hm hr.finalName⟩
  · intro m hm hc
    exact hfinal m hm (Move.finalName_of_key_false hc.spec.1)

theorem migrates_of_phases : Migrates moves old υ where
  moved := by
    intro m hm hkey
    rcases m.fate_cases legacy with ⟨hkept, _, hname, htype⟩ | ⟨_, hs⟩ | ⟨_, hkey', _⟩ | ⟨hc, _⟩ |
      ⟨hr, _⟩
    · rw [← hname, ← htype]
      exact final_oldName hold hσ hτ hυ hm (by rw [hkept]; rfl)
    · exact Bool.noConfusion (hkey.symm.trans hs.1)
    · exact Bool.noConfusion (hkey.symm.trans hkey')
    · exact hυ.converted m hm hc
    · exact final_newName hold hτ hυ hm hr
  renamed := by
    intro m hm hkey htype
    rcases m.fate_cases legacy with ⟨hkept, _, hname, _⟩ | ⟨_, hs⟩ | ⟨hr, _⟩ | ⟨_, hkey', _⟩ |
      ⟨_, hkey'⟩
    · rw [← hname]
      exact final_oldName hold hσ hτ hυ hm (by rw [hkept]; rfl)
    · exact absurd htype hs.2
    · rw [hυ.target m hm hr]
      exact hτ.present hσ hold hm hr.not_replaced
    · exact Bool.noConfusion (hkey.symm.trans hkey')
    · exact Bool.noConfusion (hkey.symm.trans hkey')
  stuck := by
    intro m hm hkey htype
    rcases m.fate_cases legacy with ⟨_, _, _, htype'⟩ | ⟨hskipped, _⟩ | ⟨_, _, _, htype'⟩ |
      ⟨_, hkey', _⟩ | ⟨_, hkey'⟩
    · exact absurd htype' htype
    · exact final_oldName hold hσ hτ hυ hm (by rw [hskipped]; rfl)
    · exact absurd htype' htype
    · exact Bool.noConfusion (hkey.symm.trans hkey')
    · exact Bool.noConfusion (hkey.symm.trans hkey')
  gone := by
    intro n hn hfinal
    obtain ⟨m, hm, rfl⟩ := List.mem_map.1 hn
    have hne : m.finalName ≠ m.oldName := fun he => hfinal (List.mem_map.2 ⟨m, hm, he⟩)
    rcases m.fate_cases legacy with ⟨_, hs, hname, _⟩ | ⟨_, hs⟩ | ⟨hr, _⟩ | ⟨hc, hkey, hname⟩ |
      ⟨hr, _⟩
    · exact absurd ((Move.finalName_of_not_stuck hs).trans hname.symm) hne
    · exact absurd (Move.finalName_of_stuck hs) hne
    · exact hυ.source m hm hr
    · exact absurd ((Move.finalName_of_key_false hkey).trans hname.symm) hne
    · rw [final_of_notMem hτ hυ hfinal, hσ.dropped m hm hr]
      intro k hk hkr he
      obtain rfl := hold.eq_of_oldName hk hm he
      exact hkr.not_replaced hr
  untouched := by
    intro n hn hfinal
    have hne : ∀ m ∈ moves, m.oldName ≠ n := fun m hm he => hn (List.mem_map.2 ⟨m, hm, he⟩)
    rw [final_of_notMem hτ hυ hfinal fun m hm _ => hne m hm, hσ.others]
    exact fun m hm _ => hne m hm

end Final

/-- All the alterations of a plan can be made, and they migrate the table. -/
theorem applyAll_of_movable (hold : Movable moves old) (h : Plan legacy moves as) :
    ∃ new, Alteration.applyAll as old = some new ∧ Migrates moves old new := by
  obtain ⟨σ, hdrops, hσ⟩ := exists_afterDrops hold h
  obtain ⟨τ, hadditions, hτ⟩ := exists_afterAdditions hold h hσ
  obtain ⟨υ, hrest, hυ⟩ := exists_afterRest hold h hσ hτ
  refine ⟨υ, ?_, migrates_of_phases hold hσ hτ hυ⟩
  rw [Alteration.eq_phases h.sorted, Alteration.applyAll_append, hdrops, Option.bind_some,
    Alteration.applyAll_append, hadditions, Option.bind_some, hrest]

end Phases

end AlterScript
