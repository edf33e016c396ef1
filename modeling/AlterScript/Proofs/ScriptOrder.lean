/-
  The order of a script.

  `perm_inOrder`, `pairwise_rank_inOrder` and `filter_slot_inOrder`: ordering rearranges statements,
  slot after slot, and within a slot it keeps their order. `slot_mem_precedence`: every command has
  a slot that the order knows. `ofTree_arranges_generated` puts them together for whole scripts.
  `sublist_ofStatements_iff` says which of two statements of a slot stands first,
  `perm_ofStatements` and `map_slot_eq_of_perm` what does not depend on the order in which the
  statements were generated.
-/
import Mathlib.Data.List.Nodup
import Mathlib.Data.List.Perm.Basic
import AlterScript.Proofs.Generated

namespace AlterScript

/-- Of two things in a list one comes first. -/
theorem sublist_or_sublist {α : Type} {xs : List α} {a b : α} (ha : a ∈ xs) (hb : b ∈ xs)
    (hne : a ≠ b) : [a, b].Sublist xs ∨ [b, a].Sublist xs := by
  obtain ⟨front, back, rfl⟩ := List.append_of_mem ha
  rcases List.mem_append.1 hb with hb | hb
  · exact .inr ((List.singleton_sublist.2 hb).append (List.singleton_sublist.2 List.mem_cons_self))
  · have hback : b ∈ back := (List.mem_cons.1 hb).resolve_left hne.symm
    exact .inl (((List.singleton_sublist.2 hback).cons_cons a).trans
      (List.sublist_append_right front (a :: back)))

namespace Script

/-! ## Duplicates -/

/-- What stays stands in the order of first occurrences. -/
theorem pairwise_idxOf_distinct (ss : List Statement) :
    (distinct ss).Pairwise fun a b => ss.idxOf a < ss.idxOf b := by
  induction ss with
  | nil => exact List.Pairwise.nil
  | cons t r ih =>
    rw [distinct, List.pairwise_cons]
    have hne : ∀ s ∈ (distinct r).filter (· ≠ t), (t :: r).idxOf s = r.idxOf s + 1 := by
      intro s hs
      have : s ≠ t := by simpa using (List.mem_filter.1 hs).2
      exact List.idxOf_cons_ne r this.symm
    constructor
    · intro s hs
      rw [hne s hs, List.idxOf_cons_self]
      omega
    · refine ((ih.sublist List.filter_sublist).imp_of_mem ?_)
      intro a b ha hb hab
      rw [hne a ha, hne b hb]
      omega

/-! ## Slots -/

/-- The place of a statement's slot in the order of the slots. -/
def rank (s : Statement) : Nat := precedence.idxOf (slot s)

theorem slot_mem_precedence (c : Command) : slot c.statement ∈ precedence := by
  cases c <;> simp [slot, precedence, Command.action, Command.level]

theorem pairwise_idxOf_precedence :
    precedence.Pairwise fun p q => precedence.idxOf p ≤ precedence.idxOf q := by decide

section Buckets

variable {α β : Type} [DecidableEq β] (f : α → β)

theorem perm_buckets {ps : List β} (h : ps.Nodup) (xs : List α) :
    (ps.flatMap (fun p => xs.filter (f · = p)) ++ xs.filter (f · ∉ ps)).Perm xs := by
  induction ps generalizing xs with
  | nil => simp
  | cons p ps ih =>
    obtain ⟨hp, hps⟩ := List.nodup_cons.1 h
    -- The buckets behind the first do not see what the first has taken.
    have hrest : ∀ q ∈ ps, (xs.filter (f · ≠ p)).filter (f · = q) = xs.filter (f · = q) := by
      intro q hq
      rw [List.filter_filter]
      refine List.filter_congr fun x _ => ?_
      by_cases hx : f x = q
      · have : q ≠ p := fun e => hp (e ▸ hq)
        simp [hx, this]
      · simp [hx]
    have htail : (xs.filter (f · ≠ p)).filter (f · ∉ ps) = xs.filter (f · ∉ p :: ps) := by
      rw [List.filter_filter]
      refine List.filter_congr fun x _ => ?_
      by_cases hx : f x = p <;> simp [hx]
    have := ih hps (xs.filter (f · ≠ p))
    rw [List.flatMap_congr hrest, htail] at this
    rw [List.flatMap_cons, List.append_assoc]
    refine (this.append_left _).trans ?_
    simpa using List.filter_append_perm (fun x => decide (f x = p)) xs

theorem filter_buckets (ps : List β) (q : β) (hq : q ∉ ps) (xs : List α) :
    (ps.flatMap fun p => xs.filter (f · = p)).filter (f · = q) = [] := by
  rw [List.filter_eq_nil_iff]
  intro x hx
  obtain ⟨p, hp, hxp⟩ := List.mem_flatMap.1 hx
  have : f x = p := by simpa using (List.mem_filter.1 hxp).2
  have : f x ≠ q := by
    rintro rfl
    exact hq (this ▸ hp)
  simpa using this

theorem filter_buckets_of_mem {ps : List β} (h : ps.Nodup) {q : β} (hq : q ∈ ps) (xs : List α) :
    (ps.flatMap fun p => xs.filter (f · = p)).filter (f · = q) = xs.filter (f · = q) := by
  induction ps with
  | nil => simp at hq
  | cons p ps ih =>
    obtain ⟨hp, hps⟩ := List.nodup_cons.1 h
    rw [List.flatMap_cons, List.filter_append]
    rcases List.mem_cons.1 hq with rfl | hq
    · rw [filter_buckets f ps q hp, List.append_nil, List.filter_filter]
      simp
    · have hne : p ≠ q := fun e => hp (e ▸ hq)
      have : (xs.filter (f · = p)).filter (f · = q) = [] := by
        simp only [List.filter_eq_nil_iff, List.mem_filter, decide_eq_true_eq]
        rintro x ⟨_, rfl⟩
        exact hne
      rw [this, ih hps hq, List.nil_append]

/-- A relation that holds within every bucket holds between any two things of one bucket. -/
theorem pairwise_of_buckets {R : α → α → Prop} {xs : List α}
    (h : ∀ p, (xs.filter (f · = p)).Pairwise R) :
    xs.Pairwise fun a b => f a = f b → R a b := by
  induction xs with
  | nil => exact List.Pairwise.nil
  | cons x xs ih =>
    rw [List.pairwise_cons]
    constructor
    · intro y hy hxy
      have hx := h (f x)
      rw [List.filter_cons_of_pos (by simp), List.pairwise_cons] at hx
      exact hx.1 y (List.mem_filter.2 ⟨hy, by simp [hxy]⟩)
    · refine ih fun p => (h p).sublist ?_
      exact (List.sublist_cons_self x xs).filter _

end Buckets

/-! ## Ordering -/

/-- Ordering loses nothing, invents nothing and doubles nothing. -/
theorem perm_inOrder (ss : List Statement) : (inOrder ss).Perm ss := by
  rw [inOrder]
  convert perm_buckets slot nodup_precedence ss

theorem pairwise_rank_inOrder (ss : List Statement) :
    (inOrder ss).Pairwise fun a b => rank a ≤ rank b := by
  rw [inOrder, List.pairwise_append]
  have hslot : ∀ p, ∀ s ∈ ss.filter (slot · = p), slot s = p := by
    intro p s hs
    simpa using (List.mem_filter.1 hs).2
  refine ⟨?_, ?_, ?_⟩
  · rw [List.pairwise_flatMap]
    constructor
    · intro p _
      refine List.pairwise_of_forall_mem_list ?_
      intro a ha b hb
      simp only [rank, hslot p a ha, hslot p b hb, Nat.le_refl]
    · refine pairwise_idxOf_precedence.imp ?_
      intro p q hpq a ha b hb
      rw [rank, rank, hslot p a ha, hslot q b hb]
      exact hpq
  · refine List.pairwise_of_forall_mem_list ?_
    intro a ha b hb
    have : ∀ s ∈ ss.filter (slot · ∉ precedence), rank s = precedence.length := by
      intro s hs
      exact List.idxOf_eq_length (by simpa using (List.mem_filter.1 hs).2)
    simp only [this a ha, this b hb, Nat.le_refl]
  · intro a _ b hb
    have : rank b = precedence.length :=
      List.idxOf_eq_length (by simpa using (List.mem_filter.1 hb).2)
    rw [this]
    exact List.idxOf_le_length

/-- Within a slot, ordering changes nothing. -/
theorem filter_slot_inOrder (p : Slot) (ss : List Statement) :
    (inOrder ss).filter (slot · = p) = ss.filter (slot · = p) := by
  rw [inOrder, List.filter_append]
  by_cases hp : p ∈ precedence
  · have : (ss.filter (slot · ∉ precedence)).filter (slot · = p) = [] := by
      simp only [List.filter_eq_nil_iff, List.mem_filter]
      rintro s ⟨_, hs⟩ hsp
      simp only [decide_eq_true_eq] at hs hsp
      exact hs (hsp ▸ hp)
    rw [filter_buckets_of_mem slot nodup_precedence hp, this, List.append_nil]
  · rw [filter_buckets slot precedence p hp, List.nil_append, List.filter_filter]
    refine List.filter_congr fun s _ => ?_
    by_cases hs : slot s = p <;> simp [hs, hp]

/-- What changes no slot can be done before or after ordering. -/
theorem inOrder_map {g : Statement → Statement} (h : ∀ s, slot (g s) = slot s)
    (ss : List Statement) : inOrder (ss.map g) = (inOrder ss).map g := by
  simp [inOrder, List.filter_map, Function.comp_def, h, List.map_flatMap]

theorem inOrder_gate (applyDrops : Bool) (ss : List Statement) :
    inOrder (gate applyDrops ss) = gate applyDrops (inOrder ss) := by
  cases applyDrops with
  | true => rfl
  | false =>
    refine inOrder_map (fun s => ?_) ss
    split <;> rfl

/-! ## Scripts -/

theorem ofStatements_eq_gate (applyDrops : Bool) (ss : List Statement) :
    ofStatements applyDrops ss = gate applyDrops (ofStatements true ss) :=
  inOrder_gate applyDrops (distinct ss)

/-- A script has the generated statements, those that drop something commented out unless drops are
    applied. -/
theorem mem_ofStatements_iff (applyDrops : Bool) (ss : List Statement) (s : Statement) :
    s ∈ ofStatements applyDrops ss ↔
      ∃ r ∈ ss, (if !applyDrops && r.isDestructive then r.commentedOut else r) = s := by
  rw [ofStatements, mem_inOrder]
  cases applyDrops with
  | true => simp
  | false => simp [gate]

theorem mem_ofStatements_true_iff {ss : List Statement} {st : Statement} :
    st ∈ ofStatements true ss ↔ st ∈ ss := by
  rw [ofStatements, mem_inOrder, gate_true, mem_distinct]

theorem nodup_ofStatements_true (ss : List Statement) : (ofStatements true ss).Nodup :=
  (perm_inOrder _).nodup_iff.2 (nodup_distinct ss)

/-! ## Statements that are no drops -/

section Kept

variable {ss : List Statement} {x y st : Statement}

/-- Gating leaves the statements of a slot as they are if they are no drops. -/
theorem filter_slot_gate {p : Slot} (hp : p.2 ≠ .drop) (applyDrops : Bool) :
    (gate applyDrops ss).filter (slot · = p) = ss.filter (slot · = p) := by
  cases applyDrops with
  | true => rfl
  | false =>
    show (ss.map _).filter _ = _
    induction ss with
    | nil => rfl
    | cons st ss ih =>
      rw [List.map_cons, List.filter_cons, List.filter_cons, ih]
      by_cases hdrop : st.isDestructive = true
      · have hne : slot st ≠ p := by
          rintro rfl
          rw [Statement.isDestructive, Bool.and_eq_true, beq_iff_eq] at hdrop
          exact hp hdrop.1
        have hne' : slot st.commentedOut ≠ p := hne
        simp [hdrop, hne, hne']
      · simp [hdrop]

/-- The statements of a slot stand in a script in the order in which they were generated, if they
    are no drops. -/
theorem filter_slot_ofStatements {p : Slot} (hp : p.2 ≠ .drop) (applyDrops : Bool) :
    (ofStatements applyDrops ss).filter (slot · = p) = (distinct ss).filter (slot · = p) := by
  rw [ofStatements, filter_slot_inOrder, filter_slot_gate hp]

theorem mem_ofStatements_iff_of_kept (hkept : st.action ≠ .drop) (applyDrops : Bool) :
    st ∈ ofStatements applyDrops ss ↔ st ∈ ss := by
  have hfilter : ∀ zs : List Statement, st ∈ zs.filter (slot · = slot st) ↔ st ∈ zs := by
    simp [List.mem_filter]
  have hslot : (slot st).2 ≠ .drop := hkept
  rw [← hfilter, filter_slot_ofStatements hslot, hfilter, mem_distinct]

theorem sublist_distinct_iff (hne : x ≠ y) :
    [x, y].Sublist (distinct ss) ↔ x ∈ ss ∧ y ∈ ss ∧ ss.idxOf x < ss.idxOf y := by
  have hordered : ∀ {x y}, [x, y].Sublist (distinct ss) → ss.idxOf x < ss.idxOf y := by
    intro x y h
    simpa using (pairwise_idxOf_distinct ss).sublist h
  constructor
  · intro h
    have hx : x ∈ distinct ss := h.subset List.mem_cons_self
    have hy : y ∈ distinct ss := h.subset (by simp)
    exact ⟨(mem_distinct x ss).1 hx, (mem_distinct y ss).1 hy, hordered h⟩
  · rintro ⟨hx, hy, hlt⟩
    rcases sublist_or_sublist ((mem_distinct x ss).2 hx) ((mem_distinct y ss).2 hy) hne with h | h
    · exact h
    · have := hordered h
      omega

/-- Of two statements of one slot that are no drops the one that is generated first stands first. -/
theorem sublist_ofStatements_iff (hne : x ≠ y) (hslot : slot x = slot y) (hkept : x.action ≠ .drop)
    (applyDrops : Bool) :
    [x, y].Sublist (ofStatements applyDrops ss) ↔
      x ∈ ss ∧ y ∈ ss ∧ ss.idxOf x < ss.idxOf y := by
  have hfilter : ∀ zs : List Statement,
      [x, y].Sublist (zs.filter (slot · = slot x)) ↔ [x, y].Sublist zs := by
    intro zs
    refine ⟨fun h => h.trans List.filter_sublist, fun h => ?_⟩
    have hboth : [x, y].filter (slot · = slot x) = [x, y] := by simp [hslot]
    exact hboth ▸ h.filter (slot · = slot x)
  have hkept : (slot x).2 ≠ .drop := hkept
  rw [← hfilter, filter_slot_ofStatements hkept, hfilter, sublist_distinct_iff hne]

/-- A statement of an earlier slot stands first. -/
theorem sublist_of_rank_lt {applyDrops : Bool} (hx : x ∈ ofStatements applyDrops ss)
    (hy : y ∈ ofStatements applyDrops ss) (hrank : rank x < rank y) :
    [x, y].Sublist (ofStatements applyDrops ss) := by
  have hne : x ≠ y := by
    rintro rfl
    omega
  rcases sublist_or_sublist hx hy hne with h | h
  · exact h
  · have hle : rank y ≤ rank x := by
      simpa using (pairwise_rank_inOrder (gate applyDrops (distinct ss))).sublist h
    omega

end Kept

/-! ## Statements in another order -/

theorem perm_distinct {ss ss' : List Statement} (h : ∀ st, st ∈ ss ↔ st ∈ ss') :
    (distinct ss).Perm (distinct ss') := by
  refine (List.perm_ext_iff_of_nodup (nodup_distinct ss) (nodup_distinct ss')).2 fun st => ?_
  rw [mem_distinct, mem_distinct, h]

theorem perm_gate {ss ss' : List Statement} (h : ss.Perm ss') (applyDrops : Bool) :
    (gate applyDrops ss).Perm (gate applyDrops ss') := by
  cases applyDrops with
  | true => exact h
  | false => exact h.map _

theorem perm_ofStatements {ss ss' : List Statement} (h : ∀ st, st ∈ ss ↔ st ∈ ss')
    (applyDrops : Bool) : (ofStatements applyDrops ss).Perm (ofStatements applyDrops ss') :=
  (perm_inOrder _).trans ((perm_gate (perm_distinct h) applyDrops).trans (perm_inOrder _).symm)

/-- What stands slot after slot has the same slots in whatever order it was given. -/
theorem map_slot_eq_of_perm {ss ss' : List Statement} (hperm : ss.Perm ss')
    (hss : ss.Pairwise fun a b => rank a ≤ rank b)
    (hss' : ss'.Pairwise fun a b => rank a ≤ rank b) (hknown : ∀ st ∈ ss, slot st ∈ precedence) :
    ss.map slot = ss'.map slot := by
  have hanti : ∀ p q, p ∈ ss.map slot → q ∈ ss'.map slot →
      precedence.idxOf p ≤ precedence.idxOf q → precedence.idxOf q ≤ precedence.idxOf p →
      p = q := by
    intro p q hp _ hpq hqp
    obtain ⟨st, hst, rfl⟩ := List.mem_map.1 hp
    exact (List.idxOf_inj (hknown st hst)).1 (Nat.le_antisymm hpq hqp)
  exact List.Perm.eq_of_pairwise hanti (List.pairwise_map.2 hss) (List.pairwise_map.2 hss')
    (hperm.map slot)

/-! ## Arrangements -/

/-- A script with its drops applied has what was generated, each statement once: slot after slot,
    and within a slot in the order of first occurrences. Every generated statement has a slot of the
    order, so none is left for the end. -/
structure Arranges (raw applied : List Statement) : Prop where
  perm : applied.Perm (distinct raw)
  nodup : applied.Nodup
  mem_iff : ∀ s, s ∈ applied ↔ s ∈ raw
  ranked : applied.Pairwise fun a b => rank a ≤ rank b
  stable : applied.Pairwise fun a b => slot a = slot b → raw.idxOf a < raw.idxOf b
  known : ∀ s ∈ raw, slot s ∈ precedence
  rest : applied.filter (slot · ∉ precedence) = []

theorem arranges_ofStatements {raw : List Statement} (h : ∀ s ∈ raw, slot s ∈ precedence) :
    Arranges raw (ofStatements true raw) := by
  have hperm : (ofStatements true raw).Perm (distinct raw) := perm_inOrder _
  have hmem : ∀ s, s ∈ ofStatements true raw ↔ s ∈ raw := by
    intro s
    rw [hperm.mem_iff, mem_distinct]
  refine ⟨hperm, hperm.nodup_iff.2 (nodup_distinct raw), hmem, pairwise_rank_inOrder _, ?_, h, ?_⟩
  · refine pairwise_of_buckets slot fun p => ?_
    have : (ofStatements true raw).filter (slot · = p) = (distinct raw).filter (slot · = p) :=
      filter_slot_inOrder p (distinct raw)
    rw [this]
    exact (pairwise_idxOf_distinct raw).sublist List.filter_sublist
  · rw [List.filter_eq_nil_iff]
    intro s hs
    simpa using h s ((hmem s).1 hs)

/-- A script arranges what was generated; without drops it is the same list with its drops gated. -/
theorem ofTree_arranges_generated {resolver : Resolver} {references : References} {mode : Mode}
    {root : Json} {final : List Statement}
    (h : ofTree resolver references mode root = .ok final) :
    ∃ raw applied,
      generated resolver references mode root = .ok raw ∧
      ofTree resolver references { mode with applyDrops := true } root = .ok applied ∧
      final = gate mode.applyDrops applied ∧
      Arranges raw applied := by
  obtain ⟨raw, hraw, rfl⟩ := ofTree_eq_ok_iff.1 h
  have hslot : ∀ s ∈ raw, slot s ∈ precedence := by
    intro s hs
    obtain ⟨c, rfl⟩ := exists_command_of_mem_generated hraw hs
    exact slot_mem_precedence c
  exact ⟨raw, ofStatements true raw, hraw, ofTree_eq_ok_iff.2 ⟨raw, hraw, rfl⟩,
    ofStatements_eq_gate _ raw, arranges_ofStatements hslot⟩

/-- Two nodes for one table, of which a column changes its name and the comment changes. -/
def renamedMail : Json :=
  let change (old new : String) : Json := .obj [("old", .str old), ("new", .str new)]
  let mail : Json := .obj [("name", .str "mail"), ("type", .str "string"),
    ("compMod", .obj [("oldField", .obj [("name", .str "email")]),
      ("newField", .obj [("name", .str "mail")])])]
  let users : Json := .obj [("role", .obj [("code", .str "users"),
      ("compMod", .obj [("keyspaceName", .str "app"), ("comments", change "a" "b")])]),
    ("properties", .obj [("mail", mail)])]
  ChangeTree.rootOf .tables .modified [("users", users), ("people", users)]

/-- The statements of the second node are those of the first, and the addition of the column stands
    behind the drop, which is not applied. -/
theorem ofTree_arranges_renamedMail :
    ∃ final, ofTree Resolver.builtin .empty {} renamedMail = .ok final ∧
      final.map Statement.text =
        ["ALTER TABLE \"app\".\"users\"\n\tWITH comment = 'b';",
          "-- ALTER TABLE \"app\".\"users\" DROP \"email\";",
          "ALTER TABLE \"app\".\"users\" ADD \"mail\" text;"] ∧
      ∃ raw applied,
        generated Resolver.builtin .empty {} renamedMail = .ok raw ∧
        ofTree Resolver.builtin .empty { applyDrops := true } renamedMail = .ok applied ∧
        final = gate false applied ∧
        Arranges raw applied :=
  ⟨[⟨"ALTER TABLE \"app\".\"users\"\n\tWITH comment = 'b';", true, .modify, .table⟩,
      ⟨"-- ALTER TABLE \"app\".\"users\" DROP \"email\";", false, .drop, .field⟩,
      ⟨"ALTER TABLE \"app\".\"users\" ADD \"mail\" text;", true, .add, .field⟩],
    rfl, rfl, ofTree_arranges_generated rfl⟩

end Script

end AlterScript
