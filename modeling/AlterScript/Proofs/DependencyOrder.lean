/-
  The order of things that use each other.

  `Dependency.perm_sorted`: ordering loses and invents nothing. `Dependency.pairwise_sorted`: where
  no thing uses itself by way of others, everything stands behind what it uses.
  `Dependency.sorted_eq_self`: things that stand so already stay as they are.
-/
import Mathlib.Data.Fintype.EquivFin
import Mathlib.Data.List.Enum
import Mathlib.Data.List.Perm.Basic
import Mathlib.Logic.Relation
import Mathlib.Order.WellFounded
import AlterScript.Dependency

namespace AlterScript

namespace Dependency

variable {α : Type} {uses : α → α → Bool}

/-! ## Circles -/

/-- The thing at one place uses the one at another place. -/
def UsesAt (uses : α → α → Bool) (xs : List α) (i j : Fin xs.length) : Prop :=
  i ≠ j ∧ uses xs[i] xs[j] = true

/-- Nothing uses itself by way of others. -/
def Acyclic (uses : α → α → Bool) (xs : List α) : Prop :=
  ∀ i, ¬ Relation.TransGen (UsesAt uses xs) i i

/-- Where nothing is used in a circle, some of the places hold a thing that uses none of the
    others. -/
theorem Acyclic.exists_least {xs : List α} (h : Acyclic uses xs) (places : Set (Fin xs.length))
    (hne : places.Nonempty) : ∃ i ∈ places, ∀ j ∈ places, ¬ UsesAt uses xs i j := by
  let under (j i : Fin xs.length) : Prop := Relation.TransGen (UsesAt uses xs) i j
  have htrans : IsTrans (Fin xs.length) under := ⟨fun _ _ _ hab hbc => hbc.trans hab⟩
  have hirrefl : Std.Irrefl under := ⟨h⟩
  have hwf : WellFounded under := Finite.wellFounded_of_trans_of_irrefl under
  obtain ⟨i, hi, hleast⟩ := hwf.has_min places hne
  exact ⟨i, hi, fun j hj huses => hleast j hj (.single huses)⟩

/-! ## Placing -/

/-- Things at their places in a list, each place once. -/
structure PlacedIn (xs : List α) (rest : Placed α) : Prop where
  nodup : (rest.map Prod.snd).Nodup
  at_place : ∀ x ∈ rest, xs[x.2]? = some x.1

theorem placedIn_zipIdx (xs : List α) : PlacedIn xs xs.zipIdx where
  nodup := by
    rw [List.zipIdx_map_snd]
    exact List.nodup_range' ..
  at_place x hx := (List.mem_zipIdx_iff_getElem?).1 hx

variable {xs : List α} {rest : Placed α} {x : α × Nat}

theorem PlacedIn.filter (h : PlacedIn xs rest) (p : α × Nat → Bool) :
    PlacedIn xs (rest.filter p) where
  nodup := h.nodup.sublist (List.filter_sublist.map Prod.snd)
  at_place y hy := h.at_place y (List.mem_of_mem_filter hy)

/-- The first thing goes, and the others are left as they are. -/
theorem filter_cons_self (hx : x.2 ∉ rest.map Prod.snd) :
    ((x :: rest).filter fun y => y.2 != x.2) = rest := by
  rw [List.filter_cons_of_neg (by simp)]
  refine List.filter_eq_self.2 fun y hy => bne_iff_ne.2 fun heq => hx ?_
  exact heq ▸ List.mem_map_of_mem hy

/-- A thing goes, and the others are left. -/
theorem perm_cons_filter (hnodup : (rest.map Prod.snd).Nodup) (hx : x ∈ rest) :
    (x :: rest.filter fun y => y.2 != x.2).Perm rest := by
  induction rest with
  | nil => cases hx
  | cons y r ih =>
    obtain ⟨hy, hr⟩ := List.nodup_cons.1 hnodup
    rcases List.mem_cons.1 hx with rfl | hx
    · rw [filter_cons_self hy]
    · have hne : y.2 ≠ x.2 := fun heq => hy (heq ▸ List.mem_map_of_mem hx)
      rw [List.filter_cons_of_pos (by simpa using hne)]
      exact (List.Perm.swap y x _).trans ((ih hr hx).cons y)

/-- What is placed is what there was, and none of it uses what is placed later. -/
theorem placed_spec {n : Nat} {r : Placed α} (hnodup : (rest.map Prod.snd).Nodup)
    (h : placed uses n rest = some r) :
    r.Perm rest ∧ r.Pairwise fun x y => uses x.1 y.1 = false := by
  induction n generalizing rest r with
  | zero =>
    cases rest with
    | nil => exact (Option.some.inj h) ▸ ⟨.nil, .nil⟩
    | cons x rest => simp [placed] at h
  | succ n ih =>
    cases rest with
    | nil => exact (Option.some.inj h) ▸ ⟨.nil, .nil⟩
    | cons x rest =>
      simp only [placed] at h
      split at h
      · cases h
      · rename_i y hy
        obtain ⟨r, hr, rfl⟩ := Option.map_eq_some_iff.1 h
        obtain ⟨hperm, hpairwise⟩ :=
          ih (hnodup.sublist (List.Sublist.map Prod.snd List.filter_sublist)) hr
        refine ⟨(hperm.cons y).trans (perm_cons_filter hnodup (List.mem_of_find?_eq_some hy)),
          List.pairwise_cons.2 ⟨fun z hz => ?_, hpairwise⟩⟩
        -- The thing was free, and `z` has another place.
        obtain ⟨hz, hne⟩ := List.mem_filter.1 (hperm.subset hz)
        have hfree : isFree uses (x :: rest) y = true := List.find?_some hy
        have hfree := List.all_eq_true.1 hfree z hz
        rw [Bool.or_eq_true, beq_iff_eq, Bool.not_eq_true'] at hfree
        exact hfree.resolve_left (bne_iff_ne.1 hne)

/-- Where there is no circle, some thing is free. -/
theorem Acyclic.exists_free (h : Acyclic uses xs) (hrest : PlacedIn xs rest) (hne : rest ≠ []) :
    ∃ x ∈ rest, isFree uses rest x = true := by
  obtain ⟨y, hy⟩ := List.exists_mem_of_ne_nil rest hne
  have hplace : ∀ x ∈ rest, ∃ i : Fin xs.length, i.val = x.2 ∧ xs[i] = x.1 := by
    intro x hx
    obtain ⟨hlt, hget⟩ := List.getElem?_eq_some_iff.1 (hrest.at_place x hx)
    exact ⟨⟨x.2, hlt⟩, rfl, hget⟩
  obtain ⟨k, hk, -⟩ := hplace y hy
  obtain ⟨i, ⟨x, hx, hi⟩, hleast⟩ :=
    h.exists_least (fun i => ∃ x ∈ rest, i.val = x.2) ⟨k, y, hy, hk⟩
  refine ⟨x, hx, List.all_eq_true.2 fun z hz => ?_⟩
  by_contra hused
  rw [Bool.not_eq_true, Bool.or_eq_false_iff, beq_eq_false_iff_ne, Bool.not_eq_false'] at hused
  obtain ⟨j, hj, hzj⟩ := hplace z hz
  obtain ⟨i', hi', hxi⟩ := hplace x hx
  obtain rfl : i' = i := Fin.ext (hi'.trans hi.symm)
  refine hleast j ⟨z, hz, hj⟩ ⟨fun heq => hused.1 ?_, ?_⟩
  · rw [← hj, ← hi, heq]
  · rw [hxi, hzj]
    exact hused.2

/-- Where there is no circle, everything is placed. -/
theorem Acyclic.exists_placed (h : Acyclic uses xs) {n : Nat} (hrest : PlacedIn xs rest)
    (hn : rest.length ≤ n) : ∃ r, placed uses n rest = some r := by
  induction n generalizing rest with
  | zero =>
    obtain rfl := List.length_eq_zero_iff.1 (Nat.le_zero.1 hn)
    exact ⟨[], rfl⟩
  | succ n ih =>
    cases rest with
    | nil => exact ⟨[], rfl⟩
    | cons x rest =>
      obtain ⟨y, hy⟩ : ∃ y, (x :: rest).find? (isFree uses (x :: rest)) = some y := by
        obtain ⟨y, hy, hfree⟩ := h.exists_free hrest (List.cons_ne_nil x rest)
        exact Option.isSome_iff_exists.1 (List.find?_isSome.2 ⟨y, hy, hfree⟩)
      have hlength :=
        (perm_cons_filter hrest.nodup (List.mem_of_find?_eq_some hy)).length_eq
      rw [List.length_cons] at hlength
      obtain ⟨r, hr⟩ := ih (hrest.filter fun z => z.2 != y.2) (by omega)
      exact ⟨y :: r, by simp only [placed, hy, hr, Option.map_some]⟩

/-- Things that do not use later ones are placed as they stand. -/
theorem placed_eq_self {n : Nat} (hnodup : (rest.map Prod.snd).Nodup)
    (h : rest.Pairwise fun x y => uses x.1 y.1 = false) (hn : rest.length ≤ n) :
    placed uses n rest = some rest := by
  induction n generalizing rest with
  | zero =>
    obtain rfl := List.length_eq_zero_iff.1 (Nat.le_zero.1 hn)
    rfl
  | succ n ih =>
    cases rest with
    | nil => rfl
    | cons x rest =>
      obtain ⟨hx, hrest⟩ := List.pairwise_cons.1 h
      obtain ⟨hplace, hnodup⟩ := List.nodup_cons.1 hnodup
      have hfree : isFree uses (x :: rest) x = true := by
        refine List.all_eq_true.2 fun y hy => ?_
        rcases List.mem_cons.1 hy with rfl | hy
        · simp
        · simp [hx y hy]
      simp only [placed, List.find?_cons, hfree]
      rw [filter_cons_self hplace, ih hnodup hrest (Nat.le_of_succ_le_succ hn)]
      rfl

/-! ## Ordering -/

theorem perm_sorted (uses : α → α → Bool) (xs : List α) : (sorted uses xs).Perm xs := by
  rw [sorted]
  cases h : placed uses xs.length xs.zipIdx with
  | none => exact .refl xs
  | some r =>
    have hperm := (placed_spec (placedIn_zipIdx xs).nodup h).1.map Prod.fst
    rwa [List.zipIdx_map_fst] at hperm

theorem Acyclic.pairwise_sorted (h : Acyclic uses xs) :
    (sorted uses xs).Pairwise fun x y => uses x y = false := by
  obtain ⟨r, hr⟩ := h.exists_placed (placedIn_zipIdx xs) (List.length_zipIdx).le
  rw [sorted, hr]
  exact List.pairwise_map.2 (placed_spec (placedIn_zipIdx xs).nodup hr).2

theorem sorted_eq_self (h : xs.Pairwise fun x y => uses x y = false) : sorted uses xs = xs := by
  have hfst : (xs.zipIdx.map Prod.fst).Pairwise fun x y => uses x y = false := by
    rwa [List.zipIdx_map_fst]
  have hplaced := List.pairwise_map.1 hfst
  rw [sorted, placed_eq_self (placedIn_zipIdx xs).nodup hplaced (List.length_zipIdx).le,
    Option.map_some, List.zipIdx_map_fst, Option.getD_some]

end Dependency

end AlterScript
