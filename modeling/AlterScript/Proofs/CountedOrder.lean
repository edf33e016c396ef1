/-
  Ordering by counting.

  Every thing waits for a number of others. The earliest one that waits for none is placed, and
  those that waited for it wait for one less. `Graph.count_spec`: no number falls below zero, and
  every thing is placed at its earliest, until nothing is left or all that is left waits.
  `Graph.Earliest.lex_le`: an order of this kind is the lexicographically least one.
  `Dependency.counted_eq_sorted`: counting places things as `Dependency.sorted` does, so that
  `UserType.inOrder_counted` says of the new types what the counts say.
-/
import Mathlib.Data.List.Find
import Mathlib.Order.Bounds.Basic
import AlterScript.Proofs.DependencyOrder
import AlterScript.UserType.Dependency

namespace AlterScript

/-! ## Graphs -/

/-- A directed graph of numbers below its size. -/
structure Graph where
  size : Nat
  edge : Nat → Nat → Bool

namespace Graph

variable {g : Graph} {order : List Nat}

/-- An edge between two numbers of the graph. -/
def Edge (g : Graph) (i j : Nat) : Prop := i < g.size ∧ j < g.size ∧ g.edge i j = true

def HasCycle (g : Graph) : Prop := ∃ i, Relation.TransGen g.Edge i i

/-- Every number has its place, and every edge leads to a later one. -/
structure Sorts (g : Graph) (order : List Nat) : Prop where
  perm : order.Perm (List.range g.size)
  later : ∀ i j, g.Edge i j → order.idxOf i < order.idxOf j

theorem Sorts.not_hasCycle (h : g.Sorts order) : ¬ g.HasCycle := by
  rintro ⟨i, hi⟩
  have hlater : ∀ j, Relation.TransGen g.Edge i j → order.idxOf i < order.idxOf j := by
    intro j hj
    induction hj with
    | single hedge => exact h.later _ _ hedge
    | tail _ hedge ih => exact ih.trans (h.later _ _ hedge)
  exact Nat.lt_irrefl _ (hlater i hi)

/-- The numbers that can be placed behind the given ones. -/
def ready (g : Graph) (order : List Nat) : Set Nat :=
  {i | i < g.size ∧ i ∉ order ∧ ∀ j, g.Edge j i → j ∈ order}

/-- At each place stands the least number that can stand there. -/
def Earliest (g : Graph) (order : List Nat) : Prop :=
  ∀ front i rest, order = front ++ i :: rest → IsLeast (g.ready front) i

/-- What is in front of a number is what has an earlier place. -/
theorem idxOf_lt_iff {front rest : List Nat} {i j : Nat} (hi : i ∉ front) :
    (front ++ i :: rest).idxOf j < (front ++ i :: rest).idxOf i ↔ j ∈ front := by
  rw [List.idxOf_append_of_notMem hi, List.idxOf_cons_self, Nat.add_zero]
  by_cases hj : j ∈ front
  · rw [List.idxOf_append_of_mem hj]
    exact iff_of_true (List.idxOf_lt_length_iff.2 hj) hj
  · rw [List.idxOf_append_of_notMem hj]
    exact iff_of_false (by omega) hj

theorem Earliest.sorts (h : g.Earliest order) (hperm : order.Perm (List.range g.size)) :
    g.Sorts order where
  perm := hperm
  later i j hedge := by
    have hj : j ∈ order := hperm.mem_iff.2 (List.mem_range.2 hedge.2.1)
    obtain ⟨front, rest, horder, hnot⟩ := List.eq_append_cons_of_mem hj
    have hi : i ∈ front := (h front j rest horder).1.2.2 i hedge
    rw [horder]
    exact (idxOf_lt_iff hnot).2 hi

/-- What stands next in an order can stand there. -/
theorem Sorts.mem_ready {front rest : List Nat} {i : Nat} (h : g.Sorts (front ++ i :: rest)) :
    i ∈ g.ready front := by
  have hnodup : (front ++ i :: rest).Nodup := h.perm.nodup_iff.2 List.nodup_range
  have hi : i ∉ front := fun hi => (List.nodup_append.1 hnodup).2.2 i hi i List.mem_cons_self rfl
  refine ⟨?_, hi, fun j hedge => (idxOf_lt_iff hi).1 (h.later j i hedge)⟩
  exact List.mem_range.1 (h.perm.mem_iff.1 (List.mem_append_right _ List.mem_cons_self))

/-- Where each number is placed at its earliest, no other order is less. -/
theorem Earliest.lex_le (h : g.Earliest order) (hperm : order.Perm (List.range g.size))
    {other : List Nat} (hother : g.Sorts other) :
    order = other ∨ List.Lex (· < ·) order other := by
  -- The induction is on what is left of both orders behind a common front.
  suffices hleft : ∀ rest rest' front, order = front ++ rest → other = front ++ rest' →
      rest.length = rest'.length → rest = rest' ∨ List.Lex (· < ·) rest rest' from
    hleft order other [] rfl rfl (hperm.length_eq.trans hother.perm.length_eq.symm)
  intro rest
  induction rest with
  | nil =>
    intro rest' _ _ _ hlength
    exact .inl (List.length_eq_zero_iff.1 hlength.symm).symm
  | cons i rest ih =>
    intro rest' front horder hother' hlength
    cases rest' with
    | nil => cases hlength
    | cons k rest' =>
      subst hother'
      rcases ((h front i rest horder).2 hother.mem_ready).lt_or_eq with hlt | rfl
      · exact .inr (.rel hlt)
      · have hfront := ih rest' (front ++ [i]) (by simp [horder]) (by simp)
          (Nat.succ.inj hlength)
        rcases hfront with rfl | hlex
        · exact .inl rfl
        · exact .inr (.cons hlex)

/-! ## Counting -/

/-- Where edges come from that lead to a number. -/
def incoming (g : Graph) (i : Nat) : List Nat := (List.range g.size).filter (g.edge · i)

/-- Where edges lead that come from a number. -/
def outgoing (g : Graph) (i : Nat) : List Nat := (List.range g.size).filter (g.edge i ·)

/-- How many others each number waits for at first. -/
def degrees (g : Graph) : List Nat := (List.range g.size).map fun i => (g.incoming i).length

/-- One less for a number; none if there is nothing to take off. -/
def decrement (counts : List Nat) (i : Nat) : Option (List Nat) :=
  match counts[i]? with
  | some (n + 1) => some (counts.set i n)
  | _ => none

/-- The earliest number that is not placed and waits for none. -/
def next? (counts order : List Nat) : Option Nat :=
  (List.range counts.length).find? fun i => !order.contains i && counts[i]? == some 0

/-- How counting ends. -/
inductive Counted
  | placed (order : List Nat)
  /-- Some numbers are left, and all of them wait. -/
  | stuck (order : List Nat)
  /-- A number would have to wait for less than none. -/
  | underflow
deriving DecidableEq, Repr

/-- Places the `n` numbers that are left behind those that are placed. -/
def count (g : Graph) : Nat → List Nat → List Nat → Counted
  | 0, _, order => .placed order
  | n + 1, counts, order =>
    match next? counts order with
    | none => .stuck order
    | some i =>
      match (g.outgoing i).foldlM decrement counts with
      | none => .underflow
      | some counts => g.count n counts (order ++ [i])

/-- How many others each number waits for when some are placed. -/
def waiting (g : Graph) (order : List Nat) : List Nat :=
  (List.range g.size).map fun i => ((g.incoming i).filter (· ∉ order)).length

theorem waiting_nil (g : Graph) : g.waiting [] = g.degrees := by simp [waiting, degrees]

theorem mem_incoming {i j : Nat} (hi : i < g.size) : j ∈ g.incoming i ↔ g.Edge j i := by
  simp [incoming, Edge, hi]

theorem mem_outgoing {i j : Nat} (hi : i < g.size) : j ∈ g.outgoing i ↔ g.Edge i j := by
  simp [outgoing, Edge, hi]

theorem nodup_incoming (g : Graph) (i : Nat) : (g.incoming i).Nodup := List.nodup_range.filter _

theorem nodup_outgoing (g : Graph) (i : Nat) : (g.outgoing i).Nodup := List.nodup_range.filter _

theorem getElem?_waiting {i : Nat} (hi : i < g.size) :
    (g.waiting order)[i]? = some ((g.incoming i).filter (· ∉ order)).length := by
  simp [waiting, hi]

/-- One less for each of some numbers, all of which wait. -/
theorem foldlM_decrement {is counts : List Nat} (hnodup : is.Nodup)
    (h : ∀ i ∈ is, ∃ n, counts[i]? = some (n + 1)) :
    is.foldlM decrement counts = some (counts.mapIdx fun i n => if i ∈ is then n - 1 else n) := by
  induction is generalizing counts with
  | nil =>
    refine congrArg some (List.ext_getElem? fun k => ?_)
    simp
  | cons i is ih =>
    obtain ⟨hi, hnodup⟩ := List.nodup_cons.1 hnodup
    obtain ⟨n, hn⟩ := h i List.mem_cons_self
    have hlt : i < counts.length := (List.getElem?_eq_some_iff.1 hn).1
    have hrest : ∀ j ∈ is, ∃ n', (counts.set i n)[j]? = some (n' + 1) := by
      intro j hj
      have hne : i ≠ j := ne_of_mem_of_not_mem hj hi |>.symm
      rw [List.getElem?_set_ne hne]
      exact h j (List.mem_cons_of_mem i hj)
    have hfirst : decrement counts i = some (counts.set i n) := by
      rw [decrement, hn]
    rw [List.foldlM_cons, hfirst]
    refine (ih hnodup hrest).trans (congrArg some (List.ext_getElem? fun k => ?_))
    rw [List.getElem?_mapIdx, List.getElem?_mapIdx]
    by_cases hk : k = i
    · subst hk
      rw [List.getElem?_set_self hlt, hn]
      simp [hi]
    · rw [List.getElem?_set_ne (Ne.symm hk)]
      simp [hk]

theorem length_filter_notMem_append {is : List Nat} (hnodup : is.Nodup) {i : Nat} (hi : i ∉ order) :
    (is.filter (· ∉ order ++ [i])).length =
      if i ∈ is then (is.filter (· ∉ order)).length - 1 else (is.filter (· ∉ order)).length := by
  have herase : is.filter (· ∉ order ++ [i]) = (is.filter (· ∉ order)).erase i := by
    rw [(hnodup.filter _).erase_eq_filter, List.filter_filter]
    refine List.filter_congr fun j _ => ?_
    by_cases hj : j = i <;> simp [hj]
  rw [herase, List.length_erase]
  simp [hi]

/-- When a number is placed, every number that waited for it waits for one less. -/
theorem foldlM_outgoing {i : Nat} (hi : i < g.size) (hnot : i ∉ order) :
    (g.outgoing i).foldlM decrement (g.waiting order) = some (g.waiting (order ++ [i])) := by
  have hwaits : ∀ k ∈ g.outgoing i, ∃ n, (g.waiting order)[k]? = some (n + 1) := by
    intro k hk
    have hedge : g.Edge i k := (mem_outgoing hi).1 hk
    have hmem : i ∈ (g.incoming k).filter (· ∉ order) :=
      List.mem_filter.2 ⟨(mem_incoming hedge.2.1).2 hedge, decide_eq_true hnot⟩
    obtain ⟨n, hn⟩ := Nat.exists_eq_succ_of_ne_zero (List.length_pos_of_mem hmem).ne'
    exact ⟨n, (getElem?_waiting hedge.2.1).trans (congrArg some hn)⟩
  rw [foldlM_decrement (nodup_outgoing g i) hwaits]
  refine congrArg some (List.ext_getElem? fun k => ?_)
  rw [List.getElem?_mapIdx]
  by_cases hk : k < g.size
  · have hmem : k ∈ g.outgoing i ↔ i ∈ g.incoming k :=
        (mem_outgoing hi).trans (mem_incoming hk).symm
    rw [getElem?_waiting hk, getElem?_waiting hk, Option.map_some,
      length_filter_notMem_append (nodup_incoming g k) hnot]
    simp only [hmem]
  · simp [waiting, hk]

theorem mem_ready_iff {i : Nat} (hi : i < g.size) :
    (!order.contains i && (g.waiting order)[i]? == some 0) = true ↔ i ∈ g.ready order := by
  rw [getElem?_waiting hi]
  simp [ready, hi, mem_incoming]

theorem next?_eq_some_iff {i : Nat} :
    next? (g.waiting order) order = some i ↔ IsLeast (g.ready order) i := by
  have hlength : (g.waiting order).length = g.size := by simp [waiting]
  rw [next?, hlength, List.find?_range_eq_some]
  constructor
  · rintro ⟨hfree, hi, hleast⟩
    refine ⟨(mem_ready_iff (List.mem_range.1 hi)).1 hfree, fun j hj => ?_⟩
    by_contra hlt
    have hnot := hleast j (Nat.lt_of_not_le hlt)
    rw [(mem_ready_iff hj.1).2 hj] at hnot
    cases hnot
  · rintro ⟨hi, hleast⟩
    refine ⟨(mem_ready_iff hi.1).2 hi, List.mem_range.2 hi.1, fun j hj => ?_⟩
    rw [Bool.not_eq_true', ← Bool.not_eq_true, mem_ready_iff (hj.trans hi.1)]
    exact fun hready => absurd (hleast hready) (Nat.not_le.2 hj)

theorem ready_eq_empty_of_next? (h : next? (g.waiting order) order = none) :
    g.ready order = ∅ := by
  have hlength : (g.waiting order).length = g.size := by simp [waiting]
  rw [next?, hlength, List.find?_eq_none] at h
  refine Set.eq_empty_iff_forall_notMem.2 fun i hi => ?_
  exact h i (List.mem_range.2 hi.1) ((mem_ready_iff hi.1).2 hi)

/-- No number ever waits for less than none. Every number is placed at its earliest; if the numbers
    are not all placed, then all that are left wait. -/
theorem count_spec (g : Graph) (n : Nat) (order : List Nat) :
    (∃ rest, rest.length = n ∧ g.count n (g.waiting order) order = .placed (order ++ rest) ∧
      ∀ front i back, rest = front ++ i :: back → IsLeast (g.ready (order ++ front)) i) ∨
    ∃ rest, rest.length < n ∧ g.count n (g.waiting order) order = .stuck (order ++ rest) ∧
      g.ready (order ++ rest) = ∅ := by
  induction n generalizing order with
  | zero => exact .inl ⟨[], rfl, by rw [count, List.append_nil], by simp⟩
  | succ n ih =>
    rw [count]
    cases hnext : next? (g.waiting order) order with
    | none =>
      refine .inr ⟨[], Nat.succ_pos n, by rw [List.append_nil], ?_⟩
      rw [List.append_nil]
      exact ready_eq_empty_of_next? hnext
    | some i =>
      have hleast : IsLeast (g.ready order) i := next?_eq_some_iff.1 hnext
      have hcounts := foldlM_outgoing hleast.1.1 hleast.1.2.1
      simp only [hcounts]
      rcases ih (order ++ [i]) with ⟨rest, hlength, hcount, hrest⟩ | ⟨rest, hlength, hcount, hrest⟩
      · refine .inl ⟨i :: rest, congrArg Nat.succ hlength, by simpa using hcount, ?_⟩
        rintro (_ | ⟨_, front⟩) k back heq
        · obtain rfl : i = k := (List.cons.inj heq).1
          rwa [List.append_nil]
        · obtain ⟨rfl, rfl⟩ := List.cons.inj heq
          simpa using hrest front k back rfl
      · refine .inr ⟨i :: rest, Nat.succ_lt_succ hlength, ?_, by simpa using hrest⟩
        simpa using hcount

end Graph

/-! ## Things that use each other -/

namespace Dependency

variable {α : Type} {uses : α → α → Bool} {xs : List α}

/-- The graph of uses, with an edge from every thing to those that use it. -/
def graphOf (uses : α → α → Bool) (xs : List α) : Graph where
  size := xs.length
  edge j i := i != j && ((xs[i]?.bind fun x => xs[j]?.map (uses x)).getD false)

/-- The things behind those they use: as they are if a test finds a cycle, and else by counting.
    None if counting goes below zero. -/
def counted (isCyclic : Graph → Bool) (uses : α → α → Bool) (xs : List α) : Option (List α) :=
  let g := graphOf uses xs
  if isCyclic g then some xs
  else
    match g.count g.size g.degrees [] with
    | .placed order | .stuck order => some (order.filterMap (xs[·]?))
    | .underflow => none

theorem edge_graphOf_iff {i j : Nat} :
    (graphOf uses xs).Edge j i ↔
      ∃ x y, xs[i]? = some x ∧ xs[j]? = some y ∧ i ≠ j ∧ uses x y = true := by
  constructor
  · rintro ⟨hj, hi, hedge⟩
    have hi : i < xs.length := hi
    have hj : j < xs.length := hj
    refine ⟨xs[i], xs[j], List.getElem?_eq_getElem hi, List.getElem?_eq_getElem hj, ?_⟩
    simpa [graphOf, hi, hj] using hedge
  · rintro ⟨x, y, hx, hy, hne, huses⟩
    refine ⟨(List.getElem?_eq_some_iff.1 hy).1, (List.getElem?_eq_some_iff.1 hx).1, ?_⟩
    simp [graphOf, hx, hy, hne, huses]

theorem acyclic_of_not_hasCycle (h : ¬ (graphOf uses xs).HasCycle) : Acyclic uses xs := by
  intro i hi
  have hedge : ∀ a b, UsesAt uses xs a b → (graphOf uses xs).Edge b a := by
    rintro a b ⟨hne, huses⟩
    exact edge_graphOf_iff.2 ⟨xs[a], xs[b], List.getElem?_eq_getElem a.isLt,
      List.getElem?_eq_getElem b.isLt, fun heq => hne (Fin.ext heq), huses⟩
  have hback : Relation.TransGen (fun a b => (graphOf uses xs).Edge b a) i.val i.val :=
    hi.lift Fin.val hedge
  exact h ⟨i.val, Relation.transGen_swap.1 hback⟩

/-- The things that are left when some places are taken. -/
def left (xs : List α) (order : List Nat) : Placed α := xs.zipIdx.filter (·.2 ∉ order)

variable {order : List Nat} {x : α × Nat}

theorem mem_left_iff : x ∈ left xs order ↔ xs[x.2]? = some x.1 ∧ x.2 ∉ order := by
  rw [left, List.mem_filter, List.mem_zipIdx_iff_getElem?, decide_eq_true_eq]

theorem left_append (i : Nat) : (left xs order).filter (·.2 != i) = left xs (order ++ [i]) := by
  rw [left, left, List.filter_filter]
  refine List.filter_congr fun y _ => ?_
  by_cases hy : y.2 = i <;> simp [hy]

/-- A thing is free exactly if its place can be the next one. -/
theorem mem_ready_graphOf_iff (hx : x ∈ left xs order) :
    x.2 ∈ (graphOf uses xs).ready order ↔ isFree uses (left xs order) x = true := by
  obtain ⟨hget, hnot⟩ := mem_left_iff.1 hx
  rw [isFree, List.all_eq_true]
  constructor
  · rintro ⟨_, _, hall⟩ y hy
    obtain ⟨hy, hynot⟩ := mem_left_iff.1 hy
    by_contra hused
    rw [Bool.not_eq_true, Bool.or_eq_false_iff, beq_eq_false_iff_ne, Bool.not_eq_false'] at hused
    exact hynot (hall y.2 (edge_graphOf_iff.2 ⟨x.1, y.1, hget, hy, hused.1.symm, hused.2⟩))
  · intro hall
    refine ⟨(List.getElem?_eq_some_iff.1 hget).1, hnot, fun j hedge => ?_⟩
    by_contra hj
    obtain ⟨x', y, hx', hy, hne, huses⟩ := edge_graphOf_iff.1 hedge
    obtain rfl : x.1 = x' := Option.some.inj (hget.symm.trans hx')
    have hfree := hall (y, j) (mem_left_iff.2 ⟨hy, hj⟩)
    simp [hne.symm, huses] at hfree

/-- The first free thing is the one that counting places next. -/
theorem map_find?_isFree (xs : List α) (order : List Nat) :
    ((left xs order).find? (isFree uses (left xs order))).map Prod.snd =
      Graph.next? ((graphOf uses xs).waiting order) order := by
  have hlength : ((graphOf uses xs).waiting order).length = xs.length := by
    simp [Graph.waiting, graphOf]
  have hplaces : List.range xs.length = xs.zipIdx.map Prod.snd := by
    rw [List.zipIdx_map_snd, List.range_eq_range']
  have hleft : (left xs order).find? (isFree uses (left xs order)) =
      xs.zipIdx.find? fun x => x.2 ∉ order ∧ isFree uses (left xs order) x = true := by
    simp only [left, List.find?_filter, decide_eq_true_eq]
    rfl
  rw [Graph.next?, hlength, hplaces, List.find?_map, hleft]
  refine congrArg _ (List.find?_congr fun x hx => ?_)
  have hget : xs[x.2]? = some x.1 := List.mem_zipIdx_iff_getElem?.1 hx
  have hlt : x.2 < (graphOf uses xs).size := (List.getElem?_eq_some_iff.1 hget).1
  rw [Bool.eq_iff_iff, decide_eq_true_eq, Function.comp_apply, Graph.mem_ready_iff hlt]
  constructor
  · rintro ⟨hnot, hfree⟩
    exact (mem_ready_graphOf_iff (mem_left_iff.2 ⟨hget, hnot⟩)).2 hfree
  · intro hready
    exact ⟨hready.2.1, (mem_ready_graphOf_iff (mem_left_iff.2 ⟨hget, hready.2.1⟩)).1 hready⟩

theorem exists_of_placed {n : Nat} {rest r : Placed α} (hne : rest ≠ [])
    (h : placed uses (n + 1) rest = some r) :
    ∃ x r', rest.find? (isFree uses rest) = some x ∧
      placed uses n (rest.filter (·.2 != x.2)) = some r' ∧ r = x :: r' := by
  cases rest with
  | nil => exact absurd rfl hne
  | cons y rest =>
    simp only [placed] at h
    split at h
    · cases h
    · rename_i x hx
      obtain ⟨r', hr', rfl⟩ := Option.map_eq_some_iff.1 h
      exact ⟨x, r', hx, hr', rfl⟩

theorem nodup_left (xs : List α) (order : List Nat) : ((left xs order).map Prod.snd).Nodup :=
  ((placedIn_zipIdx xs).filter _).nodup

/-- Counting places the things that are left as they are placed one by one. -/
theorem count_of_placed {n : Nat} {r : Placed α} (hlength : (left xs order).length = n)
    (h : placed uses n (left xs order) = some r) :
    (graphOf uses xs).count n ((graphOf uses xs).waiting order) order =
      .placed (order ++ r.map Prod.snd) := by
  induction n generalizing order r with
  | zero =>
    rw [List.length_eq_zero_iff.1 hlength] at h
    obtain rfl : [] = r := Option.some.inj h
    rw [Graph.count, List.map_nil, List.append_nil]
  | succ n ih =>
    have hne : left xs order ≠ [] := fun hnil => by simp [hnil] at hlength
    obtain ⟨x, r, hx, hr, rfl⟩ := exists_of_placed hne h
    have hmem : x ∈ left xs order := List.mem_of_find?_eq_some hx
    obtain ⟨hget, hnot⟩ := mem_left_iff.1 hmem
    have hnext : Graph.next? ((graphOf uses xs).waiting order) order = some x.2 := by
      rw [← map_find?_isFree, hx, Option.map_some]
    have hlt : x.2 < (graphOf uses xs).size := (List.getElem?_eq_some_iff.1 hget).1
    have hrest := (perm_cons_filter (nodup_left xs order) hmem).length_eq
    rw [left_append] at hr hrest
    have hcount := ih (Nat.succ.inj (hrest.trans hlength)) hr
    simp only [Graph.count, hnext, Graph.foldlM_outgoing hlt hnot]
    simpa using hcount

/-- Where the things can be placed one by one, counting places them in the same order, each at its
    earliest. -/
theorem exists_order_of_placed {r : Placed α} (h : placed uses xs.length xs.zipIdx = some r) :
    ∃ order, (graphOf uses xs).count xs.length (graphOf uses xs).degrees [] = .placed order ∧
      r.map Prod.fst = order.filterMap (xs[·]?) ∧ (graphOf uses xs).Earliest order ∧
      (graphOf uses xs).Sorts order := by
  have hleft : left xs [] = xs.zipIdx := by simp [left]
  have hlength : (left xs []).length = xs.length := by rw [hleft, List.length_zipIdx]
  have hplaced : placed uses xs.length (left xs []) = some r := by rw [hleft, h]
  have hcount := count_of_placed hlength hplaced
  rw [Graph.waiting_nil] at hcount
  obtain ⟨hperm, -⟩ := placed_spec (placedIn_zipIdx xs).nodup h
  have hearliest : (graphOf uses xs).Earliest (r.map Prod.snd) := by
    rcases Graph.count_spec (graphOf uses xs) xs.length [] with ⟨rest, _, hplaced, hrest⟩ |
      ⟨rest, _, hstuck, _⟩
    · rw [Graph.waiting_nil, hcount] at hplaced
      obtain rfl := Graph.Counted.placed.inj hplaced
      exact hrest
    · rw [Graph.waiting_nil, hcount] at hstuck
      cases hstuck
  refine ⟨r.map Prod.snd, hcount, ?_, hearliest, hearliest.sorts ?_⟩
  · have hsome : ∀ x ∈ r, xs[x.2]? = some x.1 := fun x hx =>
      List.mem_zipIdx_iff_getElem?.1 (hperm.subset hx)
    rw [List.filterMap_map, ← List.filterMap_eq_map]
    refine List.filterMap_congr fun x hx => ?_
    exact (hsome x hx).symm
  · have hplaces := hperm.map Prod.snd
    rwa [List.zipIdx_map_snd, ← List.range_eq_range'] at hplaces

theorem placed_eq_none_iff :
    placed uses xs.length xs.zipIdx = none ↔ (graphOf uses xs).HasCycle := by
  constructor
  · intro hnone
    by_contra h
    obtain ⟨r, hr⟩ :=
      (acyclic_of_not_hasCycle h).exists_placed (placedIn_zipIdx xs) List.length_zipIdx.le
    rw [hnone] at hr
    cases hr
  · intro h
    cases hplaced : placed uses xs.length xs.zipIdx with
    | none => rfl
    | some r =>
      obtain ⟨order, _, _, _, hsorts⟩ := exists_order_of_placed hplaced
      exact absurd h hsorts.not_hasCycle

theorem sorted_of_hasCycle (h : (graphOf uses xs).HasCycle) : sorted uses xs = xs := by
  rw [sorted, placed_eq_none_iff.2 h, Option.map_none, Option.getD_none]

/-- Without a cycle counting places everything, in the least of all orders. -/
theorem exists_order_of_not_hasCycle (h : ¬ (graphOf uses xs).HasCycle) :
    ∃ order, (graphOf uses xs).count xs.length (graphOf uses xs).degrees [] = .placed order ∧
      sorted uses xs = order.filterMap (xs[·]?) ∧ (graphOf uses xs).Earliest order ∧
      (graphOf uses xs).Sorts order := by
  obtain ⟨r, hr⟩ :=
    (acyclic_of_not_hasCycle h).exists_placed (placedIn_zipIdx xs) List.length_zipIdx.le
  obtain ⟨order, hcount, hmap, hearliest, hsorts⟩ := exists_order_of_placed hr
  refine ⟨order, hcount, ?_, hearliest, hsorts⟩
  rw [sorted, hr, Option.map_some, Option.getD_some, hmap]

/-- Counting orders things as placing them one by one does. -/
theorem counted_eq_sorted {isCyclic : Graph → Bool}
    (hexact : ∀ g, isCyclic g = true ↔ g.HasCycle) (uses : α → α → Bool) (xs : List α) :
    counted isCyclic uses xs = some (sorted uses xs) := by
  rw [counted]
  by_cases h : (graphOf uses xs).HasCycle
  · rw [if_pos ((hexact _).2 h), sorted_of_hasCycle h]
  · obtain ⟨order, hcount, hsorted, -, -⟩ := exists_order_of_not_hasCycle h
    rw [if_neg (mt (hexact _).1 h), show (graphOf uses xs).size = xs.length from rfl, hcount,
      hsorted]

end Dependency

/-- Whether there is a cycle: some number has an edge to itself, or the numbers cannot be placed one
    behind the other. -/
def Graph.isCyclic (g : Graph) : Bool :=
  (List.range g.size).any (fun i => g.edge i i) ||
    (Dependency.placed (fun i j => g.edge j i) (List.range g.size).length
      (List.range g.size).zipIdx).isNone

theorem Graph.isCyclic_iff (g : Graph) : g.isCyclic = true ↔ g.HasCycle := by
  have hedge : ∀ i j, (Dependency.graphOf (fun i j => g.edge j i) (List.range g.size)).Edge j i ↔
      i ≠ j ∧ g.Edge j i := by
    intro i j
    rw [Dependency.edge_graphOf_iff, Edge]
    constructor
    · rintro ⟨x, y, hx, hy, hne, huses⟩
      obtain ⟨hi, rfl⟩ := List.getElem?_eq_some_iff.1 hx
      obtain ⟨hj, rfl⟩ := List.getElem?_eq_some_iff.1 hy
      simp only [List.length_range] at hi hj
      exact ⟨hne, hj, hi, by simpa using huses⟩
    · rintro ⟨hne, hj, hi, huses⟩
      exact ⟨i, j, List.getElem?_range hi, List.getElem?_range hj, hne, huses⟩
  rw [isCyclic, Bool.or_eq_true, Option.isNone_iff_eq_none, Dependency.placed_eq_none_iff,
    List.any_eq_true]
  constructor
  · rintro (⟨i, hi, hloop⟩ | ⟨i, hi⟩)
    · have hi : i < g.size := List.mem_range.1 hi
      exact ⟨i, .single ⟨hi, hi, hloop⟩⟩
    · exact ⟨i, Relation.TransGen.mono (fun a b h => ((hedge b a).1 h).2) i i hi⟩
  · rintro ⟨i, hi⟩
    by_cases hloop : ∃ k ∈ List.range g.size, g.edge k k = true
    · exact .inl hloop
    · refine .inr ⟨i, Relation.TransGen.mono (fun a b h => (hedge b a).2 ⟨?_, h⟩) i i hi⟩
      rintro rfl
      exact hloop ⟨b, List.mem_range.2 h.1, h.2.2⟩

/-! ## New types -/

namespace UserType

/-- New types are the ones there were, in the order that counting gives; a number never goes below
    zero. If they use each other in a cycle, they stay as they are. Otherwise counting does not end
    before all of them are placed: every type stands behind those it uses, at each place stands the
    earliest type that can stand there, and of all such orders this is the lexicographically
    least. -/
theorem inOrder_counted {isCyclic : Graph → Bool} (hexact : ∀ g, isCyclic g = true ↔ g.HasCycle)
    (ts : List (Child UserType)) :
    (∀ i j, (Dependency.graphOf uses ts).Edge j i ↔
      ∃ a b, ts[i]? = some a ∧ ts[j]? = some b ∧ i ≠ j ∧
        (b.key ∈ a.node.mentions ∨ label b.key b.node ∈ a.node.mentions)) ∧
    Dependency.counted isCyclic uses ts = some (inOrder ts) ∧
    (inOrder ts).Perm ts ∧
    ((Dependency.graphOf uses ts).HasCycle → inOrder ts = ts) ∧
    (¬ (Dependency.graphOf uses ts).HasCycle →
      ∃ order,
        (Dependency.graphOf uses ts).count ts.length (Dependency.graphOf uses ts).degrees [] =
          .placed order ∧
        inOrder ts = order.filterMap (ts[·]?) ∧
        (Dependency.graphOf uses ts).Sorts order ∧
        (Dependency.graphOf uses ts).Earliest order ∧
        ∀ other, (Dependency.graphOf uses ts).Sorts other →
          order = other ∨ List.Lex (· < ·) order other) := by
  refine ⟨fun i j => ?_, Dependency.counted_eq_sorted hexact uses ts,
    Dependency.perm_sorted uses ts, Dependency.sorted_of_hasCycle, fun h => ?_⟩
  · simp only [Dependency.edge_graphOf_iff, uses, Bool.or_eq_true, List.contains_iff_mem]
  · obtain ⟨order, hcount, hsorted, hearliest, hsorts⟩ :=
      Dependency.exists_order_of_not_hasCycle h
    exact ⟨order, hcount, hsorted, hsorts, hearliest, fun other hother =>
      hearliest.lex_le hsorts.perm hother⟩

/-- A type of which each field refers to another type. -/
def referring (key : String) (references : List String) : Child UserType where
  key := key
  node :=
    { properties := some (.named (references.map fun r =>
        (r, { reference := some ("#/definitions/" ++ r) }))) }

/-- A person has an address, which has a city, and a phone, which has none of them. -/
def personTypes : List (Child UserType) :=
  [referring "person" ["address", "phone"], referring "phone" [], referring "address" ["city"],
    referring "city" []]

theorem inOrder_counted_of_personTypes :
    (∀ g, Graph.isCyclic g = true ↔ g.HasCycle) ∧
    ¬ (Dependency.graphOf uses personTypes).HasCycle ∧
    Dependency.counted Graph.isCyclic uses personTypes = some (inOrder personTypes) ∧
    inOrder personTypes =
      [referring "phone" [], referring "city" [], referring "address" ["city"],
        referring "person" ["address", "phone"]] ∧
    ∀ other, (Dependency.graphOf uses personTypes).Sorts other →
      [1, 3, 2, 0] = other ∨ List.Lex (· < ·) [1, 3, 2, 0] other := by
  have hnone : ¬ (Dependency.graphOf uses personTypes).HasCycle := by
    rw [← Graph.isCyclic_iff]
    decide
  obtain ⟨_, hcounted, _, _, hleast⟩ := inOrder_counted Graph.isCyclic_iff personTypes
  obtain ⟨order, hcount, hsorted, _, _, hleast⟩ := hleast hnone
  have horder : [1, 3, 2, 0] = order :=
    Graph.Counted.placed.inj (Eq.trans (by decide) hcount)
  subst horder
  exact ⟨Graph.isCyclic_iff, hnone, hcounted, hsorted, hleast⟩

end UserType

end AlterScript
