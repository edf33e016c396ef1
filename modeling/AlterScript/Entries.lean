/-
  Named entries in the order in which they were first written.

  `find?_put` says what writing an entry does; `keys_nodup_ofList` says that collected entries have
  pairwise distinct names.
-/
namespace AlterScript

/-- Named values in order; of a name that stands twice the first counts. -/
abbrev Entries (α : Type) := List (String × α)

namespace Entries

variable {α : Type}

/-- The value under a name. -/
def find? (key : String) : Entries α → Option α
  | [] => none
  | (k, v) :: r => if k = key then some v else find? key r

/-- Writes a value under a name: in the place of the name, or at the end. -/
def put (key : String) (value : α) : Entries α → Entries α
  | [] => [(key, value)]
  | (k, v) :: r => if k = key then (k, value) :: r else (k, v) :: put key value r

/-- Writes the values one after the other, so that a repeated name keeps its first place and its
    last value. -/
def putAll (entries : Entries α) (more : List (String × α)) : Entries α :=
  more.foldl (fun es e => es.put e.1 e.2) entries

def ofList (entries : List (String × α)) : Entries α := putAll [] entries

def keys (entries : Entries α) : List String := entries.map Prod.fst

@[simp] theorem find?_nil (key : String) : find? key ([] : Entries α) = none := rfl

theorem find?_put (key k : String) (value : α) (entries : Entries α) :
    find? k (put key value entries) = if key = k then some value else find? k entries := by
  induction entries with
  | nil => simp [put, find?]
  | cons e r ih => grind [put, find?]

theorem find?_eq_none_of_notMem {key : String} {entries : Entries α} (h : key ∉ keys entries) :
    find? key entries = none := by
  induction entries with
  | nil => rfl
  | cons e r ih => grind [find?, keys]

/-- Of two sets of entries the one that is written last counts. -/
theorem find?_putAll (key : String) (entries more : Entries α) (h : (keys more).Nodup) :
    find? key (putAll entries more) = (find? key more <|> find? key entries) := by
  induction more generalizing entries with
  | nil => rfl
  | cons e r ih =>
    obtain ⟨he, hr⟩ : e.1 ∉ keys r ∧ (keys r).Nodup := List.nodup_cons.1 h
    have hput : putAll entries (e :: r) = putAll (put e.1 e.2 entries) r := rfl
    rw [hput, ih _ hr, find?_put]
    by_cases hk : e.1 = key
    · subst hk
      simp [find?, find?_eq_none_of_notMem he]
    · simp [find?, hk]

/-- A choice among entries with distinct names is made under each name for itself. -/
theorem find?_filter {p : String × α → Bool} {key : String} {entries : Entries α}
    (hn : (keys entries).Nodup) :
    find? key (entries.filter p) = (find? key entries).filter fun v => p (key, v) := by
  induction entries with
  | nil => rfl
  | cons e es ih =>
    obtain ⟨k, v⟩ := e
    obtain ⟨hk, hn⟩ := List.nodup_cons.1 hn
    by_cases hkey : k = key
    · subst hkey
      have hnone : find? k (es.filter p) = none := by
        refine find?_eq_none_of_notMem fun hmem => hk ?_
        exact (List.filter_sublist.map Prod.fst).subset hmem
      have hfind : find? k ((k, v) :: es) = some v := if_pos rfl
      rw [hfind, Option.filter_some]
      by_cases hp : p (k, v) = true
      · rw [List.filter_cons_of_pos hp, if_pos hp, find?, if_pos rfl]
      · rw [List.filter_cons_of_neg hp, if_neg hp, hnone]
    · have hfind : find? key ((k, v) :: es) = find? key es := if_neg hkey
      rw [hfind, ← ih hn]
      by_cases hp : p (k, v) = true
      · rw [List.filter_cons_of_pos hp, find?, if_neg hkey]
      · rw [List.filter_cons_of_neg hp]

theorem mem_keys_put (key k : String) (value : α) (entries : Entries α) :
    k ∈ keys (put key value entries) ↔ k = key ∨ k ∈ keys entries := by
  induction entries with
  | nil => simp [put, keys]
  | cons e r ih => grind [put, keys]

theorem keys_nodup_put (key : String) (value : α) (entries : Entries α)
    (h : (keys entries).Nodup) : (keys (put key value entries)).Nodup := by
  induction entries with
  | nil => simp [put, keys]
  | cons e r ih =>
    have := mem_keys_put key e.1 value r
    grind [put, keys]

theorem keys_nodup_putAll (entries more : Entries α) (h : (keys entries).Nodup) :
    (keys (putAll entries more)).Nodup := by
  induction more generalizing entries with
  | nil => exact h
  | cons e r ih => exact ih _ (keys_nodup_put e.1 e.2 entries h)

/-- Collected entries have pairwise distinct names. -/
theorem keys_nodup_ofList (entries : List (String × α)) : (keys (ofList entries)).Nodup :=
  keys_nodup_putAll [] entries (by simp [keys])

end Entries

end AlterScript
