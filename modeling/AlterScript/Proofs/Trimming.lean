/-
  Trimmed texts and blank texts.

  `isBlank_iff`: a text is blank exactly when trimming leaves nothing of it. What is put behind a
  trimmed text is not lost when the whole is trimmed again (`trimChars_append`), and a number is
  never written with blanks only.
-/
import Mathlib.Data.List.Basic
import Mathlib.Data.List.TakeWhile
import AlterScript.Text.Blank

namespace AlterScript

namespace Text

/-! ## Trimming -/

theorem trimChars_eq_nil_iff (cs : List Char) : trimChars cs = [] ↔ cs.all blank = true := by
  rw [trimChars, List.reverse_eq_nil_iff, List.dropWhile_eq_nil_iff, List.all_eq_true]
  constructor
  · intro h c hc
    rw [← List.takeWhile_append_dropWhile (p := blank) (l := cs)] at hc
    rcases List.mem_append.1 hc with hfront | hrest
    · exact List.mem_takeWhile_imp hfront
    · exact h c (List.mem_reverse.2 hrest)
  · intro h c hc
    exact h c ((List.dropWhile_sublist blank).subset (List.mem_reverse.1 hc))

theorem blank_of_mem_head?_trimChars {cs : List Char} :
    ∀ c ∈ (trimChars cs).head?, blank c = false := by
  intro c hc
  have hprefix : trimChars cs <+: cs.dropWhile blank := by
    rw [← List.reverse_suffix, trimChars, List.reverse_reverse]
    exact List.dropWhile_suffix blank
  obtain ⟨r, hr⟩ := List.head?_eq_some_iff.1 hc
  obtain ⟨t, ht⟩ := hprefix
  have hnot := List.head?_dropWhile_not blank cs
  rw [← ht, hr] at hnot
  simpa using hnot

theorem dropWhile_blank_eq_self {cs : List Char} (h : ∀ c ∈ cs.head?, blank c = false) :
    cs.dropWhile blank = cs := by
  cases cs with
  | nil => rfl
  | cons c cs => exact List.dropWhile_cons_of_neg (by simp [h c rfl])

/-- What is put behind a trimmed text stays with it when the whole is trimmed again. -/
theorem trimChars_append {cs ds : List Char} (hne : ds ≠ []) (hds : ∀ c ∈ ds, blank c = false) :
    trimChars (trimChars cs ++ ds) = trimChars cs ++ ds := by
  have hfront : (trimChars cs ++ ds).dropWhile blank = trimChars cs ++ ds := by
    refine dropWhile_blank_eq_self fun c hc => ?_
    rw [List.head?_append, Option.mem_def, Option.or_eq_some_iff] at hc
    rcases hc with hc | ⟨-, hc⟩
    · exact blank_of_mem_head?_trimChars c hc
    · exact hds c (List.mem_of_mem_head? hc)
  have hback : (trimChars cs ++ ds).reverse.dropWhile blank = (trimChars cs ++ ds).reverse := by
    refine dropWhile_blank_eq_self fun c hc => ?_
    rw [List.head?_reverse, List.getLast?_append_of_ne_nil _ hne] at hc
    exact hds c (List.mem_of_getLast? hc)
  rw [trimChars, hfront, hback, List.reverse_reverse]

/-! ## Blank texts -/

theorem isBlank_iff (s : String) : isBlank s = true ↔ trim s = "" := by
  rw [isBlank, trim, String.ofList_eq_empty_iff, trimChars_eq_nil_iff]

theorem isBlank_eq_false_iff {s : String} :
    isBlank s = false ↔ ∃ c ∈ s.toList, blank c = false := by
  rw [isBlank, List.all_eq_false]
  simp only [Bool.not_eq_true]

theorem isBlank_toString_nat (n : Nat) : isBlank (toString n) = false := by
  obtain ⟨c, hc⟩ := List.exists_mem_of_ne_nil _ (Nat.toDigits_ne_nil (n := n) (b := 10))
  refine isBlank_eq_false_iff.2 ⟨c, ?_, blank_of_isDigit ?_⟩
  · rw [show toString n = n.repr from rfl, Nat.repr_eq_ofList_toDigits, String.toList_ofList]
    exact hc
  · exact Nat.isDigit_of_mem_toDigits (by decide) (by decide) hc

theorem isBlank_toString_int (i : Int) : isBlank (toString i) = false := by
  cases i with
  | ofNat n => exact isBlank_toString_nat n
  | negSucc n =>
    refine isBlank_eq_false_iff.2 ⟨'-', ?_, by decide⟩
    rw [show toString (Int.negSucc n) = "-" ++ (n + 1).repr from rfl, String.toList_append]
    exact List.mem_append_left _ (.head _)

end Text

end AlterScript
