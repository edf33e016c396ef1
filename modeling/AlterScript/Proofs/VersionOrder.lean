/-
  The texts of versions and the order of versions.

  `Version.ofText?_eq_some_iff`: a text is read as the numbers that its components write, and so it
  is read if each component is a numeral of 32 bits. Versions are compared as their rows of numbers
  with zeros behind them (`Version.order_eq_compare`), so that the order is total, up to zeros at
  the end. `Version.isLegacyText_components` says which texts write an old version; zeros at the
  end or before a number do not change that, and what comes before an old version is old.
-/
import Mathlib.Data.List.Forall2
import AlterScript.Proofs.SettingsLayers
import AlterScript.Proofs.Trimming

namespace AlterScript

/-! ## Numerals -/

namespace Text

/-- A row of decimal digits, with or without a plus sign before it, writes a number. -/
inductive Numeral : List Char → Nat → Prop
  | intro {sign digits : List Char} (hsign : sign = [] ∨ sign = ['+']) (hne : digits ≠ [])
      (hdigits : ∀ c ∈ digits, c.isDigit = true) :
      Numeral (sign ++ digits) (Nat.ofDigitChars 10 digits 0)

/-- The second numeral is the first one with zeros before its digits. -/
inductive ZerosBefore : List Char → List Char → Prop
  | intro {sign digits : List Char} (zeros : Nat) (hsign : sign = [] ∨ sign = ['+'])
      (hne : digits ≠ []) (hdigits : ∀ c ∈ digits, c.isDigit = true) :
      ZerosBefore (sign ++ digits) (sign ++ (List.replicate zeros '0' ++ digits))

variable {cs cs' : List Char} {n m bound : Nat}

theorem digitsFrom_eq_some_iff :
    digitsFrom n cs = some m ↔ (∀ c ∈ cs, c.isDigit = true) ∧ Nat.ofDigitChars 10 cs n = m := by
  induction cs generalizing n with
  | nil => simp [digitsFrom, Nat.ofDigitChars]
  | cons c cs ih =>
    rw [digitsFrom, digit?, List.forall_mem_cons, and_assoc]
    split
    · rename_i hc
      rw [Option.bind_some, ih, Nat.ofDigitChars_cons]
      simp [hc]
    · rename_i hc
      simp [hc]

theorem naturalBelow_eq_some_iff :
    naturalBelow bound cs = some n ↔ n < bound ∧ Numeral cs n := by
  have hread : ∀ digits : List Char,
      (if digits.isEmpty then none
        else (digitsFrom 0 digits).bind fun n => if n < bound then some n else none) = some n ↔
      n < bound ∧ digits ≠ [] ∧ (∀ c ∈ digits, c.isDigit = true) ∧
        Nat.ofDigitChars 10 digits 0 = n := by
    intro digits
    cases digits with
    | nil => simp
    | cons d ds =>
      simp only [List.isEmpty_cons, Bool.false_eq_true, if_false, Option.bind_eq_some_iff,
        digitsFrom_eq_some_iff, Option.ite_none_right_eq_some, Option.some.injEq]
      constructor
      · rintro ⟨m, ⟨hdigits, hvalue⟩, hlt, rfl⟩
        exact ⟨hlt, List.cons_ne_nil d ds, hdigits, hvalue⟩
      · rintro ⟨hlt, -, hdigits, hvalue⟩
        exact ⟨n, ⟨hdigits, hvalue⟩, hlt, rfl⟩
  constructor
  · intro h
    simp only [naturalBelow] at h
    split at h
    · obtain ⟨hlt, hne, hdigits, rfl⟩ := (hread _).1 h
      exact ⟨hlt, .intro (.inr rfl) hne hdigits⟩
    · obtain ⟨hlt, hne, hdigits, rfl⟩ := (hread _).1 h
      exact ⟨hlt, .intro (.inl rfl) hne hdigits⟩
  · rintro ⟨hlt, @⟨sign, digits, hsign, hne, hdigits⟩⟩
    simp only [naturalBelow]
    rcases hsign with rfl | rfl
    · split
      · -- The sign is no digit.
        rename_i r hplus
        obtain rfl : digits = '+' :: r := hplus
        exact absurd (hdigits '+' (.head r)) (by decide)
      · exact (hread _).2 ⟨hlt, hne, hdigits, rfl⟩
    · exact (hread _).2 ⟨hlt, hne, hdigits, rfl⟩

/-- A numeral writes one number. -/
theorem Numeral.unique (h : Numeral cs n) (h' : Numeral cs m) : n = m := by
  have hn := naturalBelow_eq_some_iff.2 ⟨Nat.lt_succ_of_le (Nat.le_max_left n m), h⟩
  have hm := naturalBelow_eq_some_iff.2 ⟨Nat.lt_succ_of_le (Nat.le_max_right n m), h'⟩
  exact Option.some.inj (hn.symm.trans hm)

theorem ZerosBefore.numeral_iff (h : ZerosBefore cs cs') : Numeral cs' n ↔ Numeral cs n := by
  obtain ⟨zeros, hsign, hne, hdigits⟩ := h
  have hnumeral := Numeral.intro hsign hne hdigits
  have hzeros := Numeral.intro hsign
    (List.append_ne_nil_of_right_ne_nil (List.replicate zeros '0') hne)
    (List.forall_mem_append.2 ⟨by simp [List.mem_replicate], hdigits⟩)
  rw [Nat.ofDigitChars_append, Nat.ofDigitChars_replicate_zero, Nat.mul_zero] at hzeros
  exact ⟨fun h => h.unique hzeros ▸ hnumeral, fun h => h.unique hnumeral ▸ hzeros⟩

theorem ZerosBefore.naturalBelow_eq (h : ZerosBefore cs cs') :
    naturalBelow bound cs' = naturalBelow bound cs := by
  ext n
  rw [naturalBelow_eq_some_iff, naturalBelow_eq_some_iff, h.numeral_iff]

end Text

/-! ## The order of versions -/

namespace Version

variable {u v w : Version}

theorem order_step (v w : Version) :
    order v w = (compare (v.headD 0) (w.headD 0)).then (order v.tail w.tail) := by
  cases v with
  | cons x xs => rfl
  | nil =>
    cases w with
    | nil => rfl
    | cons y ys => cases y <;> simp [order, compare, compareOfLessAndEq]

theorem rightpad_succ {n : Nat} (h : v.length ≤ n + 1) :
    v.rightpad (n + 1) 0 = v.headD 0 :: v.tail.rightpad n 0 := by
  cases v with
  | nil => simp [List.rightpad, List.replicate_succ]
  | cons x xs => simp [List.rightpad]

/-- Versions are compared as their rows of numbers, with zeros behind them to the same length. -/
theorem order_eq_compare {n : Nat} (hv : v.length ≤ n) (hw : w.length ≤ n) :
    order v w = compare (v.rightpad n 0) (w.rightpad n 0) := by
  induction n generalizing v w with
  | zero =>
    obtain rfl := List.length_eq_zero_iff.1 (Nat.le_zero.1 hv)
    obtain rfl := List.length_eq_zero_iff.1 (Nat.le_zero.1 hw)
    rfl
  | succ n ih =>
    have htail : ∀ {u : Version}, u.length ≤ n + 1 → u.tail.length ≤ n := by
      intro u hu
      rw [List.length_tail]
      omega
    rw [order_step, ih (htail hv) (htail hw), rightpad_succ hv, rightpad_succ hw,
      List.compare_cons_cons]

theorem compare_eq_lt_iff (xs ys : List Nat) : compare xs ys = .lt ↔ xs < ys := by
  induction xs generalizing ys with
  | nil => cases ys <;> simp
  | cons x xs ih =>
    cases ys with
    | nil => simp
    | cons y ys =>
      rw [List.compare_cons_cons, Ordering.then_eq_lt, ih, Nat.compare_eq_lt, Nat.compare_eq_eq,
        List.cons_lt_cons_iff]

theorem order_eq_lt_iff {n : Nat} (hv : v.length ≤ n) (hw : w.length ≤ n) :
    order v w = .lt ↔ v.rightpad n 0 < w.rightpad n 0 := by
  rw [order_eq_compare hv hw, compare_eq_lt_iff]

theorem order_swap (v w : Version) : order v w = (order w v).swap := by
  have hv := Nat.le_max_left v.length w.length
  have hw := Nat.le_max_right v.length w.length
  rw [order_eq_compare hv hw, order_eq_compare hw hv]
  exact Std.OrientedOrd.eq_swap

theorem order_trans (huv : (order u v).isLE = true) (hvw : (order v w).isLE = true) :
    (order u w).isLE = true := by
  have hu : u.length ≤ u.length + v.length + w.length := by omega
  have hv : v.length ≤ u.length + v.length + w.length := by omega
  have hw : w.length ≤ u.length + v.length + w.length := by omega
  rw [order_eq_compare hu hv] at huv
  rw [order_eq_compare hv hw] at hvw
  rw [order_eq_compare hu hw]
  exact Std.TransOrd.isLE_trans huv hvw

instance : Std.OrientedCmp order where
  eq_swap := order_swap _ _

instance : Std.TransCmp order where
  isLE_trans := order_trans

theorem order_total (v w : Version) : (order v w).isLE = true ∨ (order w v).isLE = true := by
  rw [order_swap w v]
  cases order v w <;> simp

theorem order_append_zeros (v w : Version) (n : Nat) :
    order (v ++ List.replicate n 0) w = order v w := by
  induction n with
  | zero => rw [List.replicate_zero, List.append_nil]
  | succ n ih => rw [List.replicate_succ', ← List.append_assoc, order_append_zero, ih]

/-- Versions are equal exactly up to zeros at the end. -/
theorem order_eq_eq_iff :
    order v w = .eq ↔ ∃ m n, v ++ List.replicate m 0 = w ++ List.replicate n 0 := by
  constructor
  · intro h
    have hv := Nat.le_max_left v.length w.length
    have hw := Nat.le_max_right v.length w.length
    rw [order_eq_compare hv hw, Std.compare_eq_iff_eq] at h
    exact ⟨_, _, h⟩
  · rintro ⟨m, n, h⟩
    calc order v w = order (v ++ List.replicate m 0) w := (order_append_zeros v w m).symm
      _ = order (w ++ List.replicate n 0) w := by rw [h]
      _ = order w w := order_append_zeros w w n
      _ = .eq := order_self w

theorem isLegacy_of_isLE (h : (order v w).isLE = true) (hw : isLegacy w = true) :
    isLegacy v = true := by
  rw [isLegacy, beq_iff_eq] at hw ⊢
  exact Std.TransCmp.lt_of_isLE_of_lt h hw

end Version

/-! ## Components -/

namespace Text

theorem parts_eq_splitOn (separator : Char) (cs : List Char) :
    parts separator cs = cs.splitOn separator := by
  induction cs with
  | nil => rfl
  | cons c cs ih =>
    rw [parts, List.splitOn_cons_eq_if_modifyHead, ← ih]
    by_cases hc : c = separator
    · simp [hc]
    · rw [if_neg hc, if_neg (by simpa using hc)]
      cases hparts : parts separator cs with
      | nil => exact absurd (ih.symm.trans hparts) (List.splitOn_ne_nil _ _)
      | cons p ps => rfl

/-- The signs of a numeral are neither blank nor points. -/
theorem Numeral.forall_mem (h : Numeral cs n) : ∀ c ∈ cs, blank c = false ∧ c ≠ '.' := by
  obtain ⟨hsign, -, hdigits⟩ := h
  have hdigit : ∀ {c : Char}, c.isDigit = true → blank c = false ∧ c ≠ '.' := by
    intro c hc
    refine ⟨blank_of_isDigit hc, ?_⟩
    rintro rfl
    exact absurd hc (by decide)
  refine List.forall_mem_append.2 ⟨?_, fun c hc => hdigit (hdigits c hc)⟩
  rcases hsign with rfl | rfl
  · exact List.forall_mem_nil _
  · exact List.forall_mem_singleton.2 (by decide)

end Text

section Lists

variable {α β : Type}

theorem mapM_eq_some_iff {f : α → Option β} {xs : List α} {ys : List β} :
    xs.mapM f = some ys ↔ List.Forall₂ (fun x y => f x = some y) xs ys := by
  induction xs generalizing ys with
  | nil => simp [eq_comm]
  | cons x xs ih =>
    simp only [List.mapM_cons, Option.bind_eq_bind, Option.bind_eq_some_iff, Option.pure_def,
      Option.some.injEq, List.forall₂_cons_left_iff, ih]
    constructor
    · rintro ⟨y, hy, ys, hys, rfl⟩
      exact ⟨y, ys, hy, hys, rfl⟩
    · rintro ⟨y, ys, hy, hys, rfl⟩
      exact ⟨y, hy, ys, hys, rfl⟩

theorem mapM_eq_of_forall₂ {f : α → Option β} {xs ys : List α}
    (h : List.Forall₂ (fun x y => f y = f x) xs ys) : ys.mapM f = xs.mapM f := by
  induction h with
  | nil => rfl
  | cons hxy _ ih => rw [List.mapM_cons, List.mapM_cons, hxy, ih]

theorem exists_forall₂_iff {R : α → β → Prop} {xs : List α} :
    (∃ ys, List.Forall₂ R xs ys) ↔ ∀ x ∈ xs, ∃ y, R x y := by
  induction xs with
  | nil => exact iff_of_true ⟨[], .nil⟩ (List.forall_mem_nil _)
  | cons x xs ih =>
    rw [List.forall_mem_cons, ← ih]
    constructor
    · rintro ⟨_, _ | ⟨hx, hxs⟩⟩
      exact ⟨⟨_, hx⟩, _, hxs⟩
    · rintro ⟨⟨y, hx⟩, ys, hxs⟩
      exact ⟨y :: ys, .cons hx hxs⟩

end Lists

namespace Version

variable {v w : Version} {s : String} {legacy : Bool}

/-- The components of a text: what stands between the points, when blanks around the text and marks
    before it are left away. -/
def components (s : String) : List (List Char) :=
  ((Text.trimChars s.toList).dropWhile fun c => c == 'v' || c == 'V').splitOn '.'

/-- The components of a text write the numbers of a version, in 32 bits each. -/
def Written (v : Version) (s : String) : Prop :=
  List.Forall₂ (fun part n => n < UInt32.size ∧ Text.Numeral part n) (components s) v

theorem ofText?_eq_mapM (s : String) :
    ofText? s = (components s).mapM (Text.naturalBelow UInt32.size) := by
  rw [ofText?, textParts, Text.parts_eq_splitOn]
  rfl

theorem ofText?_eq_some_iff : ofText? s = some v ↔ Written v s := by
  rw [ofText?_eq_mapM, mapM_eq_some_iff]
  simp only [Text.naturalBelow_eq_some_iff]
  exact Iff.rfl

theorem isLegacyText_eq_ok_iff_written :
    isLegacyText s = .ok legacy ↔ ∃ v, Written v s ∧ isLegacy v = legacy := by
  simp only [isLegacyText_eq_ok_iff, ofText?_eq_some_iff]

theorem exists_isLegacyText_iff :
    (∃ legacy, isLegacyText s = .ok legacy) ↔
      ∀ part ∈ components s, ∃ n < UInt32.size, Text.Numeral part n := by
  rw [← exists_forall₂_iff]
  constructor
  · rintro ⟨_, h⟩
    obtain ⟨v, hv, -⟩ := isLegacyText_eq_ok_iff_written.1 h
    exact ⟨v, hv⟩
  · rintro ⟨v, hv⟩
    exact ⟨isLegacy v, isLegacyText_eq_ok_iff_written.2 ⟨v, hv, rfl⟩⟩

theorem Written.isLegacyText_iff (h : Written v s) :
    isLegacyText s = .ok legacy ↔ isLegacy v = legacy := by
  rw [isLegacyText_eq_ok_iff, ofText?_eq_some_iff.2 h]
  simp

/-- A component that is put behind a text is its last one. -/
theorem components_append {part : List Char} {n : Nat} (h : Text.Numeral part n) (s : String) :
    components (Text.trim s ++ "." ++ String.ofList part) = components s ++ [part] := by
  have hblank : ∀ c ∈ '.' :: part, Text.blank c = false :=
    List.forall_mem_cons.2 ⟨by decide, fun c hc => (h.forall_mem c hc).1⟩
  have hpoint : '.' ∉ part := fun hc => (h.forall_mem _ hc).2 rfl
  have htext : (Text.trim s ++ "." ++ String.ofList part).toList =
      Text.trimChars s.toList ++ '.' :: part := by
    simp [Text.trim]
  have hmarks : (Text.trimChars s.toList ++ '.' :: part).dropWhile (fun c => c == 'v' || c == 'V') =
      (Text.trimChars s.toList).dropWhile (fun c => c == 'v' || c == 'V') ++ '.' :: part := by
    rw [List.dropWhile_append]
    split
    · rename_i hempty
      rw [List.isEmpty_iff.1 hempty]
      rfl
    · rfl
  rw [components, htext, Text.trimChars_append (List.cons_ne_nil _ _) hblank, hmarks,
    List.splitOn_append_cons_self, List.splitOn_eq_singleton hpoint, components]

theorem ofText?_append {part : List Char} {n : Nat} (hn : n < UInt32.size) (h : Text.Numeral part n)
    (s : String) :
    ofText? (Text.trim s ++ "." ++ String.ofList part) = (ofText? s).map (· ++ [n]) := by
  rw [ofText?_eq_mapM, components_append h, List.mapM_append, ← ofText?_eq_mapM, List.mapM_cons,
    Text.naturalBelow_eq_some_iff.2 ⟨hn, h⟩]
  cases ofText? s <;> rfl

theorem ofText?_of_zerosBefore {t : String}
    (h : List.Forall₂ Text.ZerosBefore (components s) (components t)) : ofText? t = ofText? s := by
  rw [ofText?_eq_mapM, ofText?_eq_mapM]
  exact mapM_eq_of_forall₂ (h.imp fun _ _ h => h.naturalBelow_eq)

/-! ## Old versions -/

/-- A text gives a version if each of its components is a numeral of 32 bits, and an old one if
    their numbers, with zeros behind them, come before those of the first modern version. Versions
    are ordered in a row, where those that differ by zeros at the end share a place. A zero at the
    end and zeros before a number change nothing, and a version before an old one is old. -/
theorem isLegacyText_components :
    (∀ s, (∃ legacy, isLegacyText s = .ok legacy) ↔
      ∀ part ∈ components s, ∃ n < UInt32.size, Text.Numeral part n) ∧
    (∀ s v, Written v s → ∀ n, v.length ≤ n → 3 ≤ n →
      (isLegacyText s = .ok true ↔ v.rightpad n 0 < [3, 0, 11].rightpad n 0)) ∧
    ((∀ v w, order v w = (order w v).swap) ∧
      (∀ v w, (order v w).isLE = true ∨ (order w v).isLE = true) ∧
      (∀ u v w, (order u v).isLE = true → (order v w).isLE = true → (order u w).isLE = true) ∧
      ∀ v w, order v w = .eq ↔ ∃ m n, v ++ List.replicate m 0 = w ++ List.replicate n 0) ∧
    (∀ s zero legacy, Text.Numeral zero 0 →
      (isLegacyText (Text.trim s ++ "." ++ String.ofList zero) = .ok legacy ↔
        isLegacyText s = .ok legacy)) ∧
    (∀ s t legacy, List.Forall₂ Text.ZerosBefore (components s) (components t) →
      (isLegacyText t = .ok legacy ↔ isLegacyText s = .ok legacy)) ∧
    ∀ s t v w, Written v s → Written w t → (order v w).isLE = true →
      isLegacyText t = .ok true → isLegacyText s = .ok true := by
  refine ⟨fun _ => exists_isLegacyText_iff, fun s v hv n hn hmodern => ?_,
    ⟨order_swap, order_total, fun _ _ _ => order_trans, fun _ _ => order_eq_eq_iff⟩,
    fun s zero legacy hzero => ?_, fun s t legacy hzeros => ?_, fun s t v w hv hw hle hold => ?_⟩
  · have hmodern : modern.length ≤ n := hmodern
    rw [hv.isLegacyText_iff, isLegacy, beq_iff_eq, order_eq_lt_iff hn hmodern]
    rfl
  · simp only [isLegacyText_eq_ok_iff, ofText?_append (by decide) hzero, Option.map_eq_some_iff]
    constructor
    · rintro ⟨_, ⟨v, hv, rfl⟩, hlegacy⟩
      exact ⟨v, hv, (isLegacy_append_zero v).symm.trans hlegacy⟩
    · rintro ⟨v, hv, hlegacy⟩
      exact ⟨_, ⟨v, hv, rfl⟩, (isLegacy_append_zero v).trans hlegacy⟩
  · rw [isLegacyText_eq_ok_iff, isLegacyText_eq_ok_iff, ofText?_of_zerosBefore hzeros]
  · rw [hw.isLegacyText_iff] at hold
    exact hv.isLegacyText_iff.2 (isLegacy_of_isLE hle hold)

theorem written_marked : Written [3, 0, 9] " v3.0.9 " :=
  ofText?_eq_some_iff.1 rfl

/-- An old version, written with a zero at the end and with zeros before its numbers, and one that
    comes before it. -/
theorem isLegacyText_components_of_marked :
    Written [3, 0, 9] " v3.0.9 " ∧ isLegacyText " v3.0.9 " = .ok true ∧
    isLegacyText "v3.0.9.+00" = .ok true ∧ isLegacyText "V03.0.009" = .ok true ∧
    isLegacyText "2.2" = .ok true := by
  obtain ⟨-, hold, ⟨-, -, htrans, -⟩, hzero, hzeros, hbefore⟩ := isLegacyText_components
  have hlegacy : isLegacyText " v3.0.9 " = .ok true :=
    (hold _ _ written_marked 3 (by decide) (by decide)).2 (by decide)
  have hend : Text.Numeral ['+', '0', '0'] 0 :=
    @Text.Numeral.intro ['+'] ['0', '0'] (.inr rfl) (by decide) (by simp)
  have hpadded :
      List.Forall₂ Text.ZerosBefore (components " v3.0.9 ") (components "V03.0.009") := by
    have hplain : ∀ (zeros : Nat) (c : Char), c.isDigit = true →
        Text.ZerosBefore [c] (List.replicate zeros '0' ++ [c]) := fun zeros c hc =>
      @Text.ZerosBefore.intro [] [c] zeros (.inl rfl) (by simp) (by simpa using hc)
    exact .cons (hplain 1 '3' rfl) (.cons (hplain 0 '0' rfl) (.cons (hplain 2 '9' rfl) .nil))
  have hearlier : Written [2, 2] "2.2" := ofText?_eq_some_iff.1 rfl
  have hle : (order [2, 2] [3, 0, 9]).isLE = true :=
    htrans [2, 2] [3] [3, 0, 9] (by decide) (by decide)
  refine ⟨written_marked, hlegacy, ?_, ?_, ?_⟩
  · exact (hzero " v3.0.9 " _ true hend).2 hlegacy
  · exact (hzeros _ _ true hpadded).2 hlegacy
  · exact hbefore _ _ _ _ hearlier written_marked hle hlegacy

end Version

end AlterScript
