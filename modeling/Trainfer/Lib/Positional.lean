import Mathlib.Data.Nat.Digits.Lemmas
import Mathlib.Data.List.DropRight
import Mathlib.Data.List.GetD
import Mathlib.Algebra.Field.Rat
import Mathlib.Algebra.Order.Ring.Rat
import Mathlib.Tactic.FieldSimp

/-! Positional numerals with digits after a point.

Numerals with equally many digits before the point denote the same number iff they agree at every
place, where the shorter one is padded by zeros (`value_eq_iff`). Padding is what trailing zeros
do not matter for (`rdropWhile_eq_iff`). -/

namespace Positional

/-! ## Padding -/

variable {α : Type}

theorem getD_append_replicate (xs : List α) (m k : ℕ) (a : α) :
    (xs ++ List.replicate m a).getD k a = xs.getD k a := by
  simp only [List.getD_eq_getElem?_getD, List.getElem?_append, List.getElem?_replicate]
  split
  · rfl
  · rename_i hk
    rw [List.getElem?_eq_none (not_lt.mp hk)]
    split
    · rfl
    · rfl

theorem eq_of_getD_eq {xs ys : List α} {a : α} (hlength : xs.length = ys.length)
    (h : ∀ k, xs.getD k a = ys.getD k a) : xs = ys := by
  refine List.ext_getElem hlength fun k hk hk' => ?_
  simpa only [List.getD_eq_getElem _ _ hk, List.getD_eq_getElem _ _ hk'] using h k

theorem eq_append_iff {xs xs' ys ys' : List α} {a : α} (hlength : xs.length = xs'.length) :
    (∀ k, (xs ++ ys).getD k a = (xs' ++ ys').getD k a) ↔
      xs = xs' ∧ ∀ k, ys.getD k a = ys'.getD k a := by
  constructor
  · intro h
    constructor
    · refine List.ext_getElem hlength fun k hk hk' => ?_
      have hget := h k
      rwa [List.getD_append _ _ _ _ hk, List.getD_append _ _ _ _ hk', List.getD_eq_getElem _ _ hk,
        List.getD_eq_getElem _ _ hk'] at hget
    · intro k
      have hget := h (xs.length + k)
      rwa [List.getD_append_right _ _ _ _ (by omega), List.getD_append_right _ _ _ _ (by omega),
        Nat.add_sub_cancel_left, hlength, Nat.add_sub_cancel_left] at hget
  · rintro ⟨rfl, h⟩ k
    by_cases hk : k < xs.length
    · rw [List.getD_append _ _ _ _ hk, List.getD_append _ _ _ _ hk]
    · rw [List.getD_append_right _ _ _ _ (not_lt.mp hk),
        List.getD_append_right _ _ _ _ (not_lt.mp hk)]
      exact h _

variable [DecidableEq α] {a : α}

theorem getD_rdropWhile (xs : List α) (k : ℕ) :
    (xs.rdropWhile (· == a)).getD k a = xs.getD k a := by
  have hzeros : xs.rtakeWhile (· == a) =
      List.replicate (xs.rtakeWhile (· == a)).length a :=
    List.eq_replicate_of_mem fun b hb => by simpa using List.mem_rtakeWhile_imp hb
  conv_rhs => rw [← List.rdropWhile_append_rtakeWhile (p := (· == a)) (l := xs), hzeros]
  rw [getD_append_replicate]

/-- A list without trailing zeros is not shorter than one that agrees with it. -/
theorem length_rdropWhile_le {xs ys : List α}
    (h : ∀ k, (xs.rdropWhile (· == a)).getD k a = ys.getD k a) :
    (xs.rdropWhile (· == a)).length ≤ ys.length := by
  by_contra hlt
  have hne : xs.rdropWhile (· == a) ≠ [] := by
    intro hnil
    simp [hnil] at hlt
  have hlast := List.rdropWhile_last_not (· == a) xs hne
  have hget := h ((xs.rdropWhile (· == a)).length - 1)
  rw [List.getD_eq_getElem _ _ (by omega), List.getD_eq_default _ _ (by omega)] at hget
  rw [List.getLast_eq_getElem, hget] at hlast
  simp at hlast

/-- Lists that agree but for trailing zeros. -/
theorem rdropWhile_eq_iff {xs ys : List α} :
    xs.rdropWhile (· == a) = ys.rdropWhile (· == a) ↔ ∀ k, xs.getD k a = ys.getD k a := by
  constructor
  · intro h k
    rw [← getD_rdropWhile xs, h, getD_rdropWhile]
  · intro h
    have hget : ∀ k, (xs.rdropWhile (· == a)).getD k a = (ys.rdropWhile (· == a)).getD k a := by
      intro k
      rw [getD_rdropWhile, getD_rdropWhile, h]
    exact eq_of_getD_eq
      (le_antisymm (length_rdropWhile_le hget) (length_rdropWhile_le fun k => (hget k).symm)) hget

omit [DecidableEq α] in
theorem rdropWhile_append (p : α → Bool) (xs ys : List α) :
    (xs ++ ys).rdropWhile p =
      if ys.rdropWhile p = [] then xs.rdropWhile p else xs ++ ys.rdropWhile p := by
  induction ys using List.reverseRecOn with
  | nil => simp
  | append_singleton ys y ih =>
    rw [← List.append_assoc]
    by_cases hy : p y
    · rw [List.rdropWhile_concat_pos _ _ _ hy, List.rdropWhile_concat_pos _ _ _ hy, ih]
    · rw [List.rdropWhile_concat_neg _ _ _ hy, List.rdropWhile_concat_neg _ _ _ hy]
      simp

/-! ## Values -/

variable {b : ℕ}

/-- The digits before and after the point, the most significant one first. -/
def value (b : ℕ) (int frac : List ℕ) : ℚ :=
  Nat.ofDigits b (int ++ frac).reverse / b ^ frac.length

theorem value_append_zeros (hb : 1 < b) (int frac : List ℕ) (m : ℕ) :
    value b int (frac ++ List.replicate m 0) = value b int frac := by
  have hb' : (b : ℚ) ≠ 0 := by
    have hpos : 0 < b := by omega
    exact_mod_cast hpos.ne'
  rw [value, value, ← List.append_assoc, List.reverse_append, List.reverse_replicate,
    Nat.ofDigits_append, Nat.ofDigits_replicate_zero, List.length_replicate, List.length_append,
    List.length_replicate, pow_add]
  push_cast
  field_simp
  ring

theorem value_inj (hb : 1 < b) {int int' frac frac' : List ℕ}
    (hint : int.length = int'.length) (hfrac : frac.length = frac'.length)
    (h : ∀ d ∈ int ++ frac, d < b) (h' : ∀ d ∈ int' ++ frac', d < b) :
    value b int frac = value b int' frac' ↔ int ++ frac = int' ++ frac' := by
  have hpow : ((b : ℚ) ^ frac'.length) ≠ 0 := by
    have hpos : 0 < b := by omega
    exact pow_ne_zero _ (by exact_mod_cast hpos.ne')
  rw [value, value, hfrac, div_left_inj' hpow, Nat.cast_inj]
  constructor
  · intro heq
    have hrev := Nat.ofDigits_inj_of_len_eq hb (by simp [hint, hfrac])
      (fun d hd => h d (List.mem_reverse.mp hd)) (fun d hd => h' d (List.mem_reverse.mp hd)) heq
    exact List.reverse_injective hrev
  · intro heq
    rw [heq]

theorem value_eq_iff (hb : 1 < b) {int int' frac frac' : List ℕ}
    (hint : int.length = int'.length) (h : ∀ d ∈ int ++ frac, d < b)
    (h' : ∀ d ∈ int' ++ frac', d < b) :
    value b int frac = value b int' frac' ↔
      ∀ k, (int ++ frac).getD k 0 = (int' ++ frac').getD k 0 := by
  have hpadded : ∀ {xs : List ℕ} (m : ℕ), (∀ d ∈ xs, d < b) →
      ∀ d ∈ xs ++ List.replicate m 0, d < b := by
    intro xs m hxs d hd
    rcases List.mem_append.mp hd with hd | hd
    · exact hxs d hd
    · rw [List.eq_of_mem_replicate hd]
      omega
  rw [← value_append_zeros hb int frac frac'.length,
    ← value_append_zeros hb int' frac' frac.length,
    value_inj hb hint (by simp [Nat.add_comm]) (by simpa using hpadded frac'.length h)
      (by simpa using hpadded frac.length h'), ← List.append_assoc, ← List.append_assoc]
  constructor
  · intro heq k
    rw [← getD_append_replicate _ frac'.length, heq, getD_append_replicate]
  · intro heq
    refine eq_of_getD_eq (a := 0) (by simp [hint, Nat.add_comm]) fun k => ?_
    rw [getD_append_replicate, getD_append_replicate]
    exact heq k

end Positional
