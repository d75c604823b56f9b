import Mathlib.Data.List.Basic
import Mathlib.Data.List.Range

/-! Python slices, and cutting a list at equal steps, as in
`for i in range(0, n, c): xs[i:i+c]`. The slices of a cut are nonempty, no longer than the
step, and concatenate to the list. -/

namespace Slices

universe u
variable {α : Type u}

/-- `range(0, n, c)` for a positive step. -/
def starts (n c : Nat) : List Nat := List.range' 0 ((n + c - 1) / c) c

/-- `xs[i:i+c]`. -/
def slice (xs : List α) (c i : Nat) : List α := (xs.drop i).take c

/-- `xs[:i]`, where a negative `i` counts from the end. -/
def sliceTo (xs : List α) (i : Int) : List α :=
  if i < 0 then xs.take (xs.length - (-i).toNat) else xs.take i.toNat

/-- `xs[i:]`. -/
def sliceFrom (xs : List α) (i : Int) : List α :=
  if i < 0 then xs.drop (xs.length - (-i).toNat) else xs.drop i.toNat

/-- `xs[i:j]`. -/
def between (xs : List α) (i j : Int) : List α :=
  (sliceTo xs j).drop (if i < 0 then xs.length - (-i).toNat else i.toNat)

theorem sliceTo_append_sliceFrom (xs : List α) (i : Int) :
    sliceTo xs i ++ sliceFrom xs i = xs := by
  unfold sliceTo sliceFrom
  split <;> exact List.take_append_drop _ xs

theorem length_sliceFrom_neg {xs : List α} {n : Nat} (hn : 0 < n) (hle : n ≤ xs.length) :
    (sliceFrom xs (-(n : Int))).length = n := by
  rw [sliceFrom, if_pos (by omega), List.length_drop]
  omega

theorem between_range {n a b : Nat} (hb : b ≤ n) :
    between (List.range n) a b = List.range' a (b - a) := by
  have ha : ¬ (a : Int) < 0 := by omega
  have hb' : ¬ (b : Int) < 0 := by omega
  rw [between, sliceTo, if_neg ha, if_neg hb', Int.toNat_natCast, Int.toNat_natCast,
    List.take_range, Nat.min_eq_left hb, List.range_eq_range', List.drop_range', Nat.mul_one,
    Nat.zero_add]

theorem starts_one {c : Nat} (hc : 0 < c) : starts 1 c = [0] := by
  have h : (1 + c - 1) / c = 1 := by
    rw [Nat.add_sub_cancel_left]
    exact Nat.div_self hc
  rw [starts, h]
  rfl

theorem lt_of_mem_starts {n c i : Nat} (hc : 0 < c) (h : i ∈ starts n c) : i < n := by
  obtain ⟨j, hj, rfl⟩ := List.mem_range'.mp h
  have hle : (j + 1) * c ≤ n + c - 1 := (Nat.le_div_iff_mul_le hc).mp hj
  rw [Nat.add_mul, Nat.one_mul] at hle
  rw [Nat.zero_add, Nat.mul_comm]
  omega

theorem length_slice_le (xs : List α) (c i : Nat) : (slice xs c i).length ≤ c :=
  List.length_take_le c (xs.drop i)

theorem slice_ne_nil {xs : List α} {c i : Nat} (hc : 0 < c) (hi : i < xs.length) :
    slice xs c i ≠ [] := by
  intro h
  have hlen : (slice xs c i).length = 0 := by rw [h, List.length_nil]
  simp only [slice, List.length_take, List.length_drop] at hlen
  omega

theorem flatten_slices_range' (xs : List α) (c k s : Nat) :
    ((List.range' s k c).map (slice xs c)).flatten = (xs.drop s).take (k * c) := by
  induction k generalizing s with
  | zero => simp
  | succ k ih =>
    rw [List.range'_succ, List.map_cons, List.flatten_cons, ih, slice, Nat.succ_mul,
      Nat.add_comm (k * c) c, List.take_add, List.drop_drop]

theorem slice_zipWith {β γ : Type u} (f : α → β → γ) (xs : List α) (ys : List β) (c i : Nat) :
    slice (List.zipWith f xs ys) c i = List.zipWith f (slice xs c i) (slice ys c i) := by
  rw [slice, slice, slice, List.drop_zipWith, List.take_zipWith]

/-- **The slices make up the list.** -/
theorem flatten_slices {n c : Nat} (xs : List α) (hc : 0 < c) (hn : xs.length ≤ n) :
    ((starts n c).map (slice xs c)).flatten = xs := by
  have hk : n ≤ (n + c - 1) / c * c := by
    have hdiv := Nat.div_add_mod (n + c - 1) c
    have hmod := Nat.mod_lt (n + c - 1) hc
    rw [Nat.mul_comm] at hdiv
    omega
  rw [starts, flatten_slices_range', List.drop_zero]
  exact List.take_of_length_le (by omega)

end Slices
