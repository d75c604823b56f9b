import Trainfer.Lib.Slices
import Mathlib.Data.List.Nodup

/-! A buffer that is filled slice by slice, as in
`for i in range(0, n, c): out[i:j] = xs[i:j]` with `j = min(i + c, n)`. The slices that are
written overwrite all that the buffer held (`fill_eq`), each position once (`countP_starts`). -/

namespace Buffer

universe u
variable {α : Type u}

/-- `out[i:j] = values`, for `j - i` values. -/
def write (out values : List α) (i j : ℕ) : List α := out.take i ++ values ++ out.drop j

/-- The loop, with the values of `out[i:j]`. -/
def fill (values : ℕ → ℕ → List α) (n c : ℕ) (out : List α) : List α :=
  (Slices.starts n c).foldl (fun out i => write out (values i (min (i + c) n)) i (min (i + c) n))
    out

variable {xs old : List α} {values : ℕ → ℕ → List α} {n c : ℕ}

/-- One round: what is left of the old content begins behind the slice. -/
theorem write_slice (hlength : old.length = xs.length) (s c : ℕ) :
    write (xs.take s ++ old.drop s) ((xs.take (min (s + c) xs.length)).drop s) s
        (min (s + c) xs.length) =
      xs.take (s + c) ++ old.drop (s + c) := by
  have hstop : ∀ j, xs.take (min j xs.length) ++ old.drop (min j xs.length) =
      xs.take j ++ old.drop j := by
    intro j
    rcases le_total j xs.length with hle | hge
    · rw [min_eq_left hle]
    · rw [min_eq_right hge, List.take_length, List.take_of_length_le hge,
        List.drop_of_length_le hlength.le, List.drop_of_length_le (hlength.le.trans hge)]
  rcases le_total s xs.length with hle | hge
  · have hs : (xs.take s).length = s := by rw [List.length_take, min_eq_left hle]
    have hsj : s ≤ min (s + c) xs.length := le_min (Nat.le_add_right s c) hle
    have hvalues : xs.take s ++ (xs.take (min (s + c) xs.length)).drop s =
        xs.take (min (s + c) xs.length) := by
      conv_rhs => rw [← List.take_append_drop s (xs.take (min (s + c) xs.length)),
        List.take_take, min_eq_left hsj]
    have hrest : (xs.take s ++ old.drop s).drop (min (s + c) xs.length) =
        old.drop (min (s + c) xs.length) := by
      rw [List.drop_append, hs, List.drop_of_length_le (hs.trans_le hsj), List.nil_append,
        List.drop_drop, Nat.add_sub_cancel' hsj]
    rw [write, List.take_left' hs, hvalues, hrest, hstop]
  · -- the buffer is full
    have hfull : ∀ j, xs.length ≤ j → xs.take j ++ old.drop j = xs := by
      intro j hj
      rw [List.take_of_length_le hj, List.drop_of_length_le (hlength.le.trans hj),
        List.append_nil]
    rw [hfull s hge, hfull (s + c) (hge.trans (Nat.le_add_right s c)),
      min_eq_right (hge.trans (Nat.le_add_right s c)), write, List.take_of_length_le hge,
      List.take_length, List.drop_of_length_le hge, List.drop_length, List.append_nil,
      List.append_nil]

theorem fill_range' (hlength : old.length = xs.length)
    (hvalues : ∀ i j, values i j = (xs.take j).drop i) (s k c : ℕ) :
    (List.range' s k c).foldl (fun out i => write out (values i (min (i + c) xs.length)) i
        (min (i + c) xs.length)) (xs.take s ++ old.drop s) =
      xs.take (s + k * c) ++ old.drop (s + k * c) := by
  induction k generalizing s with
  | zero => simp
  | succ k ih =>
    have hnext : s + (k + 1) * c = s + c + k * c := by
      rw [Nat.succ_mul]
      omega
    rw [List.range'_succ, List.foldl_cons, hvalues, write_slice hlength, ih, hnext]

/-- **The buffer holds the list**, whatever it held before. -/
theorem fill_eq (hc : 0 < c) (hlength : old.length = xs.length)
    (hvalues : ∀ i j, values i j = (xs.take j).drop i) : fill values xs.length c old = xs := by
  have hrounds := fill_range' hlength hvalues 0 ((xs.length + c - 1) / c) c
  have hk : xs.length ≤ 0 + (xs.length + c - 1) / c * c := by
    have hdiv := Nat.div_add_mod (xs.length + c - 1) c
    have hmod := Nat.mod_lt (xs.length + c - 1) hc
    rw [Nat.mul_comm] at hdiv
    omega
  rw [List.take_zero, List.drop_zero, List.nil_append] at hrounds
  rw [fill, Slices.starts, hrounds, List.take_of_length_le hk,
    List.drop_of_length_le (hlength.le.trans hk), List.append_nil]

/-- Each position is in one of the slices. -/
theorem countP_starts (hc : 0 < c) {i : ℕ} (hi : i < n) :
    (Slices.starts n c).countP (fun s => s ≤ i ∧ i < min (s + c) n) = 1 := by
  have hnodup : (Slices.starts n c).Nodup := List.nodup_range' c hc
  have hmem : c * (i / c) ∈ Slices.starts n c := by
    refine List.mem_range'.mpr ⟨i / c, ?_, by rw [Nat.zero_add]⟩
    refine (Nat.le_div_iff_mul_le hc).mpr ?_
    have hdiv := Nat.div_add_mod i c
    rw [Nat.succ_mul, Nat.mul_comm]
    omega
  rw [← List.count_eq_one_of_mem hnodup hmem, List.count]
  refine List.countP_congr fun s hs => ?_
  obtain ⟨j, -, rfl⟩ := List.mem_range'.mp hs
  simp only [Nat.zero_add, decide_eq_true_eq, beq_iff_eq, Nat.lt_min]
  constructor
  · rintro ⟨hle, hlt, -⟩
    have hj : i / c = j := by
      rw [Nat.div_eq_of_lt_le]
      · rwa [Nat.mul_comm]
      · rw [Nat.succ_mul, Nat.mul_comm]
        exact hlt
    rw [hj]
  · intro heq
    have hdiv := Nat.div_add_mod i c
    have hmod := Nat.mod_lt i hc
    omega

end Buffer
