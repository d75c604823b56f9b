import Trainfer.Lib.Ranks
import Mathlib.Algebra.BigOperators.Fin
import Mathlib.Algebra.BigOperators.Field
import Mathlib.Order.Lattice

/-! The first positions of a descending sort, and weights that go by the rank.

Where values do not repeat, the descending sort is the inverse of the ranks turned around, so its
first `m` positions are those of the `m` highest ranks. -/

namespace Ranks.Argsort

variable (A : Argsort) {α : Type} [LinearOrder α] {n : ℕ} {f : Fin n → α}

/-- The positions by falling value. -/
def descending (f : Fin n → α) : Equiv.Perm (Fin n) := A.perm fun i => OrderDual.toDual (f i)

theorem descending_eq (hf : Function.Injective f) (j : Fin n) :
    A.descending f j = A.perm f j.rev := by
  have hmono : Monotone ((fun i => OrderDual.toDual (f i)) ∘ Fin.revPerm.trans (A.perm f)) := by
    intro a b hab
    exact A.monotone_perm f (Fin.rev_le_rev.mpr hab)
  have h := congrFun (Tuple.unique_monotone (A.monotone_perm fun i => OrderDual.toDual (f i)) hmono) j
  exact hf (OrderDual.toDual.injective h)

theorem rank_descending (hf : Function.Injective f) (j : Fin n) :
    A.rank f (A.descending f j) = j.rev := by
  rw [A.descending_eq hf, A.rank_eq_symm, Equiv.symm_apply_apply]

/-- A sum over the first positions is one over the highest ranks. -/
theorem sum_take_descending {M : Type*} [AddCommMonoid M] (hf : Function.Injective f) (x : Fin n → M)
    (m : ℕ) : ((List.ofFn fun j => x (A.descending f j)).take m).sum =
      ∑ i, if n ≤ m + A.rank f i then x i else 0 := by
  have hsum := Equiv.sum_comp (A.descending f) fun i => if n ≤ m + A.rank f i then x i else 0
  rw [List.sum_take_ofFn, Finset.sum_filter, ← hsum]
  refine Finset.sum_congr rfl fun j _ => ?_
  have hj := j.isLt
  rw [A.rank_descending hf, Fin.val_rev]
  exact if_congr (by omega) rfl rfl

/-- The position of some rank is the one that no other can have passed. -/
theorem rank_eq_of_forall {r i : Fin n} (h : ∀ j ≠ i, A.rank f j ≠ r) : A.rank f i = r := by
  by_contra hne
  have hj : (A.rank f).symm r ≠ i := fun heq => hne (heq ▸ (A.rank f).apply_symm_apply r)
  exact h _ hj ((A.rank f).apply_symm_apply r)

theorem rank_largest {i : Fin n} (h : ∀ j ≠ i, f j < f i) : (A.rank f i : ℕ) = n - 1 := by
  have hn := i.pos
  refine congrArg Fin.val (A.rank_eq_of_forall (r := ⟨n - 1, by omega⟩) fun j hj hr => ?_)
  have hlt := A.rank_lt_of_lt (h j hj)
  have hi := (A.rank f i).isLt
  rw [hr, Fin.lt_def] at hlt
  simp only at hlt
  omega

theorem rank_smallest {i : Fin n} (h : ∀ j ≠ i, f i < f j) : (A.rank f i : ℕ) = 0 := by
  refine congrArg Fin.val (A.rank_eq_of_forall (r := ⟨0, i.pos⟩) fun j hj hr => ?_)
  have hlt := A.rank_lt_of_lt (h j hj)
  rw [hr] at hlt
  exact absurd hlt (Nat.not_lt_zero _)

/-! ## Weights -/

variable (K : Type) [Scalar K]

theorem centered_lt_iff [LinearOrder K] [IsStrictOrderedRing K] {i j : Fin n} :
    A.centered K f i < A.centered K f j ↔ A.rank f i < A.rank f j := by
  have hmono : StrictMono (orderStatistic K n) := fun _ _ h => orderStatistic_lt K h
  exact hmono.lt_iff_lt

theorem centered_injective [LinearOrder K] [IsStrictOrderedRing K] :
    Function.Injective (A.centered K f) := by
  have hmono : StrictMono (orderStatistic K n) := fun _ _ h => orderStatistic_lt K h
  exact fun i j hij => (A.rank f).injective (Fin.ext (hmono.injective hij))

/-- The ranks of the centered ranks are the ranks. -/
theorem rank_centered [LinearOrder K] [IsStrictOrderedRing K] :
    A.rank (A.centered K f) = A.rank f :=
  perm_eq_of_lt_iff fun i j => by rw [A.rank_lt_iff (A.centered_injective K), A.centered_lt_iff]

/-- What a position of rank `r` weighs: its share of the centered ranks, and of a bonus for the
`m` highest ranks. -/
def rankWeight (bonus : K) (n m r : ℕ) : K :=
  orderStatistic K n r / n + if n ≤ m + r then bonus / m else 0

variable {K} {bonus : K} {m : ℕ}

theorem sum_rankWeight [CharZero K] (hm : 0 < m) (hmn : m ≤ n) (σ : Equiv.Perm (Fin n)) :
    ∑ i, rankWeight K bonus n m (σ i) = bonus := by
  rw [Equiv.sum_comp σ fun i => rankWeight K bonus n m (i : ℕ)]
  simp only [rankWeight]
  have hzero : ∑ i : Fin n, orderStatistic K n i = 0 := by
    rw [← List.sum_ofFn, List.ofFn_eq_map, ← sum_orderStatistic K n,
      ← List.map_coe_finRange_eq_range, List.map_map]
    rfl
  have hbonus : (∑ i : Fin n, if n ≤ m + i then bonus / m else 0) = bonus := by
    have htake := List.sum_take_ofFn (fun _ : Fin n => bonus / (m : K)) m
    rw [List.ofFn_const, List.take_replicate, List.sum_replicate, min_eq_left hmn, nsmul_eq_mul,
      mul_div_cancel₀ _ (Nat.cast_ne_zero.mpr hm.ne'), Finset.sum_filter] at htake
    rw [← Equiv.sum_comp Fin.revPerm]
    refine (Finset.sum_congr rfl fun i _ => ?_).trans htake.symm
    have hi := i.isLt
    rw [Fin.revPerm_apply, Fin.val_rev]
    exact if_congr (by omega) rfl rfl
  rw [Finset.sum_add_distrib, ← Finset.sum_div, hzero, zero_div, hbonus, zero_add]

variable [LinearOrder K] [IsStrictOrderedRing K]

theorem rankWeight_lt {r s : ℕ} (hbonus : 0 ≤ bonus) (hn : 0 < n) (h : r < s) :
    rankWeight K bonus n m r < rankWeight K bonus n m s := by
  refine add_lt_add_of_lt_of_le ?_ ?_
  · exact div_lt_div_of_pos_right (orderStatistic_lt K h) (Nat.cast_pos.mpr hn)
  · have hshare : 0 ≤ bonus / m := div_nonneg hbonus m.cast_nonneg
    split_ifs with hr hs
    · exact le_refl _
    · omega
    · exact hshare
    · exact le_refl _

end Ranks.Argsort
