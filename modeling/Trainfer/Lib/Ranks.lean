import Mathlib.Data.Fin.Tuple.Sort
import Mathlib.Algebra.BigOperators.Intervals
import Mathlib.Algebra.Order.Field.Basic
import Mathlib.Tactic.Ring
import Mathlib.Tactic.Linarith

/-! Ranks as the argsort of an argsort.

A sort of indices returns some permutation that sorts the values; which one, where values
repeat, is open. Sorting the sorted indices once more inverts the permutation, so it gives every
position the rank of its value. `centered` shifts the ranks to mean zero. -/

namespace Ranks

/-- What centered ranks are numbers of. -/
abbrev Scalar (K : Type) := Field K

/-- A sort of indices, for tuples over any linear order. -/
structure Argsort where
  perm : ∀ {α : Type} [LinearOrder α] {n : ℕ}, (Fin n → α) → Equiv.Perm (Fin n)
  monotone_perm : ∀ {α : Type} [LinearOrder α] {n : ℕ} (f : Fin n → α), Monotone (f ∘ perm f)

/-- A permutation is determined by how it orders the positions. -/
theorem perm_eq_of_lt_iff {n : ℕ} {σ τ : Equiv.Perm (Fin n)}
    (h : ∀ i j, σ i < σ j ↔ τ i < τ j) : σ = τ := by
  have hτ : Monotone (σ ∘ τ.symm) := by
    intro a b hab
    have hle : ¬ τ (τ.symm b) < τ (τ.symm a) := by simpa using hab
    rw [← h] at hle
    exact not_lt.mp hle
  have hσ : Monotone (σ ∘ σ.symm) := by
    intro a b hab
    simpa using hab
  ext i : 1
  have hi := congrFun (Tuple.unique_monotone hτ hσ) (τ i)
  simpa using hi

namespace Argsort

variable (A : Argsort) {α β : Type} [LinearOrder α] [LinearOrder β] {n : ℕ} {f : Fin n → α}

/-- The rank of every position. -/
def rank (f : Fin n → α) : Equiv.Perm (Fin n) := A.perm fun i => (A.perm f i : ℕ)

theorem rank_eq_symm (f : Fin n → α) : A.rank f = (A.perm f).symm := by
  have hrank := A.monotone_perm fun i => (A.perm f i : ℕ)
  have hsymm : Monotone ((fun i => (A.perm f i : ℕ)) ∘ (A.perm f).symm) := by
    intro a b hab
    simpa using hab
  ext i : 1
  have hi := congrFun (Tuple.unique_monotone hrank hsymm) i
  have hval : A.perm f (A.rank f i) = A.perm f ((A.perm f).symm i) := Fin.ext hi
  exact (A.perm f).injective hval

/-- A smaller value has a smaller rank. -/
theorem rank_lt_of_lt {i j : Fin n} (h : f i < f j) : A.rank f i < A.rank f j := by
  by_contra hle
  have hmono := A.monotone_perm f (not_lt.mp hle)
  rw [rank_eq_symm] at hmono
  simp only [Function.comp_apply, Equiv.apply_symm_apply] at hmono
  exact absurd h (not_lt.mpr hmono)

/-- Distinct values are ranked as they are ordered. -/
theorem rank_lt_iff (hf : Function.Injective f) {i j : Fin n} :
    A.rank f i < A.rank f j ↔ f i < f j := by
  constructor
  · intro h
    rcases lt_trichotomy (f i) (f j) with hlt | heq | hgt
    · exact hlt
    · rw [hf heq] at h
      exact absurd h (lt_irrefl _)
    · exact absurd (A.rank_lt_of_lt hgt) h.asymm
  · exact A.rank_lt_of_lt

omit [LinearOrder β] in
theorem injective_of_ne {g : Fin n → β} (hf : Function.Injective f)
    (h : ∀ i j, f i < f j → g i ≠ g j) : Function.Injective g := by
  intro i j hij
  by_contra hne
  rcases lt_or_gt_of_ne (fun heq => hne (hf heq)) with hlt | hlt
  · exact h i j hlt hij
  · exact h j i hlt hij.symm

/-- Ranks depend on the order of the values only. -/
theorem rank_congr {g : Fin n → β} (hf : Function.Injective f)
    (h : ∀ i j, g i < g j ↔ f i < f j) : A.rank g = A.rank f := by
  have hg := injective_of_ne hf fun i j hlt => ((h i j).mpr hlt).ne
  refine perm_eq_of_lt_iff fun i j => ?_
  rw [A.rank_lt_iff hg, A.rank_lt_iff hf, h]

/-- Turning the order around turns the ranks around. -/
theorem rank_rev {g : Fin n → β} (hf : Function.Injective f)
    (h : ∀ i j, g i < g j ↔ f j < f i) (i : Fin n) : A.rank g i = (A.rank f i).rev := by
  have hg := injective_of_ne hf fun i j hlt => ((h j i).mpr hlt).ne'
  have hperm : A.rank g = (A.rank f).trans Fin.revPerm := by
    refine perm_eq_of_lt_iff fun i j => ?_
    rw [A.rank_lt_iff hg, h]
    simp [A.rank_lt_iff hf]
  rw [hperm]
  rfl

/-! ## Ranks around zero -/

variable (K : Type) [Scalar K]

/-- The `i`-th of `n` numbers at distance 1 with mean zero. -/
def orderStatistic (n i : ℕ) : K := i - (n - 1) / 2

def centered (f : Fin n → α) (i : Fin n) : K := orderStatistic K n (A.rank f i)

theorem sum_orderStatistic [CharZero K] (n : ℕ) :
    ((List.range n).map (orderStatistic K n)).sum = 0 := by
  have hsum : ∀ m : ℕ, ((List.range m).map (orderStatistic K n)).sum = m * (m - n) / 2 := by
    intro m
    induction m with
    | zero => simp
    | succ m ih =>
      rw [List.range_succ, List.map_append, List.sum_append, ih]
      simp only [orderStatistic, List.map_cons, List.map_nil, List.sum_cons, List.sum_nil]
      push_cast
      ring
  rw [hsum, sub_self, mul_zero, zero_div]

/-- The centered ranks are these numbers in some order. -/
theorem centered_perm (f : Fin n → α) :
    (List.ofFn (A.centered K f)).Perm ((List.range n).map (orderStatistic K n)) := by
  have hperm := (A.rank f).ofFn_comp_perm fun i : Fin n => orderStatistic K n i
  refine hperm.trans (List.Perm.of_eq ?_)
  rw [List.ofFn_eq_map, ← List.map_coe_finRange_eq_range, List.map_map]
  rfl

theorem centered_rev {g : Fin n → β} (hf : Function.Injective f)
    (h : ∀ i j, g i < g j ↔ f j < f i) [CharZero K] (i : Fin n) :
    A.centered K g i = -A.centered K f i := by
  have hval : (((A.rank f i).rev : ℕ) : K) = n - 1 - (A.rank f i : ℕ) := by
    rw [Fin.val_rev, Nat.cast_sub (A.rank f i).isLt]
    push_cast
    ring
  rw [centered, centered, A.rank_rev hf h, orderStatistic, orderStatistic, hval]
  ring

variable [LinearOrder K] [IsStrictOrderedRing K]

theorem orderStatistic_lt {n i j : ℕ} (h : i < j) : orderStatistic K n i < orderStatistic K n j :=
  sub_lt_sub_right (Nat.cast_lt.mpr h) _

theorem centered_lt_of_lt {i j : Fin n} (h : f i < f j) :
    A.centered K f i < A.centered K f j :=
  orderStatistic_lt K (A.rank_lt_of_lt h)

end Argsort

end Ranks
