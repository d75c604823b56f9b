import Trainfer.Lib.Gibbs
import Mathlib.Analysis.SpecialFunctions.Log.Deriv

/-! Softmax along a path of logits. A path has a derivative at each logit, and that of the
log-sum-exp is the mean of these under the softmax. What loses against every other logit becomes
less likely, and what is behind `n` others has at most a share of one in `n + 1`. -/

namespace Gibbs

open Real

variable {ι : Type*} {s : Finset ι} {x y : ι → ℝ} {i : ι}

/-! ## Derivatives -/

section
variable {path : ℝ → ι → ℝ} {d : ι → ℝ} {u : ℝ}

theorem hasDerivAt_sum_exp (hpath : ∀ j ∈ s, HasDerivAt (fun v => path v j) (d j) u) :
    HasDerivAt (fun v => ∑ j ∈ s, exp (path v j)) (∑ j ∈ s, exp (path u j) * d j) u :=
  HasDerivAt.fun_sum fun j hj => (hpath j hj).exp

theorem hasDerivAt_logSumExp (hs : s.Nonempty)
    (hpath : ∀ j ∈ s, HasDerivAt (fun v => path v j) (d j) u) :
    HasDerivAt (fun v => log (∑ j ∈ s, exp (path v j))) (∑ j ∈ s, softmax s (path u) j * d j) u := by
  have hlog := (hasDerivAt_sum_exp hpath).log (sum_exp_pos hs (path u)).ne'
  convert hlog using 1
  rw [Finset.sum_div]
  refine Finset.sum_congr rfl fun j _ => ?_
  rw [softmax, div_mul_eq_mul_div]

/-- A probability grows by how far its logit is ahead of the mean. -/
theorem hasDerivAt_softmax (hs : s.Nonempty)
    (hpath : ∀ j ∈ s, HasDerivAt (fun v => path v j) (d j) u) (hi : i ∈ s) :
    HasDerivAt (fun v => softmax s (path v) i)
      (softmax s (path u) i * (d i - ∑ j ∈ s, softmax s (path u) j * d j)) u := by
  have hexp : ∀ v, softmax s (path v) i = exp (path v i - log (∑ j ∈ s, exp (path v j))) := by
    intro v
    rw [← log_softmax hs, exp_log (softmax_pos hs _ _)]
  simp only [hexp]
  exact ((hpath i hi).sub (hasDerivAt_logSumExp hs hpath)).exp

end

/-! ## Order -/

theorem softmax_eq_inv (s : Finset ι) (x : ι → ℝ) (i : ι) :
    softmax s x i = (∑ j ∈ s, exp (x j - x i))⁻¹ := by
  have hsum : ∑ j ∈ s, exp (x j - x i) = (∑ j ∈ s, exp (x j)) / exp (x i) := by
    rw [Finset.sum_div]
    exact Finset.sum_congr rfl fun j _ => exp_sub _ _
  rw [hsum, inv_div, softmax]

/-- A logit that falls behind some of the others and gains on none is less likely. -/
theorem softmax_lt_of_lt (hle : ∀ j ∈ s, x j - x i ≤ y j - y i)
    (hlt : ∃ j ∈ s, x j - x i < y j - y i) : softmax s y i < softmax s x i := by
  obtain ⟨j, hj, hjlt⟩ := hlt
  rw [softmax_eq_inv, softmax_eq_inv]
  refine inv_strictAnti₀ (sum_exp_pos ⟨j, hj⟩ _) ?_
  exact Finset.sum_lt_sum (fun k hk => exp_le_exp.mpr (hle k hk)) ⟨j, hj, exp_lt_exp.mpr hjlt⟩

theorem softmax_le_one (hs : s.Nonempty) (x : ι → ℝ) (hi : i ∈ s) : softmax s x i ≤ 1 := by
  rw [← sum_softmax hs x]
  exact Finset.single_le_sum (fun j _ => (softmax_pos hs x j).le) hi

theorem softmax_le_softmax (h : x i ≤ x j) : softmax s x i ≤ softmax s x j := by
  unfold softmax
  exact div_le_div_of_nonneg_right (exp_le_exp.mpr h) (Finset.sum_nonneg fun k _ => (exp_pos _).le)

/-- What is behind `n` others has at most its share of the whole. -/
theorem softmax_mul_le_one (x : ι → ℝ) (hi : i ∈ s) :
    softmax s x i * ((s.filter fun j => x i < x j).card + 1) ≤ 1 := by
  classical
  have hs : s.Nonempty := ⟨i, hi⟩
  have hnot : i ∉ (s.filter fun j => x i < x j) := by simp
  have hsub : insert i (s.filter fun j => x i < x j) ⊆ s :=
    Finset.insert_subset hi (Finset.filter_subset _ _)
  calc softmax s x i * ((s.filter fun j => x i < x j).card + 1)
      = ∑ _j ∈ insert i (s.filter fun j => x i < x j), softmax s x i := by
        rw [Finset.sum_const, Finset.card_insert_of_notMem hnot, nsmul_eq_mul, mul_comm]
        push_cast
        ring
    _ ≤ ∑ j ∈ insert i (s.filter fun j => x i < x j), softmax s x j := by
        refine Finset.sum_le_sum fun j hj => softmax_le_softmax ?_
        rcases Finset.mem_insert.mp hj with rfl | hj
        · exact le_rfl
        · exact (Finset.mem_filter.mp hj).2.le
    _ ≤ ∑ j ∈ s, softmax s x j :=
        Finset.sum_le_sum_of_subset_of_nonneg hsub fun j _ _ => (softmax_pos hs x j).le
    _ = 1 := sum_softmax hs x

end Gibbs
