import Mathlib.InformationTheory.KullbackLeibler.KLFun
import Mathlib.Analysis.MeanInequalitiesPow

/-! Finite distributions over the reals: the softmax of logits on a set, conditioning, and the
divergence of two of them. Gibbs' inequality says that the divergence is nonnegative and zero
only between equal distributions. A step along `b` tilts a distribution: it scales the
probabilities by `exp (η * b)` and divides by the mean of that factor, which grows with `η` when
it is brought to the power `1 / η`. -/

namespace Gibbs

open Real InformationTheory

variable {ι : Type*} {s t : Finset ι} {p q x y : ι → ℝ}

/-- The divergence of `p` from `q` on `s`. -/
noncomputable def kl (s : Finset ι) (p q : ι → ℝ) : ℝ := ∑ i ∈ s, p i * (log (p i) - log (q i))

/-- `p` conditioned on `s`. -/
noncomputable def cond (s : Finset ι) (p : ι → ℝ) (i : ι) : ℝ := p i / ∑ j ∈ s, p j

/-- The distribution on `s` with the logits `x`. -/
noncomputable def softmax (s : Finset ι) (x : ι → ℝ) (i : ι) : ℝ := exp (x i) / ∑ j ∈ s, exp (x j)

/-! ## Gibbs' inequality -/

theorem kl_eq_sum_klFun (hp : ∀ i ∈ s, 0 < p i) (hq : ∀ i ∈ s, 0 < q i)
    (hsum : ∑ i ∈ s, p i = ∑ i ∈ s, q i) : kl s p q = ∑ i ∈ s, q i * klFun (p i / q i) := by
  have hterm : ∀ i ∈ s, q i * klFun (p i / q i) =
      p i * (log (p i) - log (q i)) + (q i - p i) := by
    intro i hi
    have hqi := (hq i hi).ne'
    rw [klFun_apply, log_div (hp i hi).ne' hqi]
    field_simp
    ring
  rw [Finset.sum_congr rfl hterm, Finset.sum_add_distrib, Finset.sum_sub_distrib, hsum, sub_self,
    add_zero, kl]

theorem kl_nonneg (hp : ∀ i ∈ s, 0 < p i) (hq : ∀ i ∈ s, 0 < q i)
    (hsum : ∑ i ∈ s, p i = ∑ i ∈ s, q i) : 0 ≤ kl s p q := by
  rw [kl_eq_sum_klFun hp hq hsum]
  refine Finset.sum_nonneg fun i hi => ?_
  exact mul_nonneg (hq i hi).le (klFun_nonneg (div_pos (hp i hi) (hq i hi)).le)

theorem kl_eq_zero_iff (hp : ∀ i ∈ s, 0 < p i) (hq : ∀ i ∈ s, 0 < q i)
    (hsum : ∑ i ∈ s, p i = ∑ i ∈ s, q i) : kl s p q = 0 ↔ ∀ i ∈ s, p i = q i := by
  have hnonneg : ∀ i ∈ s, 0 ≤ q i * klFun (p i / q i) := fun i hi =>
    mul_nonneg (hq i hi).le (klFun_nonneg (div_pos (hp i hi) (hq i hi)).le)
  rw [kl_eq_sum_klFun hp hq hsum, Finset.sum_eq_zero_iff_of_nonneg hnonneg]
  refine forall₂_congr fun i hi => ?_
  rw [mul_eq_zero_iff_left (hq i hi).ne', klFun_eq_zero_iff (div_pos (hp i hi) (hq i hi)).le,
    div_eq_one_iff_eq (hq i hi).ne']

theorem kl_congr {p' q' : ι → ℝ} (hp : ∀ i ∈ s, p i = p' i) (hq : ∀ i ∈ s, q i = q' i) :
    kl s p q = kl s p' q' := by
  refine Finset.sum_congr rfl fun i hi => ?_
  rw [hp i hi, hq i hi]

/-! ## Softmax -/

theorem sum_exp_pos (hs : s.Nonempty) (x : ι → ℝ) : 0 < ∑ i ∈ s, exp (x i) :=
  Finset.sum_pos (fun i _ => exp_pos (x i)) hs

theorem softmax_pos (hs : s.Nonempty) (x : ι → ℝ) (i : ι) : 0 < softmax s x i :=
  div_pos (exp_pos (x i)) (sum_exp_pos hs x)

theorem sum_softmax (hs : s.Nonempty) (x : ι → ℝ) : ∑ i ∈ s, softmax s x i = 1 := by
  unfold softmax
  rw [← Finset.sum_div, div_self (sum_exp_pos hs x).ne']

theorem log_softmax (hs : s.Nonempty) (x : ι → ℝ) (i : ι) :
    log (softmax s x i) = x i - log (∑ j ∈ s, exp (x j)) := by
  rw [softmax, log_div (exp_ne_zero _) (sum_exp_pos hs x).ne', log_exp]

theorem softmax_congr (h : ∀ i ∈ s, x i = y i) {i : ι} (hi : i ∈ s) :
    softmax s x i = softmax s y i := by
  have hsum : ∑ j ∈ s, exp (x j) = ∑ j ∈ s, exp (y j) :=
    Finset.sum_congr rfl fun j hj => by rw [h j hj]
  rw [softmax, softmax, hsum, h i hi]

/-- A softmax conditioned on a part of its set is the softmax on that part. -/
theorem cond_softmax (ht : t.Nonempty) (x : ι → ℝ) (i : ι) :
    cond s (softmax t x) i = softmax s x i := by
  have hne := (sum_exp_pos ht x).ne'
  unfold cond softmax
  rw [← Finset.sum_div, div_div_div_cancel_right₀ hne]

/-- The divergence of two softmaxes. -/
theorem kl_softmax_nonneg (hs : s.Nonempty) (x y : ι → ℝ) :
    0 ≤ kl s (softmax s x) (softmax s y) :=
  kl_nonneg (fun i _ => softmax_pos hs x i) (fun i _ => softmax_pos hs y i)
    ((sum_softmax hs x).trans (sum_softmax hs y).symm)

theorem kl_softmax_eq_zero_iff (hs : s.Nonempty) (x y : ι → ℝ) :
    kl s (softmax s x) (softmax s y) = 0 ↔ ∀ i ∈ s, softmax s x i = softmax s y i :=
  kl_eq_zero_iff (fun i _ => softmax_pos hs x i) (fun i _ => softmax_pos hs y i)
    ((sum_softmax hs x).trans (sum_softmax hs y).symm)

/-! ## Tilting -/

/-- The mean of `exp (η * b)`. -/
noncomputable def tiltMean (s : Finset ι) (p b : ι → ℝ) (η : ℝ) : ℝ := ∑ i ∈ s, p i * exp (η * b i)

variable {b : ι → ℝ} {η η' : ℝ}

theorem tiltMean_pos (hs : s.Nonempty) (hp : ∀ i ∈ s, 0 < p i) (b : ι → ℝ) (η : ℝ) :
    0 < tiltMean s p b η :=
  Finset.sum_pos (fun i hi => mul_pos (hp i hi) (exp_pos _)) hs

/-- A step of the logits tilts the softmax. -/
theorem softmax_tilt (hs : s.Nonempty) (x b : ι → ℝ) (η : ℝ) (i : ι) :
    softmax s (fun j => x j + η * b j) i =
      softmax s x i * exp (η * b i) / tiltMean s (softmax s x) b η := by
  have hne := (sum_exp_pos hs x).ne'
  have hmean : tiltMean s (softmax s x) b η =
      (∑ j ∈ s, exp (x j + η * b j)) / ∑ j ∈ s, exp (x j) := by
    unfold tiltMean softmax
    rw [Finset.sum_div]
    refine Finset.sum_congr rfl fun j _ => ?_
    rw [exp_add]
    ring
  rw [hmean]
  unfold softmax
  rw [exp_add]
  field_simp

/-- What the step makes more likely has a factor above the mean. -/
theorem lt_tilt_iff (hs : s.Nonempty) (hp : ∀ i ∈ s, 0 < p i) {i : ι} (hi : i ∈ s) :
    p i < p i * exp (η * b i) / tiltMean s p b η ↔ log (tiltMean s p b η) < η * b i := by
  have hmean := tiltMean_pos hs hp b η
  rw [lt_div_iff₀ hmean, mul_lt_mul_iff_right₀ (hp i hi), log_lt_iff_lt_exp hmean]

theorem tiltMean_le (hp : ∀ i ∈ s, 0 ≤ p i) (hsum : ∑ i ∈ s, p i = 1) {c : ℝ}
    (hc : ∀ i ∈ s, η * b i ≤ c) : tiltMean s p b η ≤ exp c := by
  calc tiltMean s p b η ≤ ∑ i ∈ s, p i * exp c :=
        Finset.sum_le_sum fun i hi => mul_le_mul_of_nonneg_left (exp_le_exp.mpr (hc i hi)) (hp i hi)
    _ = exp c := by rw [← Finset.sum_mul, hsum, one_mul]

/-- The power means of `exp b` grow with the exponent. -/
theorem log_tiltMean_div_le (hs : s.Nonempty) (hp : ∀ i ∈ s, 0 < p i) (hsum : ∑ i ∈ s, p i = 1)
    (hη : 0 < η) (hle : η ≤ η') :
    log (tiltMean s p b η) / η ≤ log (tiltMean s p b η') / η' := by
  have hη' := hη.trans_le hle
  have hmean := tiltMean_pos hs hp b η
  have hpow : tiltMean s p b η ^ (η' / η) ≤ tiltMean s p b η' := by
    have hjensen := rpow_arith_mean_le_arith_mean_rpow s p (fun i => exp (η * b i))
      (fun i hi => (hp i hi).le) hsum (fun i _ => (exp_pos _).le) ((one_le_div hη).mpr hle)
    refine hjensen.trans_eq (Finset.sum_congr rfl fun i _ => ?_)
    rw [← exp_mul]
    congr 2
    field_simp
  have hlog := log_le_log (rpow_pos_of_pos hmean _) hpow
  rw [log_rpow hmean] at hlog
  rw [div_le_div_iff₀ hη hη']
  calc log (tiltMean s p b η) * η' = η' / η * log (tiltMean s p b η) * η := by field_simp
    _ ≤ log (tiltMean s p b η') * η := mul_le_mul_of_nonneg_right hlog hη.le

end Gibbs
