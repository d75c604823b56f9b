import Mathlib

/-! The gradients of a low-rank update. For `y = W x + s B A x` and an upstream gradient
`g` on `y`, the gradient on `A` is `s Bᵀ g xᵀ` and the one on `B` is `s g (A x)ᵀ`. Each
factor's gradient vanishes with the other factor, so the update has a gradient at all
exactly if one of its factors is not zero. -/

namespace LowRank

open Matrix

universe u v w x
variable {K : Type u} [Field K] {m : Type v} {n : Type w} {r : Type x}

def gradA [Fintype m] (s : K) (B : Matrix m r K) (g : m → K) (x : n → K) : Matrix r n K :=
  s • vecMulVec (Bᵀ *ᵥ g) x

def gradB [Fintype n] (s : K) (A : Matrix r n K) (g : m → K) (x : n → K) : Matrix m r K :=
  s • vecMulVec g (A *ᵥ x)

theorem gradA_zero [Fintype m] (s : K) (g : m → K) (x : n → K) :
    gradA s (0 : Matrix m r K) g x = 0 := by
  simp [gradA, vecMulVec, ← Matrix.ext_iff]

theorem gradB_zero [Fintype n] (s : K) (g : m → K) (x : n → K) :
    gradB s (0 : Matrix r n K) g x = 0 := by
  simp [gradB, vecMulVec, ← Matrix.ext_iff]

/-- The gradient on `A` sees every entry of `B`. -/
theorem gradA_single [Fintype m] [DecidableEq m] (s : K) (B : Matrix m r K) (o : m)
    (x : n → K) (k : r) (j : n) :
    gradA s B (Pi.single o 1) x k j = s * (B o k * x j) := by
  simp [gradA, vecMulVec_apply]

/-- The gradient on `B` sees every entry of `A`. -/
theorem gradB_single [Fintype n] [DecidableEq n] (s : K) (A : Matrix r n K) (g : m → K)
    (j : n) (o : m) (k : r) :
    gradB s A g (Pi.single j 1) o k = s * (g o * A k j) := by
  simp [gradB, vecMulVec_apply]

theorem exists_ne_zero {A : Matrix r n K} (h : A ≠ 0) : ∃ k j, A k j ≠ 0 := by
  by_contra hall
  push Not at hall
  exact h (Matrix.ext hall)

/-- **Stationary points.** Some input and upstream gradient give a nonzero gradient on a
factor exactly if a factor is not zero. -/
theorem exists_gradient_ne_zero_iff [Fintype m] [Fintype n] [Nonempty m] [Nonempty n] {s : K}
    (hs : s ≠ 0) (A : Matrix r n K) (B : Matrix m r K) :
    (∃ (g : m → K) (x : n → K), gradA s B g x ≠ 0 ∨ gradB s A g x ≠ 0) ↔ A ≠ 0 ∨ B ≠ 0 := by
  classical
  constructor
  · rintro ⟨g, x, h | h⟩
    · right
      rintro rfl
      exact h (gradA_zero s g x)
    · left
      rintro rfl
      exact h (gradB_zero s g x)
  · rintro (h | h)
    · obtain ⟨k, j, hkj⟩ := exists_ne_zero h
      refine ⟨1, Pi.single j 1, .inr fun hz => ?_⟩
      have hentry := congrFun (congrFun hz (Classical.arbitrary m)) k
      rw [gradB_single] at hentry
      simp [hs, hkj] at hentry
    · obtain ⟨o, k, hok⟩ := exists_ne_zero h
      refine ⟨Pi.single o 1, 1, .inl fun hz => ?_⟩
      have hentry := congrFun (congrFun hz k) (Classical.arbitrary n)
      rw [gradA_single] at hentry
      simp [hs, hok] at hentry

/-- **Merging.** A low-rank update can be added to the matrix it is applied beside. -/
theorem mulVec_merge [Fintype n] [Fintype r] (W R : Matrix m n K) (s : K) (B : Matrix m r K)
    (A : Matrix r n K) (x : n → K) :
    (W + (R + s • (B * A))) *ᵥ x = (W + R) *ᵥ x + s • (B *ᵥ (A *ᵥ x)) := by
  rw [← add_assoc, add_mulVec, smul_mulVec, mulVec_mulVec]

end LowRank
