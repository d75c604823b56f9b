import Mathlib.Order.Lattice
import Mathlib.Data.List.Infix

/-! Giving up on a score that no longer improves: the best value so far, and how long ago it was
seen.

`stale_iff` says what the counter stands for, and `Slow` bounds how long a score that can only
improve so often keeps a loop going. -/

namespace Patience

universe u
variable {α : Type u} [LinearOrder α]

structure Tracker (α : Type u) where
  best : α
  since : ℕ

def Tracker.see (t : Tracker α) (x : α) : Tracker α :=
  if t.best < x then ⟨x, 0⟩ else ⟨t.best, t.since + 1⟩

/-- None of the last `p` values is better than all before them. -/
def Stale (p : ℕ) (xs : List α) : Prop :=
  ∃ earlier recent, xs = earlier ++ recent ∧ recent.length = p ∧
    ∀ x ∈ recent, ∃ e ∈ earlier, x ≤ e

/-- The tracker after some values: the best stands where it was first reached. -/
def Tracks (t : Tracker α) (xs : List α) : Prop :=
  ∃ before recent, xs = before ++ t.best :: recent ∧ recent.length = t.since ∧
    (∀ x ∈ before, x < t.best) ∧ ∀ x ∈ recent, x ≤ t.best

variable {t : Tracker α} {xs : List α} {p : ℕ}

theorem Tracks.see (h : Tracks t xs) (x : α) : Tracks (t.see x) (xs ++ [x]) := by
  obtain ⟨before, recent, rfl, hlength, hbefore, hrecent⟩ := h
  unfold Tracker.see
  split
  · rename_i hlt
    refine ⟨before ++ t.best :: recent, [], by simp, rfl, fun y hy => ?_, by simp⟩
    rcases List.mem_append.mp hy with hy | hy
    · exact (hbefore y hy).trans hlt
    · rcases List.mem_cons.mp hy with rfl | hy
      · exact hlt
      · exact (hrecent y hy).trans_lt hlt
  · rename_i hle
    refine ⟨before, recent ++ [x], by simp, by simp [hlength], hbefore, fun y hy => ?_⟩
    rcases List.mem_append.mp hy with hy | hy
    · exact hrecent y hy
    · rw [List.mem_singleton.mp hy]
      exact not_lt.mp hle

/-- **The counter.** Values are stale for as long as the best of them is in the past. -/
theorem stale_iff (h : Tracks t xs) : Stale p xs ↔ p ≤ t.since := by
  obtain ⟨before, recent, rfl, hlength, hbefore, hrecent⟩ := h
  constructor
  · rintro ⟨earlier, last, heq, rfl, hlast⟩
    by_contra hlt
    -- the best is one of the last, and nothing before it comes near
    have hlong : recent.length + 1 ≤ last.length := by omega
    have hsuffix : t.best :: recent <:+ last := by
      have hwhole : last <:+ before ++ t.best :: recent := ⟨earlier, heq.symm⟩
      refine List.suffix_of_suffix_length_le (List.suffix_append _ _) hwhole ?_
      rwa [List.length_cons]
    obtain ⟨more, rfl⟩ := hsuffix
    obtain ⟨e, he, hle⟩ := hlast t.best (by simp)
    have hmem : e ∈ before := by
      rw [← List.append_assoc, List.append_cancel_right_eq] at heq
      rw [heq]
      exact List.mem_append_left more he
    exact absurd (hbefore e hmem) (not_lt.mpr hle)
  · intro hle
    refine ⟨before ++ t.best :: recent.take (recent.length - p), recent.drop (recent.length - p),
      by simp, by rw [List.length_drop]; omega, fun x hx => ?_⟩
    exact ⟨t.best, by simp, hrecent x (List.mem_of_mem_drop hx)⟩

/-- After `n` values that follow a first one: each improvement has been waited for less than `p`
steps. `f` counts how good a value is. -/
structure Slow (f : α → ℕ) (first : α) (p n : ℕ) (t : Tracker α) : Prop where
  le : f first ≤ f t.best
  steps : n ≤ p * (f t.best - f first) + t.since

variable {f : α → ℕ} {first : α} {n : ℕ}

theorem Slow.see (h : Slow f first p n t) (hsince : t.since < p) {x : α}
    (hf : t.best < x → f t.best < f x) : Slow f first p (n + 1) (t.see x) := by
  have hsteps := h.steps
  have hle := h.le
  unfold Tracker.see
  split
  · rename_i hlt
    have hbetter := hf hlt
    refine ⟨hle.trans hbetter.le, ?_⟩
    have hmul : p * (f t.best - f first + 1) ≤ p * (f x - f first) :=
      Nat.mul_le_mul_left p (by omega)
    rw [Nat.mul_add_one] at hmul
    show n + 1 ≤ p * (f x - f first) + 0
    omega
  · refine ⟨hle, ?_⟩
    show n + 1 ≤ p * (f t.best - f first) + (t.since + 1)
    omega

end Patience
