import Trainfer.Ccpd

/-! The two ends of the ranking on the preferred-only path of `ccpd_v2_loss`.

Without a critique the candidates are scored by their plain log-probability, and the scores of
the user's rewrite and of the bad response are written over, one after the other. They end up
strictly first and strictly last, wherever they stand and whatever the log-probabilities are. -/

namespace Trainfer

open Ranks

section
variable {α : Type} {xs : List α} {i j : ℕ} {d : α}

theorem getD_set_self (hi : i < xs.length) (x : α) : (xs.set i x).getD i d = x := by
  simp [List.getD_eq_getElem?_getD, List.getElem?_set_self hi]

theorem getD_set_ne (hij : i ≠ j) (x : α) : (xs.set i x).getD j d = xs.getD j d := by
  simp [List.getD_eq_getElem?_getD, List.getElem?_set_ne hij]

end

/-! ## The ends are candidates -/

variable {K : Type} [Scalar K] {P L : Type}

theorem mem_withPreferred {s : CcpdSample} {y : String} (h : given s.preferred = some y)
    (candidates : List String) : y ∈ withPreferred s candidates := by
  unfold withPreferred
  rw [h]
  by_cases hmem : y ∈ candidates
  · simp only [hmem, if_true]
  · simp [hmem]

theorem mem_withBad {s : CcpdSample} {y : String} {candidates : List String}
    (h : y ∈ candidates ∨ given s.bad = some y) : y ∈ withBad s candidates := by
  unfold withBad
  cases hbad : given s.bad with
  | none => exact h.resolve_right (by simp [hbad])
  | some z =>
    have hz : z = y ∨ y ∈ candidates := by
      rcases h with h | h
      · exact .inr h
      · exact .inl (Option.some.inj (hbad.symm.trans h))
    by_cases hmem : z ∈ candidates
    · rcases hz with rfl | hz
      · simp [hmem]
      · simpa [hmem] using hz
    · rcases hz with rfl | hz
      · simp [hmem]
      · simp [hmem, hz]

/-- Both ends are among the candidates. -/
theorem mem_assemble {k : CcpdModel K P L} {p : P} {args : CcpdArgs K} {s : CcpdSample}
    {candidates : List String} (h : assemble k p args s = .ok candidates) {y : String}
    (hy : given s.preferred = some y ∨ given s.bad = some y) : y ∈ candidates := by
  unfold assemble at h
  obtain ⟨sampled, -, h⟩ := bind_ok h
  cases h
  rcases hy with hy | hy
  · exact mem_withBad (.inl (mem_withPreferred hy _))
  · exact mem_withBad (.inr hy)

/-! ## Pinning -/

variable [LinearOrder K]

theorem le_maxOf {xs : List K} {i : ℕ} (hi : i < xs.length) : xs.getD i 0 ≤ maxOf xs := by
  have hne : xs ≠ [] := List.ne_nil_of_length_pos (by omega)
  obtain ⟨m, hm⟩ := Option.isSome_iff_exists.mp (List.isSome_max?_of_ne_nil hne)
  rw [maxOf, hm, Option.getD_some, List.getD_eq_getElem _ _ hi]
  exact (List.max?_eq_some_iff.mp hm).2 _ (List.getElem_mem hi)

theorem minOf_le {xs : List K} {i : ℕ} (hi : i < xs.length) : minOf xs ≤ xs.getD i 0 := by
  have hne : xs ≠ [] := List.ne_nil_of_length_pos (by omega)
  obtain ⟨m, hm⟩ := Option.isSome_iff_exists.mp (List.isSome_min?_of_ne_nil hne)
  rw [minOf, hm, Option.getD_some, List.getD_eq_getElem _ _ hi]
  exact (List.min?_eq_some_iff.mp hm).2 _ (List.getElem_mem hi)

variable [IsStrictOrderedRing K]

/-- Both ends are strict, whatever the scores were. -/
theorem pinEnds_strict {s : CcpdSample} {candidates : List String} {scores : List K}
    {y z : String} (hy : given s.preferred = some y) (hz : given s.bad = some z) (hne : y ≠ z)
    (hymem : y ∈ candidates) (hzmem : z ∈ candidates)
    (hlength : scores.length = candidates.length) {j : ℕ} (hj : j < candidates.length) :
    (j ≠ candidates.idxOf y → (pinEnds s candidates scores).getD j 0 <
        (pinEnds s candidates scores).getD (candidates.idxOf y) 0) ∧
      (j ≠ candidates.idxOf z → (pinEnds s candidates scores).getD (candidates.idxOf z) 0 <
        (pinEnds s candidates scores).getD j 0) := by
  have hiy := List.idxOf_lt_length_iff.mpr hymem
  have hiz := List.idxOf_lt_length_iff.mpr hzmem
  have hidx : candidates.idxOf z ≠ candidates.idxOf y := by
    intro h
    exact hne ((List.idxOf_inj hymem).mp h.symm)
  rw [← hlength] at hj hiy hiz
  have hpin : pinEnds s candidates scores =
      (scores.set (candidates.idxOf y) (maxOf scores + 1)).set (candidates.idxOf z)
        (minOf (scores.set (candidates.idxOf y) (maxOf scores + 1)) - 1) := by
    simp only [pinEnds, hy, hz]
  rw [hpin]
  generalize candidates.idxOf y = iy at *
  generalize candidates.idxOf z = iz at *
  -- the bad response is put below all scores, the pinned one included
  have hlast : ∀ i < scores.length, i ≠ iz →
      ((scores.set iy (maxOf scores + 1)).set iz
          (minOf (scores.set iy (maxOf scores + 1)) - 1)).getD iz 0 <
        ((scores.set iy (maxOf scores + 1)).set iz
          (minOf (scores.set iy (maxOf scores + 1)) - 1)).getD i 0 := by
    intro i hi hiz'
    rw [getD_set_self (by simpa using hiz), getD_set_ne hiz'.symm]
    exact (sub_one_lt _).trans_le (minOf_le (by simpa using hi))
  refine ⟨fun hjy => ?_, fun hjz => hlast j hj hjz⟩
  by_cases hjz : j = iz
  · rw [hjz]
    exact hlast iy hiy hidx.symm
  · rw [getD_set_ne (Ne.symm hjz), getD_set_ne hidx, getD_set_ne (Ne.symm hjy),
      getD_set_self hiy]
    exact (le_maxOf hj).trans_lt (lt_add_one _)

/-- **Rank advantages.** They are the centered order statistics in the order of the scores,
independent of the scale and turned around with the sign. On the preferred-only path the
preferred response has strictly the largest of them and the bad one strictly the smallest. -/
theorem rankAdvantages_spec (A : Argsort) :
    (∀ scores : List K,
      (rankAdvantages A scores).Perm ((List.range scores.length).map fun i : ℕ =>
        (i : K) - ((scores.length : K) - 1) / 2) ∧
      (rankAdvantages A scores).sum = 0 ∧
      (∀ i j, i < scores.length → j < scores.length → scores.getD i 0 < scores.getD j 0 →
        (rankAdvantages A scores).getD i 0 < (rankAdvantages A scores).getD j 0) ∧
      (scores.Nodup →
        (∀ φ : K → K, StrictMonoOn φ {x | x ∈ scores} →
          rankAdvantages A (scores.map φ) = rankAdvantages A scores) ∧
        rankAdvantages A (scores.map Neg.neg) = (rankAdvantages A scores).map Neg.neg)) ∧
    ∀ (k : CcpdModel K P L) (p : P) (args : CcpdArgs K) (s : CcpdSample) (y z : String)
      (candidates : List String) (scores : List K),
      given s.critique = none → given s.preferred = some y → given s.bad = some z → y ≠ z →
      assemble k p args s = .ok candidates →
      scoreCandidates k p args s candidates = .ok scores →
      candidates.idxOf y < candidates.length ∧ candidates.idxOf z < candidates.length ∧
      ∀ j < candidates.length,
        (j ≠ candidates.idxOf y → (rankAdvantages A scores).getD j 0 <
          (rankAdvantages A scores).getD (candidates.idxOf y) 0) ∧
        (j ≠ candidates.idxOf z → (rankAdvantages A scores).getD (candidates.idxOf z) 0 <
          (rankAdvantages A scores).getD j 0) := by
  constructor
  · intro scores
    have hperm := rankAdvantages_perm A scores
    refine ⟨hperm, ?_, fun i j hi hj h => rankAdvantages_lt A hi hj h, fun hnodup =>
      ⟨fun φ hφ => rankAdvantages_map A hnodup hφ, rankAdvantages_neg A hnodup⟩⟩
    rw [hperm.sum_eq]
    exact Argsort.sum_orderStatistic K scores.length
  · intro k p args s y z candidates scores hcritique hy hz hne hcandidates hscores
    have hlength := length_scoreCandidates hscores
    have hymem := mem_assemble hcandidates (.inl hy)
    have hzmem := mem_assemble hcandidates (.inr hz)
    rw [scoreCandidates, hcritique] at hscores
    obtain ⟨plain, hplain, hpin⟩ := bind_ok hscores
    obtain rfl := Except.ok.inj hpin
    have hiy := List.idxOf_lt_length_iff.mpr hymem
    have hiz := List.idxOf_lt_length_iff.mpr hzmem
    refine ⟨hiy, hiz, fun j hj => ?_⟩
    have hstrict := pinEnds_strict hy hz hne hymem hzmem (forall₂_of_mapM hplain).length_eq.symm hj
    rw [← hlength] at hj hiy hiz
    exact ⟨fun hjy => rankAdvantages_lt A hj hiy (hstrict.1 hjy),
      fun hjz => rankAdvantages_lt A hiz hj (hstrict.2 hjz)⟩

def rewriteSample : CcpdSample where
  prompt := "p"
  preferred := some "good"
  bad := some "bad"
  auxCandidates := ["a", "b"]

theorem rewriteSample_ends : ∃ scores : List ℚ,
    scoreCandidates flatModel () { kAux := 2 } rewriteSample ["good", "a", "b", "bad"] =
      .ok scores ∧
    ∀ j < 4,
      (j ≠ 0 → (rankAdvantages stableArgsort scores).getD j 0 <
        (rankAdvantages stableArgsort scores).getD 0 0) ∧
      (j ≠ 3 → (rankAdvantages stableArgsort scores).getD 3 0 <
        (rankAdvantages stableArgsort scores).getD j 0) :=
  ⟨_, rfl, ((rankAdvantages_spec stableArgsort).2 flatModel () { kAux := 2 } rewriteSample "good"
    "bad" ["good", "a", "b", "bad"] _ rfl rfl rfl (by decide) rfl rfl).2.2⟩

end Trainfer
