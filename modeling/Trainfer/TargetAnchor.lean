import Trainfer.KlAnchor

/-! The loss of the target-position anchor as a divergence of conditioned distributions. -/

namespace Trainfer

open Gibbs

variable {V : ℕ}

/-- The tokens of the vocabulary that are not excluded. -/
def kept (V : ℕ) (excluded : Finset ℤ) : Finset (Fin V) :=
  Finset.univ.filter fun j => (j : ℤ) ∉ excluded

/-- The distribution with these logits, conditioned on the kept tokens. -/
noncomputable def conditional (excluded : Finset ℤ) (x : Fin V → ℝ) : Fin V → ℝ :=
  cond (kept V excluded) (softmax Finset.univ x)

variable {excluded : Finset ℤ} {x y : Fin V → ℝ} {j : Fin V}

theorem excludeMask_eq_false : excludeMask excluded j = false ↔ j ∈ kept V excluded := by
  simp [excludeMask, kept]

theorem conditional_eq (hkept : (kept V excluded).Nonempty) (x : Fin V → ℝ) :
    conditional excluded x = softmax (kept V excluded) x := by
  funext j
  exact cond_softmax (hkept.mono (Finset.subset_univ _)) x j

/-! ## One row -/

/-- The masked entries add nothing to the normalizer. -/
theorem sum_exp_maskedFill (excluded : Finset ℤ) (x : Fin V → ℝ) :
    ∑ i, (maskedFill (excludeMask excluded) x i).exp = ∑ i ∈ kept V excluded, Real.exp (x i) := by
  rw [kept, Finset.sum_filter]
  refine Finset.sum_congr rfl fun i _ => ?_
  by_cases hi : (i : ℤ) ∈ excluded
  · simp [maskedFill, excludeMask, hi, Logit.exp]
  · simp [maskedFill, excludeMask, hi, Logit.exp]

theorem logSoftmax_maskedFill (hj : j ∈ kept V excluded) (x : Fin V → ℝ) :
    logSoftmax (maskedFill (excludeMask excluded) x) j =
      .fin (Real.log (softmax (kept V excluded) x j)) := by
  have hmask := excludeMask_eq_false.mpr hj
  rw [log_softmax ⟨j, hj⟩, ← sum_exp_maskedFill]
  simp [logSoftmax, maskedFill, hmask]

/-- The row is the divergence of the softmaxes on the kept tokens. -/
theorem klRow_eq (hkept : (kept V excluded).Nonempty) (x y : Fin V → ℝ) :
    klRow (excludeMask excluded) x y =
      kl (kept V excluded) (conditional excluded x) (conditional excluded y) := by
  rw [conditional_eq hkept, conditional_eq hkept]
  unfold klRow kl
  rw [kept, Finset.sum_filter]
  refine Finset.sum_congr rfl fun j _ => ?_
  by_cases hj : (j : ℤ) ∈ excluded
  · simp [excludeMask, hj]
  · have hmem : j ∈ kept V excluded := by simp [kept, hj]
    rw [logSoftmax_maskedFill hmem, logSoftmax_maskedFill hmem]
    simp only [excludeMask, hj, decide_false, Bool.false_eq_true, if_false, not_false_eq_true,
      if_true, klDiv]
    rw [Real.exp_log (softmax_pos hkept x j)]
    rfl

theorem klRow_nonneg (hkept : (kept V excluded).Nonempty) (x y : Fin V → ℝ) :
    0 ≤ klRow (excludeMask excluded) x y := by
  rw [klRow_eq hkept, conditional_eq hkept, conditional_eq hkept]
  exact kl_softmax_nonneg hkept x y

theorem klRow_eq_zero_iff (hkept : (kept V excluded).Nonempty) (x y : Fin V → ℝ) :
    klRow (excludeMask excluded) x y = 0 ↔
      ∀ j ∈ kept V excluded, conditional excluded x j = conditional excluded y j := by
  rw [klRow_eq hkept, conditional_eq hkept, conditional_eq hkept]
  exact kl_softmax_eq_zero_iff hkept x y

/-- Excluded tokens move freely. -/
theorem klRow_congr (hkept : (kept V excluded).Nonempty) {x' y' : Fin V → ℝ}
    (hx : ∀ j ∈ kept V excluded, x' j = x j) (hy : ∀ j ∈ kept V excluded, y' j = y j) :
    klRow (excludeMask excluded) x' y' = klRow (excludeMask excluded) x y := by
  rw [klRow_eq hkept, klRow_eq hkept]
  simp only [conditional_eq hkept]
  exact kl_congr (fun j hj => softmax_congr hx hj) fun j hj => softmax_congr hy hj

/-! ## The excluded ids -/

theorem mem_deriveFields {parse : String → Option ℤ} {s : Sample} {fields : List String}
    {ids ids' : Finset ℤ} (h : fields.foldlM (fun ids field =>
      match JsonObject.get s field with
      | .null => .ok ids
      | v => (intOf parse v).map fun id => insert id ids) ids = Except.ok ids') (id : ℤ) :
    id ∈ ids' ↔ id ∈ ids ∨ ∃ field ∈ fields, intOf parse (JsonObject.get s field) = .ok id := by
  induction fields generalizing ids with
  | nil =>
    cases h
    simp
  | cons field fields ih =>
    rw [List.foldlM_cons] at h
    obtain ⟨mid, hmid, h⟩ := bind_ok h
    have hstep : id ∈ mid ↔ id ∈ ids ∨ intOf parse (JsonObject.get s field) = .ok id := by
      split at hmid
      · rename_i hnull
        cases hmid
        simp [hnull, intOf]
      · cases hint : intOf parse (JsonObject.get s field) with
        | error e =>
          rw [hint] at hmid
          cases hmid
        | ok n =>
          rw [hint] at hmid
          cases hmid
          simp [or_comm, eq_comm]
    rw [ih h, hstep, List.exists_mem_cons_iff, or_assoc]

/-! ## The last real position -/

theorem prefixIds_ne_nil {tok : Tokenizer} {s : Sample} {ids : List ℤ}
    (h : prefixIds tok s = .ok ids) : ids ≠ [] := by
  obtain ⟨raw, -, h⟩ := bind_ok h
  cases h
  split
  · exact List.cons_ne_nil _ _
  · rename_i hraw
    simpa using hraw

theorem getD_ones_zeros (n k t : ℕ) :
    (List.replicate n 1 ++ List.replicate k 0).getD t 0 = 1 ↔ t < n := by
  rcases Nat.lt_or_ge t n with hlt | hge
  · rw [List.getD_append _ _ _ _ (by simpa using hlt), List.getD_replicate _ hlt]
    simp [hlt]
  · rw [List.getD_append_right _ _ _ _ (by simpa using hge)]
    simp only [List.length_replicate, not_lt.mpr hge, iff_false]
    rcases Nat.lt_or_ge (t - n) k with hlt | hge'
    · rw [List.getD_replicate _ hlt]
      exact zero_ne_one
    · rw [List.getD_eq_default _ _ (by simpa using hge')]
      exact zero_ne_one

theorem getD_map_of_lt {α β : Type} (f : α → β) (d : β) {xs : List α} {i : ℕ}
    (hi : i < xs.length) : (xs.map f).getD i d = f xs[i] := by
  rw [List.getD_eq_getElem _ _ (by simpa using hi), List.getElem_map]

/-- The mask of a row is 1 up to its last position. -/
theorem mask_eq_one_iff {tok : Tokenizer} {samples : List Sample} {batch : PrefixBatch}
    (h : tokenizePrefixesWithLastIdx tok samples = .ok batch) :
    batch.lastIdx.length = samples.length ∧ ∀ i < samples.length, ∀ t,
      (batch.attentionMask.getD i []).getD t 0 = 1 ↔ t ≤ batch.lastIdx.getD i 0 := by
  obtain ⟨tokenized, htok, h⟩ := bind_ok h
  cases h
  have hall := forall₂_of_mapM htok
  refine ⟨by simp [hall.length_eq], fun i hi t => ?_⟩
  have hi' : i < tokenized.length := hall.length_eq ▸ hi
  have hpos : 0 < tokenized[i].length :=
    List.length_pos_of_ne_nil (prefixIds_ne_nil (hall.get hi hi'))
  rw [getD_map_of_lt _ _ hi', getD_map_of_lt _ _ hi', getD_ones_zeros]
  omega

/-! ## The loss of a batch -/

/-- What the rows keep of the vocabulary. -/
def keptAt (V : ℕ) (excluded : List (Finset ℤ)) (i : ℕ) : Finset (Fin V) :=
  kept V (excluded.getD i ∅)

/-- The distributions of the rows, at the last positions and on the kept tokens. -/
noncomputable def rowDistribution (lastIdx : List ℕ) (excluded : List (Finset ℤ))
    (logits : Logits V) (i : ℕ) : Fin V → ℝ :=
  conditional (excluded.getD i ∅) (logits i (lastIdx.getD i 0))

variable {lastIdx : List ℕ} {excluded : List (Finset ℤ)} {weight : ℝ} {logits ref : Logits V}

theorem klMean_eq (hkept : ∀ i < lastIdx.length, (keptAt V excluded i).Nonempty) :
    klMean lastIdx excluded logits ref =
      (∑ i ∈ Finset.range lastIdx.length, kl (keptAt V excluded i)
        (rowDistribution lastIdx excluded logits i) (rowDistribution lastIdx excluded ref i)) /
          lastIdx.length := by
  unfold klMean
  congr 1
  exact Finset.sum_congr rfl fun i hi => klRow_eq (hkept i (Finset.mem_range.mp hi)) _ _

theorem klMean_nonneg (hkept : ∀ i < lastIdx.length, (keptAt V excluded i).Nonempty) :
    0 ≤ klMean lastIdx excluded logits ref := by
  refine div_nonneg (Finset.sum_nonneg fun i hi => ?_) (Nat.cast_nonneg _)
  exact klRow_nonneg (hkept i (Finset.mem_range.mp hi)) _ _

theorem klMean_eq_zero_iff (hrows : lastIdx ≠ [])
    (hkept : ∀ i < lastIdx.length, (keptAt V excluded i).Nonempty) :
    klMean lastIdx excluded logits ref = 0 ↔
      ∀ i < lastIdx.length, ∀ j ∈ keptAt V excluded i,
        rowDistribution lastIdx excluded logits i j =
          rowDistribution lastIdx excluded ref i j := by
  have hlength : (lastIdx.length : ℝ) ≠ 0 :=
    Nat.cast_ne_zero.mpr (List.length_pos_of_ne_nil hrows).ne'
  have hnonneg : ∀ i ∈ Finset.range lastIdx.length,
      0 ≤ klRow (excludeMask (excluded.getD i ∅)) (logits i (lastIdx.getD i 0))
        (ref i (lastIdx.getD i 0)) :=
    fun i hi => klRow_nonneg (hkept i (Finset.mem_range.mp hi)) _ _
  unfold klMean
  rw [div_eq_zero_iff, or_iff_left hlength, Finset.sum_eq_zero_iff_of_nonneg hnonneg]
  simp only [Finset.mem_range]
  exact forall₂_congr fun i hi => klRow_eq_zero_iff (hkept i hi) _ _

theorem klMean_congr (hkept : ∀ i < lastIdx.length, (keptAt V excluded i).Nonempty)
    {logits' ref' : Logits V}
    (h : ∀ i < lastIdx.length, ∀ j ∈ keptAt V excluded i,
      logits' i (lastIdx.getD i 0) j = logits i (lastIdx.getD i 0) j ∧
        ref' i (lastIdx.getD i 0) j = ref i (lastIdx.getD i 0) j) :
    klMean lastIdx excluded logits' ref' = klMean lastIdx excluded logits ref := by
  unfold klMean
  congr 1
  refine Finset.sum_congr rfl fun i hi => ?_
  have hi := Finset.mem_range.mp hi
  exact klRow_congr (hkept i hi) (fun j hj => (h i hi j hj).1) fun j hj => (h i hi j hj).2

/-- What `deriveExcludeIds` gives for the sample at `i`. -/
theorem mem_deriveExcludeIds {parse : String → Option ℤ} {samples : List Sample}
    {explicit : Option (List ℤ)} (h : deriveExcludeIds parse samples explicit = .ok excluded)
    {i : ℕ} (hi : i < samples.length) (id : ℤ) :
    id ∈ excluded.getD i ∅ ↔ id ∈ explicit.getD [] ∨
      ∃ field ∈ ["bad_token_id", "good_token_id"],
        intOf parse (JsonObject.get (samples.getD i []) field) = .ok id := by
  have hall := forall₂_of_mapM h
  have hi' : i < excluded.length := hall.length_eq ▸ hi
  have hids := mem_deriveFields (hall.get hi hi') id
  rw [List.mem_toFinset, List.get_eq_getElem, List.get_eq_getElem] at hids
  rw [List.getD_eq_getElem _ _ hi', List.getD_eq_getElem _ _ hi]
  exact hids

theorem targetPositionKl_eq {tok : Tokenizer}
    {policy reference : PrefixBatch → Except PyError (Logits V)} {samples : List Sample}
    {batch : PrefixBatch} (hsamples : samples ≠ [])
    (hbatch : tokenizePrefixesWithLastIdx tok samples = .ok batch)
    (hpolicy : policy batch = .ok logits) (hreference : reference batch = .ok ref) :
    targetPositionKl tok policy reference samples weight excluded = .ok
      { loss := weight * klMean batch.lastIdx excluded logits ref
        kl := klMean batch.lastIdx excluded logits ref
        klWeight := weight
        klScope := "target_position"
        klExcludedTotal := excludedTotal V excluded } := by
  have hempty : samples.isEmpty = false := by simpa using hsamples
  simp only [targetPositionKl, hempty, hbatch, hpolicy, hreference, bind, Except.bind]
  rfl

/-- **The anchor.** The loss is the weight times the mean divergence of the rows' distributions
at their last real positions, conditioned on the tokens outside the explicit ids and the
sample's own. So it is nonnegative, zero only between equal distributions, and blind to the
excluded tokens and to all other positions. -/
theorem targetPositionKl_spec {tok : Tokenizer} {parse : String → Option ℤ}
    {policy reference : PrefixBatch → Except PyError (Logits V)} {samples : List Sample}
    {explicit : Option (List ℤ)} {batch : PrefixBatch} (hsamples : samples ≠ [])
    (hexcluded : deriveExcludeIds parse samples explicit = .ok excluded)
    (hbatch : tokenizePrefixesWithLastIdx tok samples = .ok batch)
    (hpolicy : policy batch = .ok logits) (hreference : reference batch = .ok ref)
    (hkept : ∀ i < samples.length, (keptAt V excluded i).Nonempty) :
    (targetPositionKl tok policy reference samples weight excluded).map AnchorLoss.loss =
      .ok (weight * ((∑ i ∈ Finset.range samples.length, kl (keptAt V excluded i)
        (rowDistribution batch.lastIdx excluded logits i)
        (rowDistribution batch.lastIdx excluded ref i)) / samples.length)) ∧
    (∀ i < samples.length,
      (∀ id, id ∈ excluded.getD i ∅ ↔ id ∈ explicit.getD [] ∨
        ∃ field ∈ ["bad_token_id", "good_token_id"],
          intOf parse (JsonObject.get (samples.getD i []) field) = .ok id) ∧
      ∀ t, (batch.attentionMask.getD i []).getD t 0 = 1 ↔ t ≤ batch.lastIdx.getD i 0) ∧
    (0 ≤ weight → ∃ out,
      targetPositionKl tok policy reference samples weight excluded = .ok out ∧ 0 ≤ out.loss) ∧
    (0 < weight → ∀ out,
      targetPositionKl tok policy reference samples weight excluded = .ok out →
        (out.loss = 0 ↔ ∀ i < samples.length, ∀ j ∈ keptAt V excluded i,
          rowDistribution batch.lastIdx excluded logits i j =
            rowDistribution batch.lastIdx excluded ref i j)) ∧
    ∀ (policy' reference' : PrefixBatch → Except PyError (Logits V)) (logits' ref' : Logits V),
      policy' batch = .ok logits' → reference' batch = .ok ref' →
      (∀ i < samples.length, ∀ j ∈ keptAt V excluded i,
        logits' i (batch.lastIdx.getD i 0) j = logits i (batch.lastIdx.getD i 0) j ∧
          ref' i (batch.lastIdx.getD i 0) j = ref i (batch.lastIdx.getD i 0) j) →
      targetPositionKl tok policy' reference' samples weight excluded =
        targetPositionKl tok policy reference samples weight excluded := by
  obtain ⟨hlength, hmask⟩ := mask_eq_one_iff hbatch
  have hrows : batch.lastIdx ≠ [] := by
    intro hnil
    rw [hnil] at hlength
    exact hsamples (List.length_eq_zero_iff.mp hlength.symm)
  rw [← hlength] at hkept
  have hmain := @targetPositionKl_eq V excluded weight logits ref tok policy reference samples
    batch hsamples hbatch hpolicy hreference
  refine ⟨?_, fun i hi => ⟨mem_deriveExcludeIds hexcluded hi, hmask i hi⟩, fun hweight => ?_,
    fun hweight out hout => ?_, fun policy' reference' logits' ref' hpolicy' hreference' h => ?_⟩
  · rw [hmain, ← hlength, ← klMean_eq hkept]
    rfl
  · exact ⟨_, hmain, mul_nonneg hweight (klMean_nonneg hkept)⟩
  · cases hmain.symm.trans hout
    rw [mul_eq_zero_iff_left hweight.ne', klMean_eq_zero_iff hrows hkept, hlength]
  · rw [← hlength] at h
    rw [targetPositionKl_eq hsamples hbatch hpolicy' hreference', hmain, klMean_congr hkept h]

/-! ## One sample over three tokens -/

def twoTokens : Tokenizer where
  padTokenId := none
  eosTokenId := some 2
  chatTemplate := false
  applyChatTemplate _ := .ok []
  encode _ := .ok [1, 2]

def pushedSample : Sample := [("prefix", .str "a"), ("bad_token_id", .num 0)]

/-- The bad token has the logit `x` in every row and position, the others 0. -/
def badLogit (x : ℝ) (_ : PrefixBatch) : Except PyError (Logits 3) :=
  .ok fun _ _ j => if j = 0 then x else 0

/-- A policy that has pushed the bad token down is as good as the reference. -/
theorem pushedSample_free :
    deriveExcludeIds (fun _ => none) [pushedSample] none = .ok [{0}] ∧
      targetPositionKl twoTokens (badLogit (-5)) (badLogit 0) [pushedSample] 1 [{0}] =
        targetPositionKl twoTokens (badLogit 0) (badLogit 0) [pushedSample] 1 [{0}] := by
  have hexcluded : deriveExcludeIds (fun _ => none) [pushedSample] none = .ok [{0}] := rfl
  have hbatch : tokenizePrefixesWithLastIdx twoTokens [pushedSample] =
      .ok ⟨[[1, 2]], [[1, 1]], [1]⟩ := rfl
  have hkept : ∀ i < [pushedSample].length, (keptAt 3 [{0}] i).Nonempty := by
    intro i hi
    obtain rfl : i = 0 := Nat.lt_one_iff.mp hi
    exact ⟨1, by simp [keptAt, kept]⟩
  have hbatchLogits : ∀ x, badLogit x ⟨[[1, 2]], [[1, 1]], [1]⟩ =
      .ok fun _ _ j => if j = 0 then x else 0 := fun _ => rfl
  refine ⟨hexcluded, (targetPositionKl_spec (List.cons_ne_nil pushedSample []) hexcluded hbatch
    (hbatchLogits 0) (hbatchLogits 0) hkept).2.2.2.2 _ _ _ _ (hbatchLogits (-5))
    (hbatchLogits 0) ?_⟩
  intro i hi j hj
  obtain rfl : i = 0 := Nat.lt_one_iff.mp hi
  have hj : j ≠ 0 := by
    rintro rfl
    simp [keptAt, kept] at hj
  exact ⟨by simp [hj], rfl⟩

end Trainfer
