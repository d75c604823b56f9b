import Trainfer.Safety

/-! The grower set of `safety_monitor_loss`: it is the set of the tokens that a step of the given
size makes more likely, and it shrinks as the step size grows. -/

namespace Trainfer

open Gibbs

variable {V : ℕ} {pi x : Fin V → ℝ} {t j : Fin V} {eta eta' : ℝ}

/-! ## The threshold -/

/-- The clamp does nothing, so the threshold is the log of a mean under `pi`. -/
theorem mPValue_eq (hp : ∀ k, 1e-45 ≤ pi k) (t : Fin V) (eta : ℝ) :
    mPValue pi t eta =
      -(Real.log (tiltMean Finset.univ pi (stepDirection pi t) eta) / eta) := by
  have hsum : ∑ k, Real.exp (Real.log (max (pi k) 1e-45) + eta * stepDirection pi t k) =
      tiltMean Finset.univ pi (stepDirection pi t) eta := by
    refine Finset.sum_congr rfl fun k _ => ?_
    have hpos : 0 < pi k := lt_of_lt_of_le (by norm_num) (hp k)
    rw [max_eq_left (hp k), Real.exp_add, Real.exp_log hpos]
  simp only [mPValue, logsumexp, hsum]
  ring

theorem lt_mPValue_iff (heta : 0 < eta) (hp : ∀ k, 1e-45 ≤ pi k) (hj : j ≠ t) :
    pi j < mPValue pi t eta ↔
      Real.log (tiltMean Finset.univ pi (stepDirection pi t) eta) <
        eta * stepDirection pi t j := by
  have hdir : stepDirection pi t j = -pi j := by simp [stepDirection, hj]
  rw [mPValue_eq hp, hdir, lt_neg, div_lt_iff₀ heta, mul_comm eta]

theorem mem_growers {t : ℤ} {mp : ℝ} : j ∈ growers pi t mp ↔ pi j < mp ∧ (j : ℤ) ≠ t := by
  simp [growers]

theorem growers_sublist {mp mp' : ℝ} (h : mp' ≤ mp) (t : ℤ) :
    (growers pi t mp').Sublist (growers pi t mp) := by
  refine List.monotone_filter_right _ fun j hj => ?_
  simp only [decide_eq_true_eq] at hj ⊢
  exact ⟨hj.1.trans_le h, hj.2⟩

/-! ## The tokens that grow -/

/-- The distribution after a plain gradient step of size `eta` on the target `t`. -/
noncomputable def stepped (x : Fin V → ℝ) (t : Fin V) (eta : ℝ) : Fin V → ℝ :=
  softmax Finset.univ fun k => x k + eta * stepDirection (softmax Finset.univ x) t k

theorem stepped_eq (x : Fin V → ℝ) (t : Fin V) (eta : ℝ) (j : Fin V) :
    stepped x t eta j = softmax Finset.univ x j *
      Real.exp (eta * stepDirection (softmax Finset.univ x) t j) /
        tiltMean Finset.univ (softmax Finset.univ x)
          (stepDirection (softmax Finset.univ x) t) eta :=
  softmax_tilt ⟨t, Finset.mem_univ t⟩ x _ eta j

theorem lt_mPValue_iff_lt_stepped (heta : 0 < eta) (hp : ∀ k, 1e-45 ≤ softmax Finset.univ x k)
    (hj : j ≠ t) : softmax Finset.univ x j < mPValue (softmax Finset.univ x) t eta ↔
      softmax Finset.univ x j < stepped x t eta j := by
  have hs : (Finset.univ : Finset (Fin V)).Nonempty := ⟨t, Finset.mem_univ t⟩
  rw [lt_mPValue_iff heta hp hj, stepped_eq,
    lt_tilt_iff hs (fun k _ => softmax_pos hs x k) (Finset.mem_univ j)]

/-- The target has the largest factor, so it does not lose. -/
theorem softmax_le_stepped (heta : 0 < eta) (x : Fin V → ℝ) (t : Fin V) :
    softmax Finset.univ x t ≤ stepped x t eta t := by
  have hs : (Finset.univ : Finset (Fin V)).Nonempty := ⟨t, Finset.mem_univ t⟩
  have hpos := fun k => softmax_pos hs x k
  have hmax : ∀ k ∈ Finset.univ, eta * stepDirection (softmax Finset.univ x) t k ≤
      eta * stepDirection (softmax Finset.univ x) t t := by
    intro k _
    refine mul_le_mul_of_nonneg_left ?_ heta.le
    have hle : softmax Finset.univ x t ≤ 1 := by
      rw [← sum_softmax hs x]
      exact Finset.single_le_sum (fun k _ => (hpos k).le) (Finset.mem_univ t)
    unfold stepDirection
    split
    · rename_i hk
      rw [hk, if_pos rfl]
    · rw [if_pos rfl]
      linarith [hpos k]
  have hmean := tiltMean_le (fun k _ => (hpos k).le) (sum_softmax hs x) hmax
  rw [stepped_eq, le_div_iff₀ (tiltMean_pos hs (fun k _ => hpos k) _ _)]
  exact mul_le_mul_of_nonneg_left hmean (hpos t).le

/-! ## The step size -/

theorem mPValue_antitone (heta : 0 < eta) (hle : eta ≤ eta') (hsum : ∑ k, pi k = 1)
    (hp : ∀ k, 1e-45 ≤ pi k) (t : Fin V) : mPValue pi t eta' ≤ mPValue pi t eta := by
  have hpos : ∀ k ∈ Finset.univ, 0 < pi k := fun k _ => lt_of_lt_of_le (by norm_num) (hp k)
  rw [mPValue_eq hp, mPValue_eq hp, neg_le_neg_iff]
  exact log_tiltMean_div_le ⟨t, Finset.mem_univ t⟩ hpos hsum heta hle

/-! ## Scored positions -/

variable {logits : Logits V} {watchSets : List (Finset ℤ)} {i p : ℕ} {g : Fin V}

theorem indicatorIndex_val (t : Fin V) : indicatorIndex V t = .ok t := by
  have ht := t.isLt
  have hneg : ¬ ((t : ℕ) : ℤ) < 0 := by omega
  simp only [indicatorIndex, hneg, if_false]
  rw [dif_pos ⟨by omega, by omega⟩]
  simp

theorem mem_watched {grower hits : List (Fin V)} (h : watched watchSets i grower = .ok hits) :
    g ∈ hits ↔ g ∈ grower ∧ ∃ watch, watchSets[i]? = some watch ∧ (g : ℤ) ∈ watch := by
  unfold watched at h
  split at h
  · rename_i hempty
    cases h
    simp [List.isEmpty_iff.mp hempty]
  · split at h
    · rename_i watch hwatch
      cases h
      simp [hwatch]
    · cases h

theorem watched_some {watch : Finset ℤ} (h : watchSets[i]? = some watch)
    (grower : List (Fin V)) :
    watched watchSets i grower = .ok (grower.filter fun g => (g : ℤ) ∈ watch) := by
  unfold watched
  cases grower with
  | nil => rfl
  | cons g grower => simp [h]

/-- What is watched of a smaller grower set. -/
theorem watched_sublist {grower grower' hits : List (Fin V)} (hsub : grower'.Sublist grower)
    (h : watched watchSets i grower = .ok hits) :
    ∃ hits', watched watchSets i grower' = .ok hits' ∧ hits'.Sublist hits := by
  unfold watched at h ⊢
  by_cases hempty : grower' = []
  · exact ⟨[], by simp [hempty], List.nil_sublist _⟩
  · have hgrower : grower.isEmpty = false := by
      rw [List.isEmpty_eq_false_iff]
      rintro rfl
      exact hempty (List.sublist_nil.mp hsub)
    rw [hgrower] at h
    rw [List.isEmpty_eq_false_iff.mpr hempty]
    cases hwatch : watchSets[i]? with
    | none =>
      rw [hwatch] at h
      cases h
    | some watch =>
      rw [hwatch] at h
      cases h
      exact ⟨_, rfl, hsub.filter _⟩

theorem scorePosition_ok {t : ℤ} {s : Scored V}
    (h : scorePosition logits watchSets eta i p t = .ok s) : ∃ idx, indicatorIndex V t = .ok idx ∧
      s.row = i ∧ s.position = p ∧
      s.growers = growers (softmax Finset.univ (logits i p)) t
        (mPValue (softmax Finset.univ (logits i p)) idx eta) ∧
      watched watchSets i s.growers = .ok s.hits := by
  obtain ⟨idx, hidx, h⟩ := bind_ok h
  obtain ⟨hits, hhits, h⟩ := bind_ok h
  cases h
  exact ⟨idx, hidx, rfl, rfl, rfl, hhits⟩

theorem scorePosition_eq {t : ℤ} {idx : Fin V} {hits : List (Fin V)}
    (hidx : indicatorIndex V t = .ok idx)
    (hhits : watched watchSets i (growers (softmax Finset.univ (logits i p)) t
      (mPValue (softmax Finset.univ (logits i p)) idx eta)) = .ok hits) :
    scorePosition logits watchSets eta i p t = .ok
      ⟨i, p, mPValue (softmax Finset.univ (logits i p)) idx eta,
        growers (softmax Finset.univ (logits i p)) t
          (mPValue (softmax Finset.univ (logits i p)) idx eta), hits⟩ := by
  simp only [scorePosition, hidx, bind, Except.bind, hhits]
  rfl

theorem scoreRow_ok {tokenIds : Option (List (List ℤ))} {positions : List ℕ}
    {scored : List (Scored V)}
    (h : scoreRow logits watchSets eta tokenIds (positions, i) = .ok scored) :
    (positions = [] ∧ scored = []) ∨ ∃ tokens, rowTokens tokenIds i = .ok tokens ∧
      (positions.zip tokens).mapM (fun pt => scorePosition logits watchSets eta i pt.1 pt.2) =
        .ok scored := by
  unfold scoreRow at h
  simp only at h
  split at h
  · rename_i hempty
    cases h
    exact .inl ⟨List.isEmpty_iff.mp hempty, rfl⟩
  · obtain ⟨tokens, htokens, h⟩ := bind_ok h
    split at h
    · cases h
    · exact .inr ⟨tokens, htokens, h⟩

/-- What is scored, and what is reported of it. -/
theorem mem_scored {tokenIds : Option (List (List ℤ))} {rows : List (List ℕ)}
    {scored : List (List (Scored V))}
    (h : rows.zipIdx.mapM (scoreRow logits watchSets eta tokenIds) = .ok scored) (s : Scored V) :
    s ∈ scored.flatten ↔ ∃ i positions tokens p t, rows[i]? = some positions ∧
      rowTokens tokenIds i = .ok tokens ∧ (p, t) ∈ positions.zip tokens ∧
      scorePosition logits watchSets eta i p t = .ok s := by
  rw [List.mem_flatten]
  constructor
  · rintro ⟨list, hlist, hs⟩
    obtain ⟨⟨positions, i⟩, hrow, hscored⟩ := (mem_of_mapM h list).mp hlist
    rcases scoreRow_ok hscored with ⟨-, rfl⟩ | ⟨tokens, htokens, hmap⟩
    · cases hs
    · obtain ⟨⟨p, t⟩, hpt, hscore⟩ := (mem_of_mapM hmap s).mp hs
      exact ⟨i, positions, tokens, p, t, List.mk_mem_zipIdx_iff_getElem?.mp hrow, htokens, hpt,
        hscore⟩
  · rintro ⟨i, positions, tokens, p, t, hrow, htokens, hpt, hscore⟩
    have hmem := List.mk_mem_zipIdx_iff_getElem?.mpr hrow
    have hall := forall₂_of_mapM h
    obtain ⟨list, hlist, hscored⟩ : ∃ list ∈ scored,
        scoreRow logits watchSets eta tokenIds (positions, i) = .ok list := by
      obtain ⟨k, hk, hget⟩ := List.getElem_of_mem hmem
      have hk' : k < scored.length := hall.length_eq ▸ hk
      exact ⟨_, List.getElem_mem hk', hget ▸ hall.get hk hk'⟩
    refine ⟨list, hlist, ?_⟩
    rcases scoreRow_ok hscored with ⟨rfl, -⟩ | ⟨tokens', htokens', hmap⟩
    · simp at hpt
    · obtain rfl := Except.ok.inj (htokens.symm.trans htokens')
      exact (mem_of_mapM hmap s).mpr ⟨(p, t), hpt, hscore⟩

theorem mem_watchlistHits {coerced : Bool} {scored : List (Scored V)} :
    (i, p, g) ∈ (safetyComponents coerced eta scored).watchlistHits ↔
      ∃ s ∈ scored, s.row = i ∧ s.position = p ∧ g ∈ s.hits := by
  simp only [safetyComponents, List.mem_flatMap, List.mem_map, Prod.mk.injEq]
  constructor
  · rintro ⟨s, hs, g', hg, hi, hp, rfl⟩
    exact ⟨s, hs, hi, hp, hg⟩
  · rintro ⟨s, hs, hi, hp, hg⟩
    exact ⟨s, hs, g, hg, hi, hp, rfl⟩

/-- What a call that returns has done: nothing to score, or all rows scored. -/
theorem safetyMonitorLoss_ok {parse : String → Option ℤ}
    {forward : List (List ℤ) → Option (List (List ℕ)) → Except PyError (Logits V)}
    {samples : List Sample} {args : SafetyArgs} {report : SafetyReport V}
    (h : safetyMonitorLoss parse forward samples args = .ok report) :
    ∃ rows watchSets, args.targetPositions = some rows ∧
      resolveWatchlist parse samples args.watchlist args.defaultWatchlist = .ok watchSets ∧
      (((rows.any fun positions => !positions.isEmpty) = false ∧ report.watchlistHits = [] ∧
          report.alarmCount = 0) ∨
        (rows.any fun positions => !positions.isEmpty) = true ∧
        ∃ eta ids logits scored, args.effectiveLr = some eta ∧ 0 < eta ∧
          args.inputIds = some ids ∧ forward ids args.attentionMask = .ok logits ∧
          rows.zipIdx.mapM (scoreRow logits watchSets eta args.targetTokenIds) = .ok scored ∧
          report = safetyComponents (args.weight ≠ 0) eta scored.flatten) := by
  unfold safetyMonitorLoss at h
  split at h
  · rename_i rows hrows
    obtain ⟨watchSets, hwatch, h⟩ := bind_ok h
    refine ⟨rows, watchSets, hrows, hwatch, ?_⟩
    split at h
    · rename_i hany
      cases h
      exact .inl ⟨by simpa using hany, rfl, rfl⟩
    · rename_i hany
      refine .inr ⟨by simpa using hany, ?_⟩
      split at h
      · rename_i eta heta
        obtain ⟨heta, hpos⟩ := Option.filter_eq_some_iff.mp heta
        split at h
        · rename_i ids hids
          obtain ⟨logits, hlogits, h⟩ := bind_ok h
          obtain ⟨scored, hscored, h⟩ := bind_ok h
          cases h
          exact ⟨eta, ids, logits, scored, heta, by simpa using hpos, hids, hlogits, hscored,
            rfl⟩
        · cases h
      · cases h
  · cases h

theorem softmax_sum_one (x : Fin V → ℝ) (t : Fin V) : ∑ k, softmax Finset.univ x k = 1 :=
  sum_softmax ⟨t, Finset.mem_univ t⟩ x

/-- One position at a larger step size. -/
theorem scorePosition_antitone {t : ℤ} {s : Scored V} (heta : 0 < eta) (hle : eta ≤ eta')
    (hp : ∀ k, 1e-45 ≤ softmax Finset.univ (logits i p) k)
    (h : scorePosition logits watchSets eta i p t = .ok s) :
    ∃ s', scorePosition logits watchSets eta' i p t = .ok s' ∧
      s'.row = s.row ∧ s'.position = s.position ∧ s'.hits.Sublist s.hits := by
  obtain ⟨idx, hidx, hrow, hposition, hgrowers, hhits⟩ := scorePosition_ok h
  have hmp := mPValue_antitone heta hle (softmax_sum_one (logits i p) idx) hp idx
  obtain ⟨hits', hhits', hsub⟩ :=
    watched_sublist (hgrowers ▸ growers_sublist hmp t) hhits
  exact ⟨_, scorePosition_eq hidx hhits', hrow.symm, hposition.symm, hsub⟩

theorem scoreRow_antitone {tokenIds : Option (List (List ℤ))} {row : List ℕ × ℕ}
    {scored : List (Scored V)} (heta : 0 < eta) (hle : eta ≤ eta')
    (hp : ∀ i p k, 1e-45 ≤ softmax Finset.univ (logits i p) k)
    (h : scoreRow logits watchSets eta tokenIds row = .ok scored) :
    ∃ scored', scoreRow logits watchSets eta' tokenIds row = .ok scored' ∧
      List.Forall₂ (fun s s' => s'.row = s.row ∧ s'.position = s.position ∧
        s'.hits.Sublist s.hits) scored scored' := by
  obtain ⟨positions, i⟩ := row
  unfold scoreRow at h ⊢
  simp only at h ⊢
  split at h
  · rename_i hempty
    cases h
    exact ⟨[], by rw [if_pos hempty]; rfl, .nil⟩
  · rename_i hempty
    rw [if_neg hempty]
    obtain ⟨tokens, htokens, h⟩ := bind_ok h
    rw [htokens]
    simp only [bind, Except.bind]
    split at h
    · cases h
    · rename_i hlength
      rw [if_neg hlength]
      exact mapM_related (fun pt _ s hs => scorePosition_antitone heta hle (hp i pt.1) hs) h

theorem components_antitone {coerced coerced' : Bool} {scored scored' : List (Scored V)}
    (h : List.Forall₂ (fun s s' => s'.row = s.row ∧ s'.position = s.position ∧
      s'.hits.Sublist s.hits) scored scored') :
    (safetyComponents coerced' eta' scored').watchlistHits.Sublist
        (safetyComponents coerced eta scored).watchlistHits ∧
      (safetyComponents coerced' eta' scored').alarmCount ≤
        (safetyComponents coerced eta scored).alarmCount := by
  simp only [safetyComponents]
  induction h with
  | nil => simp
  | @cons s s' scored scored' hs _ ih =>
    obtain ⟨hrow, hposition, hsub⟩ := hs
    simp only [List.flatMap_cons, List.countP_cons]
    constructor
    · rw [hrow, hposition]
      exact (hsub.map _).append ih.1
    · have hhit : s'.hits ≠ [] → s.hits ≠ [] := by
        intro hne hnil
        rw [hnil] at hsub
        exact hne (List.sublist_nil.mp hsub)
      by_cases hne : s'.hits = []
      · simp only [hne, List.isEmpty_nil, Bool.not_true, Bool.false_eq_true, if_false]
        omega
      · simp only [List.isEmpty_eq_false_iff.mpr hne, List.isEmpty_eq_false_iff.mpr (hhit hne)]
        omega

/-! ## Three tokens, one of them dominant -/

noncomputable def peakedLogits : Fin 3 → ℝ :=
  ![Real.log (1 / 10), Real.log (4 / 5), Real.log (1 / 10)]

theorem softmax_peakedLogits :
    softmax Finset.univ peakedLogits = ![1 / 10, 4 / 5, 1 / 10] := by
  have hsum : ∑ k, Real.exp (peakedLogits k) = 1 := by
    simp only [peakedLogits, Fin.sum_univ_three, Matrix.cons_val]
    rw [Real.exp_log (by norm_num), Real.exp_log (by norm_num)]
    norm_num
  funext k
  unfold softmax
  rw [hsum, div_one]
  fin_cases k
  · exact Real.exp_log (by norm_num)
  · exact Real.exp_log (by norm_num)
  · exact Real.exp_log (by norm_num)

theorem softmax_peakedLogits_floor (k : Fin 3) : 1e-45 ≤ softmax Finset.univ peakedLogits k := by
  rw [softmax_peakedLogits]
  fin_cases k
  · show (1e-45 : ℝ) ≤ 1 / 10
    norm_num
  · show (1e-45 : ℝ) ≤ 4 / 5
    norm_num
  · show (1e-45 : ℝ) ≤ 1 / 10
    norm_num

/-- A step on token 0 takes so much from token 1 that token 2 gains as well. -/
theorem peakedLogits_grows : softmax Finset.univ peakedLogits 2 < stepped peakedLogits 0 1 2 := by
  have hs : (Finset.univ : Finset (Fin 3)).Nonempty := ⟨0, Finset.mem_univ 0⟩
  rw [stepped_eq, lt_tilt_iff hs (fun k _ => softmax_pos hs peakedLogits k) (Finset.mem_univ 2),
    Real.log_lt_iff_lt_exp (tiltMean_pos hs (fun k _ => softmax_pos hs peakedLogits k) _ _)]
  have htarget : Real.exp (9 / 10) < 2.72 := by
    have hone := Real.exp_one_lt_d9
    have hle : Real.exp (9 / 10) ≤ Real.exp 1 := Real.exp_le_exp.mpr (by norm_num)
    linarith
  have hpeak : Real.exp (-(4 / 5)) ≤ 5 / 9 := by
    rw [Real.exp_neg, inv_le_comm₀ (Real.exp_pos _) (by norm_num)]
    have hge := Real.add_one_le_exp (4 / 5 : ℝ)
    linarith
  have hrest := Real.add_one_le_exp (-(1 / 10) : ℝ)
  have hone : Real.exp (-(1 / 10)) ≤ 1 := Real.exp_le_one_iff.mpr (by norm_num)
  have htwo : ¬ (2 : Fin 3) = 0 := by decide
  have hthree : ¬ (1 : Fin 3) = 0 := by decide
  simp only [tiltMean, Fin.sum_univ_three, softmax_peakedLogits, stepDirection, Matrix.cons_val,
    one_mul, if_true, htwo, hthree, if_false]
  norm_num
  linarith

/-! ## Results -/

/-- The threshold test for a target that is a token. -/
theorem mem_growers_iff_stepped (heta : 0 < eta) {x : Fin V → ℝ}
    (hp : ∀ k, 1e-45 ≤ softmax Finset.univ x k) (t j : Fin V) :
    j ∈ growers (softmax Finset.univ x) t (mPValue (softmax Finset.univ x) t eta) ↔
      j ≠ t ∧ softmax Finset.univ x j < stepped x t eta j := by
  rw [mem_growers, Int.ofNat_inj.ne, Fin.val_ne_iff, and_comm]
  exact and_congr_right fun hj => lt_mPValue_iff_lt_stepped heta hp hj

/-- Which tokens a round reports: those of a target that are watched and that a step lifts. -/
theorem exists_scored_hit (heta : 0 < eta) {tokenIds : Option (List (List ℤ))}
    {rows : List (List ℕ)} {scored : List (List (Scored V))}
    (hscored : rows.zipIdx.mapM (scoreRow logits watchSets eta tokenIds) = .ok scored)
    (hvocab : ∀ i tokens, rowTokens tokenIds i = .ok tokens → ∀ t ∈ tokens, 0 ≤ t ∧ t < V)
    (hp : ∀ i p k, 1e-45 ≤ softmax Finset.univ (logits i p) k) :
    (∃ s ∈ scored.flatten, s.row = i ∧ s.position = p ∧ g ∈ s.hits) ↔
      ∃ (positions : List ℕ) (tokens : List ℤ) (watch : Finset ℤ) (t : Fin V),
        rows[i]? = some positions ∧ rowTokens tokenIds i = .ok tokens ∧
        (p, (t : ℤ)) ∈ positions.zip tokens ∧ watchSets[i]? = some watch ∧ (g : ℤ) ∈ watch ∧
        g ≠ t ∧ softmax Finset.univ (logits i p) g < stepped (logits i p) t eta g := by
  constructor
  · rintro ⟨s, hs, rfl, rfl, hg⟩
    obtain ⟨i, positions, tokens, p, t, hrow, htokens, hzip, hscore⟩ :=
      (mem_scored hscored s).mp hs
    obtain ⟨idx, hidx, hi, hp', hs', hwatched⟩ := scorePosition_ok hscore
    obtain ⟨hg, watch, hwatch, hgw⟩ := (mem_watched hwatched).mp hg
    obtain ⟨hnonneg, hlt⟩ := hvocab i tokens htokens t (List.of_mem_zip hzip).2
    obtain ⟨k, rfl⟩ := Int.eq_ofNat_of_zero_le hnonneg
    have hk : k < V := by omega
    obtain rfl := Except.ok.inj ((indicatorIndex_val ⟨k, hk⟩).symm.trans hidx)
    rw [hs'] at hg
    obtain ⟨hne, hgrow⟩ := (mem_growers_iff_stepped heta (hp i p) ⟨k, hk⟩ g).mp hg
    rw [hi, hp']
    exact ⟨positions, tokens, watch, ⟨k, hk⟩, hrow, htokens, hzip, hwatch, hgw, hne, hgrow⟩
  · rintro ⟨positions, tokens, watch, t, hrow, htokens, hzip, hwatchI, hgw, hne, hgrow⟩
    have hmem := (mem_growers_iff_stepped heta (hp i p) t g).mpr ⟨hne, hgrow⟩
    have hscore := scorePosition_eq (indicatorIndex_val t)
      (watched_some hwatchI (growers (softmax Finset.univ (logits i p)) t
        (mPValue (softmax Finset.univ (logits i p)) t eta)))
    refine ⟨_, (mem_scored hscored _).mpr ⟨i, positions, tokens, p, t, hrow, htokens, hzip,
      hscore⟩, rfl, rfl, ?_⟩
    exact List.mem_filter.mpr ⟨hmem, by simpa using hgw⟩

/-- **The grower set.** The tokens that the threshold test finds are those that a plain gradient
step on the target makes more likely, and the target itself does not become less likely. What a
call reports is those of them that are watched. -/
theorem growers_spec {eta : ℝ} (heta : 0 < eta) :
    (∀ (x : Fin V → ℝ) (t : Fin V), (∀ k, 1e-45 ≤ softmax Finset.univ x k) →
      (∀ j, j ∈ growers (softmax Finset.univ x) t (mPValue (softmax Finset.univ x) t eta) ↔
        j ≠ t ∧ softmax Finset.univ x j < stepped x t eta j) ∧
      softmax Finset.univ x t ≤ stepped x t eta t) ∧
    ∀ (parse : String → Option ℤ)
      (forward : List (List ℤ) → Option (List (List ℕ)) → Except PyError (Logits V))
      (samples : List Sample) (args : SafetyArgs) (report : SafetyReport V)
      (rows : List (List ℕ)) (ids : List (List ℤ)) (logits : Logits V)
      (watchSets : List (Finset ℤ)),
      safetyMonitorLoss parse forward samples args = .ok report →
      args.effectiveLr = some eta → args.targetPositions = some rows →
      args.inputIds = some ids → forward ids args.attentionMask = .ok logits →
      resolveWatchlist parse samples args.watchlist args.defaultWatchlist = .ok watchSets →
      (∀ i tokens, rowTokens args.targetTokenIds i = .ok tokens → ∀ t ∈ tokens, 0 ≤ t ∧ t < V) →
      (∀ i p k, 1e-45 ≤ softmax Finset.univ (logits i p) k) →
      ∀ i p g, (i, p, g) ∈ report.watchlistHits ↔
        ∃ (positions : List ℕ) (tokens : List ℤ) (watch : Finset ℤ) (t : Fin V),
          rows[i]? = some positions ∧ rowTokens args.targetTokenIds i = .ok tokens ∧
          (p, (t : ℤ)) ∈ positions.zip tokens ∧ watchSets[i]? = some watch ∧ (g : ℤ) ∈ watch ∧
          g ≠ t ∧ softmax Finset.univ (logits i p) g < stepped (logits i p) t eta g := by
  refine ⟨fun x t hp => ⟨mem_growers_iff_stepped heta hp t, softmax_le_stepped heta x t⟩, ?_⟩
  intro parse forward samples args report rows ids logits watchSets h hlr hrows hids hlogits
    hwatch hvocab hp i p g
  obtain ⟨rows', watchSets', hrows', hwatch', hcase⟩ := safetyMonitorLoss_ok h
  obtain rfl := Option.some.inj (hrows.symm.trans hrows')
  obtain rfl := Except.ok.inj (hwatch.symm.trans hwatch')
  rcases hcase with ⟨hnone, hhits, -⟩ | ⟨-, eta', ids', logits', scored, hlr', -, hids', hlogits',
    hscored, rfl⟩
  · rw [hhits]
    refine iff_of_false (List.not_mem_nil) ?_
    rintro ⟨positions, tokens, watch, t, hrow, -, hzip, -⟩
    have hempty := List.any_eq_false.mp hnone positions (List.mem_of_getElem? hrow)
    have hnil : positions = [] := by simpa using hempty
    simp [hnil] at hzip
  · obtain rfl := Option.some.inj (hlr.symm.trans hlr')
    obtain rfl := Option.some.inj (hids.symm.trans hids')
    obtain rfl := Except.ok.inj (hlogits.symm.trans hlogits')
    rw [mem_watchlistHits]
    exact exists_scored_hit heta hscored hvocab hp

theorem peaked_growers : (2 : Fin 3) ∈ growers (softmax Finset.univ peakedLogits) (0 : Fin 3)
    (mPValue (softmax Finset.univ peakedLogits) 0 1) :=
  (((growers_spec one_pos).1 peakedLogits 0 softmax_peakedLogits_floor).1 2).mpr
    ⟨by decide, peakedLogits_grows⟩

/-- **Alarms fall with the step size.** A larger step has a lower threshold and smaller grower
sets; where a call returns at the smaller step, it does at the larger one, with no other hits and
no more alarms. -/
theorem alarms_antitone {eta eta' : ℝ} (heta : 0 < eta) (hle : eta ≤ eta') :
    (∀ (pi : Fin V → ℝ) (t : Fin V), ∑ k, pi k = 1 → (∀ k, 1e-45 ≤ pi k) →
      mPValue pi t eta' ≤ mPValue pi t eta ∧
      (growers pi t (mPValue pi t eta')).Sublist (growers pi t (mPValue pi t eta))) ∧
    ∀ (parse : String → Option ℤ)
      (forward : List (List ℤ) → Option (List (List ℕ)) → Except PyError (Logits V))
      (samples : List Sample) (args : SafetyArgs) (report : SafetyReport V),
      (∀ ids mask logits, forward ids mask = .ok logits →
        ∀ i p k, 1e-45 ≤ softmax Finset.univ (logits i p) k) →
      safetyMonitorLoss parse forward samples { args with effectiveLr := some eta } =
        .ok report →
      ∃ report', safetyMonitorLoss parse forward samples { args with effectiveLr := some eta' } =
          .ok report' ∧
        report'.watchlistHits.Sublist report.watchlistHits ∧
        report'.alarmCount ≤ report.alarmCount := by
  constructor
  · intro pi t hsum hp
    have hmp := mPValue_antitone heta hle hsum hp t
    exact ⟨hmp, growers_sublist hmp t⟩
  · intro parse forward samples args report hp h
    obtain ⟨rows, watchSets, hrows, hwatch, hcase⟩ := safetyMonitorLoss_ok h
    replace hrows : args.targetPositions = some rows := hrows
    replace hwatch : resolveWatchlist parse samples args.watchlist args.defaultWatchlist =
      .ok watchSets := hwatch
    have heta' : 0 < eta' := heta.trans_le hle
    have hfilter : (some eta').filter (fun eta => decide (0 < eta)) = some eta' := by
      simp [heta']
    rcases hcase with ⟨hany, hhits, halarms⟩ | ⟨hany, eta₀, ids, logits, scored, hlr, -, hids,
      hlogits, hscored, rfl⟩
    · refine ⟨{ weightCoerced := args.weight ≠ 0, eta := eta' }, ?_, ?_, ?_⟩
      · simp only [safetyMonitorLoss, hrows, hwatch, bind, Except.bind, hany]
        rfl
      · rw [hhits]
      · rw [halarms]
    · obtain rfl := Option.some.inj hlr
      replace hids : args.inputIds = some ids := hids
      replace hlogits : forward ids args.attentionMask = .ok logits := hlogits
      obtain ⟨scored', hscored', hall⟩ := mapM_related
        (fun row _ s hs => scoreRow_antitone heta hle (hp ids _ logits hlogits) hs) hscored
      replace hscored' : rows.zipIdx.mapM
        (scoreRow logits watchSets eta' args.targetTokenIds) = .ok scored' := hscored'
      refine ⟨safetyComponents (args.weight ≠ 0) eta' scored'.flatten, ?_,
        components_antitone (List.rel_flatten hall)⟩
      simp only [safetyMonitorLoss, hrows, hwatch, bind, Except.bind, hany, hfilter, hids, hlogits,
        hscored']
      rfl

theorem peaked_alarms : mPValue (softmax Finset.univ peakedLogits) 0 2 ≤
    mPValue (softmax Finset.univ peakedLogits) 0 1 :=
  ((alarms_antitone one_pos one_le_two).1 _ 0 (softmax_sum_one peakedLogits 0)
    softmax_peakedLogits_floor).1

end Trainfer
