import Trainfer.UnlikeDescent

/-! `safety_monitor` behind `unlike`: the monitor is given the targets of the batch that `unlike`
has just built, and looks at the step of the positive teacher at the positions where `unlike`
pushes. -/

namespace Trainfer.Unlike

open Gibbs

variable {V : ℕ} {args : UnlikeArgs} {parseInt : String → Option ℤ}
  {parseFloat : String → Option ℚ} {forward : PrefixForward V} {tok : Tokenizer}
  {samples : List Sample} {report : UnlikeReport V} {rows : List (UnlikeRow V)}
  {batch : PaddedPrefixes} {watchSets : List (Finset ℤ)} {logits : Logits V} {eta : ℝ}

/-- The call of the monitor: the tensors are those of `unlike`. -/
def monitorArgs (report : UnlikeReport V) (watchlist defaultWatchlist : Value) (eta : ℝ) :
    SafetyArgs where
  targetPositions := some (report.targetPositions.map fun ps => ps.map Int.toNat)
  targetTokenIds := some report.targetTokenIds
  inputIds := some report.inputIds
  attentionMask := some report.attentionMask
  watchlist := watchlist
  defaultWatchlist := defaultWatchlist
  effectiveLr := some eta

/-! ## The targets of a batch -/

/-- The positions of a row with its last one at `last`. -/
def rowPositions (r : UnlikeRow V) (last : ℤ) : List ℕ := r.good.elim [] fun _ => [last.toNat]

def rowIds (r : UnlikeRow V) : List ℤ := r.good.elim [] fun g => [((g : ℕ) : ℤ)]

theorem positions_eq (rows : List (UnlikeRow V)) (last : List ℤ) :
    (targetOf (rows.map fun r => idOf r.good) last).map (fun ps => ps.map Int.toNat) =
      List.zipWith rowPositions rows last := by
  rw [targetOf, List.zipWith_map_left, List.map_zipWith]
  congr 1
  funext r v
  cases hgood : r.good <;> simp [rowPositions, idOf, hgood]

/-- Without a target in the batch there is no teacher. -/
theorem good_eq_none {last : List ℤ} {i : ℕ} {r : UnlikeRow V} {v : ℤ}
    (hany : ((List.zipWith rowPositions rows last).any fun ps => !ps.isEmpty) = false)
    (hr : rows[i]? = some r) (hv : last[i]? = some v) : r.good = none := by
  have hrow : (List.zipWith rowPositions rows last)[i]? = some (rowPositions r v) :=
    List.getElem?_zipWith_eq_some.mpr ⟨r, v, hr, hv, rfl⟩
  have hempty := List.any_eq_false.mp hany _ (List.mem_of_getElem? hrow)
  cases hgood : r.good with
  | none => rfl
  | some g => simp [rowPositions, hgood] at hempty

theorem ids_eq (rows : List (UnlikeRow V)) :
    (rows.map fun r => idOf r.good).map (fun good => good.elim [] fun t => [t]) =
      rows.map rowIds := by
  rw [List.map_map]
  refine List.map_congr_left fun r _ => ?_
  cases hgood : r.good <;> simp [rowIds, idOf, hgood]

theorem rowTokens_of {tokens : List (List ℤ)} {i : ℕ} {ids : List ℤ} (h : tokens[i]? = some ids) :
    rowTokens (some tokens) i = .ok ids := by
  cases tokens with
  | nil => simp at h
  | cons t ts => simp only [rowTokens, h]

/-- Prefixes with tokens have a last position. -/
theorem lastIdx_nonneg (hbatch : unlikeBatch tok samples = .ok batch)
    (hspelled : ∀ s ∈ samples, ∀ ids, (prefixField s >>= prefixIds tok) = .ok ids → ids ≠ []) :
    batch.lastIdx.length = samples.length ∧ ∀ p ∈ batch.lastIdx, 0 ≤ p := by
  obtain ⟨tokenized, htokenized, rfl⟩ := unlikeBatch_eq_ok_iff.mp hbatch
  constructor
  · rw [padPrefixes, List.length_map, length_of_mapM htokenized]
  · intro p hp
    obtain ⟨t, ht, rfl⟩ := List.mem_map.mp hp
    obtain ⟨s, hs, hids⟩ := (mem_of_mapM htokenized t).mp ht
    have hpos := List.length_pos_iff.mpr (hspelled s hs t hids)
    omega

theorem lastLogits_eq {i : ℕ} {last : ℤ} (hlast : batch.lastIdx[i]? = some last) (h : 0 ≤ last)
    (logits : Logits V) : lastLogits batch logits i = logits i last.toNat := by
  have hget : batch.lastIdx.getD i 0 = last := by
    rw [List.getD_eq_getElem?_getD, hlast, Option.getD_some]
  simp only [lastLogits, hget, not_lt.mpr h, if_false]

/-! ## The monitor's rounds -/

theorem length_of_resolveWatchlist {watchlist defaultWatchlist : Value}
    (h : resolveWatchlist parseInt samples watchlist defaultWatchlist = .ok watchSets) :
    watchSets.length = samples.length := by
  obtain ⟨floor, -, h⟩ := bind_ok h
  obtain ⟨own, -, h⟩ := bind_ok h
  exact length_of_mapM h

theorem scorePosition_returns {i : ℕ} {watch : Finset ℤ} (hwatch : watchSets[i]? = some watch)
    (p : ℕ) (g : Fin V) :
    ∃ scored, scorePosition logits watchSets eta i p ((g : ℕ) : ℤ) = .ok scored :=
  ⟨_, scorePosition_eq (indicatorIndex_val g) (watched_some hwatch _)⟩

theorem scoreRow_returns {tokens : List (List ℤ)} {i : ℕ} {r : UnlikeRow V} {watch : Finset ℤ}
    (htokens : tokens[i]? = some (rowIds r)) (hwatch : watchSets[i]? = some watch) (last : ℤ) :
    ∃ scored, scoreRow logits watchSets eta (some tokens) (rowPositions r last, i) =
      .ok scored := by
  cases hgood : r.good with
  | none =>
    refine ⟨[], ?_⟩
    simp only [scoreRow, rowPositions, hgood]
    rfl
  | some g =>
    have hids : rowTokens (some tokens) i = .ok [((g : ℕ) : ℤ)] := by
      rw [rowTokens_of htokens, rowIds, hgood]
      rfl
    obtain ⟨scored, hscored⟩ := @scorePosition_returns V watchSets logits eta i watch hwatch
      last.toNat g
    refine ⟨[scored], ?_⟩
    simp only [scoreRow, rowPositions, hgood, Option.elim_some, List.isEmpty_cons, hids, bind,
      Except.bind, Bool.false_eq_true, if_false, List.length_singleton, ne_eq, not_true_eq_false,
      List.zip_cons_cons, List.zip_nil_right, List.mapM_cons, List.mapM_nil, hscored, pure,
      Except.pure]

/-- The monitor gets through the rows of a batch. -/
theorem exists_scored (hsets : rows.length ≤ watchSets.length) (last : List ℤ) :
    ∃ scored, (List.zipWith rowPositions rows last).zipIdx.mapM
      (scoreRow logits watchSets eta (some (rows.map rowIds))) = .ok scored := by
  refine exists_mapM_ok_iff.mpr ?_
  rintro ⟨ps, i⟩ hmem
  have hrow := List.mk_mem_zipIdx_iff_getElem?.mp hmem
  obtain ⟨r, v, hr, hv, rfl⟩ := List.getElem?_zipWith_eq_some.mp hrow
  have hi : i < watchSets.length := (List.getElem?_eq_some_iff.mp hr).1.trans_le hsets
  exact scoreRow_returns (by rw [List.getElem?_map, hr]; rfl) (List.getElem?_eq_getElem hi) v

theorem rowIds_vocab {i : ℕ} {ids : List ℤ}
    (h : rowTokens (some (rows.map rowIds)) i = .ok ids) : ∀ t ∈ ids, 0 ≤ t ∧ t < V := by
  intro t ht
  cases hr : (rows.map rowIds)[i]? with
  | some ids' =>
    obtain rfl := Except.ok.inj ((rowTokens_of hr).symm.trans h)
    obtain ⟨r, -, rfl⟩ := List.mem_map.mp (List.mem_of_getElem? hr)
    cases hgood : r.good with
    | none => simp [rowIds, hgood] at ht
    | some g =>
      have ht : t = ((g : ℕ) : ℤ) := by simpa [rowIds, hgood] using ht
      have hg := g.isLt
      omega
  | none =>
    cases rows with
    | nil =>
      cases h
      cases ht
    | cons r rows =>
      simp only [List.map_cons] at h hr
      simp only [rowTokens, hr] at h
      cases h

/-- What the monitor finds in the batch of `unlike`. -/
theorem exists_hit_iff (heta : 0 < eta) {last : List ℤ}
    (hp : ∀ i p k, 1e-45 ≤ softmax Finset.univ (logits i p) k) {scored : List (List (Scored V))}
    (hscored : (List.zipWith rowPositions rows last).zipIdx.mapM
      (scoreRow logits watchSets eta (some (rows.map rowIds))) = .ok scored)
    {i p : ℕ} {r : UnlikeRow V} {k : Fin V} (hr : rows[i]? = some r) :
    (∃ s ∈ scored.flatten, s.row = i ∧ s.position = p ∧ k ∈ s.hits) ↔
      ∃ g v watch, r.good = some g ∧ last[i]? = some v ∧ p = v.toNat ∧
        watchSets[i]? = some watch ∧ (k : ℤ) ∈ watch ∧ k ≠ g ∧
        dist (logits i p) k < stepped (logits i p) g eta k := by
  have hids : rowTokens (some (rows.map rowIds)) i = .ok (rowIds r) :=
    rowTokens_of (by rw [List.getElem?_map, hr]; rfl)
  rw [exists_scored_hit heta hscored (fun _ _ => rowIds_vocab) hp]
  constructor
  · rintro ⟨positions, tokens, watch, t, hrow, htokens, hzip, hwatch, hk, hne, hlt⟩
    obtain ⟨r', v, hr', hv, rfl⟩ := List.getElem?_zipWith_eq_some.mp hrow
    obtain rfl := Option.some.inj (hr.symm.trans hr')
    obtain rfl := Except.ok.inj (hids.symm.trans htokens)
    cases hgood : r.good with
    | none => simp [rowPositions, hgood] at hzip
    | some g =>
      obtain ⟨rfl, htg⟩ : p = v.toNat ∧ ((t : ℕ) : ℤ) = ((g : ℕ) : ℤ) := by
        simpa [rowPositions, rowIds, hgood] using hzip
      obtain rfl : t = g := Fin.ext (Int.ofNat_inj.mp htg)
      exact ⟨t, v, watch, rfl, hv, rfl, hwatch, hk, hne, hlt⟩
  · rintro ⟨g, v, watch, hgood, hv, rfl, hwatch, hk, hne, hlt⟩
    refine ⟨rowPositions r v, rowIds r, watch, g, ?_, hids, ?_, hwatch, hk, hne, hlt⟩
    · exact List.getElem?_zipWith_eq_some.mpr ⟨r, v, hr, hv, rfl⟩
    · simp [rowPositions, rowIds, hgood]

/-- It is found in the logits that `unlike` has read. -/
theorem exists_hit_lastLogits_iff (heta : 0 < eta) (hnonneg : ∀ p ∈ batch.lastIdx, 0 ≤ p)
    (hp : ∀ i p k, 1e-45 ≤ softmax Finset.univ (logits i p) k) {scored : List (List (Scored V))}
    (hscored : (List.zipWith rowPositions rows batch.lastIdx).zipIdx.mapM
      (scoreRow logits watchSets eta (some (rows.map rowIds))) = .ok scored)
    {i p : ℕ} {r : UnlikeRow V} {k : Fin V} (hr : rows[i]? = some r) :
    (∃ s ∈ scored.flatten, s.row = i ∧ s.position = p ∧ k ∈ s.hits) ↔
      ∃ g watch, r.good = some g ∧ batch.lastIdx[i]? = some (p : ℤ) ∧
        watchSets[i]? = some watch ∧ (k : ℤ) ∈ watch ∧ k ≠ g ∧
        dist (lastLogits batch logits i) k < stepped (lastLogits batch logits i) g eta k := by
  rw [exists_hit_iff heta hp hscored hr]
  constructor
  · rintro ⟨g, v, watch, hgood, hv, rfl, hwatch, hk, hne, hlt⟩
    have hpos := hnonneg v (List.mem_of_getElem? hv)
    rw [← lastLogits_eq hv hpos logits] at hlt
    exact ⟨g, watch, hgood, by rw [hv, Int.toNat_of_nonneg hpos], hwatch, hk, hne, hlt⟩
  · rintro ⟨g, watch, hgood, hv, hwatch, hk, hne, hlt⟩
    rw [lastLogits_eq hv (Int.natCast_nonneg p), Int.toNat_natCast] at hlt
    exact ⟨g, p, watch, hgood, hv, (Int.toNat_natCast p).symm, hwatch, hk, hne, hlt⟩

/-- **The alarm behind `unlike`.** The monitor takes the targets of every batch whose prefixes have
tokens, and raises its alarm on a watched token exactly at the last position of a sample with a
teacher whose own step would make that token more likely. -/
theorem unlike_monitored {watchlist defaultWatchlist : Value} (heta : 0 < eta)
    (h : unlikeLoss parseInt parseFloat forward tok samples args = .ok report)
    (hspelled : ∀ s ∈ samples, ∀ ids, (prefixField s >>= prefixIds tok) = .ok ids → ids ≠ [])
    (hp : ∀ ids mask logits, forward ids mask = .ok logits →
      ∀ i p k, 1e-45 ≤ softmax Finset.univ (logits i p) k)
    (hwatch : resolveWatchlist parseInt samples watchlist defaultWatchlist = .ok watchSets) :
    ∃ safety batch logits, ∃ rows : List (UnlikeRow V),
      safetyMonitorLoss parseInt forward samples
        (monitorArgs report watchlist defaultWatchlist eta) = .ok safety ∧
      unlikeBatch tok samples = .ok batch ∧
      forward batch.inputIds (some batch.attentionMask) = .ok logits ∧
      rows.length = samples.length ∧
      (∀ i s r, samples[i]? = some s → rows[i]? = some r →
        RowOf parseInt parseFloat args (lastLogits batch logits i) s r) ∧
      ∀ i r p k, rows[i]? = some r → ((i, p, k) ∈ safety.watchlistHits ↔
        ∃ g watch, r.good = some g ∧ batch.lastIdx[i]? = some (p : ℤ) ∧
          watchSets[i]? = some watch ∧ (k : ℤ) ∈ watch ∧ k ≠ g ∧
          dist (lastLogits batch logits i) k < stepped (lastLogits batch logits i) g eta k) := by
  obtain ⟨warnings, batch, logits, rows, hbatch, hlogits, hlength, hrows, rfl⟩ := unlikeLoss_ok h
  obtain ⟨hlast, hnonneg⟩ := lastIdx_nonneg hbatch hspelled
  have hsets := length_of_resolveWatchlist hwatch
  obtain ⟨positions, hpositions⟩ : ∃ positions,
      positions = List.zipWith rowPositions rows batch.lastIdx := ⟨_, rfl⟩
  obtain ⟨a, ha⟩ : ∃ a, a = monitorArgs (reportOf args warnings batch (lastLogits batch logits)
      (rows.map fun r => idOf r.good) rows) watchlist defaultWatchlist eta := ⟨_, rfl⟩
  have htargets : a.targetPositions = some positions := by
    rw [ha, hpositions, ← positions_eq]
    rfl
  have htokens : a.targetTokenIds = some (rows.map rowIds) := by
    rw [ha, ← ids_eq]
    rfl
  have hresolve : resolveWatchlist parseInt samples a.watchlist a.defaultWatchlist =
      .ok watchSets := by rw [ha]; exact hwatch
  have hfilter : a.effectiveLr.filter (fun eta => decide (0 < eta)) = some eta := by
    rw [ha]
    simp [monitorArgs, heta]
  have hids : a.inputIds = some batch.inputIds := by rw [ha]; rfl
  have hforward : forward batch.inputIds a.attentionMask = .ok logits := by
    rw [ha]
    exact hlogits
  rw [← ha]
  cases hany : positions.any fun ps => !ps.isEmpty with
  | false =>
    refine ⟨{ weightCoerced := a.weight ≠ 0, eta := a.effectiveLr.getD 0 }, batch, logits, rows, ?_,
      hbatch, hlogits, hlength, hrows, fun i r p k hr => iff_of_false List.not_mem_nil ?_⟩
    · simp only [safetyMonitorLoss, htargets, hresolve, bind, Except.bind, hany]
      rfl
    · rintro ⟨g, watch, hgood, hv, -⟩
      rw [hpositions] at hany
      rw [good_eq_none hany hr hv] at hgood
      cases hgood
  | true =>
    obtain ⟨scored, hscored⟩ := @exists_scored V rows watchSets logits eta
      (hlength.trans hsets.symm).le batch.lastIdx
    rw [← hpositions] at hscored
    refine ⟨safetyComponents (a.weight ≠ 0) eta scored.flatten, batch, logits, rows, ?_, hbatch,
      hlogits, hlength, hrows, fun i r p k hr => ?_⟩
    · simp only [safetyMonitorLoss, htargets, htokens, hresolve, bind, Except.bind, hany, hfilter,
        hids, hforward, hscored]
      rfl
    · rw [hpositions] at hscored
      rw [mem_watchlistHits]
      exact exists_hit_lastLogits_iff heta hnonneg (hp _ _ _ hlogits) hscored hr

/-! ### A teacher that lifts the bad token -/

def taughtSample : Sample :=
  [("prefix", .str "a"), ("bad_token_id", .num 2), ("good_token_id", .num 0)]

noncomputable def peakedForward : PrefixForward 3 := fun _ _ => .ok fun _ _ => peakedLogits

theorem taughtSample_returns : ∃ report, unlikeLoss (fun _ => none) (fun _ => none) peakedForward
    twoTokens [taughtSample] {} = .ok report :=
  ⟨_, rfl⟩

theorem unlike_monitored_taughtSample : ∃ report safety,
    unlikeLoss (fun _ => none) (fun _ => none) peakedForward twoTokens [taughtSample] {} =
      .ok report ∧
    safetyMonitorLoss (fun _ => none) peakedForward [taughtSample]
      (monitorArgs report (.list [.num 2]) .null 1) = .ok safety ∧
    (0, 1, 2) ∈ safety.watchlistHits := by
  obtain ⟨report, h⟩ := taughtSample_returns
  have hspelled : ∀ s ∈ [taughtSample], ∀ ids,
      (prefixField s >>= prefixIds twoTokens) = .ok ids → ids ≠ [] := by
    intro s hs ids hids
    obtain rfl := List.mem_singleton.mp hs
    cases hids
    exact List.cons_ne_nil _ _
  have hp : ∀ ids mask logits, peakedForward ids mask = .ok logits →
      ∀ i p k, 1e-45 ≤ softmax Finset.univ (logits i p) k := by
    intro ids mask logits hlogits i p k
    cases hlogits
    exact softmax_peakedLogits_floor k
  obtain ⟨watchSets, hwatch, watch, hfirst, hmem⟩ : ∃ watchSets,
      resolveWatchlist (fun _ => none) [taughtSample] (.list [.num 2]) .null = .ok watchSets ∧
      ∃ watch, watchSets[0]? = some watch ∧ (2 : ℤ) ∈ watch := by
    refine ⟨_, rfl, _, rfl, ?_⟩
    decide
  obtain ⟨safety, batch, logits, rows, hsafety, hbatch, hlogits, hlength, hrows, hhits⟩ :=
    unlike_monitored one_pos h hspelled hp hwatch
  obtain ⟨r, rfl⟩ := List.length_eq_one_iff.mp hlength
  have hgood : r.good = some 0 := by
    have hid : idOf r.good = some 0 := (Except.ok.inj (hrows 0 taughtSample r rfl rfl).good).symm
    obtain ⟨g, hg, hzero⟩ := Option.map_eq_some_iff.mp hid
    rw [hg, Option.some_inj]
    exact Fin.ext (by simpa using hzero)
  cases hbatch
  cases hlogits
  refine ⟨report, safety, h, hsafety, (hhits 0 r 1 2 rfl).mpr ⟨0, watch, hgood, rfl, hfirst, hmem,
    by decide, peakedLogits_grows⟩⟩

end Trainfer.Unlike
