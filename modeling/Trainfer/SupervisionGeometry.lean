import Trainfer.SequenceLogprob

/-! Where a batch is supervised.

The labels of a row are its tokens from some place behind the prompt on (`build_spec`), padding
has no labels, and `targets_spec` says what the shift by one makes of them. `geometry_spec` puts
these together for a batch. -/

namespace Trainfer

variable {tok : ChatTokenizer} {s : ChatSample} {maxLen : ℤ} {row : TokenRow}

/-! ## One sample -/

theorem le_prefixLen (tok : ChatTokenizer) (fullIds : List ℤ) (n : ℕ)
    (spanPrefix : Option String) : n ≤ tok.prefixLen fullIds n spanPrefix := by
  unfold ChatTokenizer.prefixLen
  split
  · exact le_rfl
  · split
    · exact le_rfl
    · rename_i spanPrefix _
      cases h : tok.resolveSpan fullIds n spanPrefix with
      | none => exact le_rfl
      | some pl =>
        have hmem := List.mem_range'_1.mp (List.mem_of_find?_eq_some h)
        exact hmem.1

theorem getElem?_labelsFrom (fullIds : List ℤ) (n q : ℕ) : (labelsFrom fullIds n)[q]? =
    if q < n then (if q < fullIds.length then some (-100) else none) else fullIds[q]? := by
  rw [labelsFrom_eq, List.getElem?_append, List.length_replicate, List.getElem?_replicate,
    List.getElem?_drop]
  by_cases hn : q < n
  · by_cases hlength : q < fullIds.length
    · simp [hn, hlength]
    · have hge : n - min n fullIds.length + (q - n) = n - fullIds.length := by omega
      simp only [hn, hlength, lt_min_iff, and_false, if_false, if_true]
      rw [List.getElem?_eq_none]
      omega
  · by_cases hlength : q < fullIds.length
    · have hmin : min n fullIds.length = n := by omega
      have hsum : n + (q - n) = q := by omega
      simp [hn, hmin, hsum]
    · have hnone : ¬ q < min n fullIds.length := by omega
      simp only [hn, hnone, if_false]
      rw [List.getElem?_eq_none (by omega), List.getElem?_eq_none (by omega)]

/-- The row of a sample, with its prompt cut to the length of the whole. -/
theorem build_eq {promptIds fullIds : List ℤ} (h : buildChatInputs tok s maxLen = .ok row)
    (hpair : tok.encodePair s.prompt s.response = .ok (promptIds, fullIds)) :
    row.inputIds = Slices.sliceTo fullIds maxLen ∧
      row.labels = some (labelsFrom row.inputIds (tok.prefixLen row.inputIds
        (min promptIds.length row.inputIds.length) s.spanPrefix)) ∧
      row.attentionMask = some (List.replicate row.inputIds.length 1) := by
  have hclip : (if (Slices.sliceTo fullIds maxLen).length < promptIds.length then
      promptIds.take (Slices.sliceTo fullIds maxLen).length else promptIds).length =
        min promptIds.length (Slices.sliceTo fullIds maxLen).length := by
    split
    · rw [List.length_take, min_comm]
    · rename_i hge
      rw [min_eq_left (not_lt.mp hge)]
  unfold buildChatInputs at h
  rw [hpair] at h
  cases h
  exact ⟨rfl, congrArg (fun n => some (labelsFrom (Slices.sliceTo fullIds maxLen)
    (tok.prefixLen (Slices.sliceTo fullIds maxLen) n s.spanPrefix))) hclip, rfl⟩

/-- Where a sample has a label, it is its token, one behind the prompt. -/
structure Supervised (promptIds : List ℤ) (row : TokenRow) (labels : List ℤ) : Prop where
  known : row.labels = some labels
  mask : row.attentionMask = some (List.replicate row.inputIds.length 1)
  own : ∀ (q : ℕ) (t : ℤ), labels[q]? = some t → t ≠ -100 → row.inputIds[q]? = some t
  behind : ∀ (q : ℕ) (t : ℤ), labels[q]? = some t → t ≠ -100 → promptIds.length ≤ q

theorem build_spec {promptIds fullIds : List ℤ} (h : buildChatInputs tok s maxLen = .ok row)
    (hpair : tok.encodePair s.prompt s.response = .ok (promptIds, fullIds)) :
    ∃ labels, Supervised promptIds row labels := by
  obtain ⟨-, hlabels, hmask⟩ := build_eq h hpair
  have hle := le_prefixLen tok row.inputIds (min promptIds.length row.inputIds.length)
    s.spanPrefix
  refine ⟨_, hlabels, hmask, fun q t hq ht => ?_, fun q t hq ht => ?_⟩
  · rw [getElem?_labelsFrom] at hq
    split at hq
    · split at hq
      · exact absurd (Option.some.inj hq).symm ht
      · cases hq
    · exact hq
  · rw [getElem?_labelsFrom] at hq
    split at hq
    · split at hq
      · exact absurd (Option.some.inj hq).symm ht
      · cases hq
    · have hlt := (List.getElem?_eq_some_iff.mp hq).1
      omega

/-! ## The shift -/

/-- What `extract_target_positions` gives for a row of labels. -/
structure Targets (labels : List ℤ) (positions : List ℕ) (ids : List ℤ) : Prop where
  ordered : positions.Pairwise (· < ·)
  length : positions.length = ids.length
  pairs : ∀ (p : ℕ) (t : ℤ), (p, t) ∈ positions.zip ids ↔ labels[p + 1]? = some t ∧ t ≠ -100
  count : positions.length = labels.tail.countP (· != -100)

theorem targets_spec (labels : List ℤ) :
    Targets labels ((labels.tail.zipIdx.filter fun e => e.1 != -100).map Prod.snd)
      (labels.tail.filter (· != -100)) := by
  have hids : labels.tail.filter (· != -100) =
      (labels.tail.zipIdx.filter fun e => e.1 != -100).map Prod.fst := by
    conv_lhs => rw [← List.zipIdx_map_fst 0 labels.tail, List.filter_map]
    rfl
  constructor
  · have hindices : (labels.tail.zipIdx.map Prod.snd).Pairwise (· < ·) := by
      rw [List.zipIdx_map_snd]
      exact List.pairwise_lt_range'
    exact hindices.sublist (List.filter_sublist.map Prod.snd)
  · rw [hids, List.length_map, List.length_map]
  · intro p t
    have hzip : ((labels.tail.zipIdx.filter fun e => e.1 != -100).map Prod.snd).zip
        (labels.tail.filter (· != -100)) =
          (labels.tail.zipIdx.filter fun e => e.1 != -100).map fun e => (e.2, e.1) := by
      rw [hids, List.zip_map']
    rw [hzip, ← List.getElem?_tail, ← List.mk_mem_zipIdx_iff_getElem?]
    constructor
    · intro hmem
      obtain ⟨e, he, heq⟩ := List.mem_map.mp hmem
      obtain ⟨rfl, rfl⟩ := Prod.mk.inj heq
      obtain ⟨hmem, hne⟩ := List.mem_filter.mp he
      exact ⟨hmem, by simpa using hne⟩
    · rintro ⟨hmem, hne⟩
      exact List.mem_map.mpr ⟨(t, p), List.mem_filter.mpr ⟨hmem, by simpa using hne⟩, rfl⟩
  · rw [List.length_map, ← List.length_map (f := Prod.fst), ← hids, List.countP_eq_length_filter]

theorem Targets.exists_label {labels ids : List ℤ} {positions : List ℕ}
    (h : Targets labels positions ids) {p : ℕ} (hp : p ∈ positions) :
    ∃ t, labels[p + 1]? = some t ∧ t ≠ -100 := by
  obtain ⟨i, hi, rfl⟩ := List.getElem_of_mem hp
  have hi' : i < ids.length := h.length ▸ hi
  have hzip : (positions.zip ids)[i]? = some (positions[i], ids[i]) :=
    List.getElem?_zip_eq_some.mpr ⟨List.getElem?_eq_getElem hi, List.getElem?_eq_getElem hi'⟩
  exact ⟨ids[i], (h.pairs _ _).mp (List.mem_of_getElem? hzip)⟩

/-! ## Padding -/

theorem getElem?_padRow_of_lt {width q : ℕ} {fill : ℤ} {xs : List ℤ} (hq : q < xs.length) :
    (padRow width fill xs)[q]? = xs[q]? :=
  List.getElem?_append_left hq

/-- A batch of rows, with room for the longest. -/
theorem padAndStack_ok (rows : List TokenRow) (hne : rows ≠ []) (padId : ℤ) : ∃ width,
    (∀ t ∈ rows, t.inputIds.length ≤ width) ∧ padAndStack rows padId = .ok {
      inputIds := rows.map fun t => padRow width padId t.inputIds
      labels := rows.map fun t => padRow width (-100) (t.labels.getD [])
      attentionMask := rows.map fun t =>
        padRow width 0 (t.attentionMask.getD (List.replicate t.inputIds.length 1)) } := by
  cases hmax : (rows.map fun t => t.inputIds.length).max? with
  | none =>
    rw [List.max?_eq_none_iff, List.map_eq_nil_iff] at hmax
    exact absurd hmax hne
  | some width =>
    have hwidth : batchWidth rows = .ok width := by rw [batchWidth, hmax]
    refine ⟨width, fun t ht => ?_, by rw [padAndStack, hwidth]; rfl⟩
    exact (List.max?_eq_some_iff.mp hmax).2 _ (List.mem_map_of_mem ht)

/-- What is not the filling stands in the row itself. -/
theorem getElem?_padRow {width q : ℕ} {fill t : ℤ} {xs : List ℤ}
    (h : (padRow width fill xs)[q]? = some t) (ht : t ≠ fill) : xs[q]? = some t := by
  rw [padRow, List.getElem?_append] at h
  split at h
  · exact h
  · rw [List.getElem?_replicate] at h
    split at h
    · exact absurd (Option.some.inj h).symm ht
    · cases h

/-! ## A batch -/

/-- What the supervised places of a row of a batch are: `positions` and `ids` are the pairs of a
place and the token after it that has a label; this token is a real one, behind the prompt. -/
structure RowGeometry (promptIds : List ℤ) (row : TokenRow) (inputIds labels mask : List ℤ)
    (positions : List ℕ) (ids : List ℤ) : Prop where
  ordered : positions.Pairwise (· < ·)
  length : positions.length = ids.length
  pairs : ∀ (p : ℕ) (t : ℤ), (p, t) ∈ positions.zip ids ↔
    inputIds[p + 1]? = some t ∧ ∃ l, labels[p + 1]? = some l ∧ l ≠ -100
  behind : ∀ p ∈ positions, promptIds.length ≤ p + 1
  real : ∀ p ∈ positions, p + 1 < row.inputIds.length ∧ mask[p + 1]? = some 1 ∧
    inputIds[p + 1]? = row.inputIds[p + 1]?

theorem row_geometry {promptIds labels ids : List ℤ} {positions : List ℕ} {width : ℕ} {padId : ℤ}
    (h : Supervised promptIds row labels)
    (htargets : Targets (padRow width (-100) (row.labels.getD [])) positions ids) :
    RowGeometry promptIds row (padRow width padId row.inputIds)
      (padRow width (-100) (row.labels.getD []))
      (padRow width 0 (row.attentionMask.getD (List.replicate row.inputIds.length 1)))
      positions ids := by
  have hlabel : ∀ (q : ℕ) (t : ℤ), (padRow width (-100) (row.labels.getD []))[q]? = some t →
      t ≠ -100 → labels[q]? = some t := by
    intro q t hq ht
    rw [h.known, Option.getD_some] at hq
    exact getElem?_padRow hq ht
  have hown : ∀ (q : ℕ) (t : ℤ), (padRow width (-100) (row.labels.getD []))[q]? = some t →
      t ≠ -100 → (padRow width padId row.inputIds)[q]? = some t := by
    intro q t hq ht
    have hget := h.own q t (hlabel q t hq ht) ht
    rw [getElem?_padRow_of_lt (List.getElem?_eq_some_iff.mp hget).1, hget]
  constructor
  · exact htargets.ordered
  · exact htargets.length
  · intro p t
    rw [htargets.pairs]
    constructor
    · rintro ⟨hp, ht⟩
      exact ⟨hown _ _ hp ht, t, hp, ht⟩
    · rintro ⟨hp, l, hl, hne⟩
      obtain rfl := Option.some.inj ((hown _ _ hl hne).symm.trans hp)
      exact ⟨hl, hne⟩
  · intro p hp
    obtain ⟨t, hget, ht⟩ := htargets.exists_label hp
    exact h.behind _ _ (hlabel _ _ hget ht) ht
  · intro p hp
    obtain ⟨t, hget, ht⟩ := htargets.exists_label hp
    have hlt := (List.getElem?_eq_some_iff.mp (h.own _ _ (hlabel _ _ hget ht) ht)).1
    refine ⟨hlt, ?_, getElem?_padRow_of_lt hlt⟩
    rw [h.mask, Option.getD_some, getElem?_padRow_of_lt (by simpa using hlt),
      List.getElem?_replicate, if_pos hlt]

/-- The divisors of the means. -/
theorem sequenceLogprobMean_eq {V : ℕ} {forward : Forward V} {inputIds labels : List (List ℤ)}
    {mask : Option (List (List ℤ))} {means : List ℝ}
    (h : sequenceLogprobMean forward inputIds labels mask = .ok means) :
    ∃ summed, sequenceLogprob forward inputIds labels mask = .ok summed ∧
      means = perToken summed (tokenCounts labels) := by
  obtain ⟨summed, hsummed, hmeans⟩ := bind_ok h
  cases hmeans
  exact ⟨summed, hsummed, rfl⟩

theorem sftLoss_eq {V : ℕ} {forward : Forward V} {samples : List ChatSample}
    {rows : List TokenRow} {batch : TokenBatch} {report : SftReport} (hne : samples ≠ [])
    (hrows : samples.mapM (fun s => buildChatInputs tok s 2048) = .ok rows)
    (hbatch : padAndStack rows tok.padId = .ok batch)
    (h : sftLoss forward tok samples = .ok report) :
    report.targetPositions = (extractTargetPositions batch.labels).1 ∧
      report.targetTokenIds = (extractTargetPositions batch.labels).2 ∧
      ∃ summed, sequenceLogprob forward batch.inputIds batch.labels
          (some batch.attentionMask) = .ok summed ∧
        report.loss = -((perToken summed (tokenCounts batch.labels)).sum /
          (perToken summed (tokenCounts batch.labels)).length) := by
  have hempty : samples.isEmpty = false := by simpa using hne
  simp only [sftLoss, hempty, Bool.false_eq_true, if_false, hrows, hbatch, bind,
    Except.bind] at h
  obtain ⟨summed, hsummed, h⟩ := bind_ok h
  cases h
  exact ⟨rfl, rfl, summed, hsummed, rfl⟩

/-- **Where a batch is supervised.** For any samples, any length to cut them to and any padding
id, the positions and ids of a row are the pairs of a place and the token after it that has a
label. Those tokens are real ones of the sample behind its prompt, and they are as many as the
sums of `sequence_logprob_mean` and `sft_loss` are divided by, if there are any. -/
theorem geometry_spec {samples : List ChatSample} {rows : List TokenRow}
    (hne : samples ≠ []) (padId : ℤ)
    (hrows : samples.mapM (fun s => buildChatInputs tok s maxLen) = .ok rows) :
    ∃ batch, padAndStack rows padId = .ok batch ∧
      (extractTargetPositions batch.labels).1.length = samples.length ∧
      (∀ (i : ℕ) (s : ChatSample), samples[i]? = some s →
        ∃ (promptIds fullIds : List ℤ) (row : TokenRow) (inputIds labels mask : List ℤ)
          (positions : List ℕ) (ids : List ℤ) (n : ℕ),
          tok.encodePair s.prompt s.response = .ok (promptIds, fullIds) ∧
          rows[i]? = some row ∧ row.inputIds = Slices.sliceTo fullIds maxLen ∧
          batch.inputIds[i]? = some inputIds ∧ batch.labels[i]? = some labels ∧
          batch.attentionMask[i]? = some mask ∧
          (extractTargetPositions batch.labels).1[i]? = some positions ∧
          (extractTargetPositions batch.labels).2[i]? = some ids ∧
          (tokenCounts batch.labels)[i]? = some n ∧
          RowGeometry promptIds row inputIds labels mask positions ids ∧
          (positions ≠ [] → n = positions.length)) ∧
      (∀ (V : ℕ) (forward : Forward V) (mask : Option (List (List ℤ))) (means : List ℝ),
        sequenceLogprobMean forward batch.inputIds batch.labels mask = .ok means →
        ∃ summed, sequenceLogprob forward batch.inputIds batch.labels mask = .ok summed ∧
          means = perToken summed (tokenCounts batch.labels)) ∧
      (maxLen = 2048 → padId = tok.padId →
        ∀ (V : ℕ) (forward : Forward V) (report : SftReport),
        sftLoss forward tok samples = .ok report →
        report.targetPositions = (extractTargetPositions batch.labels).1 ∧
        report.targetTokenIds = (extractTargetPositions batch.labels).2 ∧
        ∃ summed, sequenceLogprob forward batch.inputIds batch.labels
            (some batch.attentionMask) = .ok summed ∧
          report.loss = -((perToken summed (tokenCounts batch.labels)).sum /
            (perToken summed (tokenCounts batch.labels)).length)) := by
  have hall := forall₂_of_mapM hrows
  have hrows_ne : rows ≠ [] := by
    rintro rfl
    cases hall
    exact hne rfl
  obtain ⟨width, -, hbatch⟩ := padAndStack_ok rows hrows_ne padId
  refine ⟨_, hbatch, ?_, ?_, ?_, ?_⟩
  · simp [extractTargetPositions, hall.length_eq]
  · intro i s hs
    obtain ⟨hi, rfl⟩ := List.getElem?_eq_some_iff.mp hs
    have hi' : i < rows.length := hall.length_eq ▸ hi
    have hbuild : buildChatInputs tok samples[i] maxLen = .ok rows[i] := hall.get hi hi'
    obtain ⟨⟨promptIds, fullIds⟩, hpair, -⟩ := bind_ok hbuild
    obtain ⟨labels, hsupervised⟩ := build_spec hbuild hpair
    have hrow : rows[i]? = some rows[i] := List.getElem?_eq_getElem hi'
    refine ⟨promptIds, fullIds, rows[i], _, _, _, _, _, _, hpair, hrow,
      (build_eq hbuild hpair).1, by simp only [List.getElem?_map, hrow]; rfl,
      by simp only [List.getElem?_map, hrow]; rfl, by simp only [List.getElem?_map, hrow]; rfl,
      by simp only [extractTargetPositions, List.getElem?_map, hrow]; rfl,
      by simp only [extractTargetPositions, List.getElem?_map, hrow]; rfl,
      by simp only [tokenCounts, List.getElem?_map, hrow]; rfl,
      row_geometry hsupervised (targets_spec _), ?_⟩
    intro hpositions
    have hpos := List.length_pos_iff.mpr hpositions
    have hcount := (targets_spec (padRow width (-100) (rows[i].labels.getD []))).count
    show max ((padRow width (-100) (rows[i].labels.getD [])).tail.countP (· != -100)) 1 = _
    omega
  · exact fun V forward mask means hmeans => sequenceLogprobMean_eq hmeans
  · rintro rfl rfl V forward report hreport
    exact sftLoss_eq hne hrows hbatch hreport

/-- A token for each character, without a template. -/
def charTokenizer : ChatTokenizer where
  padTokenId := some 0
  eosTokenId := none
  chatTemplate := false
  isProcessor := false
  applyChatTemplate _ _ := .ok []
  encode text := .ok (text.toList.map fun c => (c.toNat : ℤ))
  decode ids := String.ofList (ids.map fun id => Char.ofNat id.toNat)

def twoSamples : List ChatSample := [⟨"a", "bc", none⟩, ⟨"ab", "cde", some "c"⟩]

theorem twoSamples_geometry : ∃ rows batch,
    twoSamples.mapM (fun s => buildChatInputs charTokenizer s 2048) = .ok rows ∧
      padAndStack rows 0 = .ok batch ∧ (extractTargetPositions batch.labels).1.length = 2 := by
  obtain ⟨rows, hrows⟩ : ∃ rows,
      twoSamples.mapM (fun s => buildChatInputs charTokenizer s 2048) = .ok rows := ⟨_, rfl⟩
  obtain ⟨batch, hbatch, hlength, -⟩ := geometry_spec (by simp [twoSamples]) 0 hrows
  exact ⟨rows, batch, hrows, hbatch, hlength⟩

end Trainfer
