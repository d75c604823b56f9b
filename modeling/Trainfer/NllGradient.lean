import Trainfer.BatchLoss
import Trainfer.Lib.SoftmaxGradient

/-! What `sft_loss`, `ntp_loss` and `coh_loss` ask of the logits: the gradient that `backward` puts
on every logit of the forward pass.

It is the softmax less the indicator of the label, divided by the labels of the row and by the rows,
where there is a label, and zero at prompts, at filling, and wherever a row has ended. -/

namespace Trainfer.NllGradient

open Gibbs

variable {V : ℕ}

/-- A forward pass with given logits. -/
def forwardOf (logits : Logits V) : Forward V := fun _ _ => .ok logits

/-- The logits with another number for one of them. -/
def poke (logits : Logits V) (i p : ℕ) (v : Fin V) (t : ℝ) : Logits V :=
  Function.update logits i (Function.update (logits i) p (Function.update (logits i p) v t))

/-! ## One position -/

/-- A label that the cross entropy takes. -/
def Takes (V : ℕ) (label : ℤ) : Prop := label = -100 ∨ 0 ≤ label ∧ label < V

noncomputable def entry (label : ℤ) (x : Fin V → ℝ) : ℝ :=
  if label = -100 then 0
  else if h : 0 ≤ label ∧ label < V then x ⟨label.toNat, toNat_lt_size h⟩ - logsumexp x
  else 0

/-- The slope of an entry in each logit. -/
noncomputable def pull (label : ℤ) (x : Fin V → ℝ) (v : Fin V) : ℝ :=
  if label = -100 then 0 else (if (v : ℤ) = label then 1 else 0) - softmax Finset.univ x v

theorem tokenLogprob_iff {x : Fin V → ℝ} {label : ℤ} {lp : ℝ} :
    tokenLogprob x label = .ok lp ↔ Takes V label ∧ entry label x = lp := by
  unfold tokenLogprob entry Takes
  by_cases hnone : label = -100
  · simp [hnone]
  by_cases hrange : 0 ≤ label ∧ label < V
  · simp [hnone, hrange]
  · simp [hnone, hrange]

theorem hasDerivAt_entry {label : ℤ} (h : Takes V label) (x : Fin V → ℝ) (v : Fin V) :
    HasDerivAt (fun t => entry label (Function.update x v t)) (pull label x v) (x v) := by
  by_cases hnone : label = -100
  · simp only [entry, pull, if_pos hnone]
    exact hasDerivAt_const _ _
  have hrange := h.resolve_left hnone
  have hpath : ∀ j ∈ Finset.univ, HasDerivAt (fun t => Function.update x v t j)
      (if j = v then 1 else 0) (x v) := by
    intro j _
    by_cases hj : j = v
    · subst hj
      simp only [Function.update_self, if_true]
      exact hasDerivAt_id _
    · simp only [Function.update_of_ne hj, if_neg hj]
      exact hasDerivAt_const _ _
  have hsum := hasDerivAt_logSumExp ⟨v, Finset.mem_univ v⟩ hpath
  have hentry := (hpath ⟨label.toNat, by omega⟩ (Finset.mem_univ _)).sub hsum
  simp only [entry, if_neg hnone, dif_pos hrange]
  refine hentry.congr_deriv ?_
  have heq : (⟨label.toNat, by omega⟩ : Fin V) = v ↔ (v : ℤ) = label := by
    rw [Fin.ext_iff]
    simp only
    omega
  simp only [Function.update_eq_self, mul_ite, mul_one, mul_zero, Finset.sum_ite_eq',
    Finset.mem_univ, if_true, pull, if_neg hnone, heq]

theorem pull_sign {label : ℤ} (hlabel : label ≠ -100) (x : Fin V → ℝ) (v : Fin V) :
    ((v : ℤ) = label → 0 ≤ pull label x v) ∧ ((v : ℤ) ≠ label → pull label x v < 0) := by
  have hne : (Finset.univ : Finset (Fin V)).Nonempty := ⟨v, Finset.mem_univ v⟩
  constructor
  · intro hv
    rw [pull, if_neg hlabel, if_pos hv]
    exact sub_nonneg.mpr (softmax_le_one hne x (Finset.mem_univ v))
  · intro hv
    rw [pull, if_neg hlabel, if_neg hv, zero_sub]
    exact neg_lt_zero.mpr (softmax_pos hne x v)

/-! ## A batch -/

variable {α β : Type}

/-- A loop whose steps each either fail or give a value. -/
theorem mapM_eq_ok_iff {f : α → Except PyError β} {P : α → Prop} {g : α → β}
    (h : ∀ x y, f x = .ok y ↔ P x ∧ g x = y) {xs : List α} {ys : List β} :
    xs.mapM f = .ok ys ↔ (∀ x ∈ xs, P x) ∧ xs.map g = ys := by
  constructor
  · intro hok
    have hall := forall₂_of_mapM hok
    clear hok
    induction hall with
    | nil => simp
    | cons hxy _ ih =>
      obtain ⟨hP, rfl⟩ := (h _ _).mp hxy
      rw [List.map_cons, ih.2, List.forall_mem_cons]
      exact ⟨⟨hP, ih.1⟩, rfl⟩
  · rintro ⟨hP, rfl⟩
    exact mapM_map_ok fun x hx => (h x _).mpr ⟨hP x hx, rfl⟩

/-- What is made of a step that either fails or gives a value. -/
theorem map_eq_ok_iff {x : Except PyError α} {P : Prop} {a : α} (h : ∀ b, x = .ok b ↔ P ∧ a = b)
    (f : α → β) (c : β) : x.map f = .ok c ↔ P ∧ f a = c := by
  cases x with
  | error e =>
    constructor
    · intro hc
      cases hc
    · rintro ⟨hP, -⟩
      cases (h a).mpr ⟨hP, rfl⟩
  | ok b =>
    obtain ⟨hP, rfl⟩ := (h b).mp rfl
    constructor
    · intro hc
      exact ⟨hP, Except.ok.inj hc⟩
    · rintro ⟨-, rfl⟩
      rfl

theorem sum_zipIdx (xs : List α) (g : α × ℕ → ℝ) (d : α) :
    (xs.zipIdx.map g).sum = ∑ p ∈ Finset.range xs.length, g (xs.getD p d, p) := by
  rw [Finset.sum_range, ← List.sum_ofFn]
  congr 1
  refine List.ext_getElem (by simp) fun i hi hi' => ?_
  simp

/-- The label of what comes behind position `p` of row `i`; none where the row has ended. -/
def labelAt (rows : List TokenRow) (i p : ℕ) : ℤ :=
  ((rows.map rowLabels).getD i []).tail.getD p (-100)

/-- The loss, from the logits. -/
noncomputable def nllOf (rows : List TokenRow) (logits : Logits V) : ℝ :=
  -((∑ i ∈ Finset.range rows.length,
    (∑ p ∈ Finset.range ((rows.map rowLabels).getD i []).tail.length,
      entry (labelAt rows i p) (logits i p)) / rowCount ((rows.map rowLabels).getD i [])) /
    rows.length)

/-- The gradient: the softmax less the indicator of the label, shared out. -/
noncomputable def gradient (rows : List TokenRow) (logits : Logits V) (i p : ℕ) (v : Fin V) : ℝ :=
  -(pull (labelAt rows i p) (logits i p) v / rowCount ((rows.map rowLabels).getD i []) / rows.length)

/-- What the loss of a call has to do with its rows. -/
structure GradientOf (loss : Logits V → Except PyError SftReport) (rows : List TokenRow)
    (logits : Logits V) : Prop where
  loss_eq : ∀ logits', ∃ report, loss logits' = .ok report ∧ report.loss = nllOf rows logits'
  hasDerivAt : ∀ i p v,
    HasDerivAt (fun t => nllOf rows (poke logits i p v t)) (gradient rows logits i p v)
      (logits i p v)
  /-- No label, no gradient. -/
  masked : ∀ i p v, labelAt rows i p = -100 → gradient rows logits i p v = 0
  /-- A label pulls its token up, and each other token down. -/
  label : ∀ i p (v : Fin V), labelAt rows i p ≠ -100 →
    ((v : ℤ) = labelAt rows i p → gradient rows logits i p v ≤ 0) ∧
    ((v : ℤ) ≠ labelAt rows i p → 0 < gradient rows logits i p v)

variable {rows : List TokenRow} {logits : Logits V} {padId : ℤ}

theorem rowTerms_iff {said : ℕ → Fin V → ℝ} {labels : List ℤ} {terms : List ℝ} :
    rowTerms said labels = .ok terms ↔ (∀ e ∈ labels.tail.zipIdx, Takes V e.1) ∧
      labels.tail.zipIdx.map (fun e => entry e.1 (said e.2)) = terms :=
  mapM_eq_ok_iff fun _ _ => tokenLogprob_iff

/-- The sum over a row's labels. -/
noncomputable def rowTotal (logits : Logits V) (labels : List ℤ) (i : ℕ) : ℝ :=
  ∑ p ∈ Finset.range labels.tail.length, entry (labels.tail.getD p (-100)) (logits i p)

theorem rowSum_iff {e : TokenRow × ℕ} {total : ℝ} :
    (rowTerms (logits e.2) (rowLabels e.1)).map List.sum = .ok total ↔
      (∀ l ∈ (rowLabels e.1).tail, Takes V l) ∧ rowTotal logits (rowLabels e.1) e.2 = total := by
  have htakes : (∀ l ∈ (rowLabels e.1).tail, Takes V l) ↔
      ∀ f ∈ (rowLabels e.1).tail.zipIdx, Takes V f.1 := by
    conv_lhs => rw [← List.zipIdx_map_fst 0 (rowLabels e.1).tail]
    exact List.forall_mem_map
  have hsum := sum_zipIdx (rowLabels e.1).tail (fun f => entry f.1 (logits e.2 f.2)) (-100)
  rw [htakes, rowTotal, ← hsum]
  exact map_eq_ok_iff (fun _ => rowTerms_iff) List.sum total

theorem perToken_map (xs : List α) (f : α → ℝ) (g : α → ℕ) :
    perToken (xs.map f) (xs.map g) = xs.map fun x => f x / g x := by
  induction xs with
  | nil => rfl
  | cons x xs ih =>
    rw [List.map_cons, List.map_cons, List.map_cons, ← ih]
    rfl

/-- The pass over a batch, from its logits. -/
theorem scoreRows_iff (hne : rows ≠ []) {lps : List ℝ} :
    scoreRows (forwardOf logits) padId rows = .ok lps ↔
      (∀ row ∈ rows, ∀ l ∈ (rowLabels row).tail, Takes V l) ∧
      rows.zipIdx.map (fun e => rowTotal logits (rowLabels e.1) e.2 / rowCount (rowLabels e.1)) = lps := by
  obtain ⟨width, -, hstack⟩ := padAndStack_ok rows hne padId
  have hcounts : tokenCounts (rows.map fun t => padRow width (-100) (rowLabels t)) =
      rows.zipIdx.map fun e => rowCount (rowLabels e.1) := by
    rw [tokenCounts, List.map_map]
    conv_lhs => rw [← List.zipIdx_map_fst 0 rows, List.map_map]
    exact List.map_congr_left fun e _ => rowCount_padRow width (rowLabels e.1)
  have hsums : (rows.map fun t => padRow width (-100) (rowLabels t)).zipIdx.mapM
      (fun e => (rowTerms (logits e.2) e.1).map List.sum) =
        rows.zipIdx.mapM fun e => (rowTerms (logits e.2) (rowLabels e.1)).map List.sum := by
    rw [List.zipIdx_map, List.mapM_map]
    exact mapM_congr fun e _ => sum_rowTerms_padRow (fun _ _ => rfl) width
  have hscore : scoreRows (forwardOf logits) padId rows =
      (rows.zipIdx.mapM fun e => (rowTerms (logits e.2) (rowLabels e.1)).map List.sum).map
        fun summed => perToken summed (rows.zipIdx.map fun e => rowCount (rowLabels e.1)) := by
    rw [← hsums, ← hcounts, scoreRows, hstack]
    rfl
  have htakes : (∀ row ∈ rows, ∀ l ∈ (rowLabels row).tail, Takes V l) ↔
      ∀ e ∈ rows.zipIdx, ∀ l ∈ (rowLabels e.1).tail, Takes V l := by
    conv_lhs => rw [← List.zipIdx_map_fst 0 rows]
    exact List.forall_mem_map
  have hloop : ∀ summed : List ℝ,
      rows.zipIdx.mapM (fun e => (rowTerms (logits e.2) (rowLabels e.1)).map List.sum) = .ok summed ↔
        (∀ e ∈ rows.zipIdx, ∀ l ∈ (rowLabels e.1).tail, Takes V l) ∧
          rows.zipIdx.map (fun e => rowTotal logits (rowLabels e.1) e.2) = summed :=
    fun _ => mapM_eq_ok_iff fun _ _ => rowSum_iff
  have hdivide : perToken (rows.zipIdx.map fun e => rowTotal logits (rowLabels e.1) e.2)
      (rows.zipIdx.map fun e => rowCount (rowLabels e.1)) =
        rows.zipIdx.map fun e => rowTotal logits (rowLabels e.1) e.2 / rowCount (rowLabels e.1) :=
    perToken_map rows.zipIdx _ _
  rw [hscore, htakes, ← hdivide]
  exact map_eq_ok_iff hloop _ lps

theorem sum_scores (logits : Logits V) :
    mean (rows.zipIdx.map fun e => rowTotal logits (rowLabels e.1) e.2 / rowCount (rowLabels e.1)) =
      -nllOf rows logits := by
  have hrows : (rows.zipIdx.map fun e =>
      rowTotal logits (rowLabels e.1) e.2 / rowCount (rowLabels e.1)) =
        (rows.map rowLabels).zipIdx.map fun f => rowTotal logits f.1 f.2 / rowCount f.1 := by
    rw [List.zipIdx_map, List.map_map]
    rfl
  rw [hrows, mean, sum_zipIdx _ _ [], List.length_map, List.length_map, List.length_zipIdx,
    List.length_map, nllOf, neg_neg]
  rfl

/-- The loss of a batch, from its logits. -/
theorem nllReport_iff (hne : rows ≠ []) {l : ℝ} :
    (∃ report, nllReport (forwardOf logits) padId rows = .ok report ∧ report.loss = l) ↔
      (∀ row ∈ rows, ∀ l ∈ (rowLabels row).tail, Takes V l) ∧ nllOf rows logits = l := by
  have hmap := loss_nllReport (forwardOf logits) padId rows
  constructor
  · rintro ⟨report, hreport, rfl⟩
    rw [hreport] at hmap
    cases hscore : scoreRows (forwardOf logits) padId rows with
    | error e =>
      rw [hscore] at hmap
      cases hmap
    | ok lps =>
      obtain ⟨hall, hlps⟩ := (scoreRows_iff hne).mp hscore
      rw [hscore, ← hlps] at hmap
      have hvalue := Except.ok.inj hmap
      simp only [sum_scores, neg_neg] at hvalue
      exact ⟨hall, hvalue.symm⟩
  · rintro ⟨hall, rfl⟩
    rw [(scoreRows_iff hne).mpr ⟨hall, rfl⟩] at hmap
    cases hreport : nllReport (forwardOf logits) padId rows with
    | error e =>
      rw [hreport] at hmap
      cases hmap
    | ok report =>
      rw [hreport] at hmap
      have hvalue := Except.ok.inj hmap
      simp only [sum_scores, neg_neg] at hvalue
      exact ⟨report, rfl, hvalue⟩

/-! ## The gradient -/

theorem takes_labelAt (h : ∀ row ∈ rows, ∀ l ∈ (rowLabels row).tail, Takes V l) (i p : ℕ) :
    Takes V (labelAt rows i p) := by
  have hrow : (rows.map rowLabels).getD i [] = [] ∨
      ∃ row ∈ rows, (rows.map rowLabels).getD i [] = rowLabels row := by
    rw [List.getD_eq_getElem?_getD, List.getElem?_map]
    cases hi : rows[i]? with
    | none => exact .inl rfl
    | some row => exact .inr ⟨row, List.mem_of_getElem? hi, rfl⟩
  unfold labelAt
  obtain heq | ⟨row, hmem, heq⟩ := hrow
  · rw [heq]
    exact .inl rfl
  · rw [heq, List.getD_eq_getElem?_getD]
    cases hp : (rowLabels row).tail[p]? with
    | none => exact .inl rfl
    | some l => exact h row hmem l (List.mem_of_getElem? hp)

theorem hasDerivAt_nllOf (h : ∀ row ∈ rows, ∀ l ∈ (rowLabels row).tail, Takes V l)
    (logits : Logits V) (i p : ℕ) (v : Fin V) :
    HasDerivAt (fun t => nllOf rows (poke logits i p v t)) (gradient rows logits i p v)
      (logits i p v) := by
  have hentry : ∀ j q, HasDerivAt
      (fun t => entry (labelAt rows j q) (poke logits i p v t j q))
      (if j = i ∧ q = p then pull (labelAt rows i p) (logits i p) v else 0) (logits i p v) := by
    intro j q
    by_cases hj : j = i
    · subst hj
      by_cases hq : q = p
      · subst hq
        simp only [poke, Function.update_self, and_self, if_true]
        exact hasDerivAt_entry (takes_labelAt h j q) (logits j q) v
      · simp only [poke, Function.update_self, Function.update_of_ne hq, hq, and_false, if_false]
        exact hasDerivAt_const _ _
    · simp only [poke, Function.update_of_ne hj, hj, false_and, if_false]
      exact hasDerivAt_const _ _
  have hrow : ∀ j ∈ Finset.range rows.length, HasDerivAt
      (fun t => (∑ q ∈ Finset.range ((rows.map rowLabels).getD j []).tail.length,
        entry (labelAt rows j q) (poke logits i p v t j q)) /
          rowCount ((rows.map rowLabels).getD j []))
      (if j = i then pull (labelAt rows i p) (logits i p) v /
        rowCount ((rows.map rowLabels).getD i []) else 0) (logits i p v) := by
    intro j _
    refine ((HasDerivAt.fun_sum fun q _ => hentry j q).div_const _).congr_deriv ?_
    by_cases hj : j = i
    · subst hj
      simp only [true_and, if_true, Finset.sum_ite_eq', Finset.mem_range]
      split_ifs with hp
      · rfl
      · rw [labelAt, List.getD_eq_default _ _ (not_lt.mp hp), pull, if_pos rfl, zero_div]
    · simp [hj]
  refine ((HasDerivAt.fun_sum hrow).div_const _).neg.congr_deriv ?_
  rw [Finset.sum_ite_eq', gradient]
  split_ifs with hi
  · rfl
  · have hnone : labelAt rows i p = -100 := by
      rw [labelAt, List.getD_eq_default (rows.map rowLabels) [] (by simpa using hi)]
      rfl
    rw [hnone, pull, if_pos rfl]
    simp only [zero_div, neg_zero]

theorem gradient_masked {i p : ℕ} (h : labelAt rows i p = -100) (v : Fin V) :
    gradient rows logits i p v = 0 := by
  rw [gradient, h, pull, if_pos rfl, zero_div, zero_div, neg_zero]

theorem gradient_label {i p : ℕ} (h : labelAt rows i p ≠ -100) (v : Fin V) :
    ((v : ℤ) = labelAt rows i p → gradient rows logits i p v ≤ 0) ∧
    ((v : ℤ) ≠ labelAt rows i p → 0 < gradient rows logits i p v) := by
  have hcount : (0 : ℝ) < rowCount ((rows.map rowLabels).getD i []) :=
    Nat.cast_pos.mpr (lt_max_of_lt_right one_pos)
  have hrows : (0 : ℝ) < rows.length := by
    refine Nat.cast_pos.mpr (List.length_pos_iff.mpr ?_)
    rintro rfl
    exact h rfl
  obtain ⟨hup, hdown⟩ := pull_sign h (logits i p) v
  constructor
  · intro hv
    exact neg_nonpos.mpr (div_nonneg (div_nonneg (hup hv) hcount.le) hrows.le)
  · intro hv
    exact neg_pos.mpr (div_neg_of_neg_of_pos (div_neg_of_neg_of_pos (hdown hv) hcount) hrows)

/-! ## The losses -/

variable {σ : Type} {samples : List σ} {row : σ → Except PyError TokenRow}

theorem gradientOf_loss {loss : Logits V → Except PyError SftReport} (hne : samples ≠ [])
    (hloss : ∀ l, loss l = samples.mapM row >>= nllReport (forwardOf l) padId)
    {report : SftReport} (h : loss logits = .ok report) :
    ∃ rows, samples.mapM row = .ok rows ∧ GradientOf loss rows logits := by
  rw [hloss] at h
  obtain ⟨rows, hrows, hreport⟩ := bind_ok h
  have hrowsne : rows ≠ [] := by
    rintro rfl
    exact hne (List.length_eq_zero_iff.mp (forall₂_of_mapM hrows).length_eq)
  have htakes := ((nllReport_iff hrowsne).mp ⟨report, hreport, rfl⟩).1
  refine ⟨rows, hrows, fun logits' => ?_, hasDerivAt_nllOf htakes logits,
    fun _ _ v hmasked => gradient_masked hmasked v, fun _ _ v hlabel => gradient_label hlabel v⟩
  rw [hloss, hrows]
  exact (nllReport_iff hrowsne).mpr ⟨htakes, rfl⟩

/-- **The gradient of the likelihood losses.** Where one of these objectives has a loss, it has one
for all logits, and its gradient is the softmax less the indicator of the label at the positions
in front of a label, shared out over the labels of the row and over the rows. It is zero at prompts
and at filling. -/
theorem nll_gradient (tok : ChatTokenizer) (logits : Logits V) :
    (∀ samples : List ChatSample, samples ≠ [] → ∀ report,
      sftLoss (forwardOf logits) tok samples = .ok report →
      ∃ rows, samples.mapM (fun s => buildChatInputs tok s 2048) = .ok rows ∧
        GradientOf (fun l => sftLoss (forwardOf l) tok samples) rows logits) ∧
    (∀ (encode : Value → Except PyError (List ℤ)) (maxLen : ℤ) (samples : List Sample),
      samples ≠ [] → ∀ report,
      ntpLoss (forwardOf logits) tok.padId encode samples maxLen = .ok report →
      ∃ rows, samples.mapM (ntpRow encode maxLen) = .ok rows ∧
        GradientOf (fun l => ntpLoss (forwardOf l) tok.padId encode samples maxLen) rows logits) ∧
    ∀ samples : List CohSample, samples ≠ [] → ∀ report,
      cohLoss (forwardOf logits) tok samples = .ok report →
      ∃ rows, samples.mapM (cohRow tok) = .ok rows ∧
        GradientOf (fun l => cohLoss (forwardOf l) tok samples) rows logits := by
  refine ⟨fun samples hne report h => ?_, fun encode maxLen samples hne report h => ?_,
    fun samples hne report h => ?_⟩
  · exact gradientOf_loss hne (fun l => of_not_empty hne _ _) h
  · exact gradientOf_loss hne (fun l => of_not_empty hne _ _) h
  · exact gradientOf_loss hne (fun l => of_not_empty hne _ _) h

theorem nll_gradient_abc : ∃ rows, GradientOf (fun l : Logits 3 =>
    sftLoss (forwardOf l) abcTokenizer abcSamples) rows 0 := by
  obtain ⟨report, hreport⟩ : ∃ report,
      sftLoss (forwardOf (0 : Logits 3)) abcTokenizer abcSamples = .ok report := ⟨_, rfl⟩
  obtain ⟨rows, -, hrows⟩ := (nll_gradient abcTokenizer (0 : Logits 3)).1 abcSamples
    (List.cons_ne_nil _ _) report hreport
  exact ⟨rows, hrows⟩

end Trainfer.NllGradient
