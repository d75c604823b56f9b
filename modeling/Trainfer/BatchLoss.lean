import Trainfer.BatchScore

/-! `ntp_loss`, `coh_loss` and `hinge_contrastive_loss`, beside `sft_loss`: what the loss of a batch
has to do with the losses of its samples. -/

namespace Trainfer

variable {V : ℕ} {σ : Type}

/-! ## The losses -/

/-- What `ntp_loss` and `coh_loss` do with their rows, which is what `sft_loss` does. -/
noncomputable def nllReport (forward : Forward V) (padId : ℤ) (rows : List TokenRow) :
    Except PyError SftReport := do
  let batch ← padAndStack rows padId
  let summed ← sequenceLogprob forward batch.inputIds batch.labels (some batch.attentionMask)
  let means := perToken summed (tokenCounts batch.labels)
  let targets := extractTargetPositions batch.labels
  return {
    loss := -(means.sum / means.length)
    targetPositions := targets.1
    targetTokenIds := targets.2
    inputIds := batch.inputIds
    attentionMask := batch.attentionMask }

theorem labels_self (ids : List ℤ) : ∀ l ∈ some ids, l.length = ids.length := by simp

theorem mask_ones (ids : List ℤ) :
    ∀ m ∈ some (List.replicate ids.length (1 : ℤ)), m.length = ids.length := by simp

/-- One row of `ntp_loss`: every token has a label. `encode` is the tokenizer with its special
tokens. -/
def ntpRow (encode : Value → Except PyError (List ℤ)) (maxLen : ℤ) (s : Sample) :
    Except PyError TokenRow := do
  let text := JsonObject.get s "text"
  if !text.truthy then throw ⟨.valueError, "ntp sample missing 'text'"⟩
  let ids ← encode text
  let ids := Slices.sliceTo ids maxLen
  return {
    inputIds := ids
    labels := some ids
    attentionMask := some (List.replicate ids.length 1)
    labels_length := labels_self ids
    mask_length := mask_ones ids }

/-- `ntp_loss`. -/
noncomputable def ntpLoss (forward : Forward V) (padId : ℤ)
    (encode : Value → Except PyError (List ℤ)) (samples : List Sample) (maxLen : ℤ := 2048) :
    Except PyError SftReport := do
  if samples.isEmpty then throw ⟨.valueError, "ntp_loss requires at least one sample"⟩
  let tokenized ← samples.mapM (ntpRow encode maxLen)
  nllReport forward padId tokenized

/-- What a sample gives to `coh_loss`. -/
structure CohSample where
  prompt : String
  bad : String := ""
  critique : String := ""
  good : Option String := none

/-- `_format_coh_sample`. -/
def formatCohSample (s : CohSample) : String × String :=
  let body := "Previous response: " ++ s.bad ++ "\nFeedback: " ++ s.critique ++
    "\nRevised response: "
  -- `if good:`
  (s.prompt, body ++ s.good.getD "")

def cohRow (tok : ChatTokenizer) (s : CohSample) : Except PyError TokenRow :=
  buildChatInputs tok ⟨(formatCohSample s).1, (formatCohSample s).2, none⟩ 2048

/-- `coh_loss`. -/
noncomputable def cohLoss (forward : Forward V) (tok : ChatTokenizer) (samples : List CohSample) :
    Except PyError SftReport := do
  if samples.isEmpty then throw ⟨.valueError, "coh_loss requires at least one sample"⟩
  let tokenized ← samples.mapM (cohRow tok)
  nllReport forward tok.padId tokenized

structure HingeSample where
  prompt : String
  chosen : String
  rejected : String

structure HingeReport where
  sft : ℝ
  rej : ℝ
  total : ℝ

def chosenRow (tok : ChatTokenizer) (s : HingeSample) : Except PyError TokenRow :=
  buildChatInputs tok ⟨s.prompt, s.chosen, none⟩ 2048

def rejectedRow (tok : ChatTokenizer) (s : HingeSample) : Except PyError TokenRow :=
  buildChatInputs tok ⟨s.prompt, s.rejected, none⟩ 2048

noncomputable def mean (xs : List ℝ) : ℝ := xs.sum / xs.length

/-- An entry of the clamped difference. -/
noncomputable def hingeTerm (margin : ℝ) (c r : ℝ) : ℝ := max (r - c + margin) 0

/-- `hinge_contrastive_loss`. -/
noncomputable def hingeContrastiveLoss (forward : Forward V) (tok : ChatTokenizer)
    (samples : List HingeSample) (margin : ℝ := 1) (rejectionWeight : ℝ := 1 / 2) :
    Except PyError HingeReport := do
  if samples.isEmpty then
    throw ⟨.valueError, "hinge_contrastive_loss requires at least one sample"⟩
  let chosenTok ← samples.mapM (chosenRow tok)
  let rejectedTok ← samples.mapM (rejectedRow tok)
  let cbat ← padAndStack chosenTok tok.padId
  let rbat ← padAndStack rejectedTok tok.padId
  let chosenSum ← sequenceLogprob forward cbat.inputIds cbat.labels (some cbat.attentionMask)
  let rejectedSum ← sequenceLogprob forward rbat.inputIds rbat.labels (some rbat.attentionMask)
  let cLp := perToken chosenSum (tokenCounts cbat.labels)
  let rLp := perToken rejectedSum (tokenCounts rbat.labels)
  let sftTerm := -mean cLp
  let hinge := mean (List.zipWith (hingeTerm margin) cLp rLp)
  return ⟨sftTerm, hinge, sftTerm + rejectionWeight * hinge⟩

/-! ## Samples one by one -/

/-- The loss of the samples together is the mean of their losses alone, and there is none exactly
if one of these fails. -/
def MeanOfSingles (loss : List σ → Except PyError ℝ) (samples : List σ) : Prop :=
  ∀ l, loss samples = .ok l ↔
    ∃ ls, List.Forall₂ (fun s l => loss [s] = .ok l) samples ls ∧ l = mean ls

/-- The rows of the samples have tokens, and the mask shows them. -/
def Tokenized (row : σ → Except PyError TokenRow) (samples : List σ) : Prop :=
  ∀ s ∈ samples, ∀ r, row s = .ok r → Plain r

variable {forward : Forward V} {next : List ℤ → Fin V → ℝ} {row : σ → Except PyError TokenRow}
  {samples : List σ} {tok : ChatTokenizer}

/-- The score of one sample. -/
noncomputable def sampleMean (next : List ℤ → Fin V → ℝ) (row : σ → Except PyError TokenRow)
    (s : σ) : Except PyError ℝ :=
  row s >>= rowMean next

/-- A loop over what another loop returns is one loop. -/
theorem exists_mapM_mapM_iff {α β γ : Type} {f : α → Except PyError β} {g : β → Except PyError γ}
    {xs : List α} {zs : List γ} :
    (∃ ys, xs.mapM f = .ok ys ∧ ys.mapM g = .ok zs) ↔ xs.mapM (fun x => f x >>= g) = .ok zs := by
  induction xs generalizing zs with
  | nil =>
    constructor
    · rintro ⟨ys, hys, hzs⟩
      cases hys
      exact hzs
    · exact fun h => ⟨[], rfl, h⟩
  | cons x xs ih =>
    constructor
    · rintro ⟨ys, hys, hzs⟩
      rw [List.mapM_cons] at hys
      obtain ⟨y, hy, hys⟩ := bind_ok hys
      obtain ⟨ys', hys', h⟩ := bind_ok hys
      cases h
      rw [List.mapM_cons] at hzs
      obtain ⟨z, hz, hzs⟩ := bind_ok hzs
      obtain ⟨zs', hzs', h⟩ := bind_ok hzs
      cases h
      rw [List.mapM_cons, hy, ih.mp ⟨ys', hys', hzs'⟩]
      show (g y >>= fun z => _) = _
      rw [hz]
      rfl
    · intro h
      rw [List.mapM_cons] at h
      obtain ⟨z, hz, h⟩ := bind_ok h
      obtain ⟨zs', hzs', h⟩ := bind_ok h
      cases h
      obtain ⟨y, hy, hgy⟩ := bind_ok hz
      obtain ⟨ys, hys, hgys⟩ := ih.mpr hzs'
      refine ⟨y :: ys, ?_, ?_⟩
      · rw [List.mapM_cons, hy, hys]
        rfl
      · rw [List.mapM_cons, hgy, hgys]
        rfl

theorem mean_neg (xs : List ℝ) : mean (xs.map fun x => -x) = -mean xs := by
  have hsum : (xs.map fun x => -x).sum = -xs.sum := by
    induction xs with
    | nil => simp
    | cons x xs ih =>
      rw [List.map_cons, List.sum_cons, List.sum_cons, ih]
      ring
  rw [mean, mean, hsum, List.length_map, neg_div]

/-- A loss that is a mean over what is computed of each sample. -/
theorem meanOfSingles_of {β : Type} {loss : List σ → Except PyError ℝ}
    {score : σ → Except PyError β} {term : β → ℝ}
    (hloss : ∀ ss : List σ, ss ≠ [] → (∀ s ∈ ss, s ∈ samples) → ∀ l, loss ss = .ok l ↔
      ∃ bs, ss.mapM score = .ok bs ∧ l = mean (bs.map term)) (hne : samples ≠ []) :
    MeanOfSingles loss samples := by
  have hsingle : ∀ s ∈ samples, ∀ l, loss [s] = .ok l ↔ ∃ b, score s = .ok b ∧ l = term b := by
    intro s hs l
    rw [hloss [s] (List.cons_ne_nil s []) fun s' hs' => List.mem_singleton.mp hs' ▸ hs]
    constructor
    · rintro ⟨bs, hbs, rfl⟩
      rw [List.mapM_cons] at hbs
      obtain ⟨b, hb, hbs⟩ := bind_ok hbs
      cases hbs
      exact ⟨b, hb, by simp [mean]⟩
    · rintro ⟨b, hb, rfl⟩
      refine ⟨[b], ?_, by simp [mean]⟩
      rw [List.mapM_cons, hb]
      rfl
  intro l
  rw [hloss samples hne fun s hs => hs]
  constructor
  · rintro ⟨bs, hbs, rfl⟩
    have hall := forall₂_of_mapM hbs
    refine ⟨bs.map term, List.forall₂_map_right_iff.mpr ?_, rfl⟩
    refine List.forall₂_iff_get.mpr ⟨hall.length_eq, fun i hi hi' => ?_⟩
    exact (hsingle _ (List.get_mem _ _) _).mpr ⟨_, hall.get hi hi', rfl⟩
  · rintro ⟨ls, hls, rfl⟩
    obtain ⟨bs, hbs⟩ := exists_mapM_ok_iff.mpr fun s hs => by
      obtain ⟨i, hi, rfl⟩ := List.getElem_of_mem hs
      obtain ⟨b, hb, -⟩ := (hsingle _ hs _).mp (hls.get hi (hls.length_eq ▸ hi))
      exact ⟨b, hb⟩
    refine ⟨bs, hbs, congrArg mean ?_⟩
    have hall := forall₂_of_mapM hbs
    have hlength : ls.length = (bs.map term).length := by
      rw [List.length_map, ← hls.length_eq, hall.length_eq]
    refine List.ext_getElem hlength fun i hi hi' => ?_
    rw [List.length_map] at hi'
    have hs : i < samples.length := hls.length_eq ▸ hi
    obtain ⟨b, hb, hl⟩ := (hsingle _ (List.getElem_mem hs) _).mp (hls.get hs hi)
    obtain rfl := Except.ok.inj (hb.symm.trans (hall.get hs hi'))
    rw [List.getElem_map]
    exact hl

/-! ## The objectives -/

theorem loss_nllReport (forward : Forward V) (padId : ℤ) (rows : List TokenRow) :
    (nllReport forward padId rows).map SftReport.loss =
      (scoreRows forward padId rows).map fun lps => -mean lps := by
  unfold nllReport scoreRows sequenceLogprobMean
  cases padAndStack rows padId with
  | error e => rfl
  | ok batch =>
    simp only [bind, Except.bind]
    cases sequenceLogprob forward batch.inputIds batch.labels (some batch.attentionMask) with
    | error e => rfl
    | ok summed => rfl

theorem Tokenized.plain (h : Tokenized row samples) {ss : List σ} (hss : ∀ s ∈ ss, s ∈ samples)
    {rows : List TokenRow} (hrows : ss.mapM row = .ok rows) : ∀ r ∈ rows, Plain r := by
  intro r hr
  obtain ⟨s, hs, hrow⟩ := (mem_of_mapM hrows r).mp hr
  exact h s (hss s hs) r hrow

theorem scoreRows_samples (hforward : LeftToRight forward next) (htokens : Tokenized row samples)
    {ss : List σ} (hne : ss ≠ []) (hss : ∀ s ∈ ss, s ∈ samples) (padId : ℤ) {lps : List ℝ} :
    (∃ rows, ss.mapM row = .ok rows ∧ scoreRows forward padId rows = .ok lps) ↔
      ss.mapM (sampleMean next row) = .ok lps := by
  rw [show sampleMean next row = fun s => row s >>= rowMean next from rfl, ← exists_mapM_mapM_iff]
  refine exists_congr fun rows => and_congr_right fun hrows => ?_
  have hrowsne : rows ≠ [] := by
    rintro rfl
    exact hne (List.length_eq_zero_iff.mp (forall₂_of_mapM hrows).length_eq)
  rw [scoreRows_eq hforward padId hrowsne (htokens.plain hss hrows)]

theorem map_bind_eq_ok_iff {α β γ : Type} {x : Except PyError α} {f : α → Except PyError β}
    {g : β → γ} {c : γ} : (x >>= f).map g = .ok c ↔ ∃ a, x = .ok a ∧ (f a).map g = .ok c := by
  cases x with
  | error e => simp [bind, Except.bind, Except.map]
  | ok a => simp [bind, Except.bind]

/-- The losses that are a mean of negative log-probabilities. -/
theorem nll_singles {loss : List σ → Except PyError SftReport} {padId : ℤ}
    (hloss : ∀ ss : List σ, ss ≠ [] →
      loss ss = ss.mapM row >>= fun rows => nllReport forward padId rows)
    (hforward : LeftToRight forward next) (hne : samples ≠ []) (htokens : Tokenized row samples) :
    MeanOfSingles (fun ss => (loss ss).map SftReport.loss) samples := by
  have hscores : ∀ ss : List σ, ss ≠ [] → (∀ s ∈ ss, s ∈ samples) → ∀ l,
      (loss ss).map SftReport.loss = .ok l ↔ ∃ lps, ss.mapM (sampleMean next row) = .ok lps ∧
        l = mean (lps.map fun lp => -lp) := by
    intro ss hss hmem l
    rw [hloss ss hss, map_bind_eq_ok_iff]
    simp only [loss_nllReport, ← scoreRows_samples hforward htokens hss hmem padId]
    constructor
    · rintro ⟨rows, hrows, hl⟩
      cases hlps : scoreRows forward padId rows with
      | error e =>
        rw [hlps] at hl
        cases hl
      | ok lps =>
        rw [hlps] at hl
        cases hl
        exact ⟨lps, ⟨rows, hrows, hlps⟩, (mean_neg lps).symm⟩
    · rintro ⟨lps, ⟨rows, hrows, hlps⟩, rfl⟩
      refine ⟨rows, hrows, ?_⟩
      rw [hlps, mean_neg]
      rfl
  exact meanOfSingles_of hscores hne

theorem pair_eq_ok_iff {α β γ : Type} {f : α → Except PyError β} {g : α → Except PyError γ}
    {x : α} {z : β × γ} :
    (f x >>= fun y => (g x).map fun z => (y, z)) = .ok z ↔ f x = .ok z.1 ∧ g x = .ok z.2 := by
  obtain ⟨y, v⟩ := z
  cases hf : f x with
  | error e => exact iff_of_false (by rintro ⟨⟩) (by rintro ⟨⟨⟩, -⟩)
  | ok y' =>
    cases hg : g x with
    | error e => exact iff_of_false (by rintro ⟨⟩) (by rintro ⟨-, ⟨⟩⟩)
    | ok v' =>
      show Except.ok (y', v') = _ ↔ _
      simp only [Except.ok.injEq, Prod.mk.injEq]

/-- A pair of loops is a loop over pairs. -/
theorem mapM_pair_iff {α β γ : Type} {f : α → Except PyError β} {g : α → Except PyError γ}
    {xs : List α} {zs : List (β × γ)} :
    xs.mapM (fun x => f x >>= fun y => (g x).map fun z => (y, z)) = .ok zs ↔
      xs.mapM f = .ok (zs.map Prod.fst) ∧ xs.mapM g = .ok (zs.map Prod.snd) := by
  constructor
  · intro h
    have hall := forall₂_of_mapM h
    constructor
    · refine mapM_of_forall₂ (List.forall₂_map_right_iff.mpr (hall.imp fun x z hz => ?_))
      exact (pair_eq_ok_iff.mp hz).1
    · refine mapM_of_forall₂ (List.forall₂_map_right_iff.mpr (hall.imp fun x z hz => ?_))
      exact (pair_eq_ok_iff.mp hz).2
  · rintro ⟨hf, hg⟩
    have hallf := List.forall₂_map_right_iff.mp (forall₂_of_mapM hf)
    have hallg := List.forall₂_map_right_iff.mp (forall₂_of_mapM hg)
    refine mapM_of_forall₂ (List.forall₂_iff_get.mpr ⟨hallf.length_eq, fun i hi hi' => ?_⟩)
    exact pair_eq_ok_iff.mpr ⟨hallf.get hi hi', hallg.get hi hi'⟩

theorem mean_hinge (margin rejectionWeight : ℝ) (bs : List (ℝ × ℝ)) :
    -mean (bs.map Prod.fst) +
        rejectionWeight * mean (List.zipWith (hingeTerm margin) (bs.map Prod.fst) (bs.map Prod.snd)) =
      mean (bs.map fun b => -b.1 + rejectionWeight * hingeTerm margin b.1 b.2) := by
  have hzip : List.zipWith (hingeTerm margin) (bs.map Prod.fst) (bs.map Prod.snd) =
      bs.map fun b => hingeTerm margin b.1 b.2 := by
    rw [List.zipWith_map, List.zipWith_self]
  have hsum : (bs.map fun b => -b.1 + rejectionWeight * hingeTerm margin b.1 b.2).sum =
      -(bs.map Prod.fst).sum + rejectionWeight * (bs.map fun b => hingeTerm margin b.1 b.2).sum := by
    induction bs with
    | nil => simp
    | cons b bs ih =>
      simp only [List.map_cons, List.sum_cons]
      rw [ih (by rw [List.zipWith_map, List.zipWith_self])]
      ring
  rw [hzip, mean, mean, mean, hsum]
  simp only [List.length_map]
  ring

theorem scoreRows_eq_ok_iff {padId : ℤ} {rows : List TokenRow} {lps : List ℝ} :
    scoreRows forward padId rows = .ok lps ↔ ∃ batch, padAndStack rows padId = .ok batch ∧
      ∃ summed, sequenceLogprob forward batch.inputIds batch.labels (some batch.attentionMask) =
        .ok summed ∧ lps = perToken summed (tokenCounts batch.labels) := by
  constructor
  · intro h
    obtain ⟨batch, hbatch, h⟩ := bind_ok h
    obtain ⟨summed, hsummed, h⟩ := bind_ok h
    cases h
    exact ⟨batch, hbatch, summed, hsummed, rfl⟩
  · rintro ⟨batch, hbatch, summed, hsummed, rfl⟩
    simp only [scoreRows, sequenceLogprobMean, hbatch, hsummed, bind, Except.bind]
    rfl

theorem hinge_eq_ok_iff {ss : List HingeSample} (hss : ss ≠ []) {margin rejectionWeight l : ℝ} :
    (hingeContrastiveLoss forward tok ss margin rejectionWeight).map HingeReport.total = .ok l ↔
      ∃ cLp rLp,
        (∃ rows, ss.mapM (chosenRow tok) = .ok rows ∧ scoreRows forward tok.padId rows = .ok cLp) ∧
        (∃ rows, ss.mapM (rejectedRow tok) = .ok rows ∧
          scoreRows forward tok.padId rows = .ok rLp) ∧
        l = -mean cLp + rejectionWeight * mean (List.zipWith (hingeTerm margin) cLp rLp) := by
  have hempty : ss.isEmpty = false := by simpa using hss
  simp only [scoreRows_eq_ok_iff]
  constructor
  · intro h
    cases hrun : hingeContrastiveLoss forward tok ss margin rejectionWeight with
    | error e =>
      rw [hrun] at h
      cases h
    | ok report =>
      rw [hrun] at h
      simp only [hingeContrastiveLoss, hempty, Bool.false_eq_true, if_false] at hrun
      obtain ⟨-, -, hrun⟩ := bind_ok hrun
      obtain ⟨crows, hcrows, hrun⟩ := bind_ok hrun
      obtain ⟨rrows, hrrows, hrun⟩ := bind_ok hrun
      obtain ⟨cbat, hcbat, hrun⟩ := bind_ok hrun
      obtain ⟨rbat, hrbat, hrun⟩ := bind_ok hrun
      obtain ⟨csum, hcsum, hrun⟩ := bind_ok hrun
      obtain ⟨rsum, hrsum, hrun⟩ := bind_ok hrun
      cases hrun
      cases h
      exact ⟨_, _, ⟨crows, hcrows, cbat, hcbat, csum, hcsum, rfl⟩,
        ⟨rrows, hrrows, rbat, hrbat, rsum, hrsum, rfl⟩, rfl⟩
  · rintro ⟨cLp, rLp, ⟨crows, hcrows, cbat, hcbat, csum, hcsum, rfl⟩,
      ⟨rrows, hrrows, rbat, hrbat, rsum, hrsum, rfl⟩, rfl⟩
    simp only [hingeContrastiveLoss, hempty, Bool.false_eq_true, if_false, hcrows, hrrows, hcbat,
      hrbat, hcsum, hrsum, bind, Except.bind]
    rfl

theorem hinge_singles {samples : List HingeSample} (hforward : LeftToRight forward next)
    (hne : samples ≠ []) (hchosen : Tokenized (chosenRow tok) samples)
    (hrejected : Tokenized (rejectedRow tok) samples) (margin rejectionWeight : ℝ) :
    MeanOfSingles (fun ss =>
      (hingeContrastiveLoss forward tok ss margin rejectionWeight).map HingeReport.total)
      samples := by
  have hscores : ∀ ss : List HingeSample, ss ≠ [] → (∀ s ∈ ss, s ∈ samples) → ∀ l,
      (hingeContrastiveLoss forward tok ss margin rejectionWeight).map HingeReport.total = .ok l ↔
        ∃ bs, ss.mapM (fun s => sampleMean next (chosenRow tok) s >>= fun c =>
            (sampleMean next (rejectedRow tok) s).map fun r => (c, r)) = .ok bs ∧
          l = mean (bs.map fun b => -b.1 + rejectionWeight * hingeTerm margin b.1 b.2) := by
    intro ss hss hmem l
    simp only [hinge_eq_ok_iff hss, scoreRows_samples hforward hchosen hss hmem,
      scoreRows_samples hforward hrejected hss hmem, mapM_pair_iff]
    constructor
    · rintro ⟨cLp, rLp, hc, hr, rfl⟩
      have hlength : cLp.length = rLp.length :=
        (forall₂_of_mapM hc).length_eq.symm.trans (forall₂_of_mapM hr).length_eq
      have hfst : (cLp.zip rLp).map Prod.fst = cLp := List.map_fst_zip hlength.le
      have hsnd : (cLp.zip rLp).map Prod.snd = rLp := List.map_snd_zip hlength.ge
      refine ⟨cLp.zip rLp, ⟨by rw [hfst, hc], by rw [hsnd, hr]⟩, ?_⟩
      rw [← mean_hinge, hfst, hsnd]
    · rintro ⟨bs, ⟨hc, hr⟩, rfl⟩
      exact ⟨_, _, hc, hr, (mean_hinge margin rejectionWeight bs).symm⟩
  exact meanOfSingles_of hscores hne

theorem of_not_empty {α β : Type} {xs : List α} (hne : xs ≠ []) (e : PyError)
    (x : Except PyError β) : (do
      if xs.isEmpty then throw e
      x) = x := by
  have hempty : xs.isEmpty = false := by simpa using hne
  simp only [hempty, Bool.false_eq_true, if_false]

/-- **Batches and samples.** Where the model reads from left to right, what these objectives make of
a batch is the mean of what they make of its samples one by one, and they fail on a batch exactly if
they fail on one of its samples. -/
theorem batch_losses (hforward : LeftToRight forward next) (tok : ChatTokenizer) :
    (∀ samples : List ChatSample, samples ≠ [] →
      Tokenized (fun s => buildChatInputs tok s 2048) samples →
      MeanOfSingles (fun ss => (sftLoss forward tok ss).map SftReport.loss) samples) ∧
    (∀ (encode : Value → Except PyError (List ℤ)) (maxLen : ℤ) (samples : List Sample),
      samples ≠ [] → Tokenized (ntpRow encode maxLen) samples →
      MeanOfSingles (fun ss => (ntpLoss forward tok.padId encode ss maxLen).map SftReport.loss)
        samples) ∧
    (∀ samples : List CohSample, samples ≠ [] → Tokenized (cohRow tok) samples →
      MeanOfSingles (fun ss => (cohLoss forward tok ss).map SftReport.loss) samples) ∧
    ∀ (margin rejectionWeight : ℝ) (samples : List HingeSample), samples ≠ [] →
      Tokenized (chosenRow tok) samples → Tokenized (rejectedRow tok) samples →
      MeanOfSingles (fun ss =>
        (hingeContrastiveLoss forward tok ss margin rejectionWeight).map HingeReport.total)
        samples := by
  refine ⟨fun samples hne htokens => ?_, fun encode maxLen samples hne htokens => ?_,
    fun samples hne htokens => ?_, fun margin rejectionWeight samples hne hchosen hrejected => ?_⟩
  · exact nll_singles (fun ss hss => of_not_empty hss _ _) hforward hne htokens
  · exact nll_singles (fun ss hss => of_not_empty hss _ _) hforward hne htokens
  · exact nll_singles (fun ss hss => of_not_empty hss _ _) hforward hne htokens
  · exact hinge_singles hforward hne hchosen hrejected margin rejectionWeight

/-! ### Two samples of different lengths -/

/-- Three tokens, by the codes of the characters, without a template. -/
def abcTokenizer : ChatTokenizer where
  padTokenId := none
  eosTokenId := some 2
  chatTemplate := false
  isProcessor := false
  applyChatTemplate _ _ := .ok []
  encode text := .ok (text.toList.map fun c => ((c.toNat + 2) % 3 : ℕ))
  decode ids := String.ofList (ids.map fun id => Char.ofNat (id.toNat + 97))

def abcEncode : Value → Except PyError (List ℤ)
  | .str text => abcTokenizer.encode text
  | v => .error ⟨.typeError, "text input must be of type str, got " ++ v.typeName⟩

def abcSamples : List ChatSample := [⟨"a", "bc", none⟩, ⟨"ab", "cab", none⟩]

def abcTexts : List Sample := [[("text", .str "abc")], [("text", .str "ab")]]

def abcCritiques : List CohSample := [⟨"a", "b", "c", some "bc"⟩, ⟨"ab", "c", "a", none⟩]

def abcPairs : List HingeSample := [⟨"a", "bc", "cb"⟩, ⟨"ab", "cab", "b"⟩]

theorem tokenized_pair {σ : Type} {row : σ → Except PyError TokenRow} {s t : σ} {p q : TokenRow}
    (hs : row s = .ok p) (ht : row t = .ok q) (hp : Plain p) (hq : Plain q) :
    Tokenized row [s, t] := by
  intro u hu r hr
  simp only [List.mem_cons, List.not_mem_nil, or_false] at hu
  rcases hu with rfl | rfl
  · exact Except.ok.inj (hs.symm.trans hr) ▸ hp
  · exact Except.ok.inj (ht.symm.trans hr) ▸ hq

theorem batch_losses_abc :
    MeanOfSingles (fun ss => (sftLoss (reading again) abcTokenizer ss).map SftReport.loss)
      abcSamples ∧
    MeanOfSingles (fun ss =>
      (ntpLoss (reading again) abcTokenizer.padId abcEncode ss 2048).map SftReport.loss) abcTexts ∧
    MeanOfSingles (fun ss => (cohLoss (reading again) abcTokenizer ss).map SftReport.loss)
      abcCritiques ∧
    MeanOfSingles (fun ss =>
      (hingeContrastiveLoss (reading again) abcTokenizer ss 1 1).map HingeReport.total)
      abcPairs := by
  obtain ⟨hsft, hntp, hcoh, hhinge⟩ := batch_losses (leftToRight_reading again) abcTokenizer
  refine ⟨hsft abcSamples (List.cons_ne_nil _ _) ?_, hntp abcEncode 2048 abcTexts
    (List.cons_ne_nil _ _) ?_, hcoh abcCritiques (List.cons_ne_nil _ _) ?_,
    hhinge 1 1 abcPairs (List.cons_ne_nil _ _) ?_ ?_⟩
  · exact tokenized_pair rfl rfl ⟨by decide, rfl⟩ ⟨by decide, rfl⟩
  · exact tokenized_pair rfl rfl ⟨by decide, rfl⟩ ⟨by decide, rfl⟩
  · exact tokenized_pair rfl rfl ⟨by decide +kernel, rfl⟩ ⟨by decide +kernel, rfl⟩
  · exact tokenized_pair rfl rfl ⟨by decide, rfl⟩ ⟨by decide, rfl⟩
  · exact tokenized_pair rfl rfl ⟨by decide, rfl⟩ ⟨by decide, rfl⟩

end Trainfer
