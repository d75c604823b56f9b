import Trainfer.BatchLoss
import Trainfer.KlScopes
import Trainfer.PinnedEnds
import Trainfer.Lib.TopRanks

/-! The loss of `ccpd_v2_loss` behind its gate: REINFORCE with the rank advantages, the distillation
of the highest ranks, and the anchor on the prompt.

`ccpd_weights` reads the whole call as one sum: the log-probability of every candidate, as it is for
that candidate alone, times a weight that only its rank decides. -/

namespace Trainfer

open Ranks KlScopes ChunkedKl

variable {V : ℕ} {P : Type}

/-! ## The steps -/

/-- What a call uses of the model and of the frozen reference. -/
structure CcpdEngine (V : ℕ) (P : Type) where
  tok : ChatTokenizer
  forward : P → Forward V
  /-- `_sample_candidates`. -/
  sampleCandidates : P → String → Option String → ℕ → Int → Except PyError (List String)
  /-- `tokenizer(text=.., padding=True, truncation=True, max_length=512)`. -/
  tokenize : List String → Except PyError TextBatch
  text : P → TextBatch → Except PyError (LogitTensor V)
  /-- `model.disable_adapter()`, if there is such a method. -/
  adapterOff : Option (P → TextBatch → Except PyError (LogitTensor V))
  piRef : TextBatch → Except PyError (LogitTensor V)
  /-- What `torch.empty` finds in memory. -/
  empty : ℕ → ℝ

structure CcpdReport where
  loss : ℝ
  ccpdPolicy : ℝ
  ccpdDistill : ℝ
  ccpdKl : ℝ
  ccpdSpread : ℝ
  ccpdKCandidates : ℕ

def ccpdRow (e : CcpdEngine V P) (prompt y : String) : Except PyError TokenRow :=
  buildChatInputs e.tok ⟨prompt, y, none⟩ 2048

/-- `sequence_logprob_mean` of a padded batch of responses. -/
noncomputable def responseLogprobs (e : CcpdEngine V P) (p : P) (prompt : String)
    (ys : List String) : Except PyError (List ℝ) := do
  let toks ← ys.mapM (ccpdRow e prompt)
  scoreRows (e.forward p) e.tok.padId toks

/-- `advantages.argsort(descending=True)` -/
noncomputable def argsortDescending (A : Argsort) (advantages : List ℝ) : List ℕ :=
  List.ofFn fun i => (A.descending advantages.get i : ℕ)

noncomputable def ccpdReference (e : CcpdEngine V P) (p : P) (args : CcpdArgs ℝ) :
    Option (TextBatch → Except PyError (LogitTensor V)) :=
  if args.piRef then some e.piRef
  else if args.piRefMode = some "adapter_disabled" ∧ 0 < args.gamma then
    e.adapterOff.map fun off => off p
  else none

/-- Step 4c. -/
noncomputable def ccpdKl (e : CcpdEngine V P) (p : P) (prompt : String) (args : CcpdArgs ℝ) :
    Except PyError ℝ :=
  match ccpdReference e p args with
  | none => .ok 0
  | some ref => do
    let batch ← e.tokenize [prompt]
    let logits ← e.text p batch
    let refLogits ← ref batch
    let kl ← ChunkedKl.chunkedKlDiv e.empty refLogits logits 128
    return kl.entries.sum / logits.lead.headD V

/-- Steps 4a to 4c. -/
noncomputable def ccpdSteps (A : Argsort) (e : CcpdEngine V P) (p : P) (prompt : String)
    (candidates : List String) (advantages : List ℝ) (args : CcpdArgs ℝ) :
    Except PyError CcpdReport := do
  let lpStack ← responseLogprobs e p prompt candidates
  let policy := -mean (List.zipWith (· * ·) advantages lpStack)
  let topIdx := Slices.sliceTo (argsortDescending A advantages) args.distillTopM
  let distill := -mean (topIdx.map fun i => lpStack.getD i 0)
  let kl ← ccpdKl e p prompt args
  return {
    loss := policy + args.alpha * distill + args.gamma * kl
    ccpdPolicy := policy
    ccpdDistill := distill
    ccpdKl := kl
    ccpdSpread := maxOf advantages - minOf advantages
    ccpdKCandidates := candidates.length }

/-- The model of `ccpd_v2_loss`, with its loss. -/
noncomputable def ccpdModel (A : Argsort) (e : CcpdEngine V P) : CcpdModel ℝ P CcpdReport where
  sampleCandidates := e.sampleCandidates
  logprobMean p prompt y := do
    match ← responseLogprobs e p prompt [y] with
    | [lp] => return lp
    | _ => throw ⟨.runtimeError, "a tensor of other than one element is no scalar"⟩
  loss := ccpdSteps A e

/-! ## The batch -/

variable {A : Argsort} {e : CcpdEngine V P} {p : P} {next : List ℤ → Fin V → ℝ}
  {prompt : String}

/-- The rows of the responses have tokens. -/
def Spoken (e : CcpdEngine V P) (prompt : String) : Prop :=
  ∀ y row, ccpdRow e prompt y = .ok row → row.inputIds ≠ []

theorem Spoken.tokenized (h : Spoken e prompt) (ys : List String) :
    Tokenized (ccpdRow e prompt) ys := by
  intro y _ row hrow
  refine ⟨h y row hrow, ?_⟩
  obtain ⟨ids, -, hrow⟩ := bind_ok hrow
  cases hrow
  rfl

theorem responseLogprobs_iff (hforward : LeftToRight (e.forward p) next) (hspoken : Spoken e prompt)
    {ys : List String} (hne : ys ≠ []) {lps : List ℝ} : responseLogprobs e p prompt ys = .ok lps ↔
      ys.mapM (sampleMean next (ccpdRow e prompt)) = .ok lps := by
  rw [← scoreRows_samples hforward (hspoken.tokenized ys) hne (fun _ h => h) e.tok.padId]
  constructor
  · exact bind_ok
  · rintro ⟨rows, hrows, hscore⟩
    rw [responseLogprobs, hrows]
    exact hscore

/-- A response alone. -/
theorem logprobMean_iff (hforward : LeftToRight (e.forward p) next) (hspoken : Spoken e prompt)
    {y : String} {lp : ℝ} : (ccpdModel A e).logprobMean p prompt y = .ok lp ↔
      sampleMean next (ccpdRow e prompt) y = .ok lp := by
  have hone : ∀ lps, responseLogprobs e p prompt [y] = .ok lps ↔
      ∃ lp, sampleMean next (ccpdRow e prompt) y = .ok lp ∧ lps = [lp] := by
    intro lps
    rw [responseLogprobs_iff hforward hspoken (List.cons_ne_nil y []), List.mapM_cons, List.mapM_nil]
    cases sampleMean next (ccpdRow e prompt) y with
    | error err => simp [bind, Except.bind]
    | ok lp => simp [bind, Except.bind, pure, Except.pure, eq_comm]
  constructor
  · intro h
    obtain ⟨lps, hlps, h⟩ := bind_ok h
    obtain ⟨lp', hlp', rfl⟩ := (hone lps).mp hlps
    cases h
    exact hlp'
  · intro h
    have hlps := (hone [lp]).mpr ⟨lp, h, rfl⟩
    simp only [ccpdModel, hlps, bind, Except.bind]
    rfl

/-- The batched pass says of every candidate what a pass over it alone says. -/
theorem responseLogprobs_singles (hforward : LeftToRight (e.forward p) next)
    (hspoken : Spoken e prompt) {ys : List String} (hne : ys ≠ []) {lps : List ℝ}
    (h : responseLogprobs e p prompt ys = .ok lps) :
    ys.mapM ((ccpdModel A e).logprobMean p prompt) = .ok lps := by
  rw [responseLogprobs_iff hforward hspoken hne] at h
  refine mapM_of_forall₂ ((forall₂_of_mapM h).imp fun y lp hy => ?_)
  exact (logprobMean_iff hforward hspoken).mpr hy

/-! ## The weights -/

theorem argsortDescending_of_get {advantages : List ℝ} {n : ℕ} (hn : advantages.length = n)
    {f : Fin n → ℝ} (hf : ∀ i : Fin n, advantages.get (i.cast hn.symm) = f i) :
    argsortDescending A advantages = List.ofFn fun i => (A.descending f i : ℕ) := by
  subst hn
  have hget : advantages.get = f := funext hf
  rw [argsortDescending, hget]

theorem sliceTo_eq_take {α β : Type} (xs : List α) {ys : List β} (h : xs.length = ys.length)
    (m : ℤ) : Slices.sliceTo xs m = xs.take (Slices.sliceTo ys m).length := by
  unfold Slices.sliceTo
  split
  · rw [List.length_take, h, min_eq_left (by omega)]
  · rw [List.length_take, List.take_eq_take_iff, h]
    omega

variable {scores lps : List ℝ}

theorem sum_advantages (h : lps.length = scores.length) :
    (List.zipWith (· * ·) (rankAdvantages A scores) lps).sum =
      ∑ i : Fin scores.length, A.centered ℝ scores.get i * lps.getD i 0 := by
  rw [← List.sum_ofFn]
  congr 1
  refine List.ext_getElem (by simp [h]) fun i hi hi' => ?_
  rw [List.length_ofFn, ← h] at hi'
  rw [List.getElem_zipWith, List.getElem_ofFn, List.getD_eq_getElem _ _ hi']
  simp only [rankAdvantages, List.getElem_ofFn]

theorem argsortDescending_advantages : argsortDescending A (rankAdvantages A scores) =
    List.ofFn fun i => (A.descending (A.centered ℝ scores.get) i : ℕ) := by
  refine argsortDescending_of_get (length_rankAdvantages A scores) fun i => ?_
  simp only [rankAdvantages, List.get_eq_getElem, List.getElem_ofFn]
  rfl

/-- How many are distilled. -/
def topCount (scores : List ℝ) (m : ℤ) : ℕ := (Slices.sliceTo scores m).length

theorem topCount_le (m : ℤ) : topCount scores m ≤ scores.length := by
  rw [topCount, sliceTo_eq_take scores rfl, List.length_take]
  exact min_le_right _ _

theorem length_topIdx (m : ℤ) :
    (Slices.sliceTo (argsortDescending A (rankAdvantages A scores)) m).length =
      topCount scores m := by
  rw [argsortDescending_advantages, sliceTo_eq_take _ (List.length_ofFn), List.length_take,
    List.length_ofFn, ← topCount, min_eq_left (topCount_le m)]

/-- The distilled candidates are those of the highest ranks. -/
theorem sum_topIdx (m : ℤ) :
    ((Slices.sliceTo (argsortDescending A (rankAdvantages A scores)) m).map
      fun i => lps.getD i 0).sum = ∑ i : Fin scores.length,
        if scores.length ≤ topCount scores m + A.rank scores.get i then lps.getD i 0 else 0 := by
  have hsum := A.sum_take_descending (A.centered_injective ℝ (f := scores.get))
    (fun i => lps.getD i 0) (topCount scores m)
  rw [A.rank_centered] at hsum
  rw [← hsum, argsortDescending_advantages, sliceTo_eq_take _ (List.length_ofFn), ← topCount,
    List.map_take, List.map_ofFn]
  rfl

/-- What the log-probability of a candidate weighs in the loss. -/
noncomputable def candidateWeight (A : Argsort) (scores : List ℝ) (alpha : ℝ) (m : ℤ)
    (i : Fin scores.length) : ℝ :=
  Argsort.rankWeight ℝ alpha scores.length (topCount scores m) (A.rank scores.get i)

/-- REINFORCE and the distillation together. -/
theorem weighted_sum (h : lps.length = scores.length) (alpha : ℝ) (m : ℤ) :
    -mean (List.zipWith (· * ·) (rankAdvantages A scores) lps) +
      alpha * -mean ((Slices.sliceTo (argsortDescending A (rankAdvantages A scores)) m).map
        fun i => lps.getD i 0) =
      -∑ i : Fin scores.length, candidateWeight A scores alpha m i * lps.getD i 0 := by
  rw [mean, mean, sum_advantages h, sum_topIdx, List.length_map, length_topIdx, List.length_zipWith,
    length_rankAdvantages, h, min_self, Finset.sum_div, Finset.sum_div, mul_neg, Finset.mul_sum,
    ← neg_add, ← Finset.sum_add_distrib]
  congr 1
  refine Finset.sum_congr rfl fun i _ => ?_
  rw [candidateWeight, Argsort.rankWeight, Argsort.centered]
  split_ifs <;> ring

theorem topCount_eq {m : ℤ} (hm : 0 < m) : topCount scores m = min m.toNat scores.length := by
  rw [topCount, Slices.sliceTo, if_neg (by omega), List.length_take]

theorem candidateWeight_lt {alpha : ℝ} (halpha : 0 ≤ alpha) (m : ℤ) {i j : Fin scores.length}
    (h : A.rank scores.get i < A.rank scores.get j) :
    candidateWeight A scores alpha m i < candidateWeight A scores alpha m j :=
  Argsort.rankWeight_lt halpha i.pos h

theorem candidateWeight_first {alpha : ℝ} {m : ℤ} (hm : 0 < m) {i : Fin scores.length}
    (h : ∀ j ≠ i, scores.get j < scores.get i) : candidateWeight A scores alpha m i =
      (scores.length - 1) / 2 / scores.length + alpha / (min m.toNat scores.length : ℕ) := by
  have hpos := i.pos
  rw [candidateWeight, Argsort.rankWeight, A.rank_largest h, topCount_eq hm, if_pos (by omega),
    Argsort.orderStatistic, Nat.cast_sub hpos, Nat.cast_one]
  ring

theorem candidateWeight_last {alpha : ℝ} {m : ℤ} (hm : 0 < m) {i : Fin scores.length}
    (h : ∀ j ≠ i, scores.get i < scores.get j) : candidateWeight A scores alpha m i =
      -((scores.length - 1) / 2 / scores.length) +
        if scores.length ≤ m then alpha / scores.length else 0 := by
  rw [candidateWeight, Argsort.rankWeight, A.rank_smallest h, topCount_eq hm,
    Argsort.orderStatistic, Nat.cast_zero, zero_sub, neg_div]
  congr 1
  by_cases hall : (scores.length : ℤ) ≤ m
  · rw [if_pos hall, if_pos (by omega), min_eq_right (by omega)]
  · rw [if_neg hall, if_neg (by omega)]

/-! ## A call -/

theorem ccpdKl_nonneg (hV : 0 < V) {args : CcpdArgs ℝ} {kl : ℝ}
    (h : ccpdKl e p prompt args = .ok kl) : 0 ≤ kl := by
  unfold ccpdKl at h
  split at h
  · cases h
    exact le_refl _
  · obtain ⟨batch, -, h⟩ := bind_ok h
    obtain ⟨logits, -, h⟩ := bind_ok h
    obtain ⟨refLogits, -, h⟩ := bind_ok h
    obtain ⟨out, hout, h⟩ := bind_ok h
    cases h
    refine div_nonneg (List.sum_nonneg fun x hx => ?_) (Nat.cast_nonneg _)
    rw [(entries_of_ok hV hout).2] at hx
    obtain ⟨i, u, v, -, -, rfl⟩ := mem_zipWith_iff.mp hx
    exact klPosition_nonneg hV u v

variable {τ L : Type} {s : CcpdSample} {args : CcpdArgs ℝ} {r : Result L τ} {report : L}
  {k : CcpdModel ℝ P L}

/-- A call with a loss, step by step. -/
theorem ccpdV2Loss_trained (h : ccpdV2Loss A k p [s] args = .ok r) (hr : r.loss = some report) :
    ∃ candidates scores, assemble k p args s = .ok candidates ∧ 2 ≤ candidates.length ∧
      scoreCandidates k p args s candidates = .ok scores ∧
      k.loss p s.prompt candidates (rankAdvantages A scores) args = .ok report := by
  obtain ⟨candidates, hcandidates, h⟩ := bind_ok h
  by_cases htwo : candidates.length < 2
  · simp only [htwo, if_true] at h
    cases h
  simp only [htwo, if_false] at h
  obtain ⟨scores, hscores, h⟩ := bind_ok h
  split_ifs at h
  · cases h
    cases hr
  · obtain ⟨loss, hloss, h⟩ := bind_ok h
    cases h
    obtain rfl := Option.some.inj hr
    exact ⟨candidates, scores, hcandidates, not_lt.mp htwo, hscores, hloss⟩

/-- Without a critique the preferred response has the highest score, and the bad one the lowest. -/
theorem exists_ends {candidates : List String} {y z : String}
    (hcandidates : assemble k p args s = .ok candidates)
    (hscores : scoreCandidates k p args s candidates = .ok scores)
    (hcritique : given s.critique = none) (hy : given s.preferred = some y)
    (hz : given s.bad = some z) (hyz : y ≠ z) :
    ∃ i j : Fin scores.length, candidates[(i : ℕ)]? = some y ∧ candidates[(j : ℕ)]? = some z ∧
      (∀ l ≠ i, scores.get l < scores.get i) ∧ ∀ l ≠ j, scores.get j < scores.get l := by
  have hlength := length_scoreCandidates hscores
  have hymem := mem_assemble hcandidates (.inl hy)
  have hzmem := mem_assemble hcandidates (.inr hz)
  have hiy := List.idxOf_lt_length_iff.mpr hymem
  have hiz := List.idxOf_lt_length_iff.mpr hzmem
  rw [scoreCandidates, hcritique] at hscores
  obtain ⟨plain, hplain, hpin⟩ := bind_ok hscores
  obtain rfl := Except.ok.inj hpin
  have hget : ∀ l : Fin (pinEnds s candidates plain).length,
      (pinEnds s candidates plain).get l = (pinEnds s candidates plain).getD l 0 := by
    intro l
    rw [List.getD_eq_getElem _ _ l.isLt, List.get_eq_getElem]
  have hstrict := fun l : Fin (pinEnds s candidates plain).length =>
    pinEnds_strict hy hz hyz hymem hzmem (forall₂_of_mapM hplain).length_eq.symm
      (l.isLt.trans_le hlength.le)
  refine ⟨⟨candidates.idxOf y, by rwa [hlength]⟩, ⟨candidates.idxOf z, by rwa [hlength]⟩,
    List.getElem?_idxOf hymem, List.getElem?_idxOf hzmem, fun l hl => ?_, fun l hl => ?_⟩
  · rw [hget, hget]
    exact (hstrict l).1 fun h => hl (Fin.ext h)
  · rw [hget, hget]
    exact (hstrict l).2 fun h => hl (Fin.ext h)

/-- **The weights of a feedback event.** The loss is the divergence at the prompt less the
log-probabilities of the candidates, each as it is for that candidate alone, times weights that add
up to `alpha` and rise with the score. Without a critique the preferred response has the largest
weight, and the bad one a negative weight unless everything is distilled, whatever the model
says of either. -/
theorem ccpd_weights (A : Argsort) (hV : 0 < V) (hforward : LeftToRight (e.forward p) next)
    (hspoken : Spoken e s.prompt) (hm : 0 < args.distillTopM) (halpha : 0 ≤ args.alpha)
    {r : Result CcpdReport τ} {report : CcpdReport}
    (h : ccpdV2Loss A (ccpdModel A e) p [s] args = .ok r) (hr : r.loss = some report) :
    ∃ candidates scores lps kl, assemble (ccpdModel A e) p args s = .ok candidates ∧
      scoreCandidates (ccpdModel A e) p args s candidates = .ok scores ∧
      candidates.mapM ((ccpdModel A e).logprobMean p s.prompt) = .ok lps ∧
      ccpdKl e p s.prompt args = .ok kl ∧ 0 ≤ kl ∧
      (let weight := candidateWeight A scores args.alpha args.distillTopM
      report.loss = args.gamma * kl - ∑ i, weight i * lps.getD i 0 ∧ ∑ i, weight i = args.alpha ∧
      (∀ i j, scores.get i < scores.get j → weight i < weight j) ∧
      ∀ y z, given s.critique = none → given s.preferred = some y → given s.bad = some z → y ≠ z →
        ∃ i j : Fin scores.length, candidates[(i : ℕ)]? = some y ∧ candidates[(j : ℕ)]? = some z ∧
          weight i = (scores.length - 1) / 2 / scores.length +
            args.alpha / (min args.distillTopM.toNat scores.length : ℕ) ∧
          weight j = -((scores.length - 1) / 2 / scores.length) +
            if scores.length ≤ args.distillTopM then args.alpha / scores.length else 0) := by
  obtain ⟨candidates, scores, hcandidates, htwo, hscores, hloss⟩ := ccpdV2Loss_trained h hr
  obtain ⟨lps, hlps, hloss⟩ := bind_ok hloss
  obtain ⟨kl, hkl, hloss⟩ := bind_ok hloss
  cases hloss
  have hlength := length_scoreCandidates hscores
  have hne : candidates ≠ [] := List.ne_nil_of_length_pos (by omega)
  have hsingles := responseLogprobs_singles (A := A) hforward hspoken hne hlps
  have hlpsLength : lps.length = scores.length := by
    rw [hlength, (forall₂_of_mapM hsingles).length_eq]
  refine ⟨candidates, scores, lps, kl, hcandidates, hscores, hsingles, hkl, ccpdKl_nonneg hV hkl, ?_,
    ?_, ?_, ?_⟩
  · rw [weighted_sum hlpsLength]
    ring
  · exact Argsort.sum_rankWeight (by rw [topCount_eq hm]; omega) (topCount_le _) (A.rank scores.get)
  · exact fun i j hij => candidateWeight_lt halpha _ (A.rank_lt_of_lt hij)
  · intro y z hcritique hy hz hyz
    obtain ⟨i, j, hi, hj, hfirst, hlast⟩ := exists_ends hcandidates hscores hcritique hy hz hyz
    exact ⟨i, j, hi, hj, candidateWeight_first hm hfirst, candidateWeight_last hm hlast⟩

/-! ### A rewrite and a bad response, without rollouts -/

noncomputable def abcEngine : CcpdEngine 3 Unit where
  tok := abcTokenizer
  forward _ := reading again
  sampleCandidates _ _ _ n _ := .ok (List.replicate n "c")
  tokenize _ := .ok ⟨[[0]], some [[1]]⟩
  text _ _ := .ok ⟨[1, 1], [0], rfl⟩
  adapterOff := none
  piRef _ := .ok ⟨[1, 1], [0], rfl⟩
  empty _ := 1

def endsSample : CcpdSample where
  prompt := "a"
  preferred := some "ab"
  bad := some "c"

noncomputable def endsArgs : CcpdArgs ℝ where
  beta := 1
  alpha := 1
  gamma := 1
  tau := 1
  kAux := 0

theorem spoken_abcEngine : Spoken abcEngine endsSample.prompt := by
  intro y row hrow
  obtain ⟨ids, hids, hrow⟩ := bind_ok hrow
  cases hids
  cases hrow
  simp [Slices.sliceTo, endsSample]

theorem exists_endsScore {y : String} (hy : y = "ab" ∨ y = "c") :
    ∃ lp, sampleMean again (ccpdRow abcEngine endsSample.prompt) y = .ok lp := by
  rcases hy with rfl | rfl
  · exact ⟨_, rfl⟩
  · exact ⟨_, rfl⟩

theorem ccpd_weights_ends : ∃ (r : Result CcpdReport Unit) (report : CcpdReport)
    (scores lps : List ℝ) (kl : ℝ),
    ccpdV2Loss stableArgsort (ccpdModel stableArgsort abcEngine) () [endsSample] endsArgs = .ok r ∧
      r.loss = some report ∧ report.loss = endsArgs.gamma * kl -
        ∑ i, candidateWeight stableArgsort scores endsArgs.alpha 2 i * lps.getD i 0 := by
  have hforward : LeftToRight (abcEngine.forward ()) again := leftToRight_reading again
  obtain ⟨first, hfirst⟩ := exists_endsScore (.inl rfl)
  obtain ⟨last, hlast⟩ := exists_endsScore (.inr rfl)
  have hlogprob : ["ab", "c"].mapM
      ((ccpdModel stableArgsort abcEngine).logprobMean () endsSample.prompt) = .ok [first, last] :=
    mapM_of_forall₂ (.cons ((logprobMean_iff hforward spoken_abcEngine).mpr hfirst)
      (.cons ((logprobMean_iff hforward spoken_abcEngine).mpr hlast) .nil))
  have hscores : scoreCandidates (ccpdModel stableArgsort abcEngine) () endsArgs endsSample
      ["ab", "c"] = .ok (pinEnds endsSample ["ab", "c"] [first, last]) := by
    rw [scoreCandidates, show given endsSample.critique = none from rfl]
    simp only [hlogprob]
    rfl
  have hlps : responseLogprobs abcEngine () endsSample.prompt ["ab", "c"] = .ok [first, last] :=
    (responseLogprobs_iff hforward spoken_abcEngine (by decide)).mpr
      (mapM_of_forall₂ (.cons hfirst (.cons hlast .nil)))
  have hok : ∃ report, (ccpdV2Loss stableArgsort (ccpdModel stableArgsort abcEngine) ()
      [endsSample] endsArgs : Except PyError (Result CcpdReport Unit)) = .ok ⟨some report, []⟩ := by
    have hassemble : assemble (ccpdModel stableArgsort abcEngine) () endsArgs endsSample =
        .ok ["ab", "c"] := rfl
    have htau : ¬ ((["ab", "c"].length : ℕ) : ℝ) - 1 < endsArgs.tau := by
      rw [not_lt, endsArgs]
      norm_num
    have href : ccpdReference abcEngine () endsArgs = none := by
      simp [ccpdReference, endsArgs, abcEngine]
    rw [ccpdV2Loss_eq stableArgsort hassemble (by decide) hscores, if_neg htau]
    simp only [ccpdModel, ccpdSteps, hlps, ccpdKl, href, bind, Except.bind]
    exact ⟨_, rfl⟩
  have halpha : 0 ≤ endsArgs.alpha := by
    rw [endsArgs]
    norm_num
  obtain ⟨report, hok⟩ := hok
  obtain ⟨candidates, scores, lps, kl, -, -, -, -, -, hloss, -⟩ :=
    ccpd_weights stableArgsort three_pos hforward spoken_abcEngine two_pos halpha hok rfl
  exact ⟨_, report, scores, lps, kl, hok, rfl, hloss⟩

end Trainfer
