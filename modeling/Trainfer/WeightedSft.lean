import Trainfer.TrainBatch
import Trainfer.Feedback
import Trainfer.Objective
import Mathlib.Algebra.Module.Rat
import Mathlib.Algebra.Order.Field.Rat
import Mathlib.Algebra.BigOperators.Group.List.Basic
import Mathlib.Tactic.FieldSimp

/-! The weight of a sample, from the feedback record to its coefficient in the loss.

`submit_train` cuts the samples into chunks and `weighted_sft_loss` divides by the weight of
the chunk. `weights_scale_iff` says for which specs the coefficients stay in the proportion of
the weights, and that the weight of an event that is trained alone has no effect. -/

namespace Trainfer

variable {P L τ : Type}

/-- What `weighted_sft_loss` asks of the model: the mean loss of each sample of a batch, the
batch tensors, and the numbers that strings spell. -/
structure SftModel (P L τ : Type) where
  parseFloat : String → Option ℚ
  perSampleNll : P → List Sample → Except PyError (List L)
  length_nll : ∀ {p samples nll}, perSampleNll p samples = .ok nll → nll.length = samples.length
  tensors : List Sample → List (String × τ)

/-- `float(s.get("weight", 1.0))`. -/
def sampleWeight (parse : String → Option ℚ) (s : Sample) : Except PyError ℚ :=
  floatOf (τ := Unit) parse (.json ((s.lookup "weight").getD (.num 1)))

/-- The bound of `clamp_min`. -/
def minWeight : ℚ := 1 / 1000000

/-- `weighted_sft_loss`. -/
def weightedSftLoss [AddCommGroup L] [Module ℚ L] (k : SftModel P L τ) (p : P) :
    Option (List Sample) → Except PyError (Result L τ)
  | none | some [] => .error ⟨.valueError, "weighted_sft_loss requires at least one sample"⟩
  | some (s :: ss) => do
    let nll ← k.perSampleNll p (s :: ss)
    let weights ← (s :: ss).mapM (sampleWeight k.parseFloat)
    let total := (List.zipWith (· • ·) weights nll).sum
    return ⟨some ((max weights.sum minWeight)⁻¹ • total), k.tensors (s :: ss)⟩

/-! ## Coefficients -/

section
variable (parse : String → Option ℚ)

/-- The weight of a sample that has one. -/
def weightOf (s : Sample) : ℚ := (sampleWeight parse s).toOption.getD 0

/-- What the losses of a chunk are divided by. -/
def chunkWeight (samples : List Sample) : ℚ := max (samples.map (weightOf parse)).sum minWeight

/-- The coefficient of a sample in the loss of its chunk. -/
def coefficient (samples : List Sample) (s : Sample) : ℚ :=
  weightOf parse s / chunkWeight parse samples

/-- Every sample has a weight, and it is positive. -/
def Weighted (samples : List Sample) : Prop :=
  ∀ s ∈ samples, ∃ w, sampleWeight parse s = .ok w ∧ 0 < w

end

variable {parse : String → Option ℚ}

theorem Weighted.weightOf_pos {samples : List Sample} (h : Weighted parse samples) {s : Sample}
    (hs : s ∈ samples) : 0 < weightOf parse s := by
  obtain ⟨w, hw, hpos⟩ := h s hs
  simpa [weightOf, hw, Except.toOption] using hpos

theorem chunkWeight_pos (parse : String → Option ℚ) (samples : List Sample) :
    0 < chunkWeight parse samples :=
  lt_max_of_lt_right (by norm_num [minWeight])

theorem Weighted.mapM_eq {samples : List Sample} (h : Weighted parse samples) :
    samples.mapM (sampleWeight parse) = .ok (samples.map (weightOf parse)) := by
  refine mapM_map_ok fun s hs => ?_
  obtain ⟨w, hw, -⟩ := h s hs
  have hweight : weightOf parse s = w := by simp [weightOf, hw, Except.toOption]
  rw [hw, hweight]

section
variable [AddCommGroup L] [Module ℚ L] {k : SftModel P L τ}

theorem smul_zipWith_sum (c : ℚ) (f : Sample → ℚ) (samples : List Sample) (nll : List L) :
    c⁻¹ • (List.zipWith (· • ·) (samples.map f) nll).sum =
      (List.zipWith (fun s l => (f s / c) • l) samples nll).sum := by
  induction samples generalizing nll with
  | nil => simp
  | cons s ss ih =>
    cases nll with
    | nil => simp
    | cons l ls =>
      simp only [List.map_cons, List.zipWith_cons_cons, List.sum_cons]
      rw [smul_add, smul_smul, ih ls, inv_mul_eq_div]

/-- The loss is the sum of the samples' losses, each with its coefficient. -/
theorem weightedSftLoss_eq {p : P} {samples : List Sample} (hne : samples ≠ [])
    (h : Weighted k.parseFloat samples) {nll : List L} (hnll : k.perSampleNll p samples = .ok nll) :
    weightedSftLoss k p (some samples) = .ok
      ⟨some (List.zipWith (fun s l => coefficient k.parseFloat samples s • l) samples nll).sum,
        k.tensors samples⟩ := by
  cases samples with
  | nil => exact absurd rfl hne
  | cons s ss =>
    have hsum := smul_zipWith_sum (chunkWeight k.parseFloat (s :: ss)) (weightOf k.parseFloat)
      (s :: ss) nll
    unfold coefficient
    rw [weightedSftLoss, hnll, h.mapM_eq, ← hsum]
    rfl

end

/-- Two coefficients are as the weights exactly if the chunks weigh the same. -/
theorem coefficient_ratio_iff {samples samples' : List Sample} {s s' : Sample}
    (h : 0 < weightOf parse s) (h' : 0 < weightOf parse s') :
    coefficient parse samples s / coefficient parse samples' s' =
        weightOf parse s / weightOf parse s' ↔
      chunkWeight parse samples = chunkWeight parse samples' := by
  have hc := (chunkWeight_pos parse samples).ne'
  have hc' := (chunkWeight_pos parse samples').ne'
  unfold coefficient
  rw [div_div_div_comm, div_eq_iff (div_ne_zero hc hc'), left_eq_mul₀ (div_ne_zero h.ne' h'.ne'),
    div_eq_one_iff_eq hc']

/-! ## Chunks of one spec -/

namespace Controller

open ComputeQueue (QueueTask)

variable {ρ : Type}

/-- The coefficients of any two samples of the tasks are in the proportion of the weights. -/
def Scales (parse : String → Option ℚ) (tasks : List (QueueTask Payload)) : Prop :=
  ∀ t ∈ tasks, ∀ t' ∈ tasks, ∀ s ∈ t.payload.sampleList, ∀ s' ∈ t'.payload.sampleList,
    coefficient parse t.payload.sampleList s / coefficient parse t'.payload.sampleList s' =
      weightOf parse s / weightOf parse s'

/-- The chunks that the samples of the spec are cut into. -/
def chunks (spec : TrainSpec) : List (List Sample) :=
  let c := ((spec.chunkSize.getD 2).getD 2).toNat
  (Slices.starts (max 1 spec.sampleList.length) c).map (Slices.slice spec.sampleList c)

/-- All chunks of the spec weigh the same. -/
def Even (parse : String → Option ℚ) (spec : TrainSpec) : Prop :=
  ∀ samples ∈ chunks spec, ∀ samples' ∈ chunks spec,
    chunkWeight parse samples = chunkWeight parse samples'

instance (parse : String → Option ℚ) (spec : TrainSpec) : Decidable (Even parse spec) :=
  inferInstanceAs (Decidable (∀ samples ∈ _, ∀ samples' ∈ _, _))

theorem hasObjs_of_objective {m m' : Controller ρ} {spec : TrainSpec} {batchId : String}
    {now : Nat → Nat} {r : SubmitResult} (h : m.submitTrain spec batchId now = (.ok r, m'))
    {name : String} (hobj : spec.objective = .val name) (hname : name ≠ "") :
    spec.hasObjs = false := by
  cases hobjs : spec.hasObjs with
  | false => rfl
  | true =>
    have hhas : spec.hasObj = true := by simpa [TrainSpec.hasObj, hobj, Field.get?] using hname
    have hadm : m.admission spec ≠ .ok () := by
      intro hok
      obtain ⟨_, -, hok⟩ := bind_ok hok
      obtain ⟨_, hshape, -⟩ := bind_ok hok
      simp [TrainSpec.checkShape, hhas, hobjs] at hshape
    unfold submitTrain at h
    split at h
    · cases h
    · rename_i hok
      exact absurd hok hadm

/-- The tasks of an accepted spec hold its chunks. -/
theorem sampleLists_newTasks {m m' : Controller ρ} {spec : TrainSpec} {batchId : String}
    {now : Nat → Nat} {r : SubmitResult} (hobjs : spec.hasObjs = false)
    (h : m.submitTrain spec batchId now = (.ok r, m')) :
    (newTasks m m').map (fun t => t.payload.sampleList) = chunks spec := by
  obtain ⟨c, is, ts, t, hstarts, hc, hsize, rfl, hloop, -⟩ := submitTrain_single_ok hobjs h
  have henq := submitChunks_ok (length_chunkStarts_le hstarts) hloop
  rw [newTasks_eq ts henq.items, henq.samples]
  simp [chunks, hsize]

theorem mem_chunks {m m' : Controller ρ} {spec : TrainSpec} {batchId : String} {now : Nat → Nat}
    {r : SubmitResult} (hobjs : spec.hasObjs = false)
    (h : m.submitTrain spec batchId now = (.ok r, m')) {t : QueueTask Payload}
    (ht : t ∈ newTasks m m') : t.payload.sampleList ∈ chunks spec := by
  rw [← sampleLists_newTasks hobjs h]
  exact List.mem_map_of_mem ht

theorem mem_of_mem_chunks {spec : TrainSpec} {samples : List Sample} (h : samples ∈ chunks spec)
    {s : Sample} (hs : s ∈ samples) : s ∈ spec.sampleList := by
  obtain ⟨i, -, rfl⟩ := List.mem_map.mp h
  exact List.mem_of_mem_drop (List.mem_of_mem_take hs)

theorem eq_nil_of_mem_chunks {spec : TrainSpec} {samples : List Sample}
    (hnil : spec.sampleList = []) (h : samples ∈ chunks spec) : samples = [] := by
  obtain ⟨i, -, rfl⟩ := List.mem_map.mp h
  simp [Slices.slice, hnil]

/-- A chunk has a sample, unless there are none. -/
theorem ne_nil_of_mem_chunks {spec : TrainSpec} {c : Nat} (hc : 0 < c)
    (hsize : spec.chunkSize.getD 2 = some (c : Int)) {samples : List Sample}
    (hne : spec.sampleList ≠ []) (h : samples ∈ chunks spec) : samples ≠ [] := by
  have hchunks : chunks spec = (Slices.starts (max 1 spec.sampleList.length) c).map
      (Slices.slice spec.sampleList c) := by simp [chunks, hsize]
  rw [hchunks] at h
  obtain ⟨i, hi, rfl⟩ := List.mem_map.mp h
  have hpos := List.length_pos_of_ne_nil hne
  have hmax : max 1 spec.sampleList.length = spec.sampleList.length := by omega
  rw [hmax] at hi
  exact Slices.slice_ne_nil hc (Slices.lt_of_mem_starts hc hi)

theorem scales_iff {m m' : Controller ρ} {spec : TrainSpec} {batchId : String}
    {now : Nat → Nat} {r : SubmitResult} (hobjs : spec.hasObjs = false)
    (h : m.submitTrain spec batchId now = (.ok r, m'))
    (hweights : Weighted parse spec.sampleList) :
    Scales parse (newTasks m m') ↔ Even parse spec := by
  have hlists := sampleLists_newTasks hobjs h
  obtain ⟨c, is, ts, t, -, hc, hsize, -⟩ := submitTrain_single_ok hobjs h
  constructor
  · intro hscales samples hmem samples' hmem'
    by_cases hnil : spec.sampleList = []
    · rw [eq_nil_of_mem_chunks hnil hmem, eq_nil_of_mem_chunks hnil hmem']
    · obtain ⟨s, hs⟩ := List.exists_mem_of_ne_nil _ (ne_nil_of_mem_chunks hc hsize hnil hmem)
      obtain ⟨s', hs'⟩ := List.exists_mem_of_ne_nil _ (ne_nil_of_mem_chunks hc hsize hnil hmem')
      have hpos := hweights.weightOf_pos (mem_of_mem_chunks hmem hs)
      have hpos' := hweights.weightOf_pos (mem_of_mem_chunks hmem' hs')
      rw [← hlists] at hmem hmem'
      obtain ⟨t, ht, rfl⟩ := List.mem_map.mp hmem
      obtain ⟨t', ht', rfl⟩ := List.mem_map.mp hmem'
      exact (coefficient_ratio_iff hpos hpos').mp (hscales t ht t' ht' s hs s' hs')
  · intro heven t ht t' ht' s hs s' hs'
    have hmem := mem_chunks hobjs h ht
    have hmem' := mem_chunks hobjs h ht'
    exact (coefficient_ratio_iff (hweights.weightOf_pos (mem_of_mem_chunks hmem hs))
      (hweights.weightOf_pos (mem_of_mem_chunks hmem' hs'))).mpr (heven _ hmem _ hmem')

/-! ## Events that are trained alone -/

/-- The event with the weight `w`. -/
def withWeight (record : JsonObject) (w : ℚ) : JsonObject := ("weight", .num w) :: record

theorem sampleList_of_rewrite (parse : String → Option ℚ) {record : JsonObject} {w : ℚ}
    {prompt response : Value} {spec : TrainSpec}
    (h : feedbackToBatch (withWeight record w) prompt response = some spec)
    (hobj : spec.objective = .val "weighted_sft") :
    ∃ s, spec.sampleList = [s] ∧ sampleWeight parse s = .ok w := by
  have hkto : "kto" ≠ "weighted_sft" := by decide
  have hcoh : "coh" ≠ "weighted_sft" := by decide
  unfold feedbackToBatch at h
  simp only at h
  split at h
  · cases h
  · unfold routeKind at h
    simp only at h
    split at h
    · obtain rfl := Option.some.inj h
      exact absurd (Field.val.inj hobj) hkto
    · split at h
      · split at h
        · cases h
        · obtain rfl := Option.some.inj h
          exact ⟨_, rfl, rfl⟩
      · split at h
        · split at h
          · cases h
          · obtain rfl := Option.some.inj h
            exact absurd (Field.val.inj hobj) hcoh
        · split at h
          · split at h
            · cases h
            · obtain rfl := Option.some.inj h
              exact absurd (Field.val.inj hobj) hcoh
          · cases h

/-- The task of an event that is trained alone holds its one sample. -/
theorem sampleList_of_mem_chunks {spec : TrainSpec} {s : Sample} (hspec : spec.sampleList = [s])
    {samples : List Sample} (h : samples ∈ chunks spec) {x : Sample} (hx : x ∈ samples) :
    samples = [s] ∧ x = s := by
  obtain ⟨i, -, rfl⟩ := List.mem_map.mp h
  rw [hspec] at hx ⊢
  have hsub : (Slices.slice [s] ((spec.chunkSize.getD 2).getD 2).toNat i).Sublist [s] :=
    (List.take_sublist _ _).trans (List.drop_sublist _ _)
  refine ⟨?_, List.mem_singleton.mp (hsub.subset hx)⟩
  rcases List.sublist_singleton.mp hsub with hnil | hone
  · rw [hnil] at hx
    cases hx
  · exact hone

theorem coefficient_alone {s : Sample} {w : ℚ} (h : sampleWeight parse s = .ok w) :
    coefficient parse [s] s = w / max w minWeight := by
  simp [coefficient, chunkWeight, weightOf, h, Except.toOption]

/-- A weight that is divided by itself pulls with its own strength only if that is 1. -/
theorem alone_iff {w : ℚ} (hw : 0 < w) :
    w / max w minWeight = w * (1 / max 1 minWeight) ↔ w = 1 := by
  have hone : max (1 : ℚ) minWeight = 1 := max_eq_left (by norm_num [minWeight])
  have hpos : max w minWeight ≠ 0 := (lt_max_of_lt_left hw).ne'
  rw [hone, div_one, mul_one, div_eq_iff hpos, left_eq_mul₀ hw.ne']
  constructor
  · intro h
    rcases max_choice w minWeight with hm | hm
    · rw [← hm, h]
    · rw [hm] at h
      exact absurd h (by norm_num [minWeight])
  · rintro rfl
    exact hone

variable [AddCommGroup L] [Module ℚ L]

/-- **Weights.** The loss of every task is the sum of its samples' losses with their
coefficients. The coefficients of a spec are in the proportion of the weights exactly if its
chunks weigh the same, and a rewrite that is trained alone pulls with its weight exactly if
that is 1. -/
theorem weights_scale_iff (k : SftModel P L τ) :
    (∀ {m m' : Controller ρ} {spec : TrainSpec} {batchId : String} {now : Nat → Nat}
      {r : SubmitResult}, m.submitTrain spec batchId now = (.ok r, m') →
        spec.objective = .val "weighted_sft" → Weighted k.parseFloat spec.sampleList →
      (∀ t ∈ newTasks m m', ∀ p nll, t.payload.sampleList ≠ [] →
        k.perSampleNll p t.payload.sampleList = .ok nll →
        weightedSftLoss k p (some t.payload.sampleList) = .ok
          ⟨some (List.zipWith (fun s l => coefficient k.parseFloat t.payload.sampleList s • l)
            t.payload.sampleList nll).sum, k.tensors t.payload.sampleList⟩) ∧
      (Scales k.parseFloat (newTasks m m') ↔ Even k.parseFloat spec)) ∧
    ∀ {record : JsonObject} {prompt response : Value} {w : ℚ} {spec spec₁ : TrainSpec}
      {m m' m₁ m₁' : Controller ρ} {batchId batchId₁ : String} {now now₁ : Nat → Nat}
      {r r₁ : SubmitResult}, 0 < w →
        feedbackToBatch (withWeight record w) prompt response = some spec →
        feedbackToBatch (withWeight record 1) prompt response = some spec₁ →
        spec.objective = .val "weighted_sft" → spec₁.objective = .val "weighted_sft" →
        m.submitTrain spec batchId now = (.ok r, m') →
        m₁.submitTrain spec₁ batchId₁ now₁ = (.ok r₁, m₁') →
      ∀ t ∈ newTasks m m', ∀ t₁ ∈ newTasks m₁ m₁', ∀ s ∈ t.payload.sampleList,
        ∀ s₁ ∈ t₁.payload.sampleList, (coefficient k.parseFloat t.payload.sampleList s =
          w * coefficient k.parseFloat t₁.payload.sampleList s₁ ↔ w = 1) := by
  have hname : "weighted_sft" ≠ "" := by decide
  constructor
  · intro m m' spec batchId now r h hobj hweights
    have hobjs := hasObjs_of_objective h hobj hname
    refine ⟨fun t ht p nll hne hnll => ?_, scales_iff hobjs h hweights⟩
    exact weightedSftLoss_eq hne
      (fun s hs => hweights s (mem_of_mem_chunks (mem_chunks hobjs h ht) hs)) hnll
  · intro record prompt response w spec spec₁ m m' m₁ m₁' batchId batchId₁ now now₁ r r₁ hw
      hspec hspec₁ hobj hobj₁ h h₁ t ht t₁ ht₁ s hs s₁ hs₁
    obtain ⟨x, hx, hweight⟩ := sampleList_of_rewrite k.parseFloat hspec hobj
    obtain ⟨x₁, hx₁, hweight₁⟩ := sampleList_of_rewrite k.parseFloat hspec₁ hobj₁
    have hmem := mem_chunks (hasObjs_of_objective h hobj hname) h ht
    have hmem₁ := mem_chunks (hasObjs_of_objective h₁ hobj₁ hname) h₁ ht₁
    obtain ⟨hlist, rfl⟩ := sampleList_of_mem_chunks hx hmem hs
    obtain ⟨hlist₁, rfl⟩ := sampleList_of_mem_chunks hx₁ hmem₁ hs₁
    rw [hlist, hlist₁, coefficient_alone hweight, coefficient_alone hweight₁]
    exact alone_iff hw

/-! ## Two samples in chunks of one -/

def weightedSample (w : ℚ) : Sample :=
  [("prompt", .str "p"), ("response", .str "r"), ("weight", .num w)]

def twoWeights (w w' : ℚ) : TrainSpec where
  objective := .val "weighted_sft"
  samples := .val [weightedSample w, weightedSample w']
  chunkSize := .val 1

/-- Every sample has the loss 1. -/
def flatSft : SftModel Unit ℚ Unit where
  parseFloat _ := none
  perSampleNll _ samples := .ok (samples.map fun _ => 1)
  length_nll := by
    rintro p samples nll h
    cases h
    exact List.length_map _
  tensors _ := []

theorem weighted_twoWeights {w w' : ℚ} (hw : 0 < w) (hw' : 0 < w') :
    Weighted flatSft.parseFloat (twoWeights w w').sampleList := by
  intro s hs
  rcases List.mem_pair.mp hs with rfl | rfl
  · exact ⟨w, rfl, hw⟩
  · exact ⟨w', rfl, hw'⟩

theorem equalWeights_scale : ∃ (r : SubmitResult) (m' : Controller Unit),
    (init 256 8).submitTrain (twoWeights 3 3) "b" (fun _ => 0) = (.ok r, m') ∧
      Scales flatSft.parseFloat (newTasks (init 256 8) m') := by
  obtain ⟨r, m', h⟩ : ∃ (r : SubmitResult) (m' : Controller Unit),
    (init 256 8).submitTrain (twoWeights 3 3) "b" (fun _ => 0) = (.ok r, m') := ⟨_, _, rfl⟩
  have hweights : Weighted flatSft.parseFloat (twoWeights 3 3).sampleList :=
    weighted_twoWeights (by decide +kernel) (by decide +kernel)
  exact ⟨r, m', h, ((weights_scale_iff flatSft).1 h rfl hweights).2.mpr (by decide +kernel)⟩

/-- In chunks of one every coefficient is 1. -/
theorem otherWeights_do_not_scale :
    ¬ ∀ (m m' : Controller Unit) (spec : TrainSpec) (batchId : String) (now : Nat → Nat)
      (r : SubmitResult), m.submitTrain spec batchId now = (.ok r, m') →
        spec.objective = .val "weighted_sft" → Weighted flatSft.parseFloat spec.sampleList →
        Scales flatSft.parseFloat (newTasks m m') := by
  intro hall
  obtain ⟨r, m', h⟩ : ∃ (r : SubmitResult) (m' : Controller Unit),
    (init 256 8).submitTrain (twoWeights 3 1) "b" (fun _ => 0) = (.ok r, m') := ⟨_, _, rfl⟩
  have hweights : Weighted flatSft.parseFloat (twoWeights 3 1).sampleList :=
    weighted_twoWeights (by decide +kernel) (by decide +kernel)
  have heven := (scales_iff rfl h hweights).mp (hall _ _ _ _ _ _ h rfl hweights)
  exact absurd heven (by decide +kernel)

end Controller

end Trainfer
