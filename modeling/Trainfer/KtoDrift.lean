import Trainfer.Kto
import Mathlib.Analysis.SpecialFunctions.Sigmoid
import Mathlib.Data.List.GetD

/-! The loss of `kto_loss` in numbers, over runs of calls that share the drift average.

`kto_drift` bounds the drift by the log-ratios that were measured under its key, and the loss and
its slope at every sample by how far these are apart: no call is without a signal. -/

namespace Trainfer.KtoDrift

open Real (sigmoid)

variable {P τ : Type}

/-! ## The loss -/

/-- `s.get("label", "desirable") == "desirable"` -/
def desirable (s : Sample) : Bool :=
  match (List.lookup "label" s).getD (.str "desirable") with
  | .str "desirable" => true
  | _ => false

/-- A number in front of a tensor. -/
def factorOf : Arg τ → Except PyError ℚ
  | .json (.num q) => .ok q
  | .json (.bool b) => .ok (if b then 1 else 0)
  | _ => .error ⟨.typeError, "unsupported operand type(s) for *"⟩

/-- `lambda_desirable` or `lambda_undesirable`. -/
def lambda (kwargs : Kwargs τ) : Bool → Except PyError ℚ
  | true => factorOf ((kwargs.get? "lambda_desirable").getD (.json (.num 1)))
  | false => factorOf ((kwargs.get? "lambda_undesirable").getD (.json (.num (3 / 2))))

/-- The loss of a sample, without its factor. -/
noncomputable def surprise (z0 : ℝ) (wanted : Bool) (lr : ℝ) : ℝ :=
  if wanted then 1 - sigmoid (lr - z0) else 1 - sigmoid (z0 - lr)

noncomputable def ktoTerm (kwargs : Kwargs τ) (z0 lr : ℚ) (s : Sample) : Except PyError ℝ := do
  let factor ← lambda kwargs (desirable s)
  return factor * surprise z0 (desirable s) lr

/-- `kto_loss`, for given log-ratios. -/
noncomputable def numericKto (parse : String → Option ℚ)
    (logratio : P → List Sample → Kwargs τ → Except PyError (List ℚ)) : KtoModel P ℝ τ where
  parseFloat := parse
  logratio := logratio
  loss p samples kwargs z0 := do
    let lrs ← logratio p samples kwargs
    let losses ← (lrs.zip samples).mapM fun (lr, s) => ktoTerm kwargs z0 lr s
    return ⟨some (losses.sum / losses.length), []⟩

/-! ## Calls -/

structure Call (P τ : Type) where
  params : P
  samples : List Sample
  kwargs : Kwargs τ

variable {L : Type} (k : KtoModel P L τ)

def call (ema : Ema) (c : Call P τ) : Except PyError (Result L τ) × Ema :=
  ktoLoss k c.params ema (some c.samples) c.kwargs

/-- `_Z0_EMA` after some calls. -/
def emaAfter (calls : List (Call P τ)) : Ema :=
  calls.foldl (fun ema c => (call k ema c).2) fun _ => none

def betaOf (c : Call P τ) : Except PyError ℚ :=
  floatOf k.parseFloat ((c.kwargs.get? "beta").getD (.json (.num (1 / 10))))

def ratiosOf (c : Call P τ) : Except PyError (List ℚ) := k.logratio c.params c.samples c.kwargs

/-- A call whose log-ratios, if they go into the average of `beta`, lie between `lo` and `hi`, and
whose decay is one. -/
structure Steady (beta lo hi : ℚ) (c : Call P τ) : Prop where
  ratios : betaOf k c = .ok beta → ∀ lrs, ratiosOf k c = .ok lrs →
    lrs.length = c.samples.length ∧ ∀ x ∈ lrs, x ∈ Set.Icc lo hi
  decay : ∀ alpha a, z0EmaAlpha c.kwargs = some alpha → floatOf k.parseFloat alpha = .ok a →
    a ∈ Set.Icc (0 : ℚ) 1

variable {k} {c : Call P τ} {ema : Ema} {beta lo hi : ℚ}

def meanOf (lrs : List ℚ) : ℚ := lrs.sum / lrs.length

/-- A call that has measured gets to its loss. -/
theorem call_measured {lrs : List ℚ} {next : Option ℚ} (hne : c.samples ≠ [])
    (hratios : ratiosOf k c = .ok lrs) (hbeta : betaOf k c = .ok beta)
    (hnext : nextZ0 k.parseFloat (z0EmaAlpha c.kwargs) (ema beta) (meanOf lrs) = .ok next) :
    ∃ z0, (z0 = meanOf lrs ∨ ema beta = some z0) ∧
      call k ema c = (k.loss c.params c.samples c.kwargs z0, Function.update ema beta next) := by
  obtain ⟨p, samples, kwargs⟩ := c
  cases samples with
  | nil => exact absurd rfl hne
  | cons s ss =>
    simp only [ratiosOf, betaOf, meanOf] at hratios hbeta hnext
    refine ⟨_, ?_, by simp only [call, ktoLoss, hratios, hbeta, hnext, bind, Except.bind]; rfl⟩
    split_ifs
    · cases hema : ema beta with
      | none => exact .inl rfl
      | some z => exact .inr rfl
    · exact .inl rfl

/-- A call fails and leaves the averages, or it measures and sets the one of its `beta`. -/
theorem call_cases (k : KtoModel P L τ) (ema : Ema) (c : Call P τ) :
    (∃ e, call k ema c = (.error e, ema)) ∨
    ∃ beta lrs next z0, betaOf k c = .ok beta ∧ ratiosOf k c = .ok lrs ∧ c.samples ≠ [] ∧
      nextZ0 k.parseFloat (z0EmaAlpha c.kwargs) (ema beta) (meanOf lrs) = .ok next ∧
      (z0 = meanOf lrs ∨ ema beta = some z0) ∧
      call k ema c = (k.loss c.params c.samples c.kwargs z0, Function.update ema beta next) := by
  obtain ⟨p, samples, kwargs⟩ := c
  cases samples with
  | nil => exact .inl ⟨_, rfl⟩
  | cons s ss =>
    simp only [call, ktoLoss, betaOf, ratiosOf]
    cases hratios : k.logratio p (s :: ss) kwargs with
    | error e => exact .inl ⟨e, rfl⟩
    | ok lrs =>
      cases hbeta : floatOf k.parseFloat ((kwargs.get? "beta").getD (.json (.num (1 / 10)))) with
      | error e => exact .inl ⟨e, rfl⟩
      | ok beta =>
        simp only [bind, Except.bind]
        cases hnext : nextZ0 k.parseFloat (z0EmaAlpha kwargs) (ema beta)
            (lrs.sum / lrs.length) with
        | error e => exact .inl ⟨e, rfl⟩
        | ok next =>
          have hne := List.cons_ne_nil s ss
          obtain ⟨z0, hz0, hcall⟩ := call_measured (c := ⟨p, s :: ss, kwargs⟩) hne hratios hbeta hnext
          simp only [call, ktoLoss, hratios, hbeta, hnext, bind, Except.bind] at hcall
          exact .inr ⟨beta, lrs, next, z0, rfl, rfl, hne, hnext, hz0, hcall⟩

/-! ## The averages -/

theorem meanOf_mem {lrs : List ℚ} (hne : lrs ≠ []) (h : ∀ x ∈ lrs, x ∈ Set.Icc lo hi) :
    meanOf lrs ∈ Set.Icc lo hi := by
  have hpos : (0 : ℚ) < lrs.length := Nat.cast_pos.mpr (List.length_pos_iff.mpr hne)
  have hlow := List.card_nsmul_le_sum lrs lo fun x hx => (h x hx).1
  have hhigh := List.sum_le_card_nsmul lrs hi fun x hx => (h x hx).2
  rw [nsmul_eq_mul] at hlow hhigh
  rw [meanOf]
  exact ⟨(le_div_iff₀' hpos).mpr hlow, (div_le_iff₀' hpos).mpr hhigh⟩

theorem Steady.meanOf_mem {lrs : List ℚ} (hc : Steady k beta lo hi c)
    (hbeta : betaOf k c = .ok beta) (hlrs : ratiosOf k c = .ok lrs) (hne : c.samples ≠ []) :
    meanOf lrs ∈ Set.Icc lo hi := by
  obtain ⟨hlength, hmem⟩ := hc.ratios hbeta lrs hlrs
  refine KtoDrift.meanOf_mem ?_ hmem
  rintro rfl
  exact hne (List.length_eq_zero_iff.mp hlength.symm)

/-- The average stays where the log-ratios are. -/
theorem nextZ0_mem {alpha : Option (Arg τ)} {prev next : Option ℚ} {batchZ0 : ℚ}
    {parse : String → Option ℚ} (h : nextZ0 parse alpha prev batchZ0 = .ok next)
    (hdecay : ∀ arg a, alpha = some arg → floatOf parse arg = .ok a → a ∈ Set.Icc (0 : ℚ) 1)
    (hprev : ∀ z ∈ prev, z ∈ Set.Icc lo hi) (hbatch : batchZ0 ∈ Set.Icc lo hi) :
    ∀ z ∈ next, z ∈ Set.Icc lo hi := by
  cases alpha with
  | none =>
    cases h
    exact hprev
  | some alpha =>
    cases prev with
    | none =>
      cases h
      simpa using hbatch
    | some prev =>
      obtain ⟨a, ha, h⟩ := bind_ok h
      cases h
      obtain ⟨hnonneg, hle⟩ := hdecay alpha a rfl ha
      have hmem := convex_Icc lo hi (hprev prev rfl) hbatch hnonneg (sub_nonneg.mpr hle)
        (add_sub_cancel a 1)
      simpa using hmem

/-- One call keeps the average of `beta` between the bounds. -/
theorem call_mem (hc : Steady k beta lo hi c) (h : ∀ z ∈ ema beta, z ∈ Set.Icc lo hi) :
    ∀ z ∈ (call k ema c).2 beta, z ∈ Set.Icc lo hi := by
  obtain ⟨e, hcall⟩ | ⟨beta', lrs, next, z0, hbeta, hlrs, hne, hnext, -, hcall⟩ :=
    call_cases k ema c
  · rwa [hcall]
  · rw [hcall]
    by_cases heq : beta = beta'
    · subst heq
      simp only [Function.update_self]
      exact nextZ0_mem hnext hc.decay h (hc.meanOf_mem hbeta hlrs hne)
    · simpa only [Function.update_of_ne heq] using h

/-- So do all calls of a run. -/
theorem emaAfter_mem {calls : List (Call P τ)} (h : ∀ c ∈ calls, Steady k beta lo hi c) :
    ∀ z ∈ emaAfter k calls beta, z ∈ Set.Icc lo hi := by
  unfold emaAfter
  induction calls using List.reverseRecOn with
  | nil => simp
  | append_singleton calls c ih =>
    rw [List.foldl_concat]
    exact call_mem (h c (by simp)) (ih fun c' hc' => h c' (by simp [hc']))

/-! ## The signal of one sample -/

theorem surprise_eq (z0 : ℝ) (wanted : Bool) (lr : ℝ) :
    surprise z0 wanted lr = sigmoid (if wanted then z0 - lr else lr - z0) := by
  cases wanted with
  | true => rw [surprise, if_pos rfl, if_pos rfl, ← Real.sigmoid_neg, neg_sub]
  | false =>
    rw [surprise, if_neg Bool.false_ne_true, if_neg Bool.false_ne_true, ← Real.sigmoid_neg, neg_sub]

section
variable {z0 lr low high : ℝ} (hz0 : z0 ∈ Set.Icc low high) (hlr : lr ∈ Set.Icc low high)
include hz0 hlr

theorem surprise_mem (wanted : Bool) : surprise z0 wanted lr ∈
    Set.Icc (sigmoid (-(high - low))) (sigmoid (high - low)) := by
  obtain ⟨hz, hz'⟩ := hz0
  obtain ⟨hl, hl'⟩ := hlr
  rw [surprise_eq]
  constructor
  · refine Real.sigmoid_le ?_
    split_ifs <;> linarith
  · refine Real.sigmoid_le ?_
    split_ifs <;> linarith

/-- How steep the sigmoid is at the drift. -/
theorem steep_le : sigmoid (high - low) * sigmoid (-(high - low)) ≤
    sigmoid (lr - z0) * (1 - sigmoid (lr - z0)) := by
  obtain ⟨hlow, hhigh⟩ := surprise_mem hz0 hlr false
  rw [surprise_eq, if_neg Bool.false_ne_true] at hlow hhigh
  rw [Real.sigmoid_neg] at hlow ⊢
  have hmul : 0 ≤ (sigmoid (high - low) - sigmoid (lr - z0)) *
      (sigmoid (lr - z0) - (1 - sigmoid (high - low))) :=
    mul_nonneg (sub_nonneg.mpr hhigh) (sub_nonneg.mpr hlow)
  linarith [hmul]

end

/-- The slope of the loss of a sample, without its factor. -/
noncomputable def slope (z0 : ℝ) (wanted : Bool) (lr : ℝ) : ℝ :=
  (if wanted then -1 else 1) * (sigmoid (lr - z0) * (1 - sigmoid (lr - z0)))

theorem hasDerivAt_surprise (z0 : ℝ) (wanted : Bool) (lr : ℝ) :
    HasDerivAt (surprise z0 wanted) (slope z0 wanted lr) lr := by
  have hsigmoid := (Real.hasDerivAt_sigmoid (lr - z0)).comp_sub_const lr z0
  cases wanted with
  | true => exact (hsigmoid.const_sub 1).congr_deriv (by simp [slope])
  | false =>
    have heq : surprise z0 false = fun lr => sigmoid (lr - z0) := by
      funext lr
      rw [surprise_eq, if_neg Bool.false_ne_true]
    rw [heq]
    exact hsigmoid.congr_deriv (by simp [slope])

/-! ## The loss of a call -/

/-- The loss, as a function of the log-ratios. -/
noncomputable def lossOf (factor : Bool → ℝ) (z0 : ℝ) (labels : List Bool) (x : ℕ → ℝ) : ℝ :=
  (∑ i ∈ Finset.range labels.length,
    factor (labels.getD i true) * surprise z0 (labels.getD i true) (x i)) / labels.length

variable {factor : Bool → ℝ} {labels : List Bool} {x : ℕ → ℝ} {z0 : ℝ}

theorem hasDerivAt_lossOf {j : ℕ} (hj : j < labels.length) :
    HasDerivAt (fun t => lossOf factor z0 labels (Function.update x j t))
      (factor (labels.getD j true) * slope z0 (labels.getD j true) (x j) / labels.length) (x j) := by
  refine HasDerivAt.div_const ?_ _
  have hterm : ∀ i ∈ Finset.range labels.length, HasDerivAt
      (fun t => factor (labels.getD i true) *
        surprise z0 (labels.getD i true) (Function.update x j t i))
      (if j = i then factor (labels.getD j true) * slope z0 (labels.getD j true) (x j) else 0)
      (x j) := by
    intro i _
    by_cases hi : j = i
    · subst hi
      simp only [Function.update_self, if_true]
      exact (hasDerivAt_surprise z0 _ (x j)).const_mul _
    · simp only [Function.update_of_ne (Ne.symm hi), if_neg hi]
      exact hasDerivAt_const _ _
  refine (HasDerivAt.fun_sum hterm).congr_deriv ?_
  rw [Finset.sum_ite_eq, if_pos (Finset.mem_range.mpr hj)]

theorem lossOf_mem {factorLow factorHigh low high : ℝ} (hnonneg : 0 ≤ factorLow)
    (hne : labels ≠ []) (hz0 : z0 ∈ Set.Icc low high)
    (hx : ∀ i < labels.length, x i ∈ Set.Icc low high)
    (hfactor : ∀ d ∈ labels, factor d ∈ Set.Icc factorLow factorHigh) :
    lossOf factor z0 labels x ∈ Set.Icc (factorLow * sigmoid (-(high - low)))
      (factorHigh * sigmoid (high - low)) := by
  have hterm : ∀ i ∈ Finset.range labels.length,
      factor (labels.getD i true) * surprise z0 (labels.getD i true) (x i) ∈
        Set.Icc (factorLow * sigmoid (-(high - low))) (factorHigh * sigmoid (high - low)) := by
    intro i hi
    have hi' := Finset.mem_range.mp hi
    obtain ⟨hlow, hhigh⟩ := surprise_mem hz0 (hx i hi') (labels.getD i true)
    obtain ⟨hfl, hfh⟩ := hfactor (labels.getD i true) (by
      rw [List.getD_eq_getElem _ _ hi']
      exact List.getElem_mem hi')
    exact ⟨mul_le_mul hfl hlow (Real.sigmoid_nonneg _) (hnonneg.trans hfl),
      mul_le_mul hfh hhigh ((Real.sigmoid_nonneg _).trans hlow) (hnonneg.trans (hfl.trans hfh))⟩
  have hpos : (0 : ℝ) < labels.length := Nat.cast_pos.mpr (List.length_pos_iff.mpr hne)
  have hlow := Finset.card_nsmul_le_sum _ _ _ fun i hi => (hterm i hi).1
  have hhigh := Finset.sum_le_card_nsmul _ _ _ fun i hi => (hterm i hi).2
  rw [Finset.card_range, nsmul_eq_mul] at hlow hhigh
  exact ⟨(le_div_iff₀' hpos).mpr hlow, (div_le_iff₀' hpos).mpr hhigh⟩

/-- The factor of a label, where its argument is a number. -/
def factorIn (kwargs : Kwargs τ) (d : Bool) : ℝ :=
  ((lambda kwargs d).toOption.getD 0 : ℚ)

theorem factorIn_mem {kwargs : Kwargs τ} {factorLow factorHigh q : ℚ} {d : Bool}
    (hfactor : ∀ d q, lambda kwargs d = .ok q → q ∈ Set.Icc factorLow factorHigh)
    (hq : lambda kwargs d = .ok q) :
    factorIn kwargs d ∈ Set.Icc (factorLow : ℝ) factorHigh := by
  obtain ⟨hlow, hhigh⟩ := hfactor d q hq
  rw [factorIn, hq]
  exact ⟨Rat.cast_le.mpr hlow, Rat.cast_le.mpr hhigh⟩

/-- The pull of a sample on the loss is not below the factor at the steepness of the bounds. -/
theorem pull_le {factorLow factor z0 lr low high : ℝ} (hnonneg : 0 ≤ factorLow)
    (hfactor : factorLow ≤ factor) (hz0 : z0 ∈ Set.Icc low high) (hlr : lr ∈ Set.Icc low high)
    (wanted : Bool) (count : ℕ) :
    factorLow * (sigmoid (high - low) * sigmoid (-(high - low))) / count ≤
      if wanted then -(factor * slope z0 wanted lr / count)
      else factor * slope z0 wanted lr / count := by
  have hsteep := mul_le_mul hfactor (steep_le hz0 hlr)
    (mul_nonneg (Real.sigmoid_nonneg _) (Real.sigmoid_nonneg _)) (hnonneg.trans hfactor)
  refine (div_le_div_of_nonneg_right hsteep count.cast_nonneg).trans (le_of_eq ?_)
  cases wanted with
  | true => simp [slope, neg_div]
  | false => simp [slope]

variable (parse : String → Option ℚ)
  {logratio : P → List Sample → Kwargs τ → Except PyError (List ℚ)}

/-- What a call returns, from what it measured. -/
theorem numericKto_loss {p : P} {samples : List Sample} {kwargs : Kwargs τ} {z : ℚ}
    {r : Result ℝ τ} {lrs : List ℚ}
    (h : (numericKto parse logratio).loss p samples kwargs z = .ok r)
    (hlrs : logratio p samples kwargs = .ok lrs) (hlength : lrs.length = samples.length) :
    r.loss = some (lossOf (factorIn kwargs) z (samples.map desirable) fun i => (lrs.getD i 0 : ℚ)) ∧
      ∀ s ∈ samples, ∃ q, lambda kwargs (desirable s) = .ok q := by
  obtain ⟨lrs', hlrs', h⟩ := bind_ok h
  obtain rfl := Except.ok.inj (hlrs.symm.trans hlrs')
  obtain ⟨losses, hlosses, h⟩ := bind_ok h
  cases h
  obtain ⟨hcount, hterm⟩ := List.forall₂_iff_get.mp (forall₂_of_mapM hlosses)
  rw [List.length_zip, hlength, min_self] at hcount
  have hloss : ∀ i (hi : i < samples.length) (hi' : i < losses.length),
      ∃ q, lambda kwargs (desirable samples[i]) = .ok q ∧
        losses[i] = q * surprise z (desirable samples[i]) (lrs.getD i 0 : ℚ) := by
    intro i hi hi'
    have hi'' : i < lrs.length := by rwa [hlength]
    have h := hterm i (by simpa [hlength] using hi) hi'
    simp only [List.get_eq_getElem, List.getElem_zip] at h
    obtain ⟨q, hq, h⟩ := bind_ok h
    rw [List.getD_eq_getElem _ _ hi'']
    exact ⟨q, hq, (Except.ok.inj h).symm⟩
  have hsum : losses = List.ofFn fun i : Fin (samples.map desirable).length =>
      factorIn kwargs ((samples.map desirable).getD i true) *
        surprise z ((samples.map desirable).getD i true) (lrs.getD i 0 : ℚ) := by
    refine List.ext_getElem (by simp [hcount]) fun i hi hi' => ?_
    have hi'' : i < samples.length := by rwa [hcount]
    obtain ⟨q, hq, heq⟩ := hloss i hi'' hi
    have hlabel : (samples.map desirable).getD i true = desirable samples[i] := by
      rw [List.getD_eq_getElem _ _ (by simpa using hi''), List.getElem_map]
    rw [List.getElem_ofFn, heq, hlabel, factorIn, hq]
    rfl
  constructor
  · rw [lossOf, Finset.sum_range, ← List.sum_ofFn, ← hsum, ← hcount, List.length_map]
  · intro s hs
    obtain ⟨i, hi, rfl⟩ := List.getElem_of_mem hs
    obtain ⟨q, hq, -⟩ := hloss i hi (hcount ▸ hi)
    exact ⟨q, hq⟩

variable {parse}

/-- **The drift.** Let all log-ratios that calls measure under one `beta` lie between `lo` and
`hi`. After every run of calls, the loss of one more call is the one for some drift between them.
It lies within the factors times the sigmoid at the distance of the bounds. More likelihood of a
wanted response lowers it, and of an unwanted one raises it, by no less than a fixed slope. -/
theorem kto_drift {calls : List (Call P τ)} {c : Call P τ} {beta lo hi factorLow factorHigh : ℚ}
    {r : Result ℝ τ}
    (hsteady : ∀ c' ∈ calls ++ [c], Steady (numericKto parse logratio) beta lo hi c')
    (hbeta : betaOf (numericKto parse logratio) c = .ok beta) (hnonneg : 0 ≤ factorLow)
    (hfactor : ∀ d q, lambda c.kwargs d = .ok q → q ∈ Set.Icc factorLow factorHigh)
    (h : (call (numericKto parse logratio) (emaAfter (numericKto parse logratio) calls) c).1 =
      .ok r) :
    ∃ (z0 : ℚ) (lrs : List ℚ), z0 ∈ Set.Icc lo hi ∧
      logratio c.params c.samples c.kwargs = .ok lrs ∧
      (let loss := lossOf (factorIn c.kwargs) z0 (c.samples.map desirable)
      let at0 : ℕ → ℝ := fun i => (lrs.getD i 0 : ℚ)
      r.loss = some (loss at0) ∧
      factorLow * sigmoid (-(hi - lo)) ≤ loss at0 ∧
      loss at0 ≤ factorHigh * sigmoid (hi - lo) ∧
      ∀ j (hj : j < c.samples.length), ∃ d,
        HasDerivAt (fun t => loss (Function.update at0 j t)) d (at0 j) ∧
        factorLow * (sigmoid (hi - lo) * sigmoid (-(hi - lo))) / c.samples.length ≤
          if desirable c.samples[j] then -d else d) := by
  obtain ⟨e, hcall⟩ | ⟨beta', lrs, next, z0, hbeta', hlrs, hne, -, hz0, hcall⟩ :=
    call_cases (numericKto parse logratio) (emaAfter (numericKto parse logratio) calls) c
  · rw [hcall] at h
    cases h
  rw [hcall] at h
  obtain rfl := Except.ok.inj (hbeta.symm.trans hbeta')
  have hthis := hsteady c (by simp)
  obtain ⟨hlength, hmem⟩ := hthis.ratios hbeta lrs hlrs
  have hz0mem : z0 ∈ Set.Icc lo hi := by
    rcases hz0 with rfl | hz0
    · exact hthis.meanOf_mem hbeta hlrs hne
    · exact emaAfter_mem (fun c' hc' => hsteady c' (by simp [hc'])) z0 hz0
  obtain ⟨hloss, hlambda⟩ := numericKto_loss parse h hlrs hlength
  have hcast : ∀ q ∈ Set.Icc lo hi, (q : ℝ) ∈ Set.Icc (lo : ℝ) hi := fun q hq =>
    ⟨Rat.cast_le.mpr hq.1, Rat.cast_le.mpr hq.2⟩
  have hratio : ∀ j < c.samples.length, ((lrs.getD j 0 : ℚ) : ℝ) ∈ Set.Icc (lo : ℝ) hi := by
    intro j hj
    rw [← hlength] at hj
    rw [List.getD_eq_getElem _ _ hj]
    exact hcast _ (hmem _ (List.getElem_mem hj))
  have hfactorIn : ∀ d ∈ c.samples.map desirable,
      factorIn c.kwargs d ∈ Set.Icc (factorLow : ℝ) factorHigh := by
    intro d hd
    obtain ⟨s, hs, rfl⟩ := List.mem_map.mp hd
    obtain ⟨q, hq⟩ := hlambda s hs
    exact factorIn_mem hfactor hq
  have hlow : (0 : ℝ) ≤ factorLow := Rat.cast_nonneg.mpr hnonneg
  obtain ⟨hge, hle⟩ := lossOf_mem hlow (by simpa using hne) (hcast z0 hz0mem)
    (fun j hj => hratio j (by simpa using hj)) hfactorIn
  refine ⟨z0, lrs, hz0mem, hlrs, hloss, hge, hle, fun j hj => ⟨_, hasDerivAt_lossOf (by simpa), ?_⟩⟩
  have hd : (c.samples.map desirable).getD j true = desirable c.samples[j] := by
    rw [List.getD_eq_getElem _ _ (by simpa), List.getElem_map]
  have hlowj := (hfactorIn (desirable c.samples[j]) (List.mem_map_of_mem (List.getElem_mem hj))).1
  rw [hd, List.length_map]
  exact pull_le hlow hlowj (hcast z0 hz0mem) (hratio j hj) _ _

/-! ### One sample at a time -/

/-- A model with one log-ratio for everything. -/
noncomputable def evenKto : KtoModel ℚ ℝ Unit :=
  numericKto (fun _ => none) fun ratio samples _ => .ok (samples.map fun _ => ratio)

def thumb (ratio : ℚ) (label : String) : Call ℚ Unit :=
  ⟨ratio, [[("prompt", .str "a"), ("response", .str "b"), ("label", .str label)]], []⟩

theorem steady_thumb {ratio : ℚ} (h : ratio ∈ Set.Icc (1 : ℚ) 3) (label : String) :
    Steady evenKto (1 / 10) 1 3 (thumb ratio label) where
  ratios := by
    intro _ lrs hlrs
    cases hlrs
    simpa [thumb] using h
  decay := by
    intro alpha a halpha ha
    cases halpha
    cases ha
    norm_num

theorem exists_thumbDown (ema : Ema) :
    ∃ r, (call evenKto ema (thumb 2 "undesirable")).1 = .ok r := by
  have hnext : ∃ next, nextZ0 evenKto.parseFloat (z0EmaAlpha (thumb 2 "undesirable").kwargs)
      (ema (1 / 10)) (meanOf [2]) = .ok next := by
    cases ema (1 / 10) with
    | none => exact ⟨_, rfl⟩
    | some z => exact ⟨_, rfl⟩
  obtain ⟨next, hnext⟩ := hnext
  obtain ⟨z0, -, hcall⟩ := call_measured (k := evenKto) (c := thumb 2 "undesirable")
    (List.cons_ne_nil _ _) rfl rfl hnext
  exact ⟨_, by rw [hcall]; rfl⟩

theorem kto_drift_thumbs : ∃ r loss,
    (call evenKto (emaAfter evenKto [thumb 1 "desirable", thumb 3 "desirable"])
      (thumb 2 "undesirable")).1 = .ok r ∧ r.loss = some loss ∧
    ((1 : ℚ) : ℝ) * sigmoid (-(((3 : ℚ) : ℝ) - ((1 : ℚ) : ℝ))) ≤ loss := by
  obtain ⟨r, hok⟩ := exists_thumbDown (emaAfter evenKto [thumb 1 "desirable", thumb 3 "desirable"])
  have hsteady : ∀ c ∈ [thumb 1 "desirable", thumb 3 "desirable"] ++ [thumb 2 "undesirable"],
      Steady evenKto (1 / 10) 1 3 c := by
    intro c hc
    simp only [List.cons_append, List.nil_append, List.mem_cons, List.not_mem_nil, or_false] at hc
    rcases hc with rfl | rfl | rfl
    · exact steady_thumb (by norm_num) _
    · exact steady_thumb (by norm_num) _
    · exact steady_thumb (by norm_num) _
  have hfactor : ∀ d q, lambda (thumb 2 "undesirable").kwargs d = .ok q →
      q ∈ Set.Icc (1 : ℚ) (3 / 2) := by
    intro d q hq
    cases d with
    | true =>
      cases hq
      norm_num
    | false =>
      cases hq
      norm_num
  obtain ⟨z0, lrs, -, -, hloss, hge, -⟩ := kto_drift hsteady rfl zero_le_one hfactor hok
  exact ⟨r, _, hok, hloss, hge⟩

end Trainfer.KtoDrift
