import Trainfer.KlAnchor
import Mathlib.Data.List.FinRange

/-! `safety_monitor_loss`: which tokens a plain gradient step on a target would make more likely,
and which of them are watched.

`growers_spec` says that the threshold test finds exactly the tokens that such a step lifts, and
`alarms_antitone` that a larger step size raises fewer alarms. Numbers are exact. -/

namespace Trainfer

open Gibbs

variable {V : ℕ}

/-! ## The threshold -/

noncomputable def logsumexp (x : Fin V → ℝ) : ℝ := Real.log (∑ k, Real.exp (x k))

/-- `indicator - pi`, with the target at `t`. -/
def stepDirection (pi : Fin V → ℝ) (t k : Fin V) : ℝ := (if k = t then 1 else 0) - pi k

/-- `_m_p_value`. -/
noncomputable def mPValue (pi : Fin V → ℝ) (t : Fin V) (eta : ℝ) : ℝ :=
  let logPi k := Real.log (max (pi k) 1e-45)
  let logZ := logsumexp fun k => logPi k + eta * stepDirection pi t k
  (-(1 / eta)) * logZ

theorem toNat_lt_size {V : ℕ} {t : ℤ} (h : 0 ≤ t ∧ t < V) : t.toNat < V := by omega

/-- The place that `indicator[t]` is; a negative index counts from the end. -/
def indicatorIndex (V : ℕ) (t : ℤ) : Except PyError (Fin V) :=
  let k := if t < 0 then t + V else t
  if h : 0 ≤ k ∧ k < V then .ok ⟨k.toNat, by omega⟩
  else .error ⟨.indexError, "index " ++ toString t ++
    " is out of bounds for dimension 0 with size " ++ toString V⟩

open Classical in
/-- The tokens in the grower mask, in order. -/
noncomputable def growers (pi : Fin V → ℝ) (t : ℤ) (mp : ℝ) : List (Fin V) :=
  (List.finRange V).filter fun j => pi j < mp ∧ (j : ℤ) ≠ t

/-! ## Watchlists -/

/-- `base.update(int(x) for x in ids)`, if there are any. -/
def watchInts (parse : String → Option ℤ) (ids : Value) : Except PyError (Finset ℤ) := do
  if ids.truthy then
    let ids ← (← ids.iter).mapM (intOf parse)
    return ids.toFinset
  else return ∅

/-- `_resolve_watchlist`. -/
def resolveWatchlist (parse : String → Option ℤ) (samples : List Sample)
    (batchWatchlist defaultWatchlist : Value) : Except PyError (List (Finset ℤ)) := do
  let floor ← watchInts parse defaultWatchlist
  let batch ← watchInts parse batchWatchlist
  samples.mapM fun s => do
    let own ← watchInts parse (JsonObject.get s "watchlist")
    return floor ∪ batch ∪ own

/-! ## The loss -/

/-- The arguments of a call; `none` is `None`. -/
structure SafetyArgs where
  targetPositions : Option (List (List ℕ)) := none
  targetTokenIds : Option (List (List ℤ)) := none
  inputIds : Option (List (List ℤ)) := none
  attentionMask : Option (List (List ℕ)) := none
  watchlist : Value := .null
  defaultWatchlist : Value := .null
  weight : ℝ := 0
  effectiveLr : Option ℝ := none

/-- One scored position. -/
structure Scored (V : ℕ) where
  row : ℕ
  position : ℕ
  mp : ℝ
  growers : List (Fin V)
  hits : List (Fin V)

/-- The warning, the loss and the components. -/
structure SafetyReport (V : ℕ) where
  weightCoerced : Bool
  loss : ℝ := 0
  eta : ℝ := 0
  alarmCount : ℕ := 0
  growerSizeMean : ℝ := 0
  growerSizeMax : ℕ := 0
  mPMean : ℝ := 0
  mPMin : ℝ := 0
  watchlistHits : List (ℕ × ℕ × Fin V) := []

/-- `[g for g in grower if g in watch_sets[i]]`, which asks for the set only if there is a `g`. -/
def watched (watchSets : List (Finset ℤ)) (i : ℕ) (grower : List (Fin V)) :
    Except PyError (List (Fin V)) :=
  if grower.isEmpty then .ok []
  else match watchSets[i]? with
    | some watch => .ok (grower.filter fun g => (g : ℤ) ∈ watch)
    | none => .error ⟨.indexError, "list index out of range"⟩

noncomputable def scorePosition (logits : Logits V) (watchSets : List (Finset ℤ)) (eta : ℝ)
    (i p : ℕ) (t : ℤ) : Except PyError (Scored V) := do
  let pi := softmax Finset.univ (logits i p)
  let idx ← indicatorIndex V t
  let mp := mPValue pi idx eta
  let hits ← watched watchSets i (growers pi t mp)
  return ⟨i, p, mp, growers pi t mp, hits⟩

/-- `target_token_ids[i] if target_token_ids else []`. -/
def rowTokens (targetTokenIds : Option (List (List ℤ))) (i : ℕ) : Except PyError (List ℤ) :=
  match targetTokenIds with
  | none | some [] => .ok []
  | some rows =>
    match rows[i]? with
    | some tokens => .ok tokens
    | none => .error ⟨.indexError, "list index out of range"⟩

/-- One round of the loop over the samples. -/
noncomputable def scoreRow (logits : Logits V) (watchSets : List (Finset ℤ)) (eta : ℝ)
    (targetTokenIds : Option (List (List ℤ))) (row : List ℕ × ℕ) :
    Except PyError (List (Scored V)) := do
  let (positions, i) := row
  if positions.isEmpty then return []
  let tokens ← rowTokens targetTokenIds i
  if tokens.length ≠ positions.length then
    throw ⟨.valueError, "sample " ++ toString i ++ ": target_positions length " ++
      toString positions.length ++ " does not match target_token_ids length " ++
      toString tokens.length⟩
  (positions.zip tokens).mapM fun pt => scorePosition logits watchSets eta i pt.1 pt.2

noncomputable def meanOrZero (xs : List ℝ) : ℝ :=
  if xs.isEmpty then 0 else xs.sum / xs.length

/-- `components`, from the scored positions in order. -/
noncomputable def safetyComponents (coerced : Bool) (eta : ℝ) (scored : List (Scored V)) :
    SafetyReport V where
  weightCoerced := coerced
  eta := eta
  alarmCount := scored.countP fun s => !s.hits.isEmpty
  growerSizeMean := meanOrZero (scored.map fun s => (s.growers.length : ℝ))
  growerSizeMax := (scored.map fun s => s.growers.length).max?.getD 0
  mPMean := meanOrZero (scored.map Scored.mp)
  mPMin := (scored.map Scored.mp).min?.getD 0
  watchlistHits := scored.flatMap fun s => s.hits.map fun g => (s.row, s.position, g)

def missingTargets : PyError :=
  ⟨.runtimeError, "safety_monitor requires target_positions from the preceding main " ++
    "objective; the objective does not yet expose them. See safety-monitor-primitive.md."⟩

open Classical in
/-- `safety_monitor_loss`, with the forward pass of the model. -/
noncomputable def safetyMonitorLoss (parse : String → Option ℤ)
    (forward : List (List ℤ) → Option (List (List ℕ)) → Except PyError (Logits V))
    (samples : List Sample) (args : SafetyArgs) : Except PyError (SafetyReport V) := do
  let some targetPositions := args.targetPositions | throw missingTargets
  let coerced : Bool := args.weight ≠ 0
  let watchSets ← resolveWatchlist parse samples args.watchlist args.defaultWatchlist
  if !targetPositions.any fun positions => !positions.isEmpty then
    return { weightCoerced := coerced, eta := args.effectiveLr.getD 0 }
  let some eta := args.effectiveLr.filter fun eta => 0 < eta
    | throw ⟨.valueError, "safety_monitor requires a positive effective_lr for M_p(η); " ++
        "TrainEngine normally plumbs it from the optimizer's LR."⟩
  let some inputIds := args.inputIds
    | throw ⟨.runtimeError, "safety_monitor requires input_ids from the main objective's " ++
        "forward batch. TrainEngine.step plumbs these automatically."⟩
  let logits ← forward inputIds args.attentionMask
  let rows ← targetPositions.zipIdx.mapM (scoreRow logits watchSets eta args.targetTokenIds)
  return safetyComponents coerced eta rows.flatten

end Trainfer
