import Trainfer.UnlikeGate
import Trainfer.PrefixGeometry
import Trainfer.GrowerSet
import Trainfer.WeightedSft
import Trainfer.Lib.SoftmaxGradient

/-! `unlike_loss`: the push on a bad token at the last position of a prefix, and the positive
teacher beside it. Numbers are exact, and the forward pass is a parameter.

`unlike_descends` is about a gradient step on the logits of a row: what the loss does to the bad
token there, and what is left of it where the loss is clamped. -/

namespace Trainfer.Unlike

open Gibbs

variable {V : ℕ}

/-! ## Reading a sample -/

/-- `int(s["bad_token_id"])`. -/
def badTokenId (parse : String → Option ℤ) (s : Sample) : Except PyError ℤ :=
  match s.lookup "bad_token_id" with
  | none => .error ⟨.keyError, "'bad_token_id'"⟩
  | some v => intOf parse v

/-- `int(s["good_token_id"])`, unless that is `None`. -/
def goodTokenId (parse : String → Option ℤ) (s : Sample) : Except PyError (Option ℤ) :=
  match JsonObject.get s "good_token_id" with
  | .null => .ok none
  | v => (intOf parse v).map some

/-- An index of `gather` along the vocabulary. -/
def gatherIndex (V : ℕ) (t : ℤ) : Except PyError (Fin V) :=
  if h : 0 ≤ t ∧ t < V then .ok ⟨t.toNat, toNat_lt_size h⟩
  else .error ⟨.runtimeError, "index " ++ toString t ++
    " is out of bounds for dimension 1 with size " ++ toString V⟩

def gatherGood (V : ℕ) (t : Option ℤ) : Except PyError (Option (Fin V)) :=
  t.elim (.ok none) fun t => (gatherIndex V t).map some

/-! ## The trigger -/

/-- The tokens with a strictly greater logit. -/
noncomputable def rankBad (x : Fin V → ℝ) (bad : Fin V) : ℕ :=
  (Finset.univ.filter fun k => x bad < x k).card

/-- A criterion that is not given is not met. -/
def criterion (op left : String) (test : ℚ → Bool) : Value → Except PyError Bool
  | .null => .ok false
  | .num q => .ok (test q)
  | .bool b => .ok (test (if b then 1 else 0))
  | v => .error ⟨.typeError, "'" ++ op ++ "' not supported between instances of '" ++ left ++
      "' and '" ++ v.typeName ++ "'"⟩

def isNone : Value → Bool
  | .null => true
  | _ => false

open Classical in
/-- `_should_trigger`. -/
noncomputable def shouldTrigger (rank : ℕ) (pBad : ℝ) (rankBelow probAbove : Value) :
    Except PyError Bool := do
  if isNone rankBelow && isNone probAbove then
    throw ⟨.valueError, "at least one of rank_below or prob_above is required"⟩
  let hitRank ← criterion "<" "int" (fun q => (rank : ℚ) < q) rankBelow
  let hitProb ← criterion ">" "float" (fun q => (q : ℝ) < pBad) probAbove
  return hitRank || hitProb

/-! ## The loss -/

structure UnlikeArgs where
  positiveWeight : ℝ := 1
  defaultRankBelow : Value := .num 20
  defaultProbAbove : Value := .num (5 / 100)
  eps : ℝ := 1e-6
  allowUnanchored : Bool := false
  batchObjectives : Option Value := none
  effectiveLr : Option Value := none

/-- One row of the batch, as the loss sees it beside its logits. -/
structure UnlikeRow (V : ℕ) where
  bad : Fin V
  good : Option (Fin V)
  trigger : Bool
  weight : ℝ

/-- The rows, from what was read of all samples field by field. -/
noncomputable def rowsOf (bads : List (Fin V)) (triggers : List Bool)
    (goods : List (Option (Fin V))) (weights : List ℚ) : List (UnlikeRow V) :=
  ((bads.zip triggers).zip (goods.zip weights)).map fun e => ⟨e.1.1, e.2.1, e.1.2, e.2.2⟩

/-- `log_probs.gather(-1, ids)`. -/
noncomputable def logProb (x : Fin V → ℝ) (k : Fin V) : ℝ := x k - logsumexp x

noncomputable def probBad (x : Fin V → ℝ) (bad : Fin V) : ℝ := Real.exp (logProb x bad)

/-- An entry of `ul_per_sample`. -/
noncomputable def unlikelihood (eps : ℝ) (x : Fin V → ℝ) (bad : Fin V) : ℝ :=
  -Real.log (max (1 - probBad x bad) eps)

/-- An entry of `sft_per_sample`. -/
noncomputable def teacherLoss (x : Fin V → ℝ) (good : Option (Fin V)) : ℝ :=
  good.elim 0 fun g => -logProb x g

/-- An entry of `per_sample`. -/
noncomputable def rowLoss (args : UnlikeArgs) (r : UnlikeRow V) (x : Fin V → ℝ) : ℝ :=
  (if r.trigger then unlikelihood args.eps x r.bad else 0) +
    args.positiveWeight * teacherLoss x r.good

noncomputable def totalWeight (rows : List (UnlikeRow V)) : ℝ :=
  max (rows.map UnlikeRow.weight).sum 1e-6

/-- `loss`, from the logits at the last position of each row. -/
noncomputable def batchLoss (args : UnlikeArgs) (rows : List (UnlikeRow V))
    (last : ℕ → Fin V → ℝ) : ℝ :=
  (∑ i ∈ Finset.range rows.length,
    rows[i]?.elim 0 fun r => rowLoss args r (last i) * r.weight) / totalWeight rows

structure UnlikeReport (V : ℕ) where
  warnings : List UnlikeWarning
  loss : ℝ
  ul : ℝ
  sft : ℝ
  triggered : ℕ
  n : ℕ
  pBadMean : ℝ
  rankBadMean : ℝ
  positiveWeight : ℝ
  targetPositions : List (List ℤ)
  targetTokenIds : List (List ℤ)
  inputIds : List (List ℤ)
  attentionMask : List (List ℕ)

/-- What a row with a teacher gives to `target_positions` and `target_token_ids`. -/
def targetOf (goods : List (Option ℤ)) (values : List ℤ) : List (List ℤ) :=
  List.zipWith (fun good v => good.elim [] fun _ => [v]) goods values

/-- The thresholds of a sample, or else those of the call. -/
noncomputable def triggerOf (args : UnlikeArgs) (x : Fin V → ℝ) (s : Sample) (bad : Fin V) :
    Except PyError Bool :=
  shouldTrigger (rankBad x bad) (probBad x bad)
    ((s.lookup "rank_below").getD args.defaultRankBelow)
    ((s.lookup "prob_above").getD args.defaultProbAbove)

/-- `components`, and the tensors of the batch. -/
noncomputable def reportOf (args : UnlikeArgs) (warnings : List UnlikeWarning)
    (batch : PaddedPrefixes) (last : ℕ → Fin V → ℝ) (goodIds : List (Option ℤ))
    (rows : List (UnlikeRow V)) : UnlikeReport V where
  warnings := warnings
  loss := batchLoss args rows last
  ul := (rows.zipIdx.map fun ri =>
      if ri.1.trigger then unlikelihood args.eps (last ri.2) ri.1.bad else 0).sum /
    max (rows.countP UnlikeRow.trigger) 1
  sft := (rows.zipIdx.map fun ri => teacherLoss (last ri.2) ri.1.good).sum /
    max (rows.countP fun r => r.good.isSome) 1
  triggered := rows.countP UnlikeRow.trigger
  n := rows.length
  pBadMean := (rows.zipIdx.map fun ri => probBad (last ri.2) ri.1.bad).sum / rows.length
  rankBadMean := (rows.zipIdx.map fun ri => (rankBad (last ri.2) ri.1.bad : ℝ)).sum / rows.length
  positiveWeight := args.positiveWeight
  targetPositions := targetOf goodIds batch.lastIdx
  targetTokenIds := goodIds.map fun good => good.elim [] fun t => [t]
  inputIds := batch.inputIds
  attentionMask := batch.attentionMask

/-- A forward pass on ids and attention mask. -/
abbrev PrefixForward (V : ℕ) :=
  List (List ℤ) → Option (List (List ℕ)) → Except PyError (Logits V)

/-- `unlike_loss`. -/
noncomputable def unlikeLoss (parseInt : String → Option ℤ) (parseFloat : String → Option ℚ)
    (forward : PrefixForward V) (tok : Tokenizer) (samples : List Sample) (args : UnlikeArgs) :
    Except PyError (UnlikeReport V) := do
  if samples.isEmpty then throw ⟨.valueError, "unlike_loss requires at least one sample"⟩
  let warnings ← checkPreconditions samples args.batchObjectives args.allowUnanchored
    args.effectiveLr
  let batch ← unlikeBatch tok samples
  let logits ← forward batch.inputIds (some batch.attentionMask)
  let badIds ← samples.mapM (badTokenId parseInt)
  let bads ← badIds.mapM (gatherIndex V)
  let triggers ← (samples.zip bads).zipIdx.mapM fun sb =>
    triggerOf args (lastLogits batch logits sb.2) sb.1.1 sb.1.2
  let goodIds ← samples.mapM (goodTokenId parseInt)
  let goods ← goodIds.mapM (gatherGood V)
  let weights ← samples.mapM (sampleWeight parseFloat)
  return reportOf args warnings batch (lastLogits batch logits) goodIds
    (rowsOf bads triggers goods weights)

end Trainfer.Unlike
