import Trainfer.ChatInputs
import Trainfer.Safety

/-! `sequence_logprob`, its mean, and `sft_loss`. Numbers are exact, and the forward pass is a
parameter. -/

namespace Trainfer

variable {V : ℕ}

/-- An entry of `-F.cross_entropy(.., ignore_index=-100, reduction="none")`. -/
noncomputable def tokenLogprob (logits : Fin V → ℝ) (label : ℤ) : Except PyError ℝ :=
  if label = -100 then .ok 0
  else if h : 0 ≤ label ∧ label < V then
    .ok (logits ⟨label.toNat, by omega⟩ - logsumexp logits)
  else .error ⟨.indexError, "Target " ++ toString label ++ " is out of bounds."⟩

/-- The forward pass on ids and attention mask. -/
abbrev Forward (V : ℕ) := List (List ℤ) → List (List ℤ) → Except PyError (Logits V)

/-- `sequence_logprob`. -/
noncomputable def sequenceLogprob (forward : Forward V) (inputIds labels : List (List ℤ))
    (attentionMask : Option (List (List ℤ))) : Except PyError (List ℝ) := do
  let mask := attentionMask.getD
    (inputIds.map fun row => row.map fun id => if id = 0 then 0 else 1)
  let logits ← forward inputIds mask
  labels.zipIdx.mapM fun (row, i) => do
    let terms ← row.tail.zipIdx.mapM fun (label, p) => tokenLogprob (logits i p) label
    return terms.sum

/-- The sums, each divided by a number of tokens. -/
noncomputable def perToken (summed : List ℝ) (counts : List ℕ) : List ℝ :=
  List.zipWith (fun s n => s / n) summed counts

/-- `sequence_logprob_mean`. -/
noncomputable def sequenceLogprobMean (forward : Forward V) (inputIds labels : List (List ℤ))
    (attentionMask : Option (List (List ℤ))) : Except PyError (List ℝ) := do
  let summed ← sequenceLogprob forward inputIds labels attentionMask
  return perToken summed (tokenCounts labels)

/-- The loss, which is also its component `sft_nll`, and the tensors of the batch. -/
structure SftReport where
  loss : ℝ
  targetPositions : List (List ℕ)
  targetTokenIds : List (List ℤ)
  inputIds : List (List ℤ)
  attentionMask : List (List ℤ)

/-- `sft_loss`. -/
noncomputable def sftLoss (forward : Forward V) (tok : ChatTokenizer)
    (samples : List ChatSample) : Except PyError SftReport := do
  if samples.isEmpty then throw ⟨.valueError, "sft_loss requires at least one sample"⟩
  let tokenized ← samples.mapM fun s => buildChatInputs tok s 2048
  let batch ← padAndStack tokenized tok.padId
  let summed ← sequenceLogprob forward batch.inputIds batch.labels (some batch.attentionMask)
  let means := perToken summed (tokenCounts batch.labels)
  let targets := extractTargetPositions batch.labels
  return {
    loss := -(means.sum / means.length)
    targetPositions := targets.1
    targetTokenIds := targets.2
    inputIds := batch.inputIds
    attentionMask := batch.attentionMask }

end Trainfer
