import Trainfer.Feedback
import Trainfer.Objective
import Trainfer.Lib.Gibbs

/-! The target-position scope of `kl_anchor_loss`: one position of each sample, with tokens that
the anchor leaves alone. Logits are real, and what is masked is minus infinity. -/

namespace Trainfer

/-! ## The excluded tokens -/

/-- `int(v)`; `parse` is the number that a string spells. -/
def intOf (parse : String → Option ℤ) : Value → Except PyError ℤ
  | .num q => .ok (q.num.tdiv q.den)
  | .bool b => .ok (if b then 1 else 0)
  | .str s =>
    match parse s with
    | some n => .ok n
    | none => .error ⟨.valueError, "invalid literal for int() with base 10: '" ++ s ++ "'"⟩
  | v => .error ⟨.typeError, "int() argument must be a string, a bytes-like object or a real " ++
      "number, not '" ++ v.typeName ++ "'"⟩

/-- What one sample adds to the explicit ids. -/
def deriveSample (parse : String → Option ℤ) (explicit : Finset ℤ) (s : Sample) :
    Except PyError (Finset ℤ) :=
  ["bad_token_id", "good_token_id"].foldlM (fun ids field =>
    match JsonObject.get s field with
    | .null => .ok ids
    | v => (intOf parse v).map fun id => insert id ids) explicit

/-- `_derive_exclude_ids`. -/
def deriveExcludeIds (parse : String → Option ℤ) (samples : List Sample)
    (explicit : Option (List ℤ)) : Except PyError (List (Finset ℤ)) :=
  samples.mapM (deriveSample parse (explicit.getD []).toFinset)

/-! ## The batch -/

/-- What the tokenizer makes of a text, a content of a chat turn, and its special tokens. -/
structure Tokenizer where
  padTokenId : Option ℤ
  eosTokenId : Option ℤ
  chatTemplate : Bool
  applyChatTemplate : Value → Except PyError (List ℤ)
  encode : Value → Except PyError (List ℤ)

namespace Tokenizer

/-- `tokenizer.pad_token_id or tokenizer.eos_token_id or 0`. -/
def padId (tok : Tokenizer) : ℤ :=
  ((tok.padTokenId.filter (· != 0)).or (tok.eosTokenId.filter (· != 0))).getD 0

end Tokenizer

structure PrefixBatch where
  inputIds : List (List ℤ)
  attentionMask : List (List ℕ)
  lastIdx : List ℕ

/-- The tokens of a text; a template that refuses a plain string gets a list of blocks. -/
def encodePrefix (tok : Tokenizer) (text : Value) : Except PyError (List ℤ) :=
  if tok.chatTemplate then
    match tok.applyChatTemplate text with
    | .ok ids => .ok ids
    | .error e =>
      if e.cls = .typeError then
        tok.applyChatTemplate (.list [.dict [("type", .str "text"), ("text", text)]])
      else .error e
  else tok.encode text

/-- The tokens of one sample's prefix, at least one. -/
def prefixIds (tok : Tokenizer) (s : Sample) : Except PyError (List ℤ) := do
  let ids ← encodePrefix tok
    (((JsonObject.get s "prefix").or (JsonObject.get s "prompt")).or (.str ""))
  return if ids.isEmpty then [tok.padId] else ids

/-- `_tokenize_prefixes_with_last_idx`. -/
def tokenizePrefixesWithLastIdx (tok : Tokenizer) (samples : List Sample) :
    Except PyError PrefixBatch := do
  let tokenized ← samples.mapM (prefixIds tok)
  let maxLen := (tokenized.map List.length).max?.getD 0
  return {
    inputIds := tokenized.map fun t => t ++ List.replicate (maxLen - t.length) tok.padId
    attentionMask := tokenized.map fun t =>
      List.replicate t.length 1 ++ List.replicate (maxLen - t.length) 0
    lastIdx := tokenized.map fun t => t.length - 1 }

/-! ## The divergence of a row -/

/-- An entry of masked logits, or of their log-softmax. -/
inductive Logit where
  | negInf
  | fin (x : ℝ)

noncomputable def Logit.exp : Logit → ℝ
  | negInf => 0
  | fin x => Real.exp x

section
variable {V : ℕ}

def maskedFill (mask : Fin V → Bool) (x : Fin V → ℝ) (j : Fin V) : Logit :=
  if mask j then .negInf else .fin (x j)

noncomputable def logSoftmax (x : Fin V → Logit) (j : Fin V) : Logit :=
  match x j with
  | .negInf => .negInf
  | .fin a => .fin (a - Real.log (∑ i, (x i).exp))

/-- `F.kl_div(input, target, reduction="none", log_target=True)` at one entry. An entry that is
minus infinity is masked out afterwards. -/
noncomputable def klDiv : Logit → Logit → ℝ
  | .fin input, .fin target => Real.exp target * (target - input)
  | _, _ => 0

/-- One row: both sides masked before the softmax, and the terms masked again. -/
noncomputable def klRow (mask : Fin V → Bool) (logits ref : Fin V → ℝ) : ℝ :=
  let logP := logSoftmax (maskedFill mask logits)
  let logQ := logSoftmax (maskedFill mask ref)
  ∑ j, if mask j then 0 else klDiv (logQ j) (logP j)

/-- The mask of a row; ids outside the vocabulary mask nothing. -/
def excludeMask (excluded : Finset ℤ) (j : Fin V) : Bool := decide ((j : ℤ) ∈ excluded)

/-- The ids that mask something, over all rows. -/
def excludedTotal (V : ℕ) (excluded : List (Finset ℤ)) : ℕ :=
  (excluded.map fun ids => (ids.filter fun id => 0 ≤ id ∧ id < (V : ℤ)).card).sum

/-! ## The loss -/

/-- The logits of a forward pass, by row, position and token. -/
abbrev Logits (V : ℕ) := ℕ → ℕ → Fin V → ℝ

structure AnchorLoss where
  loss : ℝ
  kl : ℝ
  klWeight : ℝ
  klScope : String
  klExcludedTotal : ℕ

/-- The mean of the rows' divergences at their last positions. -/
noncomputable def klMean (lastIdx : List ℕ) (excluded : List (Finset ℤ))
    (logits ref : Logits V) : ℝ :=
  (∑ i ∈ Finset.range lastIdx.length, klRow (excludeMask (excluded.getD i ∅))
    (logits i (lastIdx.getD i 0)) (ref i (lastIdx.getD i 0))) / lastIdx.length

/-- `_target_position_kl`, with the forward passes of the policy and of the reference. -/
noncomputable def targetPositionKl (tok : Tokenizer)
    (policy reference : PrefixBatch → Except PyError (Logits V)) (samples : List Sample)
    (weight : ℝ) (excluded : List (Finset ℤ)) : Except PyError AnchorLoss := do
  if samples.isEmpty then
    throw ⟨.valueError, "kl_anchor_loss requires at least one sample"⟩
  let batch ← tokenizePrefixesWithLastIdx tok samples
  let logits ← policy batch
  let ref ← reference batch
  let mean := klMean batch.lastIdx excluded logits ref
  return {
    loss := weight * mean
    kl := mean
    klWeight := weight
    klScope := "target_position"
    klExcludedTotal := excludedTotal V excluded }

end

end Trainfer
