import Trainfer.FactVerifier
import Trainfer.SequenceLogprob

/-! `ccd_loss`: a context is distilled into the adapter.

The teacher is the model without its adapter and reads context and prompt, the student is the model
with it and reads the prompt alone. Which of their positions are compared depends on the tokens
only, through the attention masks (`spanPositions`). Numbers are exact, apart from the mean of
nothing. -/

namespace Trainfer

structure CcdSample where
  context : String := ""
  prompt : String := ""
  response : Option String := none
  spanPrefix : Option String := none
  probeKind : Option String := none
  facts : List String := []

/-! ## Tokens -/

namespace ChatTokenizer

variable (tok : ChatTokenizer)

/-- The tokens of a user's turn. -/
def encodeProbe (text : String) : Except PyError (List ℤ) :=
  if tok.chatTemplate then tok.applyChatTemplate [tok.message "user" text] true
  else tok.encode text

/-- `t_ids` and `s_ids` of a sample; the plain encoding of the prompt is not used. -/
def encodeProbes (s : CcdSample) : Except PyError (List ℤ × List ℤ) := do
  let _ ← tok.encode s.prompt
  let tIds ← tok.encodeProbe (s.context ++ "\n\n" ++ s.prompt)
  let sIds ← tok.encodeProbe s.prompt
  return (tIds, sIds)

end ChatTokenizer

structure ProbeBatch where
  studentRows : List TokenRow
  teacher : TokenBatch
  student : TokenBatch

/-- The first part of `ccd_loss`. -/
def probeBatch (tok : ChatTokenizer) (samples : List CcdSample) : Except PyError ProbeBatch := do
  let tokenized ← samples.mapM tok.encodeProbes
  let studentRows : List TokenRow := tokenized.map fun ids => { inputIds := ids.2 }
  let teacher ← padAndStack (tokenized.map fun ids => { inputIds := ids.1 }) tok.padId
  let student ← padAndStack studentRows tok.padId
  return ⟨studentRows, teacher, student⟩

/-! ## Spans -/

namespace TokenBatch

/-- `mask[i].sum()`. -/
def realLength (batch : TokenBatch) (i : ℕ) : ℤ := (batch.attentionMask.getD i []).sum

/-- The positions of a row, padding included. -/
def positions (batch : TokenBatch) (i : ℕ) : List ℕ :=
  List.range (batch.inputIds.getD i []).length

end TokenBatch

/-- `start_t`. -/
def startT (lT lS : ℤ) : ℤ := if lT - lS < 0 then 0 else lT - lS

/-- The positions of the teacher and of the student in `[start_t : L_t - cut]` and
`[0 : L_s - cut]`. -/
def spanPositions (batch : ProbeBatch) (i : ℕ) (cut : ℤ) : List ℕ × List ℕ :=
  let lT := batch.teacher.realLength i
  let lS := batch.student.realLength i
  (Slices.between (batch.teacher.positions i) (startT lT lS) (lT - cut),
    Slices.between (batch.student.positions i) 0 (lS - cut))

/-- The positions whose logits are compared. -/
def klPositions (batch : ProbeBatch) (i : ℕ) : List ℕ × List ℕ := spanPositions batch i 1

/-- The positions whose hidden states are compared. -/
def hiddenPositions (batch : ProbeBatch) (i : ℕ) : List ℕ × List ℕ := spanPositions batch i 0

/-! ## Means and divergences -/

/-- A float; `none` is NaN. -/
abbrev NanReal := Option ℝ

/-- `t.mean()`. -/
noncomputable def tensorMean (xs : List ℝ) : NanReal :=
  if xs.isEmpty then none else some (xs.sum / xs.length)

/-- `0.0 + ..`, which is NaN if one of the summands is. -/
noncomputable def nanSum (xs : List NanReal) : NanReal := (xs.mapM id).map List.sum

section
variable {V D : ℕ}

/-- KL(target || input) of one position. -/
noncomputable def klPosition (input target : Fin V → ℝ) : ℝ :=
  ∑ v, klDiv (.fin (input v - logsumexp input)) (.fin (target v - logsumexp target))

/-- `chunked_kl_div`. -/
noncomputable def chunkedKlDiv (inputLogits targetLogits : List (Fin V → ℝ)) (chunkSize : ℕ) :
    Except PyError (List ℝ) :=
  if inputLogits.length = targetLogits.length then
    .ok ((Slices.starts inputLogits.length chunkSize).map fun i =>
      List.zipWith klPosition (Slices.slice inputLogits chunkSize i)
        (Slices.slice targetLogits chunkSize i)).flatten
  else .error ⟨.other "AssertionError", ""⟩

/-- The chunks make no difference. -/
theorem chunkedKlDiv_eq {inputLogits targetLogits : List (Fin V → ℝ)} {chunkSize : ℕ}
    (hchunk : 0 < chunkSize) (h : inputLogits.length = targetLogits.length) :
    chunkedKlDiv inputLogits targetLogits chunkSize =
      .ok (List.zipWith klPosition inputLogits targetLogits) := by
  have hchunks : ∀ i, List.zipWith klPosition (Slices.slice inputLogits chunkSize i)
      (Slices.slice targetLogits chunkSize i) =
        Slices.slice (List.zipWith klPosition inputLogits targetLogits) chunkSize i :=
    fun i => (Slices.slice_zipWith klPosition inputLogits targetLogits chunkSize i).symm
  have hlength : (List.zipWith klPosition inputLogits targetLogits).length ≤
      inputLogits.length := by
    rw [List.length_zipWith, h, min_self]
  rw [chunkedKlDiv, if_pos h, List.map_congr_left fun i _ => hchunks i,
    Slices.flatten_slices _ hchunk hlength]

/-- The rows of two tensors; a single one goes with every row of the other. -/
def broadcastRows {α : Type} (xs ys : List α) : Except PyError (List (α × α)) :=
  if xs.length = ys.length then .ok (xs.zip ys)
  else match xs, ys with
    | [x], _ => .ok (ys.map fun y => (x, y))
    | _, [y] => .ok (xs.map fun x => (x, y))
    | _, _ => .error ⟨.runtimeError, "The size of tensor a (" ++ toString xs.length ++
        ") must match the size of tensor b (" ++ toString ys.length ++
        ") at non-singleton dimension 0"⟩

/-- `F.mse_loss`. -/
noncomputable def mseLoss (input target : List (Fin D → ℝ)) : Except PyError NanReal := do
  let rows ← broadcastRows input target
  return tensorMean (rows.flatMap fun (x, y) => List.ofFn fun d => (x d - y d) ^ 2)

/-! ## The loss -/

/-- Hidden states are by layer, row and position. -/
structure ModelOutput (V D : ℕ) where
  logits : Logits V
  hiddenStates : List (ℕ → ℕ → Fin D → ℝ)

/-- What `ccd_loss` asks of the model. -/
structure DistillModel (V D : ℕ) where
  hasDisableAdapter : Bool
  /-- The forward pass with the adapter switched off. -/
  teacher : List (List ℤ) → List (List ℤ) → Except PyError (ModelOutput V D)
  student : List (List ℤ) → List (List ℤ) → Except PyError (ModelOutput V D)
  /-- `model.generate` on the ids and the mask of one row, with its padding id. -/
  generate : List ℤ → List ℤ → ℤ → Except PyError (List ℤ)
  /-- `tokenizer.decode(gen, skip_special_tokens=True)`. -/
  decode : List ℤ → String

structure CcdArgs where
  klWeight : ℝ := 1
  matchHidden : Bool := true
  hiddenWeight : ℝ := 0.5
  hiddenLayers : Option (List ℤ) := none
  sftWeight : ℝ := 1

/-- The loss and its components. -/
structure CcdReport where
  loss : NanReal
  ccdKl : NanReal
  ccdHidden : Option NanReal
  ccdSft : Option ℝ
  factRetentionMean : Option ℚ

/-- `hiddens[layer_idx]`. -/
def hiddenLayer {α : Type} (hiddens : List α) (layerIdx : ℤ) : Except PyError α :=
  let k := if layerIdx < 0 then layerIdx + hiddens.length else layerIdx
  match if k < 0 then none else hiddens[k.toNat]? with
  | some layer => .ok layer
  | none => .error ⟨.indexError, "tuple index out of range"⟩

/-- `sample_mse / len(hidden_layers)`. -/
noncomputable def sampleMse (teacher student : ModelOutput V D) (hiddenLayers : List ℤ)
    (i : ℕ) (positions : List ℕ × List ℕ) : Except PyError NanReal := do
  let terms ← hiddenLayers.mapM fun layerIdx => do
    let tHiddens ← hiddenLayer teacher.hiddenStates layerIdx
    let sHiddens ← hiddenLayer student.hiddenStates layerIdx
    mseLoss (positions.2.map (sHiddens i)) (positions.1.map (tHiddens i))
  if hiddenLayers.isEmpty then
    throw ⟨.other "ZeroDivisionError", "float division by zero"⟩
  return (nanSum terms).map (· / (hiddenLayers.length : ℝ))

/-- The score of a fact probe; other samples have none. -/
def probeScore (lib : TextLib) (m : DistillModel V D) (padId : ℤ) (s : CcdSample)
    (row : TokenRow) : Except PyError (Option ℚ) := do
  if s.probeKind = some "fact" ∧ s.facts ≠ [] then
    let outs ← m.generate row.inputIds (List.replicate row.inputIds.length 1) padId
    let gen := outs.drop row.inputIds.length
    let genText := lib.strip (m.decode gen).toList
    return some (lib.verifyFacts genText (s.facts.map String.toList))
  else return none

/-- An entry of `sample_kl_weights`. -/
def sampleKlWeight (score : Option ℚ) : ℚ := (score.map (1.5 - ·)).getD 1

/-- A sample weighs at least a half, however well it does. -/
theorem sampleKlWeight_mem {lib : TextLib} {m : DistillModel V D} {padId : ℤ} {s : CcdSample}
    {row : TokenRow} {score : Option ℚ} (h : probeScore lib m padId s row = .ok score) :
    1 / 2 ≤ sampleKlWeight score ∧ sampleKlWeight score ≤ 3 / 2 := by
  unfold probeScore at h
  split at h
  · obtain ⟨outs, -, h⟩ := bind_ok h
    cases h
    obtain ⟨hnonneg, hle⟩ := lib.verifyFacts_mem
      (lib.strip (m.decode (outs.drop row.inputIds.length)).toList) (s.facts.map String.toList)
    simp only [sampleKlWeight, Option.map_some, Option.getD_some]
    constructor
    · linarith
    · linarith
  · cases h
    norm_num [sampleKlWeight]

/-- What one sample adds to `kl_mean_sum` and to `mse_mean_sum`. -/
noncomputable def sampleTerms (batch : ProbeBatch) (teacher student : ModelOutput V D)
    (args : CcdArgs) (score : Option ℚ) (i : ℕ) : Except PyError (NanReal × NanReal) := do
  let tChunk := (klPositions batch i).1.map (teacher.logits i)
  let sChunk := (klPositions batch i).2.map (student.logits i)
  let klPerToken ← chunkedKlDiv sChunk tChunk 128
  let kl := tensorMean klPerToken
  let mse ←
    if args.matchHidden then
      sampleMse teacher student (args.hiddenLayers.getD [-1, -2, -3, -4]) i
        (hiddenPositions batch i)
    else pure (some 0)
  return (kl.map (· * (sampleKlWeight score : ℝ)), mse)

/-- A sample whose response is neither missing nor empty, for `sft_loss`. -/
def CcdSample.toSft (s : CcdSample) : Option ChatSample :=
  (s.response.filter (· != "")).map fun response => ⟨s.prompt, response, s.spanPrefix⟩

/-- The response term, if there is a response. -/
noncomputable def sftTerm (tok : ChatTokenizer) (m : DistillModel V D)
    (samples : List CcdSample) : Except PyError (Option ℝ) := do
  let sftSamples := samples.filterMap CcdSample.toSft
  if sftSamples.isEmpty then return none
  let report ← sftLoss (fun ids mask => (m.student ids mask).map ModelOutput.logits) tok
    sftSamples
  return some report.loss

/-- `ccd_loss`. -/
noncomputable def ccdLoss (lib : TextLib) (tok : ChatTokenizer) (m : DistillModel V D)
    (samples : List CcdSample) (args : CcdArgs) : Except PyError CcdReport := do
  if samples.isEmpty then throw ⟨.valueError, "ccd_loss requires at least one sample"⟩
  if !m.hasDisableAdapter then
    throw ⟨.valueError, "ccd_loss requires a model with disable_adapter() (e.g. PEFT)"⟩
  let batch ← probeBatch tok samples
  let teacher ← m.teacher batch.teacher.inputIds batch.teacher.attentionMask
  let student ← m.student batch.student.inputIds batch.student.attentionMask
  let scores ← (samples.zip batch.studentRows).mapM fun (s, row) =>
    probeScore lib m tok.padId s row
  let terms ← scores.zipIdx.mapM fun (score, i) =>
    sampleTerms batch teacher student args score i
  let kl : NanReal := (nanSum (terms.map Prod.fst)).map (· / (samples.length : ℝ))
  let mse : NanReal := (nanSum (terms.map Prod.snd)).map (· / (samples.length : ℝ))
  let hidden := if args.matchHidden then some mse else none
  let sft ← sftTerm tok m samples
  let scored := scores.filterMap id
  return {
    loss := nanSum (kl.map (args.klWeight * ·) ::
      ((hidden.map (·.map (args.hiddenWeight * ·))).toList ++
        (sft.map fun loss => some (args.sftWeight * loss)).toList))
    ccdKl := kl
    ccdHidden := hidden
    ccdSft := sft
    factRetentionMean := if scored.isEmpty then none else some (scored.sum / scored.length) }

end

end Trainfer
