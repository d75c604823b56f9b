import Trainfer.Objective
import Trainfer.Lib.Slices

/-! Tokenized batches: `build_chat_inputs`, `pad_and_stack` and `extract_target_positions`.

The tokenizer is a parameter; what it returns is taken as the integers that `_to_int_list` makes
of it. -/

namespace Trainfer

structure ChatTokenizer where
  padTokenId : Option ℤ
  eosTokenId : Option ℤ
  /-- It has a template. -/
  chatTemplate : Bool
  /-- It has an `image_processor` or a `video_processor`. -/
  isProcessor : Bool
  /-- `apply_chat_template(messages, add_generation_prompt=..)`. -/
  applyChatTemplate : List Value → Bool → Except PyError (List ℤ)
  /-- `tokenizer(text=.., add_special_tokens=False).input_ids`. -/
  encode : String → Except PyError (List ℤ)
  decode : List ℤ → String

/-- What a sample gives to `build_chat_inputs`. -/
structure ChatSample where
  prompt : String
  response : String
  spanPrefix : Option String := none

/-- The tensors of one sample. -/
structure TokenRow where
  inputIds : List ℤ
  labels : Option (List ℤ) := none
  attentionMask : Option (List ℤ) := none
  labels_length : ∀ l ∈ labels, l.length = inputIds.length := by simp
  mask_length : ∀ m ∈ attentionMask, m.length = inputIds.length := by simp

structure TokenBatch where
  inputIds : List (List ℤ)
  labels : List (List ℤ)
  attentionMask : List (List ℤ)

namespace ChatTokenizer

variable (tok : ChatTokenizer)

/-- `tokenizer.pad_token_id or tokenizer.eos_token_id or 0`. -/
def padId : ℤ := ((tok.padTokenId.filter (· != 0)).or (tok.eosTokenId.filter (· != 0))).getD 0

/-- A chat message; a processor wants a list of blocks. -/
def message (role text : String) : Value :=
  let content := if tok.isProcessor then .list [.dict [("type", .str "text"), ("text", .str text)]]
    else .str text
  .dict [("role", .str role), ("content", content)]

/-- The tokens of the prompt, and of the prompt with the response. -/
def encodePair (prompt response : String) : Except PyError (List ℤ × List ℤ) := do
  if tok.chatTemplate then
    let messagesPrompt := [tok.message "user" prompt]
    let promptIds ← tok.applyChatTemplate messagesPrompt true
    let fullIds ← tok.applyChatTemplate (messagesPrompt ++ [tok.message "assistant" response]) false
    return (promptIds, fullIds)
  else
    let promptIds ← tok.encode prompt
    let fullIds ← tok.encode (prompt ++ response)
    return (promptIds, fullIds)

/-- The first slice behind the prompt whose text ends with `span_prefix`, by its end. -/
def resolveSpan (fullIds : List ℤ) (n : ℕ) (spanPrefix : String) : Option ℕ :=
  (List.range' n (fullIds.length + 1 - n)).find? fun pl =>
    spanPrefix.toList.isSuffixOf (tok.decode ((fullIds.take pl).drop n)).toList

/-- `prefix_len`. -/
def prefixLen (fullIds : List ℤ) (n : ℕ) : Option String → ℕ
  | none => n
  | some spanPrefix =>
    if spanPrefix.isEmpty then n else (tok.resolveSpan fullIds n spanPrefix).getD n

end ChatTokenizer

/-- The labels from `prefix_len` on. -/
def labelsFrom (fullIds : List ℤ) (prefixLen : ℕ) : List ℤ :=
  let labels := List.replicate prefixLen (-100) ++ fullIds.drop prefixLen
  let labels := labels.take fullIds.length
  if labels.length < fullIds.length then labels ++ fullIds.drop labels.length else labels

theorem labelsFrom_eq (fullIds : List ℤ) (n : ℕ) : labelsFrom fullIds n =
    List.replicate (min n fullIds.length) (-100) ++ fullIds.drop n := by
  have hlength : ((List.replicate n (-100 : ℤ) ++ fullIds.drop n).take fullIds.length).length =
      fullIds.length := by
    simp only [List.length_take, List.length_append, List.length_replicate, List.length_drop]
    omega
  have hdrop : (fullIds.drop n).take (fullIds.length - n) = fullIds.drop n :=
    List.take_of_length_le (by simp)
  simp only [labelsFrom, hlength, lt_irrefl, if_false]
  rw [List.take_append, List.take_replicate, List.length_replicate, hdrop, min_comm]

theorem length_labelsFrom (fullIds : List ℤ) (n : ℕ) :
    (labelsFrom fullIds n).length = fullIds.length := by
  rw [labelsFrom_eq, List.length_append, List.length_replicate, List.length_drop]
  omega

/-- `build_chat_inputs`. -/
def buildChatInputs (tok : ChatTokenizer) (s : ChatSample) (maxLen : ℤ) :
    Except PyError TokenRow := do
  let (promptIds, fullIds) ← tok.encodePair s.prompt s.response
  let fullIds := Slices.sliceTo fullIds maxLen
  let promptIds :=
    if fullIds.length < promptIds.length then promptIds.take fullIds.length else promptIds
  let prefixLen := tok.prefixLen fullIds promptIds.length s.spanPrefix
  return {
    inputIds := fullIds
    labels := some (labelsFrom fullIds prefixLen)
    attentionMask := some (List.replicate fullIds.length 1)
    labels_length := by simp [length_labelsFrom]
    mask_length := by simp }

/-! ## Batches -/

/-- A row of a batch, filled up on the right. -/
def padRow (width : ℕ) (fill : ℤ) (row : List ℤ) : List ℤ :=
  row ++ List.replicate (width - row.length) fill

/-- The size of a batch; `max` of nothing raises. -/
def batchWidth (rows : List TokenRow) : Except PyError ℕ :=
  match (rows.map fun t => t.inputIds.length).max? with
  | some width => .ok width
  | none => .error ⟨.valueError, "max() iterable argument is empty"⟩

/-- `pad_and_stack`. -/
def padAndStack (rows : List TokenRow) (padId : ℤ) : Except PyError TokenBatch := do
  let width ← batchWidth rows
  return {
    inputIds := rows.map fun t => padRow width padId t.inputIds
    labels := rows.map fun t => padRow width (-100) (t.labels.getD [])
    attentionMask := rows.map fun t =>
      padRow width 0 (t.attentionMask.getD (List.replicate t.inputIds.length 1)) }

/-- `extract_target_positions`. -/
def extractTargetPositions (labels : List (List ℤ)) : List (List ℕ) × List (List ℤ) :=
  let shifted := labels.map List.tail
  (shifted.map fun row => (row.zipIdx.filter fun e => e.1 != -100).map Prod.snd,
    shifted.map fun row => row.filter (· != -100))

/-- `(labels[:, 1:] != -100).sum(dim=-1).clamp_min(1)`. -/
def tokenCounts (labels : List (List ℤ)) : List ℕ :=
  labels.map fun row => max (row.tail.countP (· != -100)) 1

end Trainfer
