import Trainfer.TargetAnchor

/-! Does the anchor of `unlike` look at the positions that `unlike` moves? Both tokenize and pad
the prefixes of the same samples, in code of their own: the anchor falls back to `prompt` on a
falsy prefix, calls a template again with a list of blocks, and puts a pad token where a text has
no tokens. `sameGeometry_iff` says for which tokenizers and samples the batches are the same. -/

namespace Trainfer.Unlike

/-! ## The batch of `unlike` -/

structure PaddedPrefixes where
  inputIds : List (List ℤ)
  attentionMask : List (List ℕ)
  lastIdx : List ℤ

/-- One call of the tokenizer, on the text as a chat turn where there is a template. -/
def prefixIds (tok : Tokenizer) (text : Value) : Except PyError (List ℤ) :=
  if tok.chatTemplate then tok.applyChatTemplate text else tok.encode text

/-- A row without tokens keeps its mask at zero, and its `last_idx` is -1. -/
def padPrefixes (tokenized : List (List ℤ)) (padId : ℤ) : PaddedPrefixes :=
  let maxLen := (tokenized.map List.length).max?.getD 0
  { inputIds := tokenized.map fun t => t ++ List.replicate (maxLen - t.length) padId
    attentionMask := tokenized.map fun t =>
      List.replicate t.length 1 ++ List.replicate (maxLen - t.length) 0
    lastIdx := tokenized.map fun t => (t.length : ℤ) - 1 }

/-- `s["prefix"]`. -/
def prefixField (s : Sample) : Except PyError Value :=
  match s.lookup "prefix" with
  | none => .error ⟨.keyError, "'prefix'"⟩
  | some text => .ok text

/-- What `unlike_loss` does between its gate and its forward pass, on at least one sample. -/
def unlikeBatch (tok : Tokenizer) (samples : List Sample) : Except PyError PaddedPrefixes := do
  let tokenized ← samples.mapM fun s => prefixField s >>= prefixIds tok
  return padPrefixes tokenized tok.padId

/-- `logits[row_idx, last_idx]`; the index -1 is the last column. -/
def lastLogits {V : ℕ} (batch : PaddedPrefixes) (logits : Logits V) (i : ℕ) : Fin V → ℝ :=
  let last := batch.lastIdx.getD i 0
  logits i (if last < 0 then ((batch.inputIds.getD i []).length + last).toNat else last.toNat)

/-! ## One geometry -/

/-- The anchor's batch, in the types of `unlike`. -/
def anchorBatch (batch : PrefixBatch) : PaddedPrefixes :=
  ⟨batch.inputIds, batch.attentionMask, batch.lastIdx.map Nat.cast⟩

/-- Every `last_idx` is a position of its row whose mask is 1. -/
def LastReal (batch : PaddedPrefixes) : Prop :=
  ∀ i < batch.lastIdx.length, ∃ t : ℕ, batch.lastIdx.getD i 0 = t ∧
    t < (batch.inputIds.getD i []).length ∧ (batch.attentionMask.getD i []).getD t 0 = 1

/-- A batch that `unlike` or its anchor builds is built by the other too, with real last
positions. -/
def SameGeometry (tok : Tokenizer) (samples : List Sample) : Prop :=
  ∀ batch, ((tokenizePrefixesWithLastIdx tok samples).map anchorBatch = .ok batch ↔
      unlikeBatch tok samples = .ok batch) ∧
    (unlikeBatch tok samples = .ok batch → LastReal batch)

/-! ## What the tokenizer does with the texts -/

/-- The tokenizer's answer to a plain text, put in a chat turn where there is a template. -/
def Answers (tok : Tokenizer) (text : Value) (answer : Except PyError (List ℤ)) : Prop :=
  tok.chatTemplate = true ∧ tok.applyChatTemplate text = answer ∨
    tok.chatTemplate = false ∧ tok.encode text = answer

/-- The tokenizer makes `ids` of the text, or its template refuses the plain string with a
`TypeError` and makes `ids` of a list of blocks. -/
def MakesTokens (tok : Tokenizer) (text : Value) (ids : List ℤ) : Prop :=
  Answers tok text (.ok ids) ∨
    tok.chatTemplate = true ∧ (∃ message, Answers tok text (.error ⟨.typeError, message⟩)) ∧
      tok.applyChatTemplate (.list [.dict [("type", .str "text"), ("text", text)]]) = .ok ids

/-- What the anchor reads where the prefix is falsy. -/
def fallbackText (s : Sample) : Value := (JsonObject.get s "prompt").or (.str "")

def anchorText (s : Sample) : Value :=
  ((JsonObject.get s "prefix").or (JsonObject.get s "prompt")).or (.str "")

/-- No text has no tokens for the anchor. -/
def orPad (tok : Tokenizer) (ids : List ℤ) : List ℤ := if ids.isEmpty then [tok.padId] else ids

/-- The plain prefix has tokens; if the prefix is falsy, the text behind it has the same. -/
def SharesTokens (tok : Tokenizer) (s : Sample) : Prop :=
  ∃ text, s.lookup "prefix" = some text ∧ ∃ ids ≠ [], Answers tok text (.ok ids) ∧
    (text.truthy = true ∨ ∃ raw, MakesTokens tok (fallbackText s) raw ∧ orPad tok raw = ids)

/-- There is no prefix, or the tokenizer refuses it. -/
def PrefixRefused (tok : Tokenizer) (s : Sample) : Prop :=
  ∀ text, s.lookup "prefix" = some text → ∀ ids, ¬ Answers tok text (.ok ids)

/-- The tokenizer refuses the text that the anchor reads, also as blocks. -/
def TextRefused (tok : Tokenizer) (s : Sample) : Prop :=
  ∀ ids, ¬ MakesTokens tok (anchorText s) ids

variable {tok : Tokenizer} {samples : List Sample} {s : Sample} {text : Value} {ids : List ℤ}
  {tokenized : List (List ℤ)} {padId : ℤ}

/-! ## One sample -/

theorem prefixIds_eq_iff {answer : Except PyError (List ℤ)} :
    prefixIds tok text = answer ↔ Answers tok text answer := by
  unfold prefixIds Answers
  cases tok.chatTemplate with
  | true => simp
  | false => simp

theorem encodePrefix_eq_ok_iff : encodePrefix tok text = .ok ids ↔ MakesTokens tok text ids := by
  simp only [MakesTokens, ← prefixIds_eq_iff]
  unfold encodePrefix prefixIds
  cases tok.chatTemplate with
  | false => simp
  | true =>
    cases tok.applyChatTemplate text with
    | ok raw => simp
    | error e =>
      obtain ⟨cls, message⟩ := e
      by_cases hcls : cls = .typeError
      · simp [hcls]
      · simp [hcls]

theorem prefixRound_eq_ok_iff : (prefixField s >>= prefixIds tok) = .ok ids ↔
    ∃ text, s.lookup "prefix" = some text ∧ Answers tok text (.ok ids) := by
  simp only [← prefixIds_eq_iff]
  unfold prefixField
  cases s.lookup "prefix" with
  | none => simp [bind, Except.bind]
  | some text => simp [bind, Except.bind]

theorem anchorRound_eq_ok_iff : Trainfer.prefixIds tok s = .ok ids ↔
    ∃ raw, MakesTokens tok (anchorText s) raw ∧ orPad tok raw = ids := by
  simp only [← encodePrefix_eq_ok_iff, anchorText]
  unfold Trainfer.prefixIds
  cases encodePrefix tok
      (((JsonObject.get s "prefix").or (JsonObject.get s "prompt")).or (.str "")) with
  | error e => simp [bind, Except.bind]
  | ok raw => simp [bind, Except.bind, pure, Except.pure, orPad]

theorem anchorText_of_truthy (hfield : s.lookup "prefix" = some text)
    (htext : text.truthy = true) : anchorText s = text := by
  simp [anchorText, JsonObject.get, hfield, Value.or, htext]

theorem anchorText_of_falsy (hfield : s.lookup "prefix" = some text)
    (htext : text.truthy = false) : anchorText s = fallbackText s := by
  have hget : JsonObject.get s "prefix" = text := by simp [JsonObject.get, hfield]
  have hor : text.or (JsonObject.get s "prompt") = JsonObject.get s "prompt" := by
    simp [Value.or, htext]
  rw [anchorText, fallbackText, hget, hor]

/-- The two rounds return the same tokens iff the sample's tokens are shared. -/
theorem sharesTokens_iff : SharesTokens tok s ↔
    ∃ ids, (prefixField s >>= prefixIds tok) = .ok ids ∧ Trainfer.prefixIds tok s = .ok ids := by
  simp only [prefixRound_eq_ok_iff]
  constructor
  · rintro ⟨text, hfield, ids, hne, htokens, hshared⟩
    refine ⟨ids, ⟨text, hfield, htokens⟩, ?_⟩
    cases htext : text.truthy with
    | true =>
      rw [anchorRound_eq_ok_iff, anchorText_of_truthy hfield htext]
      exact ⟨ids, .inl htokens, by simp [orPad, hne]⟩
    | false =>
      rw [anchorRound_eq_ok_iff, anchorText_of_falsy hfield htext]
      exact hshared.resolve_left (by simp [htext])
  · rintro ⟨ids, ⟨text, hfield, htokens⟩, hanchor⟩
    refine ⟨text, hfield, ids, prefixIds_ne_nil hanchor, htokens, ?_⟩
    cases htext : text.truthy with
    | true => exact .inl rfl
    | false =>
      rw [anchorRound_eq_ok_iff, anchorText_of_falsy hfield htext] at hanchor
      exact .inr hanchor

theorem prefixRefused_iff : PrefixRefused tok s ↔
    ∀ ids, (prefixField s >>= prefixIds tok) ≠ .ok ids := by
  simp only [PrefixRefused, Ne, prefixRound_eq_ok_iff, not_exists, not_and]
  exact ⟨fun h ids text hfield => h text hfield ids, fun h text hfield ids =>
    h ids text hfield⟩

theorem textRefused_iff : TextRefused tok s ↔ ∀ ids, Trainfer.prefixIds tok s ≠ .ok ids := by
  simp only [TextRefused, Ne, anchorRound_eq_ok_iff, not_exists, not_and]
  exact ⟨fun h ids raw hraw => (h raw hraw).elim, fun h raw hraw => h (orPad tok raw) raw hraw rfl⟩

/-! ## The batch -/

/-- The rows without their padding. -/
def unpad (batch : PaddedPrefixes) : List (List ℤ) :=
  List.zipWith (fun row last => row.take (last + 1).toNat) batch.inputIds batch.lastIdx

theorem unpad_padPrefixes (tokenized : List (List ℤ)) (padId : ℤ) :
    unpad (padPrefixes tokenized padId) = tokenized := by
  simp only [unpad, padPrefixes, List.zipWith_map_left, List.zipWith_map_right]
  rw [List.zipWith_self]
  refine (List.map_congr_left fun t _ => ?_).trans (List.map_id tokenized)
  have hlength : ((t.length : ℤ) - 1 + 1).toNat = t.length := by omega
  rw [hlength, List.take_left' rfl]
  rfl

theorem padPrefixes_injective (padId : ℤ) :
    Function.Injective fun tokenized => padPrefixes tokenized padId := by
  intro xs ys h
  rw [← unpad_padPrefixes xs padId, ← unpad_padPrefixes ys padId]
  exact congrArg unpad h

theorem unlikeBatch_eq_ok_iff {batch : PaddedPrefixes} : unlikeBatch tok samples = .ok batch ↔
    ∃ tokenized, samples.mapM (fun s => prefixField s >>= prefixIds tok) = .ok tokenized ∧
      padPrefixes tokenized tok.padId = batch := by
  unfold unlikeBatch
  cases samples.mapM fun s => prefixField s >>= prefixIds tok with
  | error e => simp [bind, Except.bind]
  | ok tokenized => simp [bind, Except.bind, pure, Except.pure]

/-- The anchor pads like `unlike`: its rows are not empty. -/
theorem anchorBatch_eq_ok_iff {batch : PaddedPrefixes} :
    (tokenizePrefixesWithLastIdx tok samples).map anchorBatch = .ok batch ↔
      ∃ tokenized, samples.mapM (Trainfer.prefixIds tok) = .ok tokenized ∧
        padPrefixes tokenized tok.padId = batch := by
  unfold tokenizePrefixesWithLastIdx
  cases htok : samples.mapM (Trainfer.prefixIds tok) with
  | error e => simp [bind, Except.bind, Except.map]
  | ok tokenized =>
    have hlast : tokenized.map (fun t => ((t.length - 1 : ℕ) : ℤ)) =
        tokenized.map fun t => (t.length : ℤ) - 1 := by
      refine List.map_congr_left fun t ht => ?_
      obtain ⟨s, -, hs⟩ := (mem_of_mapM htok t).mp ht
      have hpos := List.length_pos_of_ne_nil (prefixIds_ne_nil hs)
      omega
    simp [bind, Except.bind, pure, Except.pure, Except.map, anchorBatch, padPrefixes,
      Function.comp_def, hlast]

theorem lastReal_padPrefixes (hne : ∀ t ∈ tokenized, t ≠ []) :
    LastReal (padPrefixes tokenized padId) := by
  intro i hi
  have hi' : i < tokenized.length := by simpa [padPrefixes] using hi
  have hpos := List.length_pos_of_ne_nil (hne _ (List.getElem_mem hi'))
  refine ⟨tokenized[i].length - 1, ?_, ?_, ?_⟩
  · simp only [padPrefixes, getD_map_of_lt _ _ hi']
    omega
  · simp only [padPrefixes, getD_map_of_lt _ _ hi', List.length_append]
    omega
  · simp only [padPrefixes, getD_map_of_lt _ _ hi']
    rw [getD_ones_zeros]
    omega

/-- Both loops return the same tokens iff the tokens of all samples are shared. -/
theorem exists_tokenized_iff :
    (∃ tokenized, samples.mapM (fun s => prefixField s >>= prefixIds tok) = .ok tokenized ∧
      samples.mapM (Trainfer.prefixIds tok) = .ok tokenized) ↔
      ∀ s ∈ samples, SharesTokens tok s := by
  constructor
  · rintro ⟨tokenized, hunlike, hanchor⟩ s hs
    obtain ⟨i, hi, rfl⟩ := List.getElem_of_mem hs
    have hlength := (forall₂_of_mapM hunlike).length_eq
    have hi' : i < tokenized.length := hlength ▸ hi
    exact sharesTokens_iff.mpr ⟨tokenized[i], (forall₂_of_mapM hunlike).get hi hi',
      (forall₂_of_mapM hanchor).get hi hi'⟩
  · intro hshared
    have hrounds : ∀ s ∈ samples, ∃ ids, (prefixField s >>= prefixIds tok) = .ok ids ∧
        Trainfer.prefixIds tok s = .ok ids := fun s hs => sharesTokens_iff.mp (hshared s hs)
    obtain ⟨tokenized, hunlike⟩ := exists_mapM_ok_iff.mpr fun s hs =>
      (hrounds s hs).imp fun _ h => h.1
    have hsame : ∀ s ∈ samples, ∀ ids, (prefixField s >>= prefixIds tok) = .ok ids →
        ∃ ids', Trainfer.prefixIds tok s = .ok ids' ∧ ids = ids' := by
      intro s hs ids hids
      obtain ⟨ids', hids', hanchor⟩ := hrounds s hs
      exact ⟨ids', hanchor, Except.ok.inj (hids.symm.trans hids')⟩
    obtain ⟨tokenized', hanchor, heq⟩ := mapM_related hsame hunlike
    rw [List.forall₂_eq_eq_eq] at heq
    subst heq
    exact ⟨tokenized, hunlike, hanchor⟩

theorem not_exists_unlikeBatch_iff : (¬ ∃ batch, unlikeBatch tok samples = .ok batch) ↔
    ∃ s ∈ samples, PrefixRefused tok s := by
  have hbatch : (∃ batch, unlikeBatch tok samples = .ok batch) ↔
      ∀ s ∈ samples, ∃ ids, (prefixField s >>= prefixIds tok) = .ok ids := by
    simp only [unlikeBatch_eq_ok_iff, ← exists_mapM_ok_iff]
    exact ⟨fun ⟨_, tokenized, h, _⟩ => ⟨tokenized, h⟩, fun ⟨tokenized, h⟩ =>
      ⟨_, tokenized, h, rfl⟩⟩
  rw [hbatch]
  simp only [prefixRefused_iff, not_forall, not_exists, exists_prop]

theorem not_exists_anchorBatch_iff :
    (¬ ∃ batch, (tokenizePrefixesWithLastIdx tok samples).map anchorBatch = .ok batch) ↔
      ∃ s ∈ samples, TextRefused tok s := by
  have hbatch : (∃ batch, (tokenizePrefixesWithLastIdx tok samples).map anchorBatch =
      .ok batch) ↔ ∀ s ∈ samples, ∃ ids, Trainfer.prefixIds tok s = .ok ids := by
    simp only [anchorBatch_eq_ok_iff, ← exists_mapM_ok_iff]
    exact ⟨fun ⟨_, tokenized, h, _⟩ => ⟨tokenized, h⟩, fun ⟨tokenized, h⟩ =>
      ⟨_, tokenized, h, rfl⟩⟩
  rw [hbatch]
  simp only [textRefused_iff, not_forall, not_exists, exists_prop]

/-- **One geometry.** `unlike` and its anchor build the same batch, with last positions that are
real, iff every sample shares its tokens, or both are refused a text. -/
theorem sameGeometry_iff (tok : Tokenizer) (samples : List Sample) :
    SameGeometry tok samples ↔ (∀ s ∈ samples, SharesTokens tok s) ∨
      (∃ s ∈ samples, PrefixRefused tok s) ∧ ∃ s ∈ samples, TextRefused tok s := by
  rw [← not_exists_unlikeBatch_iff, ← not_exists_anchorBatch_iff, ← exists_tokenized_iff]
  constructor
  · intro h
    by_cases hbuilt : ∃ batch, unlikeBatch tok samples = .ok batch
    · obtain ⟨batch, hunlike⟩ := hbuilt
      obtain ⟨tokenized, htok, hpad⟩ := unlikeBatch_eq_ok_iff.mp hunlike
      obtain ⟨tokenized', htok', hpad'⟩ := anchorBatch_eq_ok_iff.mp ((h batch).1.mpr hunlike)
      obtain rfl := padPrefixes_injective tok.padId (hpad.trans hpad'.symm)
      exact .inl ⟨tokenized, htok, htok'⟩
    · refine .inr ⟨hbuilt, ?_⟩
      rintro ⟨batch, hanchor⟩
      exact hbuilt ⟨batch, (h batch).1.mp hanchor⟩
  · rintro (⟨tokenized, hunlike, hanchor⟩ | ⟨hunlike, hanchor⟩) batch
    · simp only [anchorBatch_eq_ok_iff, unlikeBatch_eq_ok_iff, hunlike, hanchor]
      refine ⟨trivial, ?_⟩
      rintro ⟨tokenized', htok, rfl⟩
      cases htok
      refine lastReal_padPrefixes fun t ht => ?_
      obtain ⟨s, -, hs⟩ := (mem_of_mapM hanchor t).mp ht
      exact prefixIds_ne_nil hs
    · exact ⟨⟨fun h => (hanchor ⟨batch, h⟩).elim, fun h => (hunlike ⟨batch, h⟩).elim⟩,
        fun h => (hunlike ⟨batch, h⟩).elim⟩

/-- A base model's tokenizer: no template, and one token a character. -/
def charTokenizer : Tokenizer where
  padTokenId := none
  eosTokenId := some 2
  chatTemplate := false
  applyChatTemplate _ := .error ⟨.valueError, "no chat template"⟩
  encode
    | .str text => .ok (text.toList.map fun c => (c.toNat : ℤ))
    | _ => .error ⟨.valueError, "text input must be of type str"⟩

/-- An empty prefix before a prompt: the push is at the end of a row of padding, the brake is
behind the prompt. -/
theorem emptyPrefix_geometry :
    unlikeBatch charTokenizer [[("prefix", .str ""), ("prompt", .str "Hi")],
        [("prefix", .str "abc")]] =
      .ok ⟨[[2, 2, 2], [97, 98, 99]], [[0, 0, 0], [1, 1, 1]], [-1, 2]⟩ ∧
    (tokenizePrefixesWithLastIdx charTokenizer [[("prefix", .str ""), ("prompt", .str "Hi")],
        [("prefix", .str "abc")]]).map anchorBatch =
      .ok ⟨[[72, 105, 2], [97, 98, 99]], [[1, 1, 0], [1, 1, 1]], [1, 2]⟩ ∧
    ¬ SameGeometry charTokenizer [[("prefix", .str ""), ("prompt", .str "Hi")],
        [("prefix", .str "abc")]] := by
  have hunlike : unlikeBatch charTokenizer [[("prefix", .str ""), ("prompt", .str "Hi")],
      [("prefix", .str "abc")]] =
        .ok ⟨[[2, 2, 2], [97, 98, 99]], [[0, 0, 0], [1, 1, 1]], [-1, 2]⟩ := by
    rfl
  refine ⟨hunlike, rfl, fun h => ?_⟩
  obtain ⟨t, ht, -⟩ := (h _).2 hunlike 0 (by decide)
  have hlast : (-1 : ℤ) = t := ht
  omega

end Trainfer.Unlike
