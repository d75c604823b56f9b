import Trainfer.KlAnchor
import Trainfer.ChunkedKl

/-! `kl_anchor_loss` over all its scopes: the choice of a reference, the text that is anchored, and
the mean over the tokens that the attention mask shows. -/

namespace Trainfer.KlScopes

open Gibbs ChunkedKl

variable {V : ℕ}

/-! ## The text -/

/-- `_RESPONSE_FIELDS` -/
def responseFields : List String := ["response", "good", "chosen", "better_response"]

/-- `prompt + v`, for a string `v`. -/
def addText (text : String) : Value → Except PyError Value
  | .str prompt => .ok (.str (prompt ++ text))
  | .list _ => .error ⟨.typeError, "can only concatenate list (not \"str\") to list"⟩
  | v => .error ⟨.typeError,
      "unsupported operand type(s) for +: '" ++ v.typeName ++ "' and 'str'"⟩

/-- The first of the response fields that holds a string which is not empty. -/
def responseText (s : Sample) : Option String :=
  responseFields.findSome? fun field =>
    match JsonObject.get s field with
    | .str text => if text = "" then none else some text
    | _ => none

/-- `_sample_text`. -/
def sampleText (scope : String) (s : Sample) : Except PyError Value :=
  let prompt := ((JsonObject.get s "prompt").or (JsonObject.get s "prefix")).or (.str "")
  if scope = "prompt" then .ok prompt
  else if scope = "full_sequence" then
    (responseText s).elim (.ok prompt) fun text => addText text prompt
  else if scope = "target_position" then
    .error ⟨.valueError, "scope='target_position' does not map to a text slice; " ++
      "kl_anchor_loss handles it via a dedicated branch"⟩
  else .error ⟨.valueError, "unknown kl scope " ++ (Value.str scope).reprScalar⟩

/-! ## The loss -/

/-- What the tokenizer makes of a list of texts, padded to one length. -/
structure TextBatch where
  inputIds : List (List ℤ)
  attentionMask : Option (List (List ℕ))

/-- A model, with its forward passes on both kinds of batches. -/
structure Passes (V : ℕ) where
  last : PrefixBatch → Except PyError (Logits V)
  text : TextBatch → Except PyError (LogitTensor V)

structure Anchored (V : ℕ) where
  policy : Passes V
  /-- `model.disable_adapter()`, if there is such a method. -/
  adapterOff : Option (Passes V)
  tokenizer : Tokenizer
  /-- `tokenizer(text=.., padding=True, truncation=True, max_length=..)`. -/
  tokenize : List Value → ℤ → Except PyError TextBatch
  /-- What `torch.empty` finds in memory. -/
  empty : ℕ → ℝ

structure KlArgs where
  weight : ℝ := 1 / 10
  maxLen : ℤ := 512
  piRefMode : Option String := some "adapter_disabled"
  scope : String := "prompt"
  excludeTokenIds : Option (List ℤ) := none

structure KlReport where
  loss : ℝ
  kl : ℝ
  klWeight : ℝ
  klScope : String
  klExcludedTotal : Option ℕ := none

/-- The reference that a call uses. -/
def reference (m : Anchored V) (piRef : Option (Passes V)) (args : KlArgs) : Option (Passes V) :=
  piRef.or (if args.piRefMode = some "adapter_disabled" then m.adapterOff else none)

/-- An entry of `kl * attn.float()`. -/
def attended (kl : ℝ) (attn : ℕ) : ℝ := kl * attn

/-- The mean over the entries that are not masked, or over all of them. -/
noncomputable def maskedMean (entries : List ℝ) : Option (List (List ℕ)) → Except PyError ℝ
  | none => .ok (entries.sum / entries.length)
  | some mask =>
    if mask.flatten.length = entries.length then
      .ok ((List.zipWith attended entries mask.flatten).sum / max ((mask.flatten.sum : ℕ) : ℝ) 1)
    else .error ⟨.runtimeError, "The size of tensor a must match the size of tensor b"⟩

/-- The scopes that anchor a text. -/
noncomputable def textKl (m : Anchored V) (ref : Passes V) (samples : List Sample) (args : KlArgs) :
    Except PyError KlReport := do
  let texts ← samples.mapM (sampleText args.scope)
  let batch ← m.tokenize texts args.maxLen
  let logits ← m.policy.text batch
  let refLogits ← ref.text batch
  let kl ← ChunkedKl.chunkedKlDiv m.empty refLogits logits 128
  let klMean ← maskedMean kl.entries batch.attentionMask
  return {
    loss := args.weight * klMean
    kl := klMean
    klWeight := args.weight
    klScope := args.scope }

/-- `kl_anchor_loss`. -/
noncomputable def klAnchorLoss (parse : String → Option ℤ) (m : Anchored V)
    (piRef : Option (Passes V)) (samples : List Sample) (args : KlArgs) : Except PyError KlReport :=
  match reference m piRef args with
  | none => .ok {
      loss := 0 * args.weight
      kl := 0
      klWeight := args.weight
      klScope := args.scope }
  | some ref => do
    if samples.isEmpty then
      throw ⟨.valueError, "kl_anchor_loss requires at least one sample"⟩
    if args.scope = "target_position" then
      let excluded ← deriveExcludeIds parse samples args.excludeTokenIds
      let out ← targetPositionKl m.tokenizer m.policy.last ref.last samples args.weight excluded
      return {
        loss := out.loss
        kl := out.kl
        klWeight := out.klWeight
        klScope := out.klScope
        klExcludedTotal := some out.klExcludedTotal }
    else textKl m ref samples args

/-! ## The mean -/

/-- An entry of the flattened batch whose token the mask shows. -/
def Shown (mask : Option (List (List ℕ))) (i : ℕ) : Prop :=
  ∃ rows ∈ mask, rows.flatten.getD i 0 ≠ 0

theorem sum_eq_zero_iff {xs : List ℝ} (hpos : ∀ x ∈ xs, 0 ≤ x) : xs.sum = 0 ↔ ∀ x ∈ xs, x = 0 := by
  induction xs with
  | nil => simp
  | cons x xs ih =>
    rw [List.forall_mem_cons] at hpos
    rw [List.sum_cons, List.forall_mem_cons,
      add_eq_zero_iff_of_nonneg hpos.1 (List.sum_nonneg hpos.2), ih hpos.2]

theorem mem_zipWith_iff {α β γ : Type} {f : α → β → γ} {xs : List α} {ys : List β} {z : γ} :
    z ∈ List.zipWith f xs ys ↔
      ∃ (i : ℕ) (x : α) (y : β), xs[i]? = some x ∧ ys[i]? = some y ∧ f x y = z := by
  rw [List.mem_iff_getElem?]
  exact exists_congr fun i => List.getElem?_zipWith_eq_some

/-- The mean over what is shown, of terms that are not negative. -/
theorem maskedMean_spec {entries : List ℝ} {mask : List (List ℕ)} {mean : ℝ}
    (h : maskedMean entries (some mask) = .ok mean) (hpos : ∀ x ∈ entries, 0 ≤ x) :
    0 ≤ mean ∧ (mean = 0 ↔ ∀ i x, entries[i]? = some x → Shown (some mask) i → x = 0) := by
  unfold maskedMean at h
  simp only at h
  split at h
  · rename_i hlength
    cases h
    have hterms : ∀ t ∈ List.zipWith attended entries mask.flatten,
        0 ≤ t := by
      intro t ht
      obtain ⟨i, x, attn, hx, -, rfl⟩ := mem_zipWith_iff.mp ht
      exact mul_nonneg (hpos x (List.mem_of_getElem? hx)) attn.cast_nonneg
    have htotal : (0 : ℝ) < max ((mask.flatten.sum : ℕ) : ℝ) 1 := lt_max_of_lt_right one_pos
    refine ⟨div_nonneg (List.sum_nonneg hterms) htotal.le, ?_⟩
    rw [div_eq_zero_iff, or_iff_left htotal.ne', sum_eq_zero_iff hterms]
    constructor
    · rintro hzero i x hx ⟨rows, hrows, hshown⟩
      obtain rfl := Option.some.inj hrows
      have hi : i < mask.flatten.length := hlength ▸ (List.getElem?_eq_some_iff.mp hx).1
      have hattn := List.getElem?_eq_getElem hi
      rw [List.getD_eq_getElem _ _ hi] at hshown
      have hmul := hzero _ (mem_zipWith_iff.mpr ⟨i, x, _, hx, hattn, rfl⟩)
      exact (mul_eq_zero.mp hmul).resolve_right (Nat.cast_ne_zero.mpr hshown)
    · intro hzero t ht
      obtain ⟨i, x, attn, hx, hattn, rfl⟩ := mem_zipWith_iff.mp ht
      by_cases hshown : attn = 0
      · rw [attended, hshown, Nat.cast_zero, mul_zero]
      · rw [attended, hzero i x hx ⟨mask, rfl, ?_⟩, zero_mul]
        rwa [List.getD_eq_getElem?_getD, hattn, Option.getD_some]
  · cases h

/-- What is not shown does not count. -/
theorem maskedMean_congr {entries entries' : List ℝ} {mask : List (List ℕ)}
    (hlength : entries.length = entries'.length)
    (h : ∀ i x x', entries[i]? = some x → entries'[i]? = some x' → Shown (some mask) i → x = x') :
    maskedMean entries (some mask) = maskedMean entries' (some mask) := by
  have hterms : List.zipWith attended entries mask.flatten =
      List.zipWith attended entries' mask.flatten := by
    refine List.ext_getElem (by simp [hlength]) fun i hi hi' => ?_
    rw [List.getElem_zipWith, List.getElem_zipWith]
    rw [List.length_zipWith, lt_min_iff] at hi hi'
    by_cases hshown : mask.flatten[i] = 0
    · rw [attended, attended, hshown, Nat.cast_zero, mul_zero, mul_zero]
    · rw [h i _ _ (List.getElem?_eq_getElem hi.1) (List.getElem?_eq_getElem hi'.1) ⟨mask, rfl, ?_⟩]
      rwa [List.getD_eq_getElem _ _ hi.2]
  unfold maskedMean
  simp only [hterms, hlength]

/-! ## A call -/

variable {parse : String → Option ℤ} {m : Anchored V} {piRef : Option (Passes V)} {ref : Passes V}
  {samples : List Sample} {args : KlArgs} {report : KlReport}

theorem klAnchorLoss_text (hscope : args.scope ≠ "target_position")
    (href : reference m piRef args = some ref) (hne : samples ≠ []) :
    klAnchorLoss parse m piRef samples args = textKl m ref samples args := by
  have hempty : samples.isEmpty = false := by simpa using hne
  simp only [klAnchorLoss, href, hempty, hscope, Bool.false_eq_true, if_false]

theorem ne_nil_of_ok (href : reference m piRef args = some ref)
    (h : klAnchorLoss parse m piRef samples args = .ok report) : samples ≠ [] := by
  rintro rfl
  simp only [klAnchorLoss, href] at h
  cases h

/-- The divergences of the flattened batch, as the chunked function returns them. -/
theorem entries_of_ok (hV : 0 < V) {empty : ℕ → ℝ} {input target : LogitTensor V} {kl : FloatTensor}
    (h : ChunkedKl.chunkedKlDiv empty input target 128 = .ok kl) : input.lead = target.lead ∧
      kl.entries = List.zipWith klPosition input.rows target.rows := by
  by_cases hlead : input.lead = target.lead
  · rw [chunkedKlDiv_eq_ok hV (by norm_num) hlead] at h
    cases h
    exact ⟨hlead, rfl⟩
  · rw [ChunkedKl.chunkedKlDiv, if_pos hlead] at h
    cases h

theorem exists_entries (hV : 0 < V) {input target : LogitTensor V} (hlead : input.lead = target.lead)
    (empty : ℕ → ℝ) : ∃ kl, ChunkedKl.chunkedKlDiv empty input target 128 = .ok kl ∧
      kl.entries = List.zipWith klPosition input.rows target.rows :=
  ⟨_, chunkedKlDiv_eq_ok hV (by norm_num) hlead empty, rfl⟩

theorem klPosition_eq_zero_iff (hV : 0 < V) (x y : Fin V → ℝ) :
    klPosition x y = 0 ↔ softmax Finset.univ y = softmax Finset.univ x := by
  have hne : (Finset.univ : Finset (Fin V)).Nonempty := ⟨⟨0, hV⟩, Finset.mem_univ _⟩
  rw [klPosition_eq_kl hV, kl_softmax_eq_zero_iff hne, funext_iff]
  simp

section
variable {input target input' target' : LogitTensor V} {entries : List ℝ}

/-- No divergence is charged where both say the same, and nowhere else. -/
theorem entries_eq_zero_iff (hV : 0 < V)
    (hentries : entries = List.zipWith klPosition input.rows target.rows) (shown : ℕ → Prop) :
    (∀ i d, entries[i]? = some d → shown i → d = 0) ↔
      ∀ i x y, target.rows[i]? = some x → input.rows[i]? = some y → shown i →
        softmax Finset.univ x = softmax Finset.univ y := by
  subst hentries
  constructor
  · intro hall i x y hx hy hi
    have hd : (List.zipWith klPosition input.rows target.rows)[i]? = some (klPosition y x) :=
      List.getElem?_zipWith_eq_some.mpr ⟨y, x, hy, hx, rfl⟩
    exact (klPosition_eq_zero_iff hV y x).mp (hall i _ hd hi)
  · intro hall i d hd hi
    obtain ⟨y, x, hy, hx, rfl⟩ := List.getElem?_zipWith_eq_some.mp hd
    exact (klPosition_eq_zero_iff hV y x).mpr (hall i x y hx hy hi)

/-- The mean depends only on the rows that are shown. -/
theorem maskedMean_rows {mask : List (List ℕ)} (hlead : input.lead = target.lead)
    (htarget : target'.lead = target.lead) (hinput : input'.lead = input.lead)
    (hsame : ∀ i, Shown (some mask) i →
      target'.rows[i]? = target.rows[i]? ∧ input'.rows[i]? = input.rows[i]?) :
    maskedMean (List.zipWith klPosition input'.rows target'.rows) (some mask) =
      maskedMean (List.zipWith klPosition input.rows target.rows) (some mask) := by
  have hlead' : input'.lead = target'.lead := by rw [hinput, htarget, hlead]
  refine maskedMean_congr ?_ fun i d' d hd' hd hi => ?_
  · rw [length_zipWith_rows hlead, length_zipWith_rows hlead', input.size, input'.size, hinput]
  · obtain ⟨hrow, hinputRow⟩ := hsame i hi
    rw [List.getElem?_zipWith, hrow, hinputRow, ← List.getElem?_zipWith, hd] at hd'
    exact (Option.some.inj hd').symm

end

/-- **The text anchor.** With a reference, the divergence that is charged is never negative, and it
is zero exactly if policy and reference say the same at every token that the mask shows. What
either says elsewhere changes nothing. -/
theorem kl_anchor_text (hV : 0 < V) (hscope : args.scope ≠ "target_position")
    (href : reference m piRef args = some ref)
    (hmask : ∀ texts n batch, m.tokenize texts n = .ok batch → batch.attentionMask.isSome)
    (h : klAnchorLoss parse m piRef samples args = .ok report) :
    ∃ texts batch logits refLogits, samples.mapM (sampleText args.scope) = .ok texts ∧
      m.tokenize texts args.maxLen = .ok batch ∧ m.policy.text batch = .ok logits ∧
      ref.text batch = .ok refLogits ∧ report.loss = args.weight * report.kl ∧ 0 ≤ report.kl ∧
      (report.kl = 0 ↔ ∀ i x y, logits.rows[i]? = some x → refLogits.rows[i]? = some y →
        Shown batch.attentionMask i → softmax Finset.univ x = softmax Finset.univ y) ∧
      ∀ policy' ref' logits' refLogits', policy'.text batch = .ok logits' →
        ref'.text batch = .ok refLogits' → logits'.lead = logits.lead →
        refLogits'.lead = refLogits.lead →
        (∀ i, Shown batch.attentionMask i → logits'.rows[i]? = logits.rows[i]? ∧
          refLogits'.rows[i]? = refLogits.rows[i]?) →
        klAnchorLoss parse { m with policy := policy' } (some ref') samples args = .ok report := by
  have hne := ne_nil_of_ok href h
  rw [klAnchorLoss_text hscope href hne] at h
  obtain ⟨texts, htexts, h⟩ := bind_ok h
  obtain ⟨batch, hbatch, h⟩ := bind_ok h
  obtain ⟨logits, hlogits, h⟩ := bind_ok h
  obtain ⟨refLogits, hrefLogits, h⟩ := bind_ok h
  obtain ⟨kl, hkl, h⟩ := bind_ok h
  obtain ⟨mean, hmean, h⟩ := bind_ok h
  cases h
  obtain ⟨mask, hshown⟩ := Option.isSome_iff_exists.mp (hmask texts _ batch hbatch)
  obtain ⟨hlead, hentries⟩ := entries_of_ok hV hkl
  rw [hshown] at hmean
  have hpos : ∀ x ∈ kl.entries, 0 ≤ x := by
    intro x hx
    rw [hentries] at hx
    obtain ⟨i, u, v, -, -, rfl⟩ := mem_zipWith_iff.mp hx
    exact klPosition_nonneg hV u v
  obtain ⟨hnonneg, hzero⟩ := maskedMean_spec hmean hpos
  refine ⟨texts, batch, logits, refLogits, htexts, hbatch, hlogits, hrefLogits, rfl, hnonneg, ?_,
    ?_⟩
  · rw [hshown]
    exact hzero.trans (entries_eq_zero_iff hV hentries _)
  · intro policy' ref' logits' refLogits' hlogits' hrefLogits' hl hr hsame
    rw [hshown] at hsame
    have href' : reference { m with policy := policy' } (some ref') args = some ref' := rfl
    have hlead' : refLogits'.lead = logits'.lead := by rw [hl, hr, hlead]
    obtain ⟨kl', hkl', hentries'⟩ := exists_entries hV hlead' m.empty
    have hmean' : maskedMean kl'.entries (some mask) = .ok mean := by
      rw [hentries', maskedMean_rows hlead hl hr hsame, ← hentries, hmean]
    rw [klAnchorLoss_text hscope href' hne, textKl, htexts]
    simp only [bind, Except.bind, hbatch, hlogits', hrefLogits', hkl', hshown, hmean']
    rfl

/-! An adapter that is still fresh says the same on and off. -/

def letters : Value → List ℤ
  | .str text => text.toList.map fun c => (c.toNat : ℤ)
  | _ => []

def spell (texts : List Value) (maxLen : ℤ) : TextBatch :=
  let rows := texts.map fun text => (letters text).take maxLen.toNat
  let longest := (rows.map List.length).foldr max 0
  { inputIds := rows.map fun row => row ++ List.replicate (longest - row.length) 0
    attentionMask := some <| rows.map fun row =>
      List.replicate row.length 1 ++ List.replicate (longest - row.length) 0 }

/-- The logit of the first token is the id that is read. -/
def echo (batch : TextBatch) : Except PyError (LogitTensor 2) :=
  let rows : List (Fin 2 → ℝ) := batch.inputIds.flatten.map fun id => ![id, 0]
  let lead := [batch.inputIds.length, (batch.inputIds.headD []).length]
  if h : rows.length = lead.prod then .ok ⟨lead, rows, h⟩
  else .error ⟨.runtimeError, "the rows differ in length"⟩

def echoPasses : Passes 2 where
  last _ := .ok fun _ _ _ => 0
  text := echo

def freshAnchored : Anchored 2 where
  policy := echoPasses
  adapterOff := some echoPasses
  tokenizer := ⟨none, none, false, fun _ => .ok [], fun text => .ok (letters text)⟩
  tokenize texts maxLen := .ok (spell texts maxLen)
  empty _ := 7

def freshSamples : List Sample :=
  [[("prompt", .str "a"), ("response", .str "bc")], [("prefix", .str "b"), ("good", .str "a")]]

def freshTexts : List Value := [.str "abc", .str "ba"]

noncomputable def freshArgs : KlArgs := { weight := 1, scope := "full_sequence" }

theorem kl_anchor_text_fresh : ∃ report, klAnchorLoss String.toInt? freshAnchored none freshSamples
    freshArgs = .ok report ∧ report.kl = 0 := by
  have href : reference freshAnchored none freshArgs = some echoPasses := rfl
  have hscope : freshArgs.scope ≠ "target_position" := by decide
  obtain ⟨logits, hlogits⟩ : ∃ logits, echo (spell freshTexts 512) = .ok logits := ⟨_, rfl⟩
  obtain ⟨kl, hkl, hentries⟩ := exists_entries two_pos (@rfl _ logits.lead) freshAnchored.empty
  have hsix : kl.entries.length = 6 := by
    cases hlogits
    rw [hentries]
    rfl
  obtain ⟨mean, hmean⟩ : ∃ mean, maskedMean kl.entries (spell freshTexts 512).attentionMask =
      .ok mean := ⟨_, if_pos hsix.symm⟩
  have hok : ∃ report, klAnchorLoss String.toInt? freshAnchored none freshSamples freshArgs =
      .ok report := by
    have hpass : echoPasses.text (spell freshTexts 512) = .ok logits := hlogits
    have htokenize : freshAnchored.tokenize freshTexts 512 = .ok (spell freshTexts 512) := rfl
    rw [klAnchorLoss_text hscope href (by decide : freshSamples ≠ []), textKl,
      show freshSamples.mapM (sampleText freshArgs.scope) = .ok freshTexts from rfl]
    simp only [bind, Except.bind, show freshArgs.maxLen = 512 from rfl, htokenize,
      show freshAnchored.policy = echoPasses from rfl, hpass, hkl, hmean]
    exact ⟨_, rfl⟩
  obtain ⟨report, hok⟩ := hok
  obtain ⟨texts, batch, x, y, -, -, hx, hy, -, -, hzero, -⟩ :=
    kl_anchor_text two_pos hscope href (by rintro _ _ _ ⟨⟩; rfl) hok
  refine ⟨report, hok, hzero.mpr fun i u v hu hv _ => ?_⟩
  obtain rfl := Except.ok.inj (hx.symm.trans hy)
  rw [Option.some.inj (hu.symm.trans hv)]

end Trainfer.KlScopes
