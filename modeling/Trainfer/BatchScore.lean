import Trainfer.SequenceLogprob
import Trainfer.SupervisionGeometry

/-! A padded batch against its rows one at a time.

The losses make one forward pass over rows of different lengths, filled up on the right. For a
model that reads from left to right `score_batch` says that each row gets what a pass over it alone
gives, whatever rows are beside it and whatever id it is filled up with. -/

namespace Trainfer

variable {V : ℕ}

/-- The mean log-probabilities of a batch, as the losses compute them. -/
noncomputable def scoreRows (forward : Forward V) (padId : ℤ) (rows : List TokenRow) :
    Except PyError (List ℝ) := do
  let batch ← padAndStack rows padId
  sequenceLogprobMean forward batch.inputIds batch.labels (some batch.attentionMask)

/-! ## A model that reads from left to right -/

/-- What the model says after some tokens; it reads no other row, nothing behind a position, and
nothing that the mask hides, and it says something of every batch. -/
structure LeftToRight (forward : Forward V) (next : List ℤ → Fin V → ℝ) : Prop where
  runs : ∀ ids mask width, ids ≠ [] → 0 < width → ids.length = mask.length →
    (∀ row ∈ ids, row.length = width) → ∃ logits, forward ids mask = .ok logits
  logits : ∀ {ids mask : List (List ℤ)} {logits : Logits V}, forward ids mask = .ok logits →
    ∀ {i p : ℕ} {row m : List ℤ}, ids[i]? = some row → mask[i]? = some m → p < row.length →
      (∀ q ≤ p, m[q]? = some 1) → logits i p = next (row.take (p + 1))

/-- A row with tokens, all of which the mask shows. -/
structure Plain (row : TokenRow) : Prop where
  tokens : row.inputIds ≠ []
  mask : row.attentionMask.getD (List.replicate row.inputIds.length 1) =
    List.replicate row.inputIds.length 1

/-! ## A row alone -/

/-- The terms of a row, from what the model says at each position. -/
noncomputable def rowTerms (said : ℕ → Fin V → ℝ) (labels : List ℤ) : Except PyError (List ℝ) :=
  labels.tail.zipIdx.mapM fun (label, p) => tokenLogprob (said p) label

def rowLabels (row : TokenRow) : List ℤ := row.labels.getD []

noncomputable def rowSum (next : List ℤ → Fin V → ℝ) (row : TokenRow) : Except PyError ℝ :=
  (rowTerms (fun p => next (row.inputIds.take (p + 1))) (rowLabels row)).map List.sum

def rowCount (labels : List ℤ) : ℕ := max (labels.tail.countP (· != -100)) 1

noncomputable def rowMean (next : List ℤ → Fin V → ℝ) (row : TokenRow) : Except PyError ℝ :=
  (rowSum next row).map fun sum => sum / rowCount (rowLabels row)

/-! ## Filling up -/

theorem mapM_congr {α β : Type} {f g : α → Except PyError β} {xs : List α}
    (h : ∀ x ∈ xs, f x = g x) : xs.mapM f = xs.mapM g := by
  induction xs with
  | nil => rfl
  | cons x xs ih =>
    rw [List.mapM_cons, List.mapM_cons, h x List.mem_cons_self,
      ih fun y hy => h y (List.mem_cons_of_mem x hy)]

theorem tail_padRow (width : ℕ) (fill : ℤ) (labels : List ℤ) :
    ∃ k, (padRow width fill labels).tail = labels.tail ++ List.replicate k fill := by
  cases labels with
  | nil => exact ⟨width - 1, by simp [padRow]⟩
  | cons l labels => exact ⟨width - (l :: labels).length, rfl⟩

theorem filled_terms (said : ℕ → Fin V → ℝ) (k n : ℕ) :
    ((List.replicate k (-100 : ℤ)).zipIdx n).mapM (fun (label, p) => tokenLogprob (said p) label) =
      .ok (List.replicate k 0) := by
  rw [mapM_map_ok (g := fun _ => (0 : ℝ))]
  · rw [List.map_const', List.length_zipIdx, List.length_replicate]
  · rintro ⟨label, p⟩ hmem
    obtain rfl := List.eq_of_mem_replicate (List.fst_mem_of_mem_zipIdx hmem)
    simp [tokenLogprob]

/-- The filling adds nothing to the sum, and what is said behind the tokens is not looked at. -/
theorem sum_rowTerms_padRow {said said' : ℕ → Fin V → ℝ} {labels : List ℤ}
    (h : ∀ p, p + 1 < labels.length → said p = said' p) (width : ℕ) :
    (rowTerms said (padRow width (-100) labels)).map List.sum =
      (rowTerms said' labels).map List.sum := by
  obtain ⟨k, htail⟩ := tail_padRow width (-100) labels
  have hsame : labels.tail.zipIdx.mapM (fun (label, p) => tokenLogprob (said p) label) =
      labels.tail.zipIdx.mapM fun (label, p) => tokenLogprob (said' p) label := by
    refine mapM_congr ?_
    rintro ⟨label, p⟩ hmem
    have hp := (List.mk_mem_zipIdx_iff_getElem?.mp hmem)
    have hlt := (List.getElem?_eq_some_iff.mp hp).1
    rw [List.length_tail] at hlt
    simp only
    rw [h p (by omega)]
  rw [rowTerms, htail, List.zipIdx_append, List.mapM_append, hsame, filled_terms, rowTerms]
  cases labels.tail.zipIdx.mapM fun (label, p) => tokenLogprob (said' p) label with
  | error e => rfl
  | ok terms =>
    show Except.ok (terms ++ List.replicate k 0).sum = Except.ok terms.sum
    simp

theorem rowCount_padRow (width : ℕ) (labels : List ℤ) :
    rowCount (padRow width (-100) labels) = rowCount labels := by
  obtain ⟨k, htail⟩ := tail_padRow width (-100) labels
  have hnone : (List.replicate k (-100 : ℤ)).countP (· != -100) = 0 := by
    rw [List.countP_eq_zero]
    intro l hl
    simp [List.eq_of_mem_replicate hl]
  rw [rowCount, htail, List.countP_append, hnone, rowCount, Nat.add_zero]

/-! ## A batch -/

variable {forward : Forward V} {next : List ℤ → Fin V → ℝ} {rows : List TokenRow}

theorem length_rowLabels_le (row : TokenRow) : (rowLabels row).length ≤ row.inputIds.length := by
  unfold rowLabels
  cases hlabels : row.labels with
  | none => exact Nat.zero_le _
  | some l => exact (row.labels_length l hlabels).le

/-- What the pass over the batch says at the tokens of a row. -/
theorem said_batch (hforward : LeftToRight forward next) {ids mask : List (List ℤ)}
    {logits : Logits V} (hlogits : forward ids mask = .ok logits) {i width : ℕ} {padId : ℤ}
    {row : TokenRow} (hplain : Plain row) (hid : ids[i]? = some (padRow width padId row.inputIds))
    (hmask : mask[i]? = some (padRow width 0
      (row.attentionMask.getD (List.replicate row.inputIds.length 1)))) {p : ℕ}
    (hp : p < row.inputIds.length) : logits i p = next (row.inputIds.take (p + 1)) := by
  rw [hplain.mask] at hmask
  have hsaid := hforward.logits hlogits hid hmask (p := p) (by simp [padRow]; omega) fun q hq => by
    rw [getElem?_padRow_of_lt (by rw [List.length_replicate]; omega), List.getElem?_replicate,
      if_pos (by omega)]
  rw [hsaid, padRow, List.take_append_of_le_length (by omega)]

theorem perToken_rows (next : List ℤ → Fin V → ℝ) (rows : List TokenRow) :
    ((rows.mapM (rowSum next)).map fun summed =>
      perToken summed (rows.map fun row => rowCount (rowLabels row))) =
      rows.mapM (rowMean next) := by
  induction rows with
  | nil => rfl
  | cons row rows ih =>
    rw [List.mapM_cons, List.mapM_cons, ← ih, rowMean]
    cases rowSum next row with
    | error e => rfl
    | ok sum =>
      cases rows.mapM (rowSum next) with
      | error e => rfl
      | ok summed => rfl

/-- The batch, row by row. -/
theorem scoreRows_eq (hforward : LeftToRight forward next) (padId : ℤ) (hne : rows ≠ [])
    (hplain : ∀ row ∈ rows, Plain row) : scoreRows forward padId rows = rows.mapM (rowMean next) := by
  obtain ⟨width, hwidth, hstack⟩ := padAndStack_ok rows hne padId
  obtain ⟨first, hfirst⟩ := List.exists_mem_of_ne_nil rows hne
  have hpos : 0 < width :=
    (List.length_pos_iff.mpr (hplain first hfirst).tokens).trans_le (hwidth first hfirst)
  obtain ⟨logits, hlogits⟩ := hforward.runs
    (rows.map fun t => padRow width padId t.inputIds)
    (rows.map fun t => padRow width 0
      (t.attentionMask.getD (List.replicate t.inputIds.length 1))) width
    (by simpa using hne) hpos (by simp) (by
      intro row hrow
      obtain ⟨t, ht, rfl⟩ := List.mem_map.mp hrow
      have hle := hwidth t ht
      simp [padRow]
      omega)
  have hsums : (rows.map fun t => padRow width (-100) (rowLabels t)).zipIdx.mapM
      (fun e => (rowTerms (logits e.2) e.1).map List.sum) = rows.mapM (rowSum next) := by
    rw [List.zipIdx_map, List.mapM_map]
    conv_rhs => rw [← List.zipIdx_map_fst 0 rows, List.mapM_map]
    refine mapM_congr ?_
    rintro ⟨row, i⟩ hmem
    have hrow := List.mk_mem_zipIdx_iff_getElem?.mp hmem
    have hmem' := List.mem_of_getElem? hrow
    refine sum_rowTerms_padRow (fun p hp => ?_) width
    have hlength := length_rowLabels_le row
    have hid : (rows.map fun t => padRow width padId t.inputIds)[i]? =
        some (padRow width padId row.inputIds) := by
      rw [List.getElem?_map, hrow]
      rfl
    exact said_batch hforward hlogits (hplain row hmem') hid (by rw [List.getElem?_map, hrow]; rfl)
      (by omega)
  have hcounts : tokenCounts (rows.map fun t => padRow width (-100) (rowLabels t)) =
      rows.map fun row => rowCount (rowLabels row) := by
    rw [tokenCounts, List.map_map]
    exact List.map_congr_left fun row _ => rowCount_padRow width (rowLabels row)
  rw [← perToken_rows, ← hsums, ← hcounts, scoreRows, hstack]
  simp only [sequenceLogprobMean, sequenceLogprob, bind, Except.bind, hlogits, Option.getD_some]
  rfl

/-- **A batch is its rows.** In a batch each row scores what it scores alone, and the batch fails
exactly if one of its rows does; the id that fills up the rows does not matter. -/
theorem score_batch (hforward : LeftToRight forward next) (hne : rows ≠ [])
    (hplain : ∀ row ∈ rows, Plain row) (padId : ℤ) (lps : List ℝ) :
    scoreRows forward padId rows = .ok lps ↔
      List.Forall₂ (fun row lp => ∀ padId', scoreRows forward padId' [row] = .ok [lp]) rows lps := by
  have hsingle : ∀ row ∈ rows, ∀ lp, (∀ padId', scoreRows forward padId' [row] = .ok [lp]) ↔
      rowMean next row = .ok lp := by
    intro row hrow lp
    have heq : ∀ padId', scoreRows forward padId' [row] = [row].mapM (rowMean next) := fun padId' =>
      scoreRows_eq hforward padId' (List.cons_ne_nil row []) fun r hr =>
        List.mem_singleton.mp hr ▸ hplain row hrow
    simp only [heq, forall_const, List.mapM_cons, List.mapM_nil]
    cases rowMean next row <;> simp [bind, Except.bind, pure, Except.pure]
  rw [scoreRows_eq hforward padId hne hplain]
  constructor
  · intro h
    refine (List.forall₂_iff_get.mpr ⟨(forall₂_of_mapM h).length_eq, fun i hi hi' => ?_⟩)
    exact (hsingle _ (List.get_mem _ _) _).mpr ((forall₂_of_mapM h).get hi hi')
  · intro h
    refine mapM_of_forall₂ (List.forall₂_iff_get.mpr ⟨h.length_eq, fun i hi hi' => ?_⟩)
    exact (hsingle _ (List.get_mem _ _) _).mp (h.get hi hi')

/-! ### A model with a table of what comes next -/

/-- It looks up what it says after the tokens up to each position. -/
def reading (next : List ℤ → Fin V → ℝ) : Forward V := fun ids _ =>
  .ok fun i p => next ((ids.getD i []).take (p + 1))

theorem leftToRight_reading (next : List ℤ → Fin V → ℝ) : LeftToRight (reading next) next where
  runs _ _ _ _ _ _ _ := ⟨_, rfl⟩
  logits := by
    intro ids mask logits hlogits i p row m hid _ _ _
    cases hlogits
    show next ((ids.getD i []).take (p + 1)) = _
    rw [List.getD_eq_getElem?_getD, hid, Option.getD_some]

/-- It expects its last token again. -/
def again (ids : List ℤ) (k : Fin 3) : ℝ := if ids.getLast? = some (k : ℤ) then 1 else 0

def shortRow : TokenRow where
  inputIds := [0, 1]
  labels := some [-100, 1]

def longRow : TokenRow where
  inputIds := [2, 2, 1, 0]
  labels := some [-100, -100, 1, 0]

theorem score_batch_again : ∃ lps,
    scoreRows (reading again) 0 [shortRow, longRow] = .ok lps ∧
    List.Forall₂ (fun row lp => ∀ padId', scoreRows (reading again) padId' [row] = .ok [lp])
      [shortRow, longRow] lps := by
  have hplain : ∀ row ∈ [shortRow, longRow], Plain row := by
    intro row hrow
    simp only [List.mem_cons, List.not_mem_nil, or_false] at hrow
    rcases hrow with rfl | rfl
    · exact ⟨List.cons_ne_nil _ _, rfl⟩
    · exact ⟨List.cons_ne_nil _ _, rfl⟩
  obtain ⟨lps, hlps⟩ : ∃ lps, scoreRows (reading again) 0 [shortRow, longRow] = .ok lps := ⟨_, rfl⟩
  exact ⟨lps, hlps,
    (score_batch (leftToRight_reading again) (List.cons_ne_nil _ _) hplain 0 lps).mp hlps⟩

end Trainfer
