import Trainfer.Ccd
import Trainfer.SupervisionGeometry

/-! Which positions context distillation compares.

`ccd_loss` counts the student's length back from the end of the teacher's sequence and takes the
tokens there for the student's. The template's header stands before the context, so these are the
same tokens behind the header (`getElem?_teacher`), and before that only if the header comes back
at the end of the context (`comparesSame_iff`). -/

namespace Trainfer

/-- The tokens of a sample: what the template puts before and behind a user's turn, the context
and the prompt. -/
structure ProbeParts where
  header : List ℤ
  context : List ℤ
  prompt : List ℤ
  footer : List ℤ
  prompt_ne : prompt ≠ []

namespace ProbeParts

variable (parts : ProbeParts)

def teacher : List ℤ := parts.header ++ parts.context ++ parts.prompt ++ parts.footer

def student : List ℤ := parts.header ++ parts.prompt ++ parts.footer

/-- The tokens of the header come back at the end of the context. -/
def HeaderReturns : Prop := parts.header <:+ parts.header ++ parts.context

theorem length_teacher : parts.teacher.length = parts.context.length + parts.student.length := by
  simp only [teacher, student, List.length_append]
  omega

theorem length_student_pos : 0 < parts.student.length := by
  have h := List.length_pos_iff.mpr parts.prompt_ne
  simp only [student, List.length_append]
  omega

/-- The end of the teacher's sequence, of the student's length. -/
theorem drop_teacher : parts.teacher.drop parts.context.length =
    (parts.header ++ parts.context).drop parts.context.length ++
      (parts.prompt ++ parts.footer) := by
  rw [teacher, List.append_assoc, List.drop_append_of_le_length (by simp)]

theorem drop_teacher_eq_iff :
    parts.teacher.drop parts.context.length = parts.student ↔ parts.HeaderReturns := by
  rw [drop_teacher, student, List.append_assoc, List.append_left_inj, HeaderReturns,
    List.suffix_iff_eq_drop, List.length_append, Nat.add_sub_cancel_left, eq_comm]

/-- Behind the header both sequences go on alike. -/
theorem getElem?_teacher {j : ℕ} (hj : parts.header.length ≤ j) :
    parts.teacher[parts.context.length + j]? = parts.student[j]? := by
  have hlength : ((parts.header ++ parts.context).drop parts.context.length).length =
      parts.header.length := by
    simp
  rw [← List.getElem?_drop, drop_teacher, student, List.append_assoc,
    List.getElem?_append_right (by omega), List.getElem?_append_right hj, hlength]

end ProbeParts

/-! ## Rows -/

/-- Row `i` of a batch has these tokens, and padding behind them. -/
structure HoldsRow (batch : TokenBatch) (padId : ℤ) (i : ℕ) (ids : List ℤ) (width : ℕ) :
    Prop where
  le : ids.length ≤ width
  inputIds : batch.inputIds.getD i [] = padRow width padId ids
  mask : batch.attentionMask.getD i [] = padRow width 0 (List.replicate ids.length 1)

section
variable {batch : TokenBatch} {padId : ℤ} {i width : ℕ} {ids : List ℤ}

theorem HoldsRow.realLength (h : HoldsRow batch padId i ids width) :
    batch.realLength i = ids.length := by
  rw [TokenBatch.realLength, h.mask, padRow, List.sum_append, List.sum_replicate,
    List.sum_replicate]
  simp

theorem HoldsRow.positions (h : HoldsRow batch padId i ids width) :
    batch.positions i = List.range width := by
  have hle := h.le
  rw [TokenBatch.positions, h.inputIds, padRow, List.length_append, List.length_replicate,
    Nat.add_sub_cancel' hle]

theorem HoldsRow.getElem?_inputIds (h : HoldsRow batch padId i ids width) {p : ℕ}
    (hp : p < ids.length) : (batch.inputIds.getD i [])[p]? = ids[p]? := by
  rw [h.inputIds, getElem?_padRow_of_lt hp]

theorem HoldsRow.getElem?_mask (h : HoldsRow batch padId i ids width) {p : ℕ}
    (hp : p < ids.length) : (batch.attentionMask.getD i [])[p]? = some 1 := by
  rw [h.mask, getElem?_padRow_of_lt (by simpa using hp), List.getElem?_replicate, if_pos hp]

end

theorem padAndStack_rows (idss : List (List ℤ)) (hne : idss ≠ []) (padId : ℤ) :
    ∃ batch width, padAndStack (idss.map fun ids => { inputIds := ids }) padId = .ok batch ∧
      ∀ (i : ℕ) (ids : List ℤ), idss[i]? = some ids → HoldsRow batch padId i ids width := by
  obtain ⟨width, hle, hbatch⟩ := padAndStack_ok
    (idss.map fun ids => { inputIds := ids }) (by simpa using hne) padId
  refine ⟨_, width, hbatch, fun i ids hi => ⟨?_, ?_, ?_⟩⟩
  · exact hle _ (List.mem_map_of_mem (List.mem_of_getElem? hi))
  · simp [List.getD_eq_getElem?_getD, hi]
  · simp [List.getD_eq_getElem?_getD, hi]

/-- **The spans.** The student's tokens, and as many at the end of the teacher's. -/
theorem spanPositions_eq {batch : ProbeBatch} {padId : ℤ} {i wT wS : ℕ} {teacher student : List ℤ}
    (ht : HoldsRow batch.teacher padId i teacher wT)
    (hs : HoldsRow batch.student padId i student wS) (hle : student.length ≤ teacher.length)
    (cut : ℕ) (hcut : cut ≤ student.length) : spanPositions batch i cut =
      (List.range' (teacher.length - student.length) (student.length - cut),
        List.range' 0 (student.length - cut)) := by
  have hwT := ht.le
  have hwS := hs.le
  have hstart : startT teacher.length student.length =
      ((teacher.length - student.length : ℕ) : ℤ) := by
    rw [startT, if_neg (by omega)]
    omega
  have hT : (teacher.length : ℤ) - cut = ((teacher.length - cut : ℕ) : ℤ) := by omega
  have hS : (student.length : ℤ) - cut = ((student.length - cut : ℕ) : ℤ) := by omega
  have hcount : teacher.length - cut - (teacher.length - student.length) =
      student.length - cut := by
    omega
  rw [spanPositions, ht.realLength, hs.realLength, ht.positions, hs.positions, hstart, hT, hS,
    Slices.between_range (by omega), hcount]
  have hzero := Slices.between_range (n := wS) (a := 0) (b := student.length - cut) (by omega)
  rw [Nat.cast_zero] at hzero
  rw [hzero, Nat.sub_zero]

/-- Pairs of equal steps. -/
theorem mem_zip_range' {a b n p q : ℕ} :
    (p, q) ∈ (List.range' a n).zip (List.range' b n) ↔ ∃ j < n, p = a + j ∧ q = b + j := by
  induction n generalizing a b with
  | zero => simp
  | succ n ih =>
    rw [List.range'_succ, List.range'_succ, List.zip_cons_cons, List.mem_cons, ih,
      Prod.mk.injEq]
    constructor
    · rintro (⟨rfl, rfl⟩ | ⟨j, hj, rfl, rfl⟩)
      · exact ⟨0, by omega, rfl, rfl⟩
      · exact ⟨j + 1, by omega, by omega, by omega⟩
    · rintro ⟨j, hj, rfl, rfl⟩
      cases j with
      | zero => exact .inl ⟨rfl, rfl⟩
      | succ j => exact .inr ⟨j, by omega, by omega, by omega⟩

/-! ## What is compared -/

/-- None of these positions of row `i` is padding. -/
def AllReal (batch : TokenBatch) (i : ℕ) (positions : List ℕ) : Prop :=
  ∀ p ∈ positions, (batch.attentionMask.getD i [])[p]? = some 1

/-- Both sides have as many positions, at least one, and no padding. -/
structure ProperSpan (batch : ProbeBatch) (i : ℕ) (span : List ℕ × List ℕ) : Prop where
  paired : span.1.length = span.2.length
  divisor : 0 < span.2.length
  teacher : AllReal batch.teacher i span.1
  student : AllReal batch.student i span.2

/-- At `p` the teacher and at `q` the student have read the same token, and the student's next
token comes next. -/
def SameToken (batch : ProbeBatch) (i : ℕ) (student : List ℤ) (p q : ℕ) : Prop :=
  ∃ t next, (batch.teacher.inputIds.getD i [])[p]? = some t ∧
    (batch.teacher.inputIds.getD i [])[p + 1]? = some next ∧
    (batch.student.inputIds.getD i [])[q]? = some t ∧ student[q]? = some t ∧
    student[q + 1]? = some next

/-- Sample `i` is compared at the same tokens of a student's sequence, and its means exist. -/
structure ComparesSame (batch : ProbeBatch) (i : ℕ) (student : List ℤ) : Prop where
  tokens : ∀ p q, (p, q) ∈ (klPositions batch i).1.zip (klPositions batch i).2 →
    SameToken batch i student p q
  kl : ProperSpan batch i (klPositions batch i)
  hidden : ProperSpan batch i (hiddenPositions batch i)

section
variable {batch : ProbeBatch} {padId : ℤ} {i wT wS : ℕ} {parts : ProbeParts}

/-- The spans end before the padding. -/
theorem allReal_span (ht : HoldsRow batch.teacher padId i parts.teacher wT)
    (hs : HoldsRow batch.student padId i parts.student wS) (cut : ℕ)
    (hcut : cut ≤ parts.student.length) :
    AllReal batch.teacher i (spanPositions batch i cut).1 ∧
      AllReal batch.student i (spanPositions batch i cut).2 := by
  have hlength := parts.length_teacher
  rw [spanPositions_eq ht hs (by omega) cut hcut]
  constructor
  · intro p hp
    have hmem := List.mem_range'_1.mp hp
    exact ht.getElem?_mask (by omega)
  · intro q hq
    have hmem := List.mem_range'_1.mp hq
    exact hs.getElem?_mask (by omega)

theorem properSpan_iff (ht : HoldsRow batch.teacher padId i parts.teacher wT)
    (hs : HoldsRow batch.student padId i parts.student wS) (cut : ℕ)
    (hcut : cut ≤ parts.student.length) :
    ProperSpan batch i (spanPositions batch i cut) ↔ cut < parts.student.length := by
  have hlength := parts.length_teacher
  have hspan := spanPositions_eq ht hs (by omega) cut hcut
  constructor
  · intro h
    have hdivisor := h.divisor
    rw [hspan, List.length_range'] at hdivisor
    omega
  · intro hlt
    obtain ⟨hteacher, hstudent⟩ := allReal_span ht hs cut hcut
    refine ⟨?_, ?_, hteacher, hstudent⟩
    · rw [hspan, List.length_range', List.length_range']
    · rw [hspan, List.length_range']
      omega

theorem sameToken_iff (ht : HoldsRow batch.teacher padId i parts.teacher wT)
    (hs : HoldsRow batch.student padId i parts.student wS) {j : ℕ}
    (hj : j + 1 < parts.student.length) :
    SameToken batch i parts.student (parts.context.length + j) j ↔
      parts.teacher[parts.context.length + j]? = parts.student[j]? ∧
        parts.teacher[parts.context.length + (j + 1)]? = parts.student[j + 1]? := by
  have hlength := parts.length_teacher
  rw [SameToken, Nat.add_assoc, ht.getElem?_inputIds (by omega), ht.getElem?_inputIds (by omega),
    hs.getElem?_inputIds (by omega)]
  constructor
  · rintro ⟨t, next, htoken, hnext, hown, -, hown'⟩
    exact ⟨htoken.trans hown.symm, hnext.trans hown'.symm⟩
  · rintro ⟨htoken, hnext⟩
    have hown : parts.student[j]? = some parts.student[j] := List.getElem?_eq_getElem (by omega)
    have hown' : parts.student[j + 1]? = some parts.student[j + 1] :=
      List.getElem?_eq_getElem hj
    exact ⟨_, _, htoken.trans hown, hnext.trans hown', hown, hown, hown'⟩

theorem mem_klPositions (ht : HoldsRow batch.teacher padId i parts.teacher wT)
    (hs : HoldsRow batch.student padId i parts.student wS) {p q : ℕ} :
    (p, q) ∈ (klPositions batch i).1.zip (klPositions batch i).2 ↔
      p = parts.context.length + q ∧ q + 1 < parts.student.length := by
  have hpos := parts.length_student_pos
  have hlength := parts.length_teacher
  have hspan := spanPositions_eq ht hs (by omega) 1 hpos
  have hstart : parts.teacher.length - parts.student.length = parts.context.length := by omega
  rw [Nat.cast_one] at hspan
  rw [klPositions, hspan, hstart, mem_zip_range']
  constructor
  · rintro ⟨j, hj, rfl, rfl⟩
    omega
  · rintro ⟨rfl, hq⟩
    exact ⟨q, by omega, rfl, by omega⟩

/-- Pairs behind the header. -/
theorem sameToken_behind_header (ht : HoldsRow batch.teacher padId i parts.teacher wT)
    (hs : HoldsRow batch.student padId i parts.student wS) {p q : ℕ}
    (hmem : (p, q) ∈ (klPositions batch i).1.zip (klPositions batch i).2)
    (hq : parts.header.length ≤ q) : SameToken batch i parts.student p q := by
  obtain ⟨rfl, hlt⟩ := (mem_klPositions ht hs).mp hmem
  exact (sameToken_iff ht hs hlt).mpr ⟨parts.getElem?_teacher hq,
    parts.getElem?_teacher (by omega)⟩

/-- Equal tokens at all pairs and after them are equal tokens everywhere. -/
theorem headerReturns_iff (hlength : 2 ≤ parts.student.length) : parts.HeaderReturns ↔
    ∀ j, j + 1 < parts.student.length →
      parts.teacher[parts.context.length + j]? = parts.student[j]? ∧
        parts.teacher[parts.context.length + (j + 1)]? = parts.student[j + 1]? := by
  rw [← parts.drop_teacher_eq_iff]
  constructor
  · intro h j hj
    rw [← h, List.getElem?_drop, List.getElem?_drop]
    exact ⟨rfl, rfl⟩
  · intro h
    have hT := parts.length_teacher
    apply List.ext_getElem?
    intro j
    rw [List.getElem?_drop]
    by_cases hj : j + 1 < parts.student.length
    · exact (h j hj).1
    · by_cases hlast : j + 1 = parts.student.length
      · obtain ⟨k, rfl⟩ : ∃ k, j = k + 1 := ⟨j - 1, by omega⟩
        exact (h k (by omega)).2
      · rw [List.getElem?_eq_none (by omega), List.getElem?_eq_none (by omega)]

theorem comparesSame_row (ht : HoldsRow batch.teacher padId i parts.teacher wT)
    (hs : HoldsRow batch.student padId i parts.student wS) :
    ComparesSame batch i parts.student ↔
      2 ≤ parts.student.length ∧ parts.HeaderReturns := by
  have hpos := parts.length_student_pos
  have hkl := properSpan_iff ht hs 1 hpos
  have hhidden := properSpan_iff ht hs 0 (Nat.zero_le _)
  rw [Nat.cast_one] at hkl
  rw [Nat.cast_zero] at hhidden
  constructor
  · intro h
    have hlength : 2 ≤ parts.student.length := hkl.mp h.kl
    refine ⟨hlength, (headerReturns_iff hlength).mpr fun j hj => ?_⟩
    exact (sameToken_iff ht hs hj).mp (h.tokens _ _ ((mem_klPositions ht hs).mpr ⟨rfl, hj⟩))
  · rintro ⟨hlength, hreturns⟩
    refine ⟨fun p q hmem => ?_, hkl.mpr hlength, hhidden.mpr hpos⟩
    obtain ⟨rfl, hq⟩ := (mem_klPositions ht hs).mp hmem
    exact (sameToken_iff ht hs hq).mpr ((headerReturns_iff hlength).mp hreturns q hq)

end

/-! ## A batch -/

theorem probeBatch_rows {tok : ChatTokenizer} {samples : List CcdSample} {parts : List ProbeParts}
    (hne : samples ≠ []) (hparts : List.Forall₂ (fun s part =>
      tok.encodeProbes s = .ok (part.teacher, part.student)) samples parts) :
    ∃ batch wT wS, probeBatch tok samples = .ok batch ∧
      batch.studentRows.length = samples.length ∧
      ∀ (i : ℕ) (part : ProbeParts), parts[i]? = some part →
        HoldsRow batch.teacher tok.padId i part.teacher wT ∧
          HoldsRow batch.student tok.padId i part.student wS := by
  have htokenized : samples.mapM tok.encodeProbes =
      .ok (parts.map fun part => (part.teacher, part.student)) :=
    mapM_of_forall₂ (List.forall₂_map_right_iff.mpr hparts)
  have hparts_ne : parts ≠ [] := by
    rintro rfl
    cases hparts
    exact hne rfl
  obtain ⟨teacher, wT, hteacher, hrowsT⟩ :=
    padAndStack_rows (parts.map ProbeParts.teacher) (by simpa using hparts_ne) tok.padId
  obtain ⟨student, wS, hstudent, hrowsS⟩ :=
    padAndStack_rows (parts.map ProbeParts.student) (by simpa using hparts_ne) tok.padId
  refine ⟨⟨(parts.map fun part => (part.teacher, part.student)).map
      fun ids => { inputIds := ids.2 }, teacher, student⟩, wT, wS, ?_, ?_,
    fun i part hi => ⟨hrowsT i _ (by simp [hi]), hrowsS i _ (by simp [hi])⟩⟩
  · rw [List.map_map] at hteacher hstudent
    have hT : padAndStack ((parts.map fun part => (part.teacher, part.student)).map
        fun ids => { inputIds := ids.1 }) tok.padId = .ok teacher := by
      rw [List.map_map]
      exact hteacher
    have hS : padAndStack ((parts.map fun part => (part.teacher, part.student)).map
        fun ids => { inputIds := ids.2 }) tok.padId = .ok student := by
      rw [List.map_map]
      exact hstudent
    simp only [probeBatch, htokenized, bind, Except.bind, hT, hS]
    rfl
  · rw [List.length_map, List.length_map, hparts.length_eq]

/-! ## The divergence -/

section
variable {V D : ℕ}

/-- The mean divergence of a sample, over the pairs of positions. -/
noncomputable def rowKl (batch : ProbeBatch) (teacher student : ModelOutput V D) (i : ℕ) :
    NanReal :=
  tensorMean (((klPositions batch i).1.zip (klPositions batch i).2).map fun (p, q) =>
    klPosition (student.logits i q) (teacher.logits i p))

theorem sampleTerms_kl {batch : ProbeBatch} {teacher student : ModelOutput V D} {args : CcdArgs}
    {score : Option ℚ} {i : ℕ} {terms : NanReal × NanReal}
    (h : sampleTerms batch teacher student args score i = .ok terms) :
    terms.1 = (rowKl batch teacher student i).map (· * (sampleKlWeight score : ℝ)) := by
  obtain ⟨klPerToken, hkl, h⟩ := bind_ok h
  have hterms : terms.1 = (tensorMean klPerToken).map (· * (sampleKlWeight score : ℝ)) := by
    dsimp only at h
    split at h
    · obtain ⟨mse, -, h⟩ := bind_ok h
      cases h
      rfl
    · cases h
      rfl
  have hlengths : ((klPositions batch i).2.map (student.logits i)).length =
      ((klPositions batch i).1.map (teacher.logits i)).length := by
    by_contra hne
    rw [chunkedKlDiv, if_neg hne] at hkl
    cases hkl
  rw [chunkedKlDiv_eq (by decide) hlengths] at hkl
  cases hkl
  have hpairs : List.zipWith klPosition ((klPositions batch i).2.map (student.logits i))
      ((klPositions batch i).1.map (teacher.logits i)) =
        ((klPositions batch i).1.zip (klPositions batch i).2).map fun (p, q) =>
          klPosition (student.logits i q) (teacher.logits i p) := by
    rw [List.zipWith_map, List.zipWith_comm, List.zip, List.map_zipWith]
  rw [hterms, hpairs]
  rfl

theorem map_fst_sampleTerms {batch : ProbeBatch} {teacher student : ModelOutput V D}
    {args : CcdArgs} {rounds : List (Option ℚ × ℕ)} {terms : List (NanReal × NanReal)}
    (h : rounds.mapM (fun (score, i) => sampleTerms batch teacher student args score i) =
      .ok terms) : terms.map Prod.fst = rounds.map fun (score, i) =>
        (rowKl batch teacher student i).map (· * (sampleKlWeight score : ℝ)) := by
  have hall := forall₂_of_mapM h
  clear h
  induction hall with
  | nil => rfl
  | cons hround _ ih => rw [List.map_cons, List.map_cons, ih, sampleTerms_kl hround]

theorem nanSum_eq_none {xs : List NanReal} : nanSum xs = none ↔ none ∈ xs := by
  induction xs with
  | nil => simp [nanSum]
  | cons x xs ih =>
    rw [nanSum, Option.map_eq_none_iff] at ih ⊢
    rw [List.mapM_cons, List.mem_cons, ← ih]
    cases x with
    | none => simp
    | some x => cases xs.mapM id <;> simp

theorem rowKl_eq_none {batch : ProbeBatch} {padId : ℤ} {i wT wS : ℕ} {parts : ProbeParts}
    (ht : HoldsRow batch.teacher padId i parts.teacher wT)
    (hs : HoldsRow batch.student padId i parts.student wS)
    (teacher student : ModelOutput V D) :
    rowKl batch teacher student i = none ↔ parts.student.length = 1 := by
  have hpos := parts.length_student_pos
  have hlength := parts.length_teacher
  have hspan := spanPositions_eq ht hs (by omega) 1 hpos
  rw [Nat.cast_one] at hspan
  rw [rowKl, klPositions, hspan, tensorMean]
  simp only [List.isEmpty_iff, List.map_eq_nil_iff, List.zip_eq_nil_iff,
    List.range'_eq_nil_iff, or_self]
  constructor
  · intro h
    by_contra hne
    rw [if_neg (by omega)] at h
    cases h
  · intro h
    rw [if_pos (by omega)]

/-- What a run of `ccd_loss` reports as its divergence. -/
theorem ccdLoss_kl {lib : TextLib} {tok : ChatTokenizer} {m : DistillModel V D}
    {samples : List CcdSample} {args : CcdArgs} {report : CcdReport}
    (h : ccdLoss lib tok m samples args = .ok report)
    {batch : ProbeBatch} (hbatch : probeBatch tok samples = .ok batch)
    (hrows : batch.studentRows.length = samples.length) :
    ∃ (teacher student : ModelOutput V D) (scores : List (Option ℚ)),
      m.teacher batch.teacher.inputIds batch.teacher.attentionMask = .ok teacher ∧
      m.student batch.student.inputIds batch.student.attentionMask = .ok student ∧
      scores.length = samples.length ∧
      report.ccdKl = (nanSum (scores.zipIdx.map fun (score, i) =>
        (rowKl batch teacher student i).map (· * (sampleKlWeight score : ℝ)))).map
          (· / (samples.length : ℝ)) := by
  unfold ccdLoss at h
  dsimp only at h
  split at h
  · cases h
  split at h
  · cases h
  obtain ⟨_, hbatch', h⟩ := bind_ok h
  obtain rfl := Except.ok.inj (hbatch.symm.trans hbatch')
  obtain ⟨teacher, hteacher, h⟩ := bind_ok h
  obtain ⟨student, hstudent, h⟩ := bind_ok h
  obtain ⟨scores, hscores, h⟩ := bind_ok h
  obtain ⟨terms, hterms, h⟩ := bind_ok h
  obtain ⟨sft, -, h⟩ := bind_ok h
  cases h
  have hlength := (forall₂_of_mapM hscores).length_eq
  rw [List.length_zip, hrows, min_self] at hlength
  refine ⟨teacher, student, scores, hteacher, hstudent, hlength.symm, ?_⟩
  show (nanSum (terms.map Prod.fst)).map (· / (samples.length : ℝ)) = _
  rw [map_fst_sampleTerms hterms]

theorem ccdKl_eq_none {batch : ProbeBatch} {parts : List ProbeParts} {padId : ℤ} {wT wS : ℕ}
    (hrows : ∀ (i : ℕ) (part : ProbeParts), parts[i]? = some part →
      HoldsRow batch.teacher padId i part.teacher wT ∧
        HoldsRow batch.student padId i part.student wS)
    (teacher student : ModelOutput V D) {scores : List (Option ℚ)}
    (hlength : scores.length = parts.length) :
    nanSum (scores.zipIdx.map fun (score, i) =>
      (rowKl batch teacher student i).map (· * (sampleKlWeight score : ℝ))) = none ↔
        ∃ part ∈ parts, part.student.length = 1 := by
  rw [nanSum_eq_none, List.mem_map]
  constructor
  · rintro ⟨⟨score, i⟩, hmem, hnone⟩
    have hi : i < parts.length := by
      have hget := List.mk_mem_zipIdx_iff_getElem?.mp hmem
      have hlt := (List.getElem?_eq_some_iff.mp hget).1
      omega
    obtain ⟨ht, hs⟩ := hrows i parts[i] (List.getElem?_eq_getElem hi)
    exact ⟨parts[i], List.getElem_mem hi,
      (rowKl_eq_none ht hs teacher student).mp (Option.map_eq_none_iff.mp hnone)⟩
  · rintro ⟨part, hmem, hone⟩
    obtain ⟨i, hi, rfl⟩ := List.getElem_of_mem hmem
    obtain ⟨ht, hs⟩ := hrows i parts[i] (List.getElem?_eq_getElem hi)
    have hscore : scores[i]? = some scores[i] := List.getElem?_eq_getElem (by omega)
    exact ⟨(scores[i], i), List.mk_mem_zipIdx_iff_getElem?.mpr hscore,
      Option.map_eq_none_iff.mpr ((rowKl_eq_none ht hs teacher student).mpr hone)⟩

end

/-- **Where distillation compares the same tokens.** For samples whose teacher's sequence is the
student's with the context behind the template's header, the pairs of positions hold the same
tokens of the student's sequence and every mean exists if and only if each student's sequence has
two tokens or more and the header comes back at the end of the context. Positions behind the header
always pair up, no position is padding, and the loss is a number also where the tokens differ. -/
theorem comparesSame_iff {tok : ChatTokenizer} {samples : List CcdSample}
    {parts : List ProbeParts} (hne : samples ≠ []) (hparts : List.Forall₂ (fun s part =>
      tok.encodeProbes s = .ok (part.teacher, part.student)) samples parts) :
    ∃ batch, probeBatch tok samples = .ok batch ∧
      ((∀ (i : ℕ) (part : ProbeParts), parts[i]? = some part →
          ComparesSame batch i part.student) ↔
        ∀ part ∈ parts, 2 ≤ part.student.length ∧ part.HeaderReturns) ∧
      (∀ (i : ℕ) (part : ProbeParts), parts[i]? = some part →
        AllReal batch.teacher i (klPositions batch i).1 ∧
        AllReal batch.student i (klPositions batch i).2 ∧
        ProperSpan batch i (hiddenPositions batch i) ∧
        ∀ p q, (p, q) ∈ (klPositions batch i).1.zip (klPositions batch i).2 →
          part.header.length ≤ q → SameToken batch i part.student p q) ∧
      ∀ (V D : ℕ) (lib : TextLib) (m : DistillModel V D) (args : CcdArgs) (report : CcdReport),
        ccdLoss lib tok m samples args = .ok report →
        ∃ (teacher student : ModelOutput V D) (scores : List (Option ℚ)),
          m.teacher batch.teacher.inputIds batch.teacher.attentionMask = .ok teacher ∧
          m.student batch.student.inputIds batch.student.attentionMask = .ok student ∧
          scores.length = samples.length ∧
          report.ccdKl = (nanSum (scores.zipIdx.map fun (score, i) =>
            (rowKl batch teacher student i).map (· * (sampleKlWeight score : ℝ)))).map
              (· / (samples.length : ℝ)) ∧
          (report.ccdKl = none ↔ ∃ part ∈ parts, part.student.length = 1) := by
  obtain ⟨batch, wT, wS, hbatch, hlength, hrows⟩ := probeBatch_rows hne hparts
  refine ⟨batch, hbatch, ?_, fun i part hi => ?_, fun V D lib m args report hrun => ?_⟩
  · constructor
    · intro h part hmem
      obtain ⟨i, hi, rfl⟩ := List.getElem_of_mem hmem
      have hget : parts[i]? = some parts[i] := List.getElem?_eq_getElem hi
      obtain ⟨ht, hs⟩ := hrows i parts[i] hget
      exact (comparesSame_row ht hs).mp (h i parts[i] hget)
    · intro h i part hi
      obtain ⟨ht, hs⟩ := hrows i part hi
      exact (comparesSame_row ht hs).mpr (h part (List.mem_of_getElem? hi))
  · obtain ⟨ht, hs⟩ := hrows i part hi
    obtain ⟨hteacher, hstudent⟩ := allReal_span ht hs 1 part.length_student_pos
    have hhidden := properSpan_iff ht hs 0 (Nat.zero_le _)
    exact ⟨hteacher, hstudent, hhidden.mpr part.length_student_pos,
      fun p q hmem hq => sameToken_behind_header ht hs hmem hq⟩
  · obtain ⟨teacher, student, scores, hteacher, hstudent, hscores, hkl⟩ :=
      ccdLoss_kl hrun hbatch hlength
    refine ⟨teacher, student, scores, hteacher, hstudent, hscores, hkl, ?_⟩
    rw [hkl, Option.map_eq_none_iff]
    exact ccdKl_eq_none hrows teacher student (hscores.trans hparts.length_eq)

def plainParts : ProbeParts := ⟨[], [99, 10, 10], [112, 113], [], by simp⟩

theorem plain_compared : ∃ batch, probeBatch charTokenizer [{ context := "c", prompt := "pq" }] =
    .ok batch ∧ ComparesSame batch 0 plainParts.student := by
  have hparts : List.Forall₂ (fun s part =>
      charTokenizer.encodeProbes s = .ok (part.teacher, part.student))
      [{ context := "c", prompt := "pq" }] [plainParts] := .cons rfl .nil
  obtain ⟨batch, hbatch, hiff, -⟩ := comparesSame_iff (by simp) hparts
  refine ⟨batch, hbatch, hiff.mpr (fun part hpart => ?_) 0 plainParts rfl⟩
  obtain rfl := List.mem_singleton.mp hpart
  exact ⟨by decide, List.nil_suffix⟩

/-- The text of a user's turn. -/
def turnText : Value → String
  | .dict [_, (_, .str text)] => text
  | _ => ""

/-- A template that puts `U:` in front of a turn and `A:` on a line behind it. -/
def turnTokenizer : ChatTokenizer :=
  { charTokenizer with
    chatTemplate := true
    applyChatTemplate := fun messages _ =>
      charTokenizer.encode ("U:" ++ String.join (messages.map turnText) ++ "\nA:") }

def turnParts : ProbeParts := ⟨[85, 58], [99, 10, 10], [112], [10, 65, 58], by simp⟩

/-- The header of the student is compared with the end of the context, and a prompt of one token
with nothing. -/
theorem turn_apart :
    (turnTokenizer.encodeProbes { context := "c", prompt := "p" } =
        .ok (turnParts.teacher, turnParts.student) ∧
      ∃ batch, probeBatch turnTokenizer [{ context := "c", prompt := "p" }] = .ok batch ∧
        ¬ ComparesSame batch 0 turnParts.student) ∧
    ∃ batch, probeBatch charTokenizer [{ context := "c", prompt := "p" }] = .ok batch ∧
      (klPositions batch 0).2 = [] := by
  refine ⟨⟨rfl, _, rfl, fun h => ?_⟩, _, rfl, by decide⟩
  obtain ⟨t, next, hteacher, -, hstudent, -⟩ := h.tokens 3 0 (by decide)
  have hteacher : some (10 : ℤ) = some t := hteacher
  have hstudent : some (85 : ℤ) = some t := hstudent
  cases hteacher
  cases hstudent

end Trainfer
