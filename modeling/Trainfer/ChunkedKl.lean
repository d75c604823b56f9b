import Trainfer.Ccd
import Trainfer.Lib.Buffer

/-! The loop of `chunked_kl_div` on tensors: the rows in front of the last dimension are flattened,
a buffer with arbitrary content is filled chunk by chunk, and viewed with the leading dimensions.

`chunkedKlDiv_spec` says that the result is the divergence of the softmax of the target from that
of the input, row by row, for every chunk size. -/

namespace Trainfer.ChunkedKl

open Gibbs

variable {V : ℕ}

/-! ## Tensors -/

/-- A contiguous tensor of shape `(*lead, V)`, with the rows of `view(-1, V)`. -/
structure LogitTensor (V : ℕ) where
  lead : List ℕ
  rows : List (Fin V → ℝ)
  size : rows.length = lead.prod

structure FloatTensor where
  shape : List ℕ
  entries : List ℝ
  size : entries.length = shape.prod

/-- `t.view(shape)`, of a tensor with one dimension. -/
def view (entries : List ℝ) (shape : List ℕ) : Except PyError FloatTensor :=
  if h : entries.length = shape.prod then .ok ⟨shape, entries, h⟩
  else .error ⟨.runtimeError, "shape '" ++ toString shape ++ "' is invalid for input of size " ++
    toString entries.length⟩

/-- The place of an index in a contiguous tensor. -/
def flatIndex : List ℕ → List ℕ → ℕ
  | _ :: shape, i :: idx => i * shape.prod + flatIndex shape idx
  | _, _ => 0

def InBounds (idx shape : List ℕ) : Prop := List.Forall₂ (· < ·) idx shape

def LogitTensor.row (t : LogitTensor V) (idx : List ℕ) : Fin V → ℝ :=
  t.rows.getD (flatIndex t.lead idx) 0

def FloatTensor.get (t : FloatTensor) (idx : List ℕ) : ℝ :=
  t.entries.getD (flatIndex t.shape idx) 0

/-! ## The loop -/

/-- `chunk_kl`, of the rows from `startIdx` to `endIdx`. -/
noncomputable def chunkKl (input target : LogitTensor V) (startIdx endIdx : ℕ) : List ℝ :=
  List.zipWith klPosition (Slices.between input.rows startIdx endIdx)
    (Slices.between target.rows startIdx endIdx)

/-- `chunked_kl_div`; `empty` is what `torch.empty` finds in memory. -/
noncomputable def chunkedKlDiv (empty : ℕ → ℝ) (input target : LogitTensor V)
    (chunkSize : ℕ) : Except PyError FloatTensor :=
  if input.lead ≠ target.lead then .error ⟨.other "AssertionError", ""⟩
  else if V = 0 then
    .error ⟨.runtimeError, "cannot reshape tensor of 0 elements into shape [-1, 0] because the " ++
      "unspecified dimension size -1 can be any value and is ambiguous"⟩
  else if chunkSize = 0 then .error ⟨.valueError, "range() arg 3 must not be zero"⟩
  else
    let L := input.rows.length
    let klOut := (List.range L).map empty
    view (Buffer.fill (chunkKl input target) L chunkSize klOut) input.lead

variable {input target : LogitTensor V} {chunkSize : ℕ}

/-! ## Indices -/

theorem flatIndex_lt {idx shape : List ℕ} (h : InBounds idx shape) :
    flatIndex shape idx < shape.prod := by
  induction h with
  | nil => exact Nat.one_pos
  | @cons i n idx shape hi _ ih =>
    rw [flatIndex, List.prod_cons]
    calc i * shape.prod + flatIndex shape idx < i * shape.prod + shape.prod := by omega
      _ = (i + 1) * shape.prod := (Nat.succ_mul i _).symm
      _ ≤ n * shape.prod := Nat.mul_le_mul_right _ hi

/-! ## One row -/

/-- The arguments are reversed twice: the target is the distribution of the mean. -/
theorem klPosition_eq_kl (hV : 0 < V) (x y : Fin V → ℝ) :
    klPosition x y = kl Finset.univ (softmax Finset.univ y) (softmax Finset.univ x) := by
  have hne : (Finset.univ : Finset (Fin V)).Nonempty := ⟨⟨0, hV⟩, Finset.mem_univ _⟩
  unfold klPosition kl
  refine Finset.sum_congr rfl fun v _ => ?_
  have hlog : ∀ z : Fin V → ℝ, z v - logsumexp z = Real.log (softmax Finset.univ z v) :=
    fun z => (log_softmax hne z v).symm
  rw [klDiv, hlog, hlog, Real.exp_log (softmax_pos hne y v)]

theorem klPosition_nonneg (hV : 0 < V) (x y : Fin V → ℝ) : 0 ≤ klPosition x y := by
  rw [klPosition_eq_kl hV]
  exact kl_softmax_nonneg ⟨⟨0, hV⟩, Finset.mem_univ _⟩ y x

/-! ## The result -/

theorem between_natCast {α : Type*} (xs : List α) (i j : ℕ) :
    Slices.between xs i j = (xs.take j).drop i := by
  have hi : ¬ (i : ℤ) < 0 := by omega
  have hj : ¬ (j : ℤ) < 0 := by omega
  rw [Slices.between, Slices.sliceTo, if_neg hi, if_neg hj, Int.toNat_natCast, Int.toNat_natCast]

theorem chunkKl_eq (input target : LogitTensor V) (i j : ℕ) :
    chunkKl input target i j =
      ((List.zipWith klPosition input.rows target.rows).take j).drop i := by
  rw [chunkKl, between_natCast, between_natCast, List.take_zipWith, List.drop_zipWith]

theorem length_zipWith_rows (hlead : input.lead = target.lead) :
    (List.zipWith klPosition input.rows target.rows).length = input.rows.length := by
  rw [List.length_zipWith, target.size, ← hlead, ← input.size, min_self]

/-- What is returned, whatever the buffer held. -/
theorem chunkedKlDiv_eq_ok (hV : 0 < V) (hchunk : 0 < chunkSize)
    (hlead : input.lead = target.lead) (empty : ℕ → ℝ) :
    chunkedKlDiv empty input target chunkSize =
      .ok ⟨input.lead, List.zipWith klPosition input.rows target.rows,
        (length_zipWith_rows hlead).trans input.size⟩ := by
  have hfill : Buffer.fill (chunkKl input target) input.rows.length chunkSize
      ((List.range input.rows.length).map empty) =
        List.zipWith klPosition input.rows target.rows := by
    rw [← length_zipWith_rows hlead]
    exact Buffer.fill_eq hchunk (by simp) (chunkKl_eq input target)
  unfold chunkedKlDiv
  rw [if_neg (not_not.mpr hlead), if_neg hV.ne', if_neg hchunk.ne']
  simp only [hfill]
  rw [view, dif_pos ((length_zipWith_rows hlead).trans input.size)]

/-- On one tensor and on a list of rows the function is the same. -/
theorem chunkedKlDiv_rows (hV : 0 < V) (hchunk : 0 < chunkSize)
    (hlead : input.lead = target.lead) (empty : ℕ → ℝ) :
    (chunkedKlDiv empty input target chunkSize).map FloatTensor.entries =
      Trainfer.chunkedKlDiv input.rows target.rows chunkSize := by
  have hrows : input.rows.length = target.rows.length := by
    rw [input.size, target.size, hlead]
  rw [chunkedKlDiv_eq_ok hV hchunk hlead, Trainfer.chunkedKlDiv_eq hchunk hrows]
  rfl

theorem getD_zipWith_rows (hlead : input.lead = target.lead) {idx : List ℕ}
    (hidx : InBounds idx input.lead) :
    (List.zipWith klPosition input.rows target.rows).getD (flatIndex input.lead idx) 0 =
      klPosition (input.row idx) (target.row idx) := by
  have hlt : flatIndex input.lead idx < input.rows.length := input.size ▸ flatIndex_lt hidx
  have hlt' : flatIndex input.lead idx < target.rows.length := by
    rwa [target.size, ← hlead, ← input.size]
  rw [LogitTensor.row, LogitTensor.row, ← hlead,
    List.getD_eq_getElem _ _ (by rwa [length_zipWith_rows hlead]), List.getElem_zipWith,
    List.getD_eq_getElem _ _ hlt, List.getD_eq_getElem _ _ hlt']

/-- **Chunked divergence.** The entry at an index is the divergence of the softmax of the target's
row from that of the input's row. Each entry is written in one of the chunks, none is negative,
and neither the chunk size nor the content of the new buffer matters. -/
theorem chunkedKlDiv_spec (empty : ℕ → ℝ) (input target : LogitTensor V) (chunkSize : ℕ)
    (hV : 0 < V) (hchunk : 0 < chunkSize) (hlead : input.lead = target.lead) :
    ∃ out, chunkedKlDiv empty input target chunkSize = .ok out ∧ out.shape = input.lead ∧
      (∀ idx, InBounds idx out.shape → out.get idx =
        kl Finset.univ (softmax Finset.univ (target.row idx))
          (softmax Finset.univ (input.row idx))) ∧
      (∀ x ∈ out.entries, 0 ≤ x) ∧
      (∀ i < out.entries.length, (Slices.starts out.entries.length chunkSize).countP
        (fun s => s ≤ i ∧ i < min (s + chunkSize) out.entries.length) = 1) ∧
      ∀ empty' chunkSize', 0 < chunkSize' →
        chunkedKlDiv empty' input target chunkSize' = .ok out := by
  refine ⟨_, chunkedKlDiv_eq_ok hV hchunk hlead empty, rfl, fun idx hidx => ?_, fun x hx => ?_,
    fun i hi => Buffer.countP_starts hchunk hi,
    fun empty' _ hchunk' => chunkedKlDiv_eq_ok hV hchunk' hlead empty'⟩
  · exact (getD_zipWith_rows hlead hidx).trans (klPosition_eq_kl hV _ _)
  · obtain ⟨i, hi, rfl⟩ := List.getElem_of_mem hx
    rw [List.getElem_zipWith]
    exact klPosition_nonneg hV _ _

/-- Three rows in chunks of two. -/
theorem chunkedKlDiv_spec_three :
    ∃ out, chunkedKlDiv (fun _ => 7) (V := 2) ⟨[1, 3], [0, 1, 0], rfl⟩ ⟨[1, 3], [0, 0, 1], rfl⟩ 2 =
      .ok out ∧ out.shape = [1, 3] ∧ ∀ x ∈ out.entries, 0 ≤ x := by
  obtain ⟨out, hout, hshape, -, hnonneg, -⟩ := chunkedKlDiv_spec (V := 2) (fun _ => 7)
    ⟨[1, 3], [0, 1, 0], rfl⟩ ⟨[1, 3], [0, 0, 1], rfl⟩ 2 two_pos two_pos rfl
  exact ⟨out, hout, hshape, hnonneg⟩

end Trainfer.ChunkedKl
