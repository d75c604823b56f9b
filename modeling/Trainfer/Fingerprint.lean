import Trainfer.Snapshot
import Trainfer.Lib.PartialWord
import Mathlib.Data.List.Sort
import Mathlib.Data.String.Basic

/-! What the residual fingerprint tells apart. The hash is fed with the names and the bytes of the
tensors, in name order and with nothing between them, so bytes of a tensor can stand for a name.

`fingerprint_iff` says between which names and shapes this cannot happen. -/

namespace Trainfer.Fingerprint

open PartialWord

/-- A tensor of dtype bfloat16: its bytes are two for each element. -/
structure Tensor where
  shape : List ℕ
  data : List UInt8
  size : data.length = 2 * shape.prod

/-- `t.view(torch.uint8).numpy().tobytes()` -/
def Tensor.viewBytes (t : Tensor) : Except PyError (List UInt8) :=
  if t.shape = [] then
    .error ⟨.runtimeError,
      "self.dim() cannot be 0 to view BFloat16 as Byte (different element sizes)"⟩
  else .ok t.data

section
variable {T : Type*}

def sortedKeys (d : Dict T) : List String := d.keys.mergeSort fun a b => decide (a ≤ b)

/-- The items, in key order. -/
def rows (d : Dict T) : List (String × T) :=
  (sortedKeys d).filterMap fun k => (d.lookup k).map fun t => (k, t)

end

/-- What `residual_fingerprint` feeds to the hash. -/
def updates (d : Dict Tensor) : Except PyError (List UInt8) := do
  let parts ← (rows d).mapM fun e => e.2.viewBytes.map (e.1.toUTF8.toList ++ ·)
  return parts.flatten

/-- Names and shapes, in name order. -/
def layout (d : Dict Tensor) : List (String × List ℕ) := (rows d).map fun e => (e.1, e.2.shape)

/-- The letters that the layout fixes: the names, but not the bytes of the tensors. -/
def pattern (l : List (String × List ℕ)) : Pattern UInt8 :=
  l.flatMap fun e => e.1.toUTF8.toList.map some ++ List.replicate (2 * e.2.prod) none

def Differ (d e : Dict Tensor) : Prop := ∃ k, d.lookup k ≠ e.lookup k

/-- Different maps with the names and shapes of `d` and `e` never feed the same bytes. -/
def Distinguishes (d e : Dict Tensor) : Prop :=
  ∀ d' e', layout d' = layout d → layout e' = layout e → Differ d' e' →
    ∀ bytes, updates d' = .ok bytes → updates e' ≠ .ok bytes

/-! ## Rows -/

section
variable {T : Type*} {d e : Dict T}

theorem mem_sortedKeys {k : String} : k ∈ sortedKeys d ↔ k ∈ d := by
  rw [sortedKeys, List.mem_mergeSort, AList.mem_keys]

theorem sortedKeys_pairwise (d : Dict T) : (sortedKeys d).Pairwise (· ≤ ·) := by
  have hsorted : (sortedKeys d).Pairwise fun a b => decide (a ≤ b) = true :=
    List.pairwise_mergeSort
      (fun a b c hab hbc => by simpa using le_trans (by simpa using hab) (by simpa using hbc))
      (fun a b => by simpa using le_total a b) d.keys
  simpa using hsorted

theorem sortedKeys_nodup (d : Dict T) : (sortedKeys d).Nodup :=
  (List.mergeSort_perm _ _).nodup_iff.mpr d.keys_nodup

theorem mem_rows {k : String} {t : T} : (k, t) ∈ rows d ↔ d.lookup k = some t := by
  simp only [rows, List.mem_filterMap, Option.map_eq_some_iff, Prod.mk.injEq]
  constructor
  · rintro ⟨_, -, _, hlookup, rfl, rfl⟩
    exact hlookup
  · intro hlookup
    have hmem : k ∈ d := by
      rw [← AList.lookup_isSome, hlookup]
      rfl
    exact ⟨k, mem_sortedKeys.mpr hmem, t, hlookup, rfl, rfl⟩

theorem map_fst_rows (d : Dict T) : (rows d).map Prod.fst = sortedKeys d := by
  rw [rows, List.map_filterMap]
  refine (List.filterMap_congr fun k hk => ?_).trans List.filterMap_some
  obtain ⟨t, ht⟩ := Option.isSome_iff_exists.mp (AList.lookup_isSome.mpr (mem_sortedKeys.mp hk))
  simp [ht]

/-- The rows are the map. -/
theorem rows_eq_iff : rows d = rows e ↔ ∀ k, d.lookup k = e.lookup k := by
  constructor
  · intro h k
    refine Option.ext fun t => ?_
    rw [← mem_rows, ← mem_rows, h]
  · intro h
    have hperm : (sortedKeys d).Perm (sortedKeys e) := by
      refine (List.perm_ext_iff_of_nodup (sortedKeys_nodup d) (sortedKeys_nodup e)).mpr fun k => ?_
      rw [mem_sortedKeys, mem_sortedKeys, ← AList.lookup_isSome, ← AList.lookup_isSome, h]
    have hkeys : sortedKeys d = sortedKeys e :=
      hperm.eq_of_pairwise' (sortedKeys_pairwise d) (sortedKeys_pairwise e)
    rw [rows, rows, hkeys]
    exact List.filterMap_congr fun k _ => by rw [h]

/-- A map with given rows. -/
def ofRows (rs : List (String × T)) (hkeys : (rs.map Prod.fst).Nodup) : Dict T where
  entries := rs.map fun e => ⟨e.1, e.2⟩
  nodupKeys := by simpa [List.NodupKeys, List.keys, Function.comp_def] using hkeys

theorem rows_ofRows {rs : List (String × T)} (hkeys : (rs.map Prod.fst).Nodup)
    (hsorted : (rs.map Prod.fst).Pairwise (· ≤ ·)) : rows (ofRows rs hkeys) = rs := by
  have hfst : (ofRows rs hkeys).keys = rs.map Prod.fst := by
    simp [ofRows, AList.keys, List.keys, Function.comp_def]
  have hlookup : ∀ e ∈ rs, (ofRows rs hkeys).lookup e.1 = some e.2 := by
    intro e he
    exact AList.mem_lookup_iff.mpr (List.mem_map_of_mem he)
  rw [rows, sortedKeys, hfst, List.mergeSort_of_pairwise (by simpa using hsorted),
    List.filterMap_map]
  refine (List.filterMap_congr fun e he => ?_).trans List.filterMap_some
  simp [hlookup e he]

end

/-! ## The bytes -/

/-- The bytes of the rows, name and tensor after name and tensor. -/
def stream (rs : List (String × Tensor)) : List UInt8 :=
  rs.flatMap fun e => e.1.toUTF8.toList ++ e.2.data

/-- Names and shapes of rows. -/
def shapes (rs : List (String × Tensor)) : List (String × List ℕ) :=
  rs.map fun e => (e.1, e.2.shape)

variable {rs : List (String × Tensor)} {l : List (String × List ℕ)} {d e : Dict Tensor}

theorem fits_stream (rs : List (String × Tensor)) : Fits (stream rs) (pattern (shapes rs)) := by
  induction rs with
  | nil => exact .nil
  | cons e rs ih =>
    simp only [stream, pattern, shapes, List.map_cons, List.flatMap_cons, List.append_assoc]
    exact fits_fixed_append.mpr ⟨_, rfl, fits_holes_append.mpr ⟨_, _, rfl, e.2.size, ih⟩⟩

/-- Every word that fits is the stream of rows with these names and shapes. -/
theorem exists_stream {word : List UInt8} (h : Fits word (pattern l)) :
    ∃ rs, shapes rs = l ∧ stream rs = word := by
  induction l generalizing word with
  | nil =>
    cases h
    exact ⟨[], rfl, rfl⟩
  | cons x l ih =>
    rw [pattern, List.flatMap_cons, List.append_assoc] at h
    obtain ⟨rest, rfl, hrest⟩ := fits_fixed_append.mp h
    obtain ⟨data, tail, rfl, hdata, htail⟩ := fits_holes_append.mp hrest
    obtain ⟨rs, rfl, rfl⟩ := ih htail
    exact ⟨(x.1, ⟨x.2, data, hdata⟩) :: rs, rfl, by simp [stream]⟩

/-- Names and shapes say where each tensor begins and ends. -/
theorem stream_injective {rs' : List (String × Tensor)} (hshapes : shapes rs = shapes rs')
    (h : stream rs = stream rs') : rs = rs' := by
  induction rs generalizing rs' with
  | nil =>
    cases rs' with
    | nil => rfl
    | cons e' rs' => cases hshapes
  | cons e rs ih =>
    cases rs' with
    | nil => cases hshapes
    | cons e' rs' =>
      obtain ⟨name, shape, data, hsize⟩ := e
      obtain ⟨name', shape', data', hsize'⟩ := e'
      obtain ⟨hhead, htail⟩ := List.cons.inj hshapes
      obtain ⟨rfl, rfl⟩ := Prod.mk.inj hhead
      simp only [stream, List.flatMap_cons, List.append_assoc] at h
      obtain ⟨rfl, hrest⟩ := List.append_inj (List.append_cancel_left h) (hsize.trans hsize'.symm)
      rw [ih htail hrest]

theorem viewBytes_row {e : String × Tensor} (h : e.2.shape ≠ []) :
    e.2.viewBytes.map (e.1.toUTF8.toList ++ ·) = .ok (e.1.toUTF8.toList ++ e.2.data) := by
  rw [Tensor.viewBytes, if_neg h]
  rfl

/-- A tensor without dimensions has no bytes, and the hash is not made. -/
theorem updates_eq_ok_iff {bytes : List UInt8} : updates d = .ok bytes ↔
    (∀ x ∈ layout d, x.2 ≠ []) ∧ stream (rows d) = bytes := by
  rw [layout, List.forall_mem_map]
  unfold updates
  constructor
  · intro h
    obtain ⟨parts, hparts, hbytes⟩ := bind_ok h
    have hshapes : ∀ e ∈ rows d, e.2.shape ≠ [] := by
      intro e he hshape
      obtain ⟨part, hpart⟩ := exists_mapM_ok_iff.mp ⟨parts, hparts⟩ e he
      rw [Tensor.viewBytes, if_pos hshape] at hpart
      cases hpart
    rw [mapM_map_ok fun e he => viewBytes_row (hshapes e he)] at hparts
    cases hparts
    cases hbytes
    exact ⟨hshapes, by rw [stream, List.flatMap_def]⟩
  · rintro ⟨hshapes, rfl⟩
    rw [mapM_map_ok fun e he => viewBytes_row (hshapes e he), stream, List.flatMap_def]
    rfl

/-- The hash of a model state is made of the rows of its residual. -/
theorem residualFingerprint_eq {arch : Arch} {T : Type*} [Torch T] (sha256 : List UInt8 → String)
    (st : ModelState arch T) : st.residualFingerprint sha256 =
      sha256 ((rows st.mergedDeltas).flatMap fun e => e.1.toUTF8.toList ++ Torch.bytes e.2) := by
  have hkeys : (st.mergedDeltas.keys.mergeSort fun a b => decide (a ≤ b)) =
      (rows st.mergedDeltas).map Prod.fst := (map_fst_rows st.mergedDeltas).symm
  unfold ModelState.residualFingerprint
  simp only [hkeys, List.flatMap_map]
  refine congrArg sha256 (List.flatMap_congr fun e he => ?_)
  rw [mem_rows.mp he]
  rfl

/-! ## Which maps are told apart -/

/-- A map with the layout of `d` and a given stream. -/
theorem exists_updates {word : List UInt8} (h : Fits word (pattern (layout d)))
    (hdims : ∀ x ∈ layout d, x.2 ≠ []) :
    ∃ d', layout d' = layout d ∧ updates d' = .ok word := by
  obtain ⟨rs, hshapes, hstream⟩ := exists_stream h
  have hkeys : rs.map Prod.fst = sortedKeys d := by
    have hfst := congrArg (List.map Prod.fst) hshapes
    simpa [shapes, layout, Function.comp_def, ← map_fst_rows] using hfst
  have hrows := rows_ofRows (hkeys ▸ sortedKeys_nodup d) (hkeys ▸ sortedKeys_pairwise d)
  have hlayout : layout (ofRows rs (hkeys ▸ sortedKeys_nodup d)) = layout d := by
    rw [layout, hrows]
    exact hshapes
  refine ⟨ofRows rs (hkeys ▸ sortedKeys_nodup d), hlayout, updates_eq_ok_iff.mpr ⟨?_, ?_⟩⟩
  · rwa [hlayout]
  · rw [hrows, hstream]

/-- **The fingerprint.** Different maps with given names and shapes never feed the same bytes iff
the names and shapes are the same, or their names clash when the streams are laid over each other,
or a tensor has no dimensions. -/
theorem fingerprint_iff (d e : Dict Tensor) :
    Distinguishes d e ↔ layout d = layout e ∨
      ¬ Compatible (pattern (layout d)) (pattern (layout e)) ∨
        (∃ x ∈ layout d, x.2 = []) ∨ ∃ x ∈ layout e, x.2 = [] := by
  constructor
  · intro h
    by_contra hnot
    simp only [not_or, not_exists, not_and, not_not] at hnot
    obtain ⟨hlayout, hcompatible, hd, he⟩ := hnot
    obtain ⟨word, hfitsd, hfitse⟩ := exists_fits_iff.mpr hcompatible
    obtain ⟨d', hlayoutd, hupdatesd⟩ := exists_updates hfitsd hd
    obtain ⟨e', hlayoute, hupdatese⟩ := exists_updates hfitse he
    refine h d' e' hlayoutd hlayoute ?_ word hupdatesd hupdatese
    by_contra hsame
    have hrows : rows d' = rows e' := rows_eq_iff.mpr (by simpa [Differ] using hsame)
    refine hlayout ?_
    rw [← hlayoutd, ← hlayoute, layout, layout, hrows]
  · rintro hcases d' e' hlayoutd hlayoute ⟨k, hk⟩ bytes hupdatesd hupdatese
    obtain ⟨hdimsd, hstreamd⟩ := updates_eq_ok_iff.mp hupdatesd
    obtain ⟨hdimse, hstreame⟩ := updates_eq_ok_iff.mp hupdatese
    rw [hlayoutd] at hdimsd
    rw [hlayoute] at hdimse
    rcases hcases with hsame | hclash | ⟨x, hx, hshape⟩ | ⟨x, hx, hshape⟩
    · have hshapes : shapes (rows d') = shapes (rows e') :=
        hlayoutd.trans (hsame.trans hlayoute.symm)
      have hrows := stream_injective hshapes (hstreamd.trans hstreame.symm)
      exact hk (rows_eq_iff.mp hrows k)
    · refine hclash (exists_fits_iff.mp ⟨bytes, ?_, ?_⟩)
      · rw [← hlayoutd, ← hstreamd]
        exact fits_stream (rows d')
      · rw [← hlayoute, ← hstreame]
        exact fits_stream (rows e')
    · exact hdimsd x hx hshape
    · exact hdimse x hx hshape

theorem rows_singleton {T : Type*} (k : String) (t : T) :
    rows (AList.singleton k t : Dict T) = [(k, t)] := by
  have hkeys : (AList.singleton k t : Dict T).keys = [k] := rfl
  have hlookup : (AList.singleton k t : Dict T).lookup k = some t :=
    AList.mem_lookup_iff.mpr List.mem_cons_self
  rw [rows, sortedKeys, hkeys, List.mergeSort_singleton]
  simp [hlookup]

/-- The bytes of a tensor go on with the name, and two shapes have the same bytes. -/
theorem sameBytes_singleton :
    updates (AList.singleton "a" ⟨[1], [98, 99], rfl⟩) = .ok [97, 98, 99] ∧
    updates (AList.singleton "abc" ⟨[0], [], rfl⟩) = .ok [97, 98, 99] ∧
    Differ (AList.singleton "a" ⟨[1], [98, 99], rfl⟩) (AList.singleton "abc" ⟨[0], [], rfl⟩) ∧
    updates (AList.singleton "a" ⟨[1, 2], [0, 63, 0, 64], rfl⟩) =
      updates (AList.singleton "a" ⟨[2, 1], [0, 63, 0, 64], rfl⟩) ∧
    Differ (AList.singleton "a" ⟨[1, 2], [0, 63, 0, 64], rfl⟩)
      (AList.singleton "a" ⟨[2, 1], [0, 63, 0, 64], rfl⟩) := by
  refine ⟨?_, ?_, ⟨"a", ?_⟩, ?_, ⟨"a", ?_⟩⟩
  · simp only [updates, rows_singleton]
    decide +kernel
  · simp only [updates, rows_singleton]
    decide +kernel
  · intro h
    cases h
  · simp only [updates, rows_singleton]
    rfl
  · intro h
    cases h

end Trainfer.Fingerprint
