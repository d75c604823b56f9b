import Mathlib.Data.List.Sort
import Mathlib.Data.List.Dedup
import Mathlib.Data.List.Nodup
import Mathlib.Data.List.Perm.Basic

/-! Splitting a list within each of its strata: the elements with one key, sorted by rank, are cut
in two at a place that depends on their number only.

The two parts are a rearrangement of the list (`parts_perm`). When elements are added behind those
of their stratum, nothing moves from the second part to the first iff no cut moves to the right
(`stable_iff`). -/

namespace Strata

variable {α κ ι : Type} [DecidableEq α] [LinearOrder κ] [LinearOrder ι]

def keys (key : α → κ) (xs : List α) : List κ := (xs.map key).dedup.insertionSort (· ≤ ·)

def stratum (key : α → κ) (rank : α → ι) (xs : List α) (k : κ) : List α :=
  (xs.filter fun a => key a = k).insertionSort fun a b => rank a ≤ rank b

def firsts (key : α → κ) (rank : α → ι) (size : ℕ → ℕ) (xs : List α) : List α :=
  (keys key xs).flatMap fun k =>
    (stratum key rank xs k).take (size (stratum key rank xs k).length)

def rests (key : α → κ) (rank : α → ι) (size : ℕ → ℕ) (xs : List α) : List α :=
  (keys key xs).flatMap fun k =>
    (stratum key rank xs k).drop (size (stratum key rank xs k).length)

variable {key : α → κ} {rank : α → ι} {size : ℕ → ℕ} {xs ys xs' : List α} {a : α} {k : κ}

/-! ## Strata -/

omit [DecidableEq α] in
theorem mem_keys : k ∈ keys key xs ↔ ∃ a ∈ xs, key a = k := by
  simp [keys]

omit [DecidableEq α] in
theorem nodup_keys (key : α → κ) (xs : List α) : (keys key xs).Nodup :=
  (List.perm_insertionSort _ _).nodup_iff.mpr (List.nodup_dedup _)

omit [DecidableEq α] in
theorem stratum_perm (key : α → κ) (rank : α → ι) (xs : List α) (k : κ) :
    (stratum key rank xs k).Perm (xs.filter fun a => key a = k) :=
  List.perm_insertionSort _ _

omit [DecidableEq α] in
theorem mem_stratum : a ∈ stratum key rank xs k ↔ a ∈ xs ∧ key a = k := by
  rw [(stratum_perm key rank xs k).mem_iff]
  simp

omit [DecidableEq α] in
/-- Within a stratum, the ranks increase. -/
theorem stratum_pairwise (h : (xs.map rank).Nodup) (k : κ) :
    (stratum key rank xs k).Pairwise fun a b => rank a < rank b := by
  have hsorted : (stratum key rank xs k).Pairwise fun a b => rank a ≤ rank b := by
    have : Std.Total fun a b : α => rank a ≤ rank b := ⟨fun a b => le_total (rank a) (rank b)⟩
    have : IsTrans α fun a b => rank a ≤ rank b := ⟨fun _ _ _ => le_trans⟩
    exact List.pairwise_insertionSort _ _
  have hne : (stratum key rank xs k).Pairwise fun a b => rank a ≠ rank b := by
    rw [← List.pairwise_map]
    exact ((stratum_perm key rank xs k).map rank).nodup_iff.mpr
      (h.sublist (List.filter_sublist.map rank))
  exact (hsorted.and hne).imp fun hab => lt_of_le_of_ne hab.1 hab.2

omit [DecidableEq α] in
theorem nodup_stratum (h : (xs.map rank).Nodup) (k : κ) : (stratum key rank xs k).Nodup :=
  (stratum_pairwise h k).imp fun hlt heq => absurd hlt (by rw [heq]; exact lt_irrefl _)

omit [DecidableEq α] in
/-- Elements that rank after those of their stratum come behind them. -/
theorem stratum_extend (hperm : xs'.Perm (xs ++ ys)) (hrank : (xs'.map rank).Nodup)
    (hafter : ∀ a ∈ xs, ∀ b ∈ ys, key a = key b → rank a < rank b) (k : κ) :
    stratum key rank xs' k = stratum key rank xs k ++ stratum key rank ys k := by
  have hnodup : ((xs ++ ys).map rank).Nodup := (hperm.map rank).nodup_iff.mp hrank
  rw [List.map_append] at hnodup
  have hmem : (stratum key rank xs' k).Perm
      (stratum key rank xs k ++ stratum key rank ys k) := by
    refine (stratum_perm key rank xs' k).trans ((hperm.filter _).trans ?_)
    rw [List.filter_append]
    exact ((stratum_perm key rank xs k).append (stratum_perm key rank ys k)).symm
  refine hmem.eq_of_pairwise (fun a b _ _ hab hba => absurd hab (not_lt.mpr hba.le))
    (stratum_pairwise hrank k) ?_
  rw [List.pairwise_append]
  refine ⟨stratum_pairwise hnodup.of_append_left k, stratum_pairwise hnodup.of_append_right k,
    fun a ha b hb => ?_⟩
  rw [mem_stratum] at ha hb
  exact hafter a ha.1 b hb.1 (ha.2.trans hb.2.symm)

/-! ## Parts -/

theorem mem_firsts : a ∈ firsts key rank size xs ↔ a ∈ xs ∧
    (stratum key rank xs (key a)).idxOf a < size (stratum key rank xs (key a)).length := by
  rw [firsts, List.mem_flatMap]
  constructor
  · rintro ⟨k, -, ha⟩
    obtain ⟨hxs, rfl⟩ := mem_stratum.mp (List.mem_of_mem_take ha)
    exact ⟨hxs, (List.mem_take_iff_idxOf_lt (mem_stratum.mpr ⟨hxs, rfl⟩)).mp ha⟩
  · rintro ⟨hxs, ha⟩
    exact ⟨key a, mem_keys.mpr ⟨a, hxs, rfl⟩,
      (List.mem_take_iff_idxOf_lt (mem_stratum.mpr ⟨hxs, rfl⟩)).mpr ha⟩

omit [DecidableEq α] in
theorem parts_perm (h : (xs.map rank).Nodup) :
    (firsts key rank size xs ++ rests key rank size xs).Perm xs := by
  have hall : (firsts key rank size xs ++ rests key rank size xs).Perm
      ((keys key xs).flatMap (stratum key rank xs)) := by
    refine (List.flatMap_append_perm _ _ _).trans (List.Perm.of_eq ?_)
    simp only [List.take_append_drop]
  refine hall.trans ((List.perm_ext_iff_of_nodup ?_ h.of_map).mpr fun a => ?_)
  · rw [List.nodup_flatMap]
    refine ⟨fun k _ => nodup_stratum h k, (nodup_keys key xs).imp fun hne => ?_⟩
    intro a ha ha'
    exact hne ((mem_stratum.mp ha).2.symm.trans (mem_stratum.mp ha').2)
  · rw [List.mem_flatMap]
    constructor
    · rintro ⟨k, -, ha⟩
      exact (mem_stratum.mp ha).1
    · intro ha
      exact ⟨key a, mem_keys.mpr ⟨a, ha, rfl⟩, mem_stratum.mpr ⟨ha, rfl⟩⟩

omit [DecidableEq α] in
theorem parts_disjoint (h : (xs.map rank).Nodup) :
    (firsts key rank size xs).Disjoint (rests key rank size xs) :=
  List.disjoint_of_nodup_append ((parts_perm h).nodup_iff.mpr h.of_map)

theorem mem_rests (h : (xs.map rank).Nodup) : a ∈ rests key rank size xs ↔ a ∈ xs ∧
    size (stratum key rank xs (key a)).length ≤ (stratum key rank xs (key a)).idxOf a := by
  have hperm : (firsts key rank size xs ++ rests key rank size xs).Perm xs := parts_perm h
  have hmem : a ∈ xs ↔ a ∈ firsts key rank size xs ∨ a ∈ rests key rank size xs := by
    rw [← hperm.mem_iff, List.mem_append]
  have hdisjoint : a ∈ firsts key rank size xs → a ∉ rests key rank size xs :=
    fun ha ha' => parts_disjoint h ha ha'
  rw [← not_lt]
  have hfirsts : a ∈ firsts key rank size xs ↔ a ∈ xs ∧
      (stratum key rank xs (key a)).idxOf a < size (stratum key rank xs (key a)).length :=
    mem_firsts
  tauto

/-- The element of a stratum at a place. -/
theorem exists_idxOf (h : (xs.map rank).Nodup) {i : ℕ}
    (hi : i < (stratum key rank xs k).length) :
    ∃ a ∈ xs, key a = k ∧ (stratum key rank xs k).idxOf a = i := by
  obtain ⟨hmem, hkey⟩ := mem_stratum.mp (List.getElem_mem hi)
  exact ⟨_, hmem, hkey, (nodup_stratum h k).idxOf_getElem i hi⟩

/-- A stratum has elements in both parts. -/
theorem exists_mem_parts (h : (xs.map rank).Nodup) {n : ℕ}
    (hn : (stratum key rank xs k).length = n) (hpos : 0 < size n) (hlt : size n < n) :
    (∃ a ∈ firsts key rank size xs, key a = k) ∧ ∃ a ∈ rests key rank size xs, key a = k := by
  subst hn
  constructor
  · obtain ⟨a, ha, rfl, hidx⟩ := exists_idxOf h (hpos.trans hlt)
    exact ⟨a, mem_firsts.mpr ⟨ha, hidx ▸ hpos⟩, rfl⟩
  · obtain ⟨a, ha, rfl, hidx⟩ := exists_idxOf h hlt
    exact ⟨a, (mem_rests h).mpr ⟨ha, hidx.ge⟩, rfl⟩

/-- Nothing moves into the first part iff no cut moves to the right over an element. -/
theorem stable_iff (hperm : xs'.Perm (xs ++ ys)) (hrank : (xs'.map rank).Nodup)
    (hafter : ∀ a ∈ xs, ∀ b ∈ ys, key a = key b → rank a < rank b) :
    (∀ a ∈ rests key rank size xs, a ∉ firsts key rank size xs') ↔
      ∀ k, (stratum key rank xs k).length ≤ size (stratum key rank xs k).length ∨
        size (stratum key rank xs' k).length ≤ size (stratum key rank xs k).length := by
  have hnodup : (xs.map rank).Nodup := by
    have hall := (hperm.map rank).nodup_iff.mp hrank
    rw [List.map_append] at hall
    exact hall.of_append_left
  have hidx : ∀ a ∈ xs, (stratum key rank xs' (key a)).idxOf a =
      (stratum key rank xs (key a)).idxOf a := by
    intro a ha
    rw [stratum_extend hperm hrank hafter, List.idxOf_append_of_mem (mem_stratum.mpr ⟨ha, rfl⟩)]
  constructor
  · intro h k
    by_contra hmoved
    rw [not_or, not_le, not_le] at hmoved
    obtain ⟨a, ha, rfl, hcut⟩ := exists_idxOf hnodup hmoved.1
    refine h a ((mem_rests hnodup).mpr ⟨ha, hcut.ge⟩) (mem_firsts.mpr ⟨?_, ?_⟩)
    · exact hperm.mem_iff.mpr (List.mem_append_left _ ha)
    · rw [hidx a ha, hcut]
      exact hmoved.2
  · intro h a ha ha'
    obtain ⟨hxs, hcut⟩ := (mem_rests hnodup).mp ha
    obtain ⟨-, hlt⟩ := mem_firsts.mp ha'
    have hstratum : a ∈ stratum key rank xs (key a) := mem_stratum.mpr ⟨hxs, rfl⟩
    have hlength := List.idxOf_lt_length_of_mem hstratum
    rw [hidx a hxs] at hlt
    rcases h (key a) with hfull | hcuts
    · omega
    · omega

end Strata
