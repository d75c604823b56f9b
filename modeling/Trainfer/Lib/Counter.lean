import Mathlib.Data.List.Basic
import Mathlib.Data.List.Induction

/-! Counting the elements of a list, as `collections.Counter` does: the counts stand in the order
in which the elements first came.

`mostCommon_tally` says what `most_common(1)` of the counts of a list is: the element with the
largest count, and of several the one that came first. -/

namespace Counter

variable {α : Type} [DecidableEq α]

/-- `counts[a] += 1`. -/
def add (a : α) : List (α × ℕ) → List (α × ℕ)
  | [] => [(a, 1)]
  | (b, n) :: counts => if b = a then (b, n + 1) :: counts else (b, n) :: add a counts

def tally (xs : List α) : List (α × ℕ) := xs.foldl (fun counts a => add a counts) []

/-- `max`, which keeps the first of several. -/
def mostCommon (counts : List (α × ℕ)) : Option (α × ℕ) :=
  counts.foldl (fun best e =>
    match best with
    | none => some e
    | some b => if b.2 < e.2 then some e else some b) none

/-! ## The counts -/

theorem tally_concat (xs : List α) (a : α) : tally (xs ++ [a]) = add a (tally xs) := by
  simp [tally]

theorem mem_add {a b : α} {n : ℕ} {counts : List (α × ℕ)}
    (hnodup : (counts.map Prod.fst).Nodup) : (b, n) ∈ add a counts ↔
      if b = a then n = 1 ∧ a ∉ counts.map Prod.fst ∨ ∃ m, (a, m) ∈ counts ∧ n = m + 1
      else (b, n) ∈ counts := by
  induction counts with
  | nil =>
    by_cases h : b = a
    · simp [add, h]
    · simp [add, h]
  | cons e counts ih =>
    obtain ⟨c, m⟩ := e
    rw [List.map_cons, List.nodup_cons] at hnodup
    obtain ⟨hc, hnodup⟩ := hnodup
    by_cases hca : c = a
    · subst hca
      have hnone : ∀ k, (c, k) ∉ counts := fun k hk => hc (List.mem_map.mpr ⟨(c, k), hk, rfl⟩)
      by_cases h : b = c
      · subst h
        simp [add, hnone]
      · simp [add, h]
    · have hac : ¬ a = c := fun h => hca h.symm
      by_cases h : b = a
      · subst h
        simpa [add, hca, hac] using ih hnodup
      · simp [add, hca, h, ih hnodup]

theorem map_fst_add (a : α) (counts : List (α × ℕ)) : (add a counts).map Prod.fst =
    if a ∈ counts.map Prod.fst then counts.map Prod.fst else counts.map Prod.fst ++ [a] := by
  induction counts with
  | nil => rfl
  | cons e counts ih =>
    obtain ⟨c, m⟩ := e
    by_cases hca : c = a
    · simp [add, hca]
    · have hac : ¬ a = c := fun h => hca h.symm
      simp only [add, if_neg hca, List.map_cons, ih, List.mem_cons, hac, false_or]
      split
      · rfl
      · rfl

/-- The counts of a list. -/
structure Counts (xs : List α) (counts : List (α × ℕ)) : Prop where
  mem : ∀ a n, (a, n) ∈ counts ↔ a ∈ xs ∧ n = xs.count a
  order : (counts.map Prod.fst).Pairwise fun a b => xs.idxOf a < xs.idxOf b

theorem Counts.mem_keys {xs : List α} {counts : List (α × ℕ)} (h : Counts xs counts) (a : α) :
    a ∈ counts.map Prod.fst ↔ a ∈ xs := by
  rw [List.mem_map]
  constructor
  · rintro ⟨⟨b, n⟩, hmem, rfl⟩
    exact ((h.mem b n).mp hmem).1
  · intro ha
    exact ⟨(a, xs.count a), (h.mem _ _).mpr ⟨ha, rfl⟩, rfl⟩

theorem Counts.nodup {xs : List α} {counts : List (α × ℕ)} (h : Counts xs counts) :
    (counts.map Prod.fst).Nodup :=
  h.order.imp fun hlt heq => absurd hlt (by rw [heq]; omega)

theorem Counts.add {xs : List α} {counts : List (α × ℕ)} (h : Counts xs counts) (a : α) :
    Counts (xs ++ [a]) (add a counts) := by
  constructor
  · intro b n
    rw [mem_add h.nodup, List.count_append, List.mem_append, List.mem_singleton]
    by_cases hb : b = a
    · subst hb
      have hone : [b].count b = 1 := by simp
      rw [if_pos rfl, hone, h.mem_keys]
      constructor
      · rintro (⟨rfl, hnot⟩ | ⟨m, hm, rfl⟩)
        · exact ⟨.inr rfl, by rw [List.count_eq_zero_of_not_mem hnot]⟩
        · exact ⟨.inr rfl, by rw [((h.mem b m).mp hm).2]⟩
      · rintro ⟨-, rfl⟩
        by_cases hmem : b ∈ xs
        · exact .inr ⟨xs.count b, (h.mem _ _).mpr ⟨hmem, rfl⟩, rfl⟩
        · exact .inl ⟨by rw [List.count_eq_zero_of_not_mem hmem], hmem⟩
    · have hzero : [a].count b = 0 := by
        rw [List.count_eq_zero, List.mem_singleton]
        exact hb
      rw [if_neg hb, hzero, h.mem]
      simp [hb]
  · rw [map_fst_add]
    have hold : (counts.map Prod.fst).Pairwise fun b c =>
        (xs ++ [a]).idxOf b < (xs ++ [a]).idxOf c := by
      refine h.order.imp_of_mem fun hb hc hlt => ?_
      rw [List.idxOf_append_of_mem ((h.mem_keys _).mp hb),
        List.idxOf_append_of_mem ((h.mem_keys _).mp hc)]
      exact hlt
    split
    · exact hold
    · rename_i hnot
      rw [List.pairwise_append]
      refine ⟨hold, List.pairwise_singleton _ _, fun b hb c hc => ?_⟩
      rw [h.mem_keys] at hb hnot
      rw [List.mem_singleton.mp hc, List.idxOf_append_of_mem hb, List.idxOf_append_of_notMem hnot]
      have hlt := List.idxOf_lt_length_of_mem hb
      omega

theorem counts_tally (xs : List α) : Counts xs (tally xs) := by
  induction xs using List.reverseRecOn with
  | nil => exact ⟨by simp [tally], .nil⟩
  | append_singleton xs a ih => exact tally_concat xs a ▸ ih.add a

/-! ## The first maximum -/

omit [DecidableEq α] in
theorem mostCommon_concat (counts : List (α × ℕ)) (e : α × ℕ) :
    mostCommon (counts ++ [e]) = match mostCommon counts with
      | none => some e
      | some b => if b.2 < e.2 then some e else some b := by
  simp [mostCommon]

omit [DecidableEq α] in
theorem mostCommon_eq_none_iff {counts : List (α × ℕ)} :
    mostCommon counts = none ↔ counts = [] := by
  induction counts using List.reverseRecOn with
  | nil => simp [mostCommon]
  | append_singleton counts e ih =>
    rw [mostCommon_concat]
    split
    · simp
    · split
      · simp
      · simp

omit [DecidableEq α] in
/-- The one found has the largest count, larger than any before it. -/
theorem mostCommon_spec {counts : List (α × ℕ)} {b : α × ℕ} (h : mostCommon counts = some b) :
    ∃ before after, counts = before ++ b :: after ∧ (∀ e ∈ before, e.2 < b.2) ∧
      ∀ e ∈ after, e.2 ≤ b.2 := by
  induction counts using List.reverseRecOn generalizing b with
  | nil => cases h
  | append_singleton counts e ih =>
    rw [mostCommon_concat] at h
    cases hbest : mostCommon counts with
    | none =>
      rw [hbest] at h
      obtain rfl := Option.some.inj h
      rw [mostCommon_eq_none_iff.mp hbest]
      exact ⟨[], [], rfl, by simp, by simp⟩
    | some best =>
      obtain ⟨before, after, rfl, hbefore, hafter⟩ := ih hbest
      rw [hbest] at h
      simp only at h
      split at h
      · rename_i hlt
        obtain rfl := Option.some.inj h
        refine ⟨before ++ best :: after, [], rfl, fun e he => ?_, by simp⟩
        rcases List.mem_append.mp he with he | he
        · exact Nat.lt_trans (hbefore e he) hlt
        · rcases List.mem_cons.mp he with rfl | he
          · exact hlt
          · exact Nat.lt_of_le_of_lt (hafter e he) hlt
      · rename_i hge
        obtain rfl := Option.some.inj h
        refine ⟨before, after ++ [e], by simp, hbefore, fun e' he' => ?_⟩
        rcases List.mem_append.mp he' with he' | he'
        · exact hafter e' he'
        · rw [List.mem_singleton.mp he']
          omega

theorem mostCommon_tally_eq_none_iff {xs : List α} : mostCommon (tally xs) = none ↔ xs = [] := by
  rw [mostCommon_eq_none_iff]
  have hkeys := (counts_tally xs).mem_keys
  constructor
  · intro hnil
    rw [hnil] at hkeys
    exact List.eq_nil_iff_forall_not_mem.mpr fun a ha => by simpa using (hkeys a).mpr ha
  · rintro rfl
    rfl

/-- The most common element: the first one of those with the largest count. -/
structure MostCommon (xs : List α) (a : α) : Prop where
  mem : a ∈ xs
  most : ∀ b, xs.count b ≤ xs.count a
  first : ∀ b ∈ xs, b ≠ a → xs.count b = xs.count a → xs.idxOf a < xs.idxOf b

theorem MostCommon.unique {xs : List α} {a b : α} (ha : MostCommon xs a)
    (hb : MostCommon xs b) : a = b := by
  have hcount := Nat.le_antisymm (hb.most a) (ha.most b)
  by_contra hne
  have hlt := ha.first b hb.mem (fun h => hne h.symm) hcount.symm
  have hgt := hb.first a ha.mem hne hcount
  omega

/-- The first element with a count that no other exceeds. -/
theorem MostCommon.of_split {before after : List α} {a : α}
    (hbefore : ∀ b ∈ before, (before ++ a :: after).count b < (before ++ a :: after).count a)
    (hafter : ∀ b ∈ after, (before ++ a :: after).count b ≤ (before ++ a :: after).count a) :
    MostCommon (before ++ a :: after) a := by
  refine ⟨by simp, fun b => ?_, fun b hb hne hcount => ?_⟩
  · by_cases hb : b ∈ before ++ a :: after
    · rcases List.mem_append.mp hb with hb | hb
      · exact Nat.le_of_lt (hbefore b hb)
      · rcases List.mem_cons.mp hb with rfl | hb
        · exact Nat.le_refl _
        · exact hafter b hb
    · rw [List.count_eq_zero_of_not_mem hb]
      exact Nat.zero_le _
  · have ha' : a ∉ before := fun ha => absurd rfl (Nat.ne_of_lt (hbefore a ha))
    have hb' : b ∉ before := fun hb => absurd hcount (Nat.ne_of_lt (hbefore b hb))
    rw [List.idxOf_append_of_notMem ha', List.idxOf_append_of_notMem hb', List.idxOf_cons_self,
      List.idxOf_cons_ne _ fun h => hne h.symm]
    omega

theorem mostCommon_tally {xs : List α} {a : α} {n : ℕ} (h : mostCommon (tally xs) = some (a, n)) :
    n = xs.count a ∧ MostCommon xs a := by
  obtain ⟨before, after, hsplit, hbefore, hafter⟩ := mostCommon_spec h
  have hcounts := counts_tally xs
  obtain ⟨ha, rfl⟩ := (hcounts.mem a n).mp (by rw [hsplit]; simp)
  refine ⟨rfl, ha, fun b => ?_, fun b hb hne hcount => ?_⟩
  · by_cases hb : b ∈ xs
    · have hmem := (hcounts.mem b _).mpr ⟨hb, rfl⟩
      rw [hsplit, List.mem_append, List.mem_cons] at hmem
      rcases hmem with hmem | heq | hmem
      · exact Nat.le_of_lt (hbefore _ hmem)
      · exact Nat.le_of_eq (Prod.mk.inj heq).2
      · exact hafter _ hmem
    · rw [List.count_eq_zero_of_not_mem hb]
      exact Nat.zero_le _
  · have hmem := (hcounts.mem b _).mpr ⟨hb, rfl⟩
    have horder := hcounts.order
    rw [hsplit, List.map_append, List.map_cons, List.pairwise_append, List.pairwise_cons] at horder
    rw [hsplit, List.mem_append, List.mem_cons] at hmem
    rcases hmem with hmem | heq | hmem
    · exact absurd hcount (Nat.ne_of_lt (hbefore _ hmem))
    · exact absurd (Prod.mk.inj heq).1 hne
    · exact horder.2.1.1 b (List.mem_map_of_mem hmem)

end Counter
