import Mathlib.Data.List.Infix

/-! Searching a text for a tag, as `str.find` and `str.partition` do, and going on with the
search when more of the text arrives.

`find_append_held` is what a streaming search rests on: once a tag has not been found, all of
the text but its last `tag.length - 1` elements can be let go. -/

namespace Find

universe u
variable {α : Type u} [DecidableEq α]

/-- `text.find(tag)`, with `none` for `-1`. -/
def find (tag : List α) : List α → Option Nat
  | [] => if tag = [] then some 0 else none
  | a :: as => if tag.isPrefixOf (a :: as) then some 0 else (find tag as).map (· + 1)

/-- `text.partition(tag)`: what stands before the first occurrence and after it. -/
def cut (tag text : List α) : Option (List α × List α) :=
  (find tag text).map fun i => (text.take i, text.drop (i + tag.length))

variable {tag : List α}

/-- The first position at which the tag stands. -/
theorem find_eq_some_iff {text : List α} {i : Nat} :
    find tag text = some i ↔
      i ≤ text.length ∧ tag <+: text.drop i ∧ ∀ j < i, ¬ tag <+: text.drop j := by
  induction text generalizing i with
  | nil =>
    simp only [find, List.length_nil, Nat.le_zero, List.drop_nil, List.prefix_nil]
    split
    · rename_i h
      simp only [Option.some.injEq]
      constructor
      · rintro rfl
        exact ⟨rfl, h, by simp⟩
      · exact fun hi => hi.1.symm
    · rename_i h
      simp [h]
  | cons a as ih =>
    simp only [find]
    split
    · rename_i h
      rw [List.isPrefixOf_iff_prefix] at h
      simp only [Option.some.injEq]
      constructor
      · rintro rfl
        exact ⟨Nat.zero_le _, h, by simp⟩
      · rintro ⟨-, -, hfirst⟩
        by_contra hne
        exact hfirst 0 (by omega) h
    · rename_i h
      rw [List.isPrefixOf_iff_prefix] at h
      cases i with
      | zero => simp [h]
      | succ i =>
        simp only [Option.map_eq_some_iff, Nat.add_right_cancel_iff, exists_eq_right, ih,
          List.length_cons, List.drop_succ_cons, Nat.add_le_add_iff_right]
        refine and_congr_right fun _ => and_congr_right fun _ => ⟨fun hfirst j hj => ?_,
          fun hfirst j hj => hfirst (j + 1) (by omega)⟩
        cases j with
        | zero => exact h
        | succ j => exact hfirst j (by omega)

theorem find_eq_none_iff {text : List α} : find tag text = none ↔ ¬ tag <:+: text := by
  induction text with
  | nil => simp [find]
  | cons a as ih =>
    rw [find, List.infix_cons_iff]
    split
    · rename_i h
      rw [List.isPrefixOf_iff_prefix] at h
      simp [h]
    · rename_i h
      rw [List.isPrefixOf_iff_prefix] at h
      simp [h, ih]

/-- The two parts of a cut, with the tag between them, make up the text. -/
theorem cut_eq_some {text before after : List α} (h : cut tag text = some (before, after)) :
    text = before ++ tag ++ after := by
  obtain ⟨i, hi, hcut⟩ := Option.map_eq_some_iff.mp h
  obtain ⟨rfl, rfl⟩ := Prod.mk.inj hcut
  obtain ⟨hle, hpre, -⟩ := find_eq_some_iff.mp hi
  have hdrop : text.drop i = tag ++ text.drop (i + tag.length) := by
    rw [← List.drop_drop]
    obtain ⟨rest, hrest⟩ := hpre
    rw [← hrest, List.drop_left]
  rw [List.append_assoc, ← hdrop, List.take_append_drop]

/-! ## When more of the text arrives -/

/-- What was found stays the first occurrence. -/
theorem find_append {text : List α} {i : Nat} (h : find tag text = some i) (rest : List α) :
    find tag (text ++ rest) = some i := by
  induction text generalizing i with
  | nil =>
    simp only [find] at h
    split at h
    · rename_i hnil
      subst hnil
      rw [List.nil_append]
      cases rest with
      | nil => simpa [find] using h
      | cons b bs => simpa [find] using h
    · cases h
  | cons a as ih =>
    simp only [find, List.cons_append] at h ⊢
    split at h
    · rename_i hpre
      rw [List.isPrefixOf_iff_prefix] at hpre
      have hlong : tag <+: a :: (as ++ rest) := hpre.trans (List.prefix_append (a :: as) rest)
      rw [if_pos (List.isPrefixOf_iff_prefix.mpr hlong)]
      exact h
    · rename_i hpre
      obtain ⟨j, hj, rfl⟩ := Option.map_eq_some_iff.mp h
      have hlen : tag.length ≤ as.length := by
        obtain ⟨hle, hat, -⟩ := find_eq_some_iff.mp hj
        have := hat.length_le
        simp only [List.length_drop] at this
        omega
      rw [if_neg, ih hj]
      · rfl
      · rw [List.isPrefixOf_iff_prefix] at hpre ⊢
        exact fun h => hpre (List.prefix_of_prefix_length_le h
          (List.prefix_append (a :: as) rest) (by simp only [List.length_cons]; omega))

theorem cut_append {text before after : List α} (h : cut tag text = some (before, after))
    (rest : List α) : cut tag (text ++ rest) = some (before, after ++ rest) := by
  obtain ⟨i, hi, hcut⟩ := Option.map_eq_some_iff.mp h
  obtain ⟨rfl, rfl⟩ := Prod.mk.inj hcut
  obtain ⟨hle, hpre, -⟩ := find_eq_some_iff.mp hi
  have hlen := hpre.length_le
  rw [List.length_drop] at hlen
  have hend : i + tag.length ≤ text.length := by omega
  rw [cut, find_append hi, Option.map_some, List.take_append_of_le_length hle,
    List.drop_append_of_le_length hend]

/-- **Holding back.** In a text without the tag, an occurrence that is still to come starts in
the last `tag.length - 1` elements or later. -/
theorem find_append_held {out kept : List α} (h : find tag (out ++ kept) = none)
    (hlen : out = [] ∨ tag.length ≤ kept.length + 1) (rest : List α) :
    find tag (out ++ kept ++ rest) = (find tag (kept ++ rest)).map (out.length + ·) := by
  induction out with
  | nil => simp
  | cons a out ih =>
    have hlen : tag.length ≤ kept.length + 1 := hlen.resolve_left (by simp)
    simp only [List.cons_append, find] at h ⊢
    split at h
    · cases h
    · rename_i hpre
      have hrest : find tag (out ++ kept) = none := by simpa using h
      rw [if_neg, ih hrest (.inr hlen), Option.map_map]
      · refine congrArg (fun f => (find tag (kept ++ rest)).map f) (funext fun n => ?_)
        simp only [Function.comp, List.length_cons]
        omega
      · rw [List.isPrefixOf_iff_prefix] at hpre ⊢
        exact fun h => hpre (List.prefix_of_prefix_length_le h
          (List.prefix_append (a :: (out ++ kept)) rest)
          (by simp only [List.length_cons, List.length_append]; omega))

/-- The text that was let go stands before whatever is cut later. -/
theorem cut_append_held {out kept : List α} (h : find tag (out ++ kept) = none)
    (hlen : out = [] ∨ tag.length ≤ kept.length + 1) (rest : List α) :
    cut tag (out ++ kept ++ rest) =
      (cut tag (kept ++ rest)).map fun c => (out ++ c.1, c.2) := by
  rw [cut, find_append_held h hlen, cut, Option.map_map, Option.map_map]
  refine congrArg (fun f => (find tag (kept ++ rest)).map f) (funext fun i => ?_)
  simp only [Function.comp, List.append_assoc, Prod.mk.injEq]
  refine ⟨?_, ?_⟩
  · rw [List.take_length_add_append]
  · rw [Nat.add_assoc, List.drop_length_add_append]

theorem cut_eq_none {text : List α} : cut tag text = none ↔ find tag text = none :=
  Option.map_eq_none_iff

/-- What is kept of a text without the tag is without it. -/
theorem find_kept (out : List α) {kept : List α} (h : find tag (out ++ kept) = none) :
    find tag kept = none := by
  rw [find_eq_none_iff] at h ⊢
  exact fun hk => h (hk.trans (List.suffix_append out kept).isInfix)

end Find
