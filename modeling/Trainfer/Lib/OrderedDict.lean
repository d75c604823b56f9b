import Mathlib.Data.List.Induction
import Mathlib.Data.List.Nodup

/-! A dictionary in the order of insertion, bounded by taking its oldest entries out.

An assignment to a key that is there leaves the key in its place, so the oldest entry is the one
whose key came in first, not the one that was used last. `entries_putAll` says what is left after
a run of assignments to different keys: the end of the run. -/

universe u v

/-- `collections.OrderedDict`. -/
structure OrderedDict (κ : Type u) (β : Type v) where
  entries : List (κ × β)
  nodup : (entries.map Prod.fst).Nodup

namespace OrderedDict

variable {κ : Type u} {β : Type v}

def empty : OrderedDict κ β := ⟨[], List.nodup_nil⟩

def keys (d : OrderedDict κ β) : List κ := d.entries.map Prod.fst

def size (d : OrderedDict κ β) : ℕ := d.entries.length

/-- The loop `while len(d) > cap: d.popitem(last=False)`. -/
def evict (cap : ℕ) : List (κ × β) → List (κ × β)
  | [] => []
  | e :: es => if cap < (e :: es).length then evict cap es else e :: es

theorem evict_eq_drop (cap : ℕ) (es : List (κ × β)) : evict cap es = es.drop (es.length - cap) := by
  induction es with
  | nil => simp [evict]
  | cons e es ih =>
    rw [evict]
    split
    · rename_i hlt
      have hsub : (e :: es).length - cap = (es.length - cap) + 1 := by
        simp only [List.length_cons] at hlt ⊢
        omega
      rw [hsub, List.drop_succ_cons, ih]
    · rename_i hle
      rw [Nat.sub_eq_zero_of_le (Nat.le_of_not_lt hle), List.drop_zero]

def popOldest (cap : ℕ) (d : OrderedDict κ β) : OrderedDict κ β where
  entries := evict cap d.entries
  nodup := by
    rw [evict_eq_drop]
    exact d.nodup.sublist ((List.drop_sublist _ _).map Prod.fst)

theorem entries_popOldest (cap : ℕ) (d : OrderedDict κ β) :
    (d.popOldest cap).entries = d.entries.drop (d.size - cap) :=
  evict_eq_drop cap d.entries

theorem size_popOldest (cap : ℕ) (d : OrderedDict κ β) : (d.popOldest cap).size ≤ cap := by
  rw [size, entries_popOldest, List.length_drop, size]
  omega

variable [DecidableEq κ]

/-- `d.get(k)`. -/
def get (d : OrderedDict κ β) (k : κ) : Option β := d.entries.lookup k

/-- `d[k] = v`, on the entries. -/
def assign (k : κ) (v : β) (es : List (κ × β)) : List (κ × β) :=
  if k ∈ es.map Prod.fst then es.map fun e => if e.1 = k then (k, v) else e else es ++ [(k, v)]

theorem map_fst_assign (k : κ) (v : β) (es : List (κ × β)) :
    (assign k v es).map Prod.fst =
      if k ∈ es.map Prod.fst then es.map Prod.fst else es.map Prod.fst ++ [k] := by
  have hkeep : ∀ e : κ × β, (if e.1 = k then (k, v) else e).1 = e.1 := fun e => by
    split
    · rename_i h
      exact h.symm
    · rfl
  unfold assign
  split
  · rw [List.map_map]
    exact List.map_congr_left fun e _ => hkeep e
  · rw [List.map_append, List.map_singleton]

def set (d : OrderedDict κ β) (k : κ) (v : β) : OrderedDict κ β where
  entries := assign k v d.entries
  nodup := by
    rw [map_fst_assign]
    split
    · exact d.nodup
    · rename_i hk
      exact d.nodup.append (List.nodup_singleton k) (List.disjoint_singleton.mpr hk)

/-- A key without an entry is not looked up. -/
theorem lookup_eq_none_of_not_mem {es : List (κ × β)} {k : κ} (h : k ∉ es.map Prod.fst) :
    es.lookup k = none := by
  rw [List.lookup_eq_none_iff]
  exact fun e he => by simpa using fun hk => h (List.mem_map.mpr ⟨e, he, hk.symm⟩)

theorem lookup_replace_self {k : κ} (v : β) {es : List (κ × β)} (h : k ∈ es.map Prod.fst) :
    (es.map fun e => if e.1 = k then (k, v) else e).lookup k = some v := by
  induction es with
  | nil => cases h
  | cons e es ih =>
    by_cases he : e.1 = k
    · simp [he]
    · have hne : (k == e.1) = false := by simpa using Ne.symm he
      have hmem : k ∈ es.map Prod.fst := (List.mem_cons.mp h).resolve_left (Ne.symm he)
      rw [List.map_cons, if_neg he, List.lookup_cons, hne]
      exact ih hmem

theorem lookup_replace_of_ne {k k' : κ} (hne : k' ≠ k) (v : β) (es : List (κ × β)) :
    (es.map fun e => if e.1 = k then (k, v) else e).lookup k' = es.lookup k' := by
  induction es with
  | nil => rfl
  | cons e es ih =>
    rw [List.map_cons]
    by_cases he : e.1 = k
    · have hkey : (k' == k) = false := by simpa using hne
      have hkey' : (k' == e.1) = false := by rw [he, hkey]
      rw [if_pos he, List.lookup_cons, List.lookup_cons, hkey, hkey', ih]
    · rw [if_neg he, List.lookup_cons, List.lookup_cons, ih]

theorem lookup_assign (k k' : κ) (v : β) (es : List (κ × β)) :
    (assign k v es).lookup k' = if k' = k then some v else es.lookup k' := by
  unfold assign
  split
  · rename_i hmem
    split
    · rename_i hk
      subst hk
      exact lookup_replace_self v hmem
    · rename_i hk
      exact lookup_replace_of_ne hk v es
  · rename_i hmem
    rw [List.lookup_append]
    split
    · rename_i hk
      subst hk
      simp [lookup_eq_none_of_not_mem hmem]
    · rename_i hk
      have hne : (k' == k) = false := by simpa using hk
      simp [List.lookup_cons, hne]

@[simp] theorem get_set (d : OrderedDict κ β) (k k' : κ) (v : β) :
    (d.set k v).get k' = if k' = k then some v else d.get k' :=
  lookup_assign k k' v d.entries

/-- Among different keys an entry is found from any place before it on. -/
theorem lookup_of_drop {es : List (κ × β)} (hnodup : (es.map Prod.fst).Nodup) {n : ℕ} {k : κ}
    {v : β} (h : (es.drop n).lookup k = some v) : es.lookup k = some v := by
  induction es generalizing n with
  | nil => simp at h
  | cons e es ih =>
    cases n with
    | zero => exact h
    | succ n =>
      rw [List.map_cons, List.nodup_cons] at hnodup
      have hrest := ih hnodup.2 h
      have hmem : k ∈ es.map Prod.fst := by
        by_contra hnot
        rw [lookup_eq_none_of_not_mem hnot] at hrest
        cases hrest
      have hne : (k == e.1) = false := by
        simp only [beq_eq_false_iff_ne]
        rintro rfl
        exact hnodup.1 hmem
      rw [List.lookup_cons, hne]
      exact hrest

theorem get_of_popOldest {d : OrderedDict κ β} {cap : ℕ} {k : κ} {v : β}
    (h : (d.popOldest cap).get k = some v) : d.get k = some v := by
  rw [get, entries_popOldest] at h
  exact lookup_of_drop d.nodup h

/-! ## Bounded runs -/

/-- An assignment, and then whatever is too much taken out. -/
def put (cap : ℕ) (d : OrderedDict κ β) (e : κ × β) : OrderedDict κ β := (d.set e.1 e.2).popOldest cap

def putAll (cap : ℕ) (d : OrderedDict κ β) (es : List (κ × β)) : OrderedDict κ β :=
  es.foldl (put cap) d

variable {cap : ℕ} {d : OrderedDict κ β}

theorem putAll_append (es fs : List (κ × β)) :
    d.putAll cap (es ++ fs) = (d.putAll cap es).putAll cap fs := List.foldl_append

theorem size_putAll (hd : d.size ≤ cap) (es : List (κ × β)) : (d.putAll cap es).size ≤ cap := by
  induction es generalizing d with
  | nil => exact hd
  | cons e es ih => exact ih (size_popOldest cap _)

/-- What is found was the last to be assigned to its key. -/
theorem get_putAll {es : List (κ × β)} {k : κ} {v : β} (h : (d.putAll cap es).get k = some v) :
    (es.reverse.lookup k).or (d.get k) = some v := by
  induction es using List.reverseRecOn with
  | nil => exact h
  | append_singleton es e ih =>
    obtain ⟨key, w⟩ := e
    rw [putAll_append] at h
    have hset := get_of_popOldest (d := (d.putAll cap es).set key w) h
    rw [get_set] at hset
    rw [List.reverse_append, List.reverse_singleton, List.singleton_append, List.lookup_cons]
    by_cases hk : k = key
    · subst hk
      simpa using hset
    · have hne : (k == key) = false := by simpa using hk
      rw [if_neg hk] at hset
      simpa [hne] using ih hset

end OrderedDict
