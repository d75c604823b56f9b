import Trainfer.MathVerifier
import Trainfer.TTRL
import Trainfer.Lib.Counter

/-! The majority vote over rollouts.

`majorityFromKeys_spec` says which rollout wins a vote on keys. The keys that rollouts have in the
domains `math` and `code` are those of `_rollout_key`; running a code snippet is a parameter. -/

namespace Trainfer

open Regex TTRL

/-! ## Keys of rollouts -/

/-- `_CODE_FENCE`. -/
def codeFence (u : Unicode) : Regex Char :=
  seqs [word "```", opt (word "python"), many (space u), word "\n",
    group (star true (char fun _ => true)), word "```"]

/-- `extract_code`. -/
def extractCode (u : Unicode) (candidate : String) : Option String :=
  String.ofList <$> firstGroup [codeFence u] candidate.toList

/-- `_rollout_key_ext`. `runSandboxed` is `none` where the snippet raises. -/
def rolloutKeyExt (u : Unicode) (runSandboxed : String → Option String)
    (domain rollout : String) : Option String × Bool :=
  if domain = "math" then (extractAnswer u rollout none, false)
  else if domain = "code" then
    match extractCode u rollout with
    | none => (none, false)
    | some code =>
      match runSandboxed code with
      | none => (none, false)
      | some out => if out.isEmpty then (none, true) else (some out, false)
  else (none, false)

/-- `_rollout_key`. -/
def rolloutKey (u : Unicode) (runSandboxed : String → Option String) (domain rollout : String) :
    Option String :=
  (rolloutKeyExt u runSandboxed domain rollout).1

/-- `majority_vote`. -/
def majorityVote (u : Unicode) (runSandboxed : String → Option String) (rollouts : List String)
    (domain : String) (minCount : ℕ) : Option (ℕ × String) :=
  majorityFromKeys (rollouts.map (rolloutKey u runSandboxed domain)) minCount

/-! ## The counter -/

theorem mostCommon_eq_tally (keys : List String) :
    mostCommon keys = Counter.mostCommon (Counter.tally keys) := by
  have hfold : mostCommon keys = Counter.mostCommon (keys.map fun k => (k, keys.count k)) := by
    rw [Counter.mostCommon, List.foldl_map, mostCommon]
    congr 1
    funext best key
    cases best with
    | none => rfl
    | some b => rfl
  cases hkeys : Counter.mostCommon (keys.map fun k => (k, keys.count k)) with
  | none =>
    have hnil : keys = [] := by simpa using Counter.mostCommon_eq_none_iff.mp hkeys
    rw [hfold, hkeys, Counter.mostCommon_tally_eq_none_iff.mpr hnil]
  | some b =>
    obtain ⟨before, after, hsplit, hbefore, hafter⟩ := Counter.mostCommon_spec hkeys
    obtain ⟨xs, ys, hxs, rfl, hys⟩ := List.map_eq_append_iff.mp hsplit
    obtain ⟨a, zs, rfl, rfl, rfl⟩ := List.map_eq_cons_iff.mp hys
    have hbest : Counter.MostCommon keys a := by
      rw [hxs] at hbefore hafter ⊢
      exact .of_split (fun b hb => hbefore _ (List.mem_map.mpr ⟨b, hb, rfl⟩))
        fun b hb => hafter _ (List.mem_map.mpr ⟨b, hb, rfl⟩)
    cases htally : Counter.mostCommon (Counter.tally keys) with
    | none =>
      have hmem := hbest.mem
      simp [Counter.mostCommon_tally_eq_none_iff.mp htally] at hmem
    | some c =>
      obtain ⟨c, n⟩ := c
      obtain ⟨rfl, hc⟩ := Counter.mostCommon_tally htally
      rw [hfold, hkeys, hbest.unique hc]

/-! ## Entries without a key -/

theorem count_keys (keys : List (Option String)) (k : String) :
    (keys.filterMap id).count k = keys.count (some k) := by
  induction keys with
  | nil => rfl
  | cons key keys ih =>
    cases key with
    | none => simpa using ih
    | some k' =>
      have hcons : (some k' :: keys).filterMap id = k' :: keys.filterMap id := rfl
      rw [hcons, List.count_cons, List.count_cons, ih]
      by_cases h : k' = k
      · simp [h]
      · simp [h]

theorem idxOf_keys_lt {keys : List (Option String)} {k k' : String}
    (h : (keys.filterMap id).idxOf k < (keys.filterMap id).idxOf k') :
    keys.idxOf (some k) < keys.idxOf (some k') := by
  induction keys with
  | nil => simp at h
  | cons key keys ih =>
    cases key with
    | none =>
      rw [List.idxOf_cons_ne _ (by simp), List.idxOf_cons_ne _ (by simp)]
      exact Nat.succ_lt_succ (ih h)
    | some x =>
      simp only [List.filterMap_cons, id] at h
      by_cases hk' : x = k'
      · simp [hk'] at h
      · have hk'' : keys.idxOf (some k') + 1 = (some x :: keys).idxOf (some k') :=
          (List.idxOf_cons_ne _ (by simpa using hk')).symm
        by_cases hk : x = k
        · rw [← hk'', hk, List.idxOf_cons_self]
          omega
        · rw [List.idxOf_cons_ne _ hk, List.idxOf_cons_ne _ hk'] at h
          rw [← hk'', List.idxOf_cons_ne _ (by simpa using hk)]
          exact Nat.succ_lt_succ (ih (Nat.lt_of_succ_lt_succ h))

theorem idxOf_filter_isSome {keys : List (Option String)} {k : String} :
    (keys.filter Option.isSome).idxOf (some k) =
      (keys.take (keys.idxOf (some k))).countP Option.isSome := by
  induction keys with
  | nil => rfl
  | cons key keys ih =>
    cases key with
    | none =>
      rw [List.idxOf_cons_ne _ (by simp)]
      simpa using ih
    | some x =>
      by_cases hx : x = k
      · simp [hx]
      · have hne : some x ≠ some k := by simpa using hx
        rw [List.filter_cons_of_pos rfl, List.idxOf_cons_ne _ hne, List.idxOf_cons_ne _ hne, ih]
        simp

/-! ## The winner -/

/-- The winner of a vote: its key has at least `minCount` votes and more than the other keys, or
as many as those that come later; `idx` is where it first stands. -/
structure Majority (keys : List (Option String)) (minCount idx : ℕ) (key : String) : Prop where
  found : keys[idx]? = some (some key)
  first : ∀ j < idx, keys[j]? ≠ some (some key)
  floor : minCount ≤ keys.count (some key)
  most : ∀ k : String, keys.count (some k) ≤ keys.count (some key)
  earliest : ∀ k, k ≠ key → keys.count (some k) = keys.count (some key) →
    ∀ j, keys[j]? = some (some k) → idx < j

theorem idxOf_le_of_getElem? {keys : List (Option String)} {key : Option String} {j : ℕ}
    (h : keys[j]? = some key) : keys.idxOf key ≤ j := by
  obtain ⟨hj, hget⟩ := List.getElem?_eq_some_iff.mp h
  by_contra hlt
  have hne := List.not_of_lt_findIdx (not_le.mp hlt)
  rw [hget] at hne
  simp at hne

theorem majority_of_mostCommon {keys : List (Option String)} {minCount : ℕ} {key : String}
    (h : Counter.MostCommon (keys.filterMap id) key) (hfloor : minCount ≤ keys.count (some key)) :
    Majority keys minCount (keys.idxOf (some key)) key where
  found := by
    have hmem : some key ∈ keys := by simpa using h.mem
    rw [List.getElem?_eq_getElem (List.idxOf_lt_length_of_mem hmem), List.getElem_idxOf]
  first j hj hget := absurd (idxOf_le_of_getElem? hget) (not_le.mpr hj)
  floor := hfloor
  most k := by
    rw [← count_keys, ← count_keys]
    exact h.most k
  earliest k hne hcount j hget := by
    rw [← count_keys, ← count_keys] at hcount
    have hmem : k ∈ keys.filterMap id := by simpa using List.mem_of_getElem? hget
    exact (idxOf_keys_lt (h.first k hmem hne hcount)).trans_le (idxOf_le_of_getElem? hget)

theorem Majority.unique {keys : List (Option String)} {minCount idx idx' : ℕ} {key key' : String}
    (h : Majority keys minCount idx key) (h' : Majority keys minCount idx' key') :
    idx = idx' ∧ key = key' := by
  have hcount := le_antisymm (h'.most key) (h.most key')
  have hkey : key = key' := by
    by_contra hne
    have hlt := h.earliest key' (fun h => hne h.symm) hcount.symm idx' h'.found
    have hgt := h'.earliest key hne hcount idx h.found
    omega
  subst hkey
  refine ⟨?_, rfl⟩
  rcases lt_trichotomy idx idx' with hlt | heq | hgt
  · exact absurd h.found (h'.first idx hlt)
  · exact heq
  · exact absurd h'.found (h.first idx' hgt)

theorem majority_of_majorityFromKeys {keys : List (Option String)} {minCount idx : ℕ}
    {key : String} (h : majorityFromKeys keys minCount = some (idx, key)) :
    idx = keys.idxOf (some key) ∧ Majority keys minCount idx key := by
  rw [majorityFromKeys, mostCommon_eq_tally] at h
  split at h
  · cases h
  · rename_i winner top htally
    obtain ⟨rfl, hbest⟩ := Counter.mostCommon_tally htally
    split at h
    · cases h
    · rename_i hfloor
      cases h
      rw [not_lt, count_keys] at hfloor
      exact ⟨rfl, majority_of_mostCommon hbest hfloor⟩

/-- A key with enough votes makes the vote succeed. -/
theorem majorityFromKeys_isSome {keys : List (Option String)} {minCount : ℕ} (h : 1 ≤ minCount) :
    (majorityFromKeys keys minCount).isSome ↔ ∃ k : String, minCount ≤ keys.count (some k) := by
  constructor
  · intro hsome
    obtain ⟨⟨idx, key⟩, hvote⟩ := Option.isSome_iff_exists.mp hsome
    exact ⟨key, (majority_of_majorityFromKeys hvote).2.floor⟩
  · rintro ⟨k, hk⟩
    rw [← count_keys] at hk
    rw [majorityFromKeys, mostCommon_eq_tally]
    split
    · rename_i htally
      rw [Counter.mostCommon_tally_eq_none_iff] at htally
      rw [htally, List.count_nil] at hk
      omega
    · rename_i winner top htally
      obtain ⟨rfl, hbest⟩ := Counter.mostCommon_tally htally
      rw [if_neg (not_lt.mpr (hk.trans (hbest.most k)))]
      rfl

/-- The key of the winner depends on the keys that are there only. -/
theorem majorityFromKeys_eq (keys : List (Option String)) (minCount : ℕ) :
    majorityFromKeys keys minCount =
      (majorityFromKeys ((keys.filterMap id).map some) minCount).map
        fun r => (keys.idxOf (some r.2), r.2) := by
  have hid : ((keys.filterMap id).map some).filterMap id = keys.filterMap id := by
    rw [List.filterMap_map]
    exact List.filterMap_some
  simp only [majorityFromKeys, hid]
  split
  · rfl
  · split
    · rfl
    · rfl

theorem majorityFromKeys_eq_some_iff {minCount : ℕ} (h : 1 ≤ minCount)
    {keys : List (Option String)} {idx : ℕ} {key : String} :
    majorityFromKeys keys minCount = some (idx, key) ↔ Majority keys minCount idx key := by
  constructor
  · exact fun hvote => (majority_of_majorityFromKeys hvote).2
  · intro hmajority
    obtain ⟨⟨idx', key'⟩, hvote⟩ := Option.isSome_iff_exists.mp
      ((majorityFromKeys_isSome h).mpr ⟨key, hmajority.floor⟩)
    obtain ⟨rfl, rfl⟩ := hmajority.unique (majority_of_majorityFromKeys hvote).2
    exact hvote

/-- Without the entries that have no key, the winner stands where its key then is. -/
theorem majorityFromKeys_filter (keys : List (Option String)) (minCount : ℕ) :
    majorityFromKeys (keys.filter Option.isSome) minCount =
      (majorityFromKeys keys minCount).map
        (fun r => ((keys.take r.1).countP Option.isSome, r.2)) := by
  have hfilter : (keys.filter Option.isSome).filterMap id = keys.filterMap id := by
    rw [List.filterMap_filter]
    congr 1
    funext key
    cases key with
    | none => rfl
    | some k => rfl
  cases hvote : majorityFromKeys keys minCount with
  | none =>
    rw [majorityFromKeys_eq] at hvote ⊢
    rw [hfilter]
    simpa using hvote
  | some r =>
    obtain ⟨idx, key⟩ := r
    obtain ⟨rfl, -⟩ := majority_of_majorityFromKeys hvote
    rw [majorityFromKeys_eq] at hvote ⊢
    rw [hfilter]
    obtain ⟨r, hr, heq⟩ := Option.map_eq_some_iff.mp hvote
    obtain rfl := (Prod.mk.inj heq).2
    rw [hr, Option.map_some, Option.map_some, idxOf_filter_isSome]

/-- **The majority vote.** There is a winner iff some key has enough votes, and it is the one
that `Majority` describes. Entries without a key only move its index, and a rollout without a
key does not win. -/
theorem majorityFromKeys_spec {minCount : ℕ} (h : 1 ≤ minCount) (keys : List (Option String)) :
    ((majorityFromKeys keys minCount).isSome ↔ ∃ k : String, minCount ≤ keys.count (some k)) ∧
    (∀ idx key, majorityFromKeys keys minCount = some (idx, key) ↔
      Majority keys minCount idx key) ∧
    (∀ keys' : List (Option String), keys'.filterMap id = keys.filterMap id →
      (majorityFromKeys keys' minCount).map Prod.snd =
        (majorityFromKeys keys minCount).map Prod.snd) ∧
    majorityFromKeys (keys.filter Option.isSome) minCount =
      (majorityFromKeys keys minCount).map
        (fun r => ((keys.take r.1).countP Option.isSome, r.2)) ∧
    ∀ (u : Unicode) (runSandboxed : String → Option String) (rollouts : List String)
      (domain : String) (idx : ℕ) (key : String),
      majorityVote u runSandboxed rollouts domain minCount = some (idx, key) →
      ∃ rollout, rollouts[idx]? = some rollout ∧
        rolloutKey u runSandboxed domain rollout = some key := by
  refine ⟨majorityFromKeys_isSome h, fun idx key => majorityFromKeys_eq_some_iff h, ?_,
    majorityFromKeys_filter keys minCount, ?_⟩
  · intro keys' hkeys
    rw [majorityFromKeys_eq keys', majorityFromKeys_eq keys, hkeys, Option.map_map,
      Option.map_map]
    rfl
  · intro u runSandboxed rollouts domain idx key hvote
    have hfound := (majority_of_majorityFromKeys hvote).2.found
    rw [List.getElem?_map, Option.map_eq_some_iff] at hfound
    exact hfound

theorem majorityFromKeys_tie :
    (majorityFromKeys [none, some "7", some "5", some "5", some "7"] 2).isSome ∧
      Majority [none, some "7", some "5", some "5", some "7"] 2 1 "7" :=
  have h := majorityFromKeys_spec one_le_two [none, some "7", some "5", some "5", some "7"]
  ⟨h.1.mpr ⟨"7", by decide⟩, (h.2.1 1 "7").mp (by decide)⟩

end Trainfer
