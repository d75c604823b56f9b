import Trainfer.Torch
import Mathlib.Data.List.Induction
import Mathlib.Data.List.Nodup

/-! The scalars that go to an external metrics backend: `flatten_scalars`.

The components of a step are a nested dictionary, and a backend takes numbers under dotted names.
Numbers are exact: `float` of a number is the number itself, however large an integer is.
`flatten_lossless` says when no two of them get the same name. -/

namespace Trainfer

/-- A value among the components of a step. For a value that is no number, string or mapping,
`other` has what `float` makes of it. -/
inductive Component where
  | bool (b : Bool)
  | num (q : ℚ)
  | str (s : String)
  | mapping (entries : List (String × Component))
  | other (float : Except PyError ℚ)

abbrev Components := List (String × Component)

namespace MetricFanout

/-- `f"{prefix}.{k}" if prefix else k`. -/
def joinKey (pre k : String) : String := if pre = "" then k else pre ++ "." ++ k

mutual

/-- One round of the loop, for the value under a key. -/
def flattenValue (key : String) : Component → Dict ℚ → Dict ℚ
  | .bool b, out => out.insert key (if b then 1 else 0)
  | .num q, out => out.insert key q
  | .mapping source, out => flattenScalars key source out
  | _, out => out

/-- `flatten_scalars`. -/
def flattenScalars (pre : String) : Components → Dict ℚ → Dict ℚ
  | [], out => out
  | (k, v) :: source, out => flattenScalars pre source (flattenValue (joinKey pre k) v out)

end

/-! ## Leaves -/

mutual

/-- The numbers in a value, each with the keys that lead to it. -/
def valueLeaves : Component → List (List String × ℚ)
  | .bool b => [([], if b then 1 else 0)]
  | .num q => [([], q)]
  | .mapping source => leaves source
  | _ => []

def leaves : Components → List (List String × ℚ)
  | [] => []
  | (k, v) :: source => (valueLeaves v).map (fun l => (k :: l.1, l.2)) ++ leaves source

end

/-- The name for some keys below `pre`. -/
def dotted (pre : String) (path : List String) : String := path.foldl joinKey pre

def insertLeaf (pre : String) (out : Dict ℚ) (l : List String × ℚ) : Dict ℚ :=
  out.insert (dotted pre l.1) l.2

mutual

theorem flattenValue_eq (key : String) (v : Component) (out : Dict ℚ) :
    flattenValue key v out = (valueLeaves v).foldl (insertLeaf key) out := by
  cases v with
  | bool b => rfl
  | num q => rfl
  | str s => rfl
  | mapping source => exact flattenScalars_eq key source out
  | other float => rfl

theorem flattenScalars_eq (pre : String) (source : Components) (out : Dict ℚ) :
    flattenScalars pre source out = (leaves source).foldl (insertLeaf pre) out := by
  cases source with
  | nil => rfl
  | cons entry source =>
    obtain ⟨k, v⟩ := entry
    rw [flattenScalars, leaves, List.foldl_append, List.foldl_map,
      flattenScalars_eq pre source, flattenValue_eq (joinKey pre k) v]
    rfl

end

/-- Among the leaves with one name, the last is written last. -/
theorem lookup_insertLeaves (pre : String) (ls : List (List String × ℚ)) (out : Dict ℚ)
    (key : String) : (ls.foldl (insertLeaf pre) out).lookup key =
      ((ls.filter fun l => dotted pre l.1 = key).getLast?.map Prod.snd).or (out.lookup key) := by
  induction ls using List.reverseRecOn with
  | nil => rfl
  | append_singleton ls l ih =>
    rw [List.foldl_append, List.filter_append]
    show AList.lookup key ((ls.foldl (insertLeaf pre) out).insert (dotted pre l.1) l.2) = _
    by_cases h : dotted pre l.1 = key
    · rw [List.filter_cons_of_pos (by simpa using h), ← h, AList.lookup_insert]
      simp
    · rw [List.filter_cons_of_neg (by simpa using h), AList.lookup_insert_ne (Ne.symm h), ih]
      simp

/-! ## Names -/

structure CleanKey (k : String) : Prop where
  nonempty : k ≠ ""
  dotless : '.' ∉ k.toList

mutual

/-- The keys of a dictionary are distinct; here they are also clean, at every depth. -/
def CleanValue : Component → Prop
  | .mapping source => CleanKeys source
  | _ => True

def CleanKeys : Components → Prop
  | [] => True
  | (k, v) :: source =>
    CleanKey k ∧ k ∉ source.map Prod.fst ∧ CleanValue v ∧ CleanKeys source

end

theorem toList_dotted {pre : String} (hpre : pre ≠ "") {path : List String}
    (hpath : ∀ k ∈ path, CleanKey k) :
    (dotted pre path).toList = pre.toList ++ path.flatMap fun k => '.' :: k.toList := by
  induction path generalizing pre with
  | nil => simp [dotted]
  | cons k path ih =>
    have hjoin : joinKey pre k = pre ++ "." ++ k := if_neg hpre
    have hne : joinKey pre k ≠ "" := by
      rw [hjoin]
      simp [hpre]
    show (dotted (joinKey pre k) path).toList = _
    rw [ih hne fun k' hk' => hpath k' (List.mem_cons_of_mem k hk'), hjoin]
    simp

theorem intercalate_cons {α : Type} (a : α) (xs : List α) (xss : List (List α)) :
    [a].intercalate (xs :: xss) = xs ++ xss.flatMap (a :: ·) := by
  induction xss generalizing xs with
  | nil => simp
  | cons ys yss ih => simp [List.intercalate_cons_cons, ih]

theorem toList_dotted_empty {path : List String} (hpath : ∀ k ∈ path, CleanKey k) :
    (dotted "" path).toList = ['.'].intercalate (path.map String.toList) := by
  cases path with
  | nil => rfl
  | cons k path =>
    have hk := hpath k List.mem_cons_self
    show (dotted (joinKey "" k) path).toList = _
    rw [joinKey, if_pos rfl,
      toList_dotted hk.nonempty fun k' hk' => hpath k' (List.mem_cons_of_mem k hk')]
    rw [List.map_cons, intercalate_cons, List.flatMap_map]

/-- A name says which keys it is made of. -/
theorem dotted_injective {path path' : List String} (hne : path ≠ []) (hne' : path' ≠ [])
    (hpath : ∀ k ∈ path, CleanKey k) (hpath' : ∀ k ∈ path', CleanKey k)
    (h : dotted "" path = dotted "" path') : path = path' := by
  have hsplit : ∀ {p : List String}, p ≠ [] → (∀ k ∈ p, CleanKey k) →
      (dotted "" p).toList.splitOn '.' = p.map String.toList := by
    intro p hp hclean
    rw [toList_dotted_empty hclean, List.splitOn_intercalate]
    · intro l hl
      obtain ⟨k, hk, rfl⟩ := List.mem_map.mp hl
      exact (hclean k hk).dotless
    · simpa using hp
  have hmap : path.map String.toList = path'.map String.toList := by
    rw [← hsplit hne hpath, ← hsplit hne' hpath', h]
  exact List.map_injective_iff.mpr (fun a b => String.toList_inj.mp) hmap

/-! ### The leaves of a dictionary with clean keys -/

mutual

theorem clean_of_mem_valueLeaves {v : Component} (h : CleanValue v) {l : List String × ℚ}
    (hl : l ∈ valueLeaves v) : ∀ k ∈ l.1, CleanKey k := by
  cases v with
  | bool b | num q =>
    obtain rfl := List.mem_singleton.mp hl
    simp
  | str s | other float => cases hl
  | mapping source => exact (clean_of_mem_leaves h hl).2

theorem clean_of_mem_leaves {source : Components} (h : CleanKeys source) {l : List String × ℚ}
    (hl : l ∈ leaves source) :
    (∃ k ks, l.1 = k :: ks ∧ k ∈ source.map Prod.fst) ∧ ∀ k ∈ l.1, CleanKey k := by
  cases source with
  | nil => cases hl
  | cons entry source =>
    obtain ⟨k, v⟩ := entry
    obtain ⟨hk, -, hv, hrest⟩ := h
    rcases List.mem_append.mp hl with hl | hl
    · obtain ⟨l', hl', rfl⟩ := List.mem_map.mp hl
      refine ⟨⟨k, l'.1, rfl, by simp⟩, fun k' hk' => ?_⟩
      rcases List.mem_cons.mp hk' with rfl | hk'
      · exact hk
      · exact clean_of_mem_valueLeaves hv hl' k' hk'
    · obtain ⟨⟨k', ks, heq, hmem⟩, hclean⟩ := clean_of_mem_leaves hrest hl
      exact ⟨⟨k', ks, heq, List.mem_cons_of_mem _ hmem⟩, hclean⟩

end

mutual

theorem nodup_valueLeaves {v : Component} (h : CleanValue v) :
    ((valueLeaves v).map Prod.fst).Nodup := by
  cases v with
  | bool b | num q => exact List.nodup_singleton _
  | str s | other float => exact List.nodup_nil
  | mapping source => exact nodup_leaves h

theorem nodup_leaves {source : Components} (h : CleanKeys source) :
    ((leaves source).map Prod.fst).Nodup := by
  cases source with
  | nil => exact List.nodup_nil
  | cons entry source =>
    obtain ⟨k, v⟩ := entry
    obtain ⟨-, hfresh, hv, hrest⟩ := h
    have hvalue : ((valueLeaves v).map fun l => k :: l.1).Nodup := by
      have hnodup := (nodup_valueLeaves hv).map (List.cons_injective (a := k))
      rwa [List.map_map] at hnodup
    rw [leaves, List.map_append, List.map_map, List.nodup_append]
    refine ⟨hvalue, nodup_leaves hrest, fun p hp q hq heq => ?_⟩
    subst heq
    obtain ⟨l, -, rfl⟩ := List.mem_map.mp hp
    obtain ⟨l', hl', hl''⟩ := List.mem_map.mp hq
    obtain ⟨⟨k', ks, heq, hmem⟩, -⟩ := clean_of_mem_leaves hrest hl'
    rw [heq] at hl''
    obtain ⟨rfl, -⟩ := List.cons.inj hl''
    exact hfresh hmem

end

/-- **Fan-out.** With clean keys no number is lost: each leaf has a name of its own, under which it
is written. In general the value of a name is that of the last leaf with it. -/
theorem flatten_lossless (source : Components) (key : String) :
    (flattenScalars "" source ∅).lookup key =
        ((leaves source).filter fun l => dotted "" l.1 = key).getLast?.map Prod.snd ∧
      (CleanKeys source → ∀ q, (flattenScalars "" source ∅).lookup key = some q ↔
        ∃ path, dotted "" path = key ∧ (path, q) ∈ leaves source) := by
  have hlookup : (flattenScalars "" source ∅).lookup key =
      ((leaves source).filter fun l => dotted "" l.1 = key).getLast?.map Prod.snd := by
    rw [flattenScalars_eq, lookup_insertLeaves]
    simp
  refine ⟨hlookup, fun hclean q => ?_⟩
  rw [hlookup]
  constructor
  · intro h
    obtain ⟨⟨path, q'⟩, hlast, rfl⟩ := Option.map_eq_some_iff.mp h
    obtain ⟨hmem, hname⟩ := List.mem_filter.mp (List.mem_of_getLast? hlast)
    exact ⟨path, by simpa using hname, hmem⟩
  · rintro ⟨path, rfl, hmem⟩
    have hsame : ∀ l ∈ (leaves source).filter fun l => dotted "" l.1 = dotted "" path,
        l = (path, q) := by
      intro l hl
      obtain ⟨hl, hname⟩ := List.mem_filter.mp hl
      obtain ⟨⟨k, ks, hpath, -⟩, hcl⟩ := clean_of_mem_leaves hclean hl
      obtain ⟨⟨k', ks', hpath', -⟩, hcl'⟩ := clean_of_mem_leaves hclean hmem
      have hkeys : l.1 = path := dotted_injective (by simp [hpath]) (by simp_all)
        hcl hcl' (by simpa using hname)
      exact List.inj_on_of_nodup_map (nodup_leaves hclean) hl hmem hkeys
    have hself : (path, q) ∈ (leaves source).filter fun l => dotted "" l.1 = dotted "" path :=
      List.mem_filter.mpr ⟨hmem, by simp⟩
    cases hlast : ((leaves source).filter fun l => dotted "" l.1 = dotted "" path).getLast? with
    | none =>
      rw [List.getLast?_eq_none_iff.mp hlast] at hself
      cases hself
    | some l =>
      rw [hsame l (List.mem_of_getLast? hlast)]
      rfl

/-- A name that two leaves share: the later one stays. -/
example : (flattenScalars "" [("a", .mapping [("b", .num 1)]), ("a.b", .bool false)] ∅).lookup
    "a.b" = some 0 := by
  decide

end MetricFanout

end Trainfer
