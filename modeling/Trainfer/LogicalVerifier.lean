import Mathlib.Data.Finset.Dedup
import Mathlib.Data.List.DropRight

/-! `_compare` of the logical verifier.

`compare_set_iff` is about the mode `set`: it compares sets of tokens where the module says
multisets, so repetitions do not count. -/

namespace Trainfer

/-- Methods of `str`. -/
structure StrLib where
  /-- `isspace`, which is also `\s`. -/
  isSpace : Char → Bool
  lower : List Char → List Char

/-- What the other modes call. `F` are the floats. -/
structure CompareLib (F : Type) extends StrLib where
  /-- `float(s)`, with `none` for a `ValueError`. -/
  float : List Char → Option F
  /-- `abs(a - b) < 1e-9`. -/
  close : F → F → Bool
  /-- `re.fullmatch(e, g, re.IGNORECASE | re.DOTALL)`, with `none` for an `re.error`. -/
  fullmatch : List Char → List Char → Option Bool

def StrLib.strip (lib : StrLib) (s : List Char) : List Char :=
  (s.dropWhile lib.isSpace).rdropWhile lib.isSpace

/-- `re.split` at the longest runs of separators. -/
def splitRuns (sep : Char → Bool) : List Char → List (List Char)
  | [] => [[]]
  | c :: cs =>
    if sep c then
      if cs.head?.any sep then splitRuns sep cs else [] :: splitRuns sep cs
    else (splitRuns sep cs).modifyHead (c :: ·)

/-- The elements of `{x.strip().lower() for x in re.split(r"[,\s]+", s) if x.strip()}`, with
repetitions. -/
def StrLib.tokens (lib : StrLib) (s : List Char) : List (List Char) :=
  ((splitRuns (fun c => c == ',' || lib.isSpace c) s).filter fun x =>
    !(lib.strip x).isEmpty).map fun x => lib.lower (lib.strip x)

def truthyWords : List String := ["1", "true", "yes", "y", "t"]

def falsyWords : List String := ["0", "false", "no", "n", "f"]

/-- `_norm_bool`. -/
def StrLib.normBool (lib : StrLib) (s : List Char) : Option Bool :=
  let s := String.ofList (lib.lower (lib.strip s))
  if s ∈ truthyWords then some true
  else if s ∈ falsyWords then some false
  else none

variable {F : Type}

/-- `_num`. -/
def CompareLib.num (lib : CompareLib F) (x : List Char) : Option F :=
  let cleaned := x.filter fun c => c ∈ ['0', '1', '2', '3', '4', '5', '6', '7', '8', '9', '.', '-']
  if cleaned = [] ∨ cleaned ∈ [['.'], ['-'], ['-', '.']] then none else lib.float cleaned

/-- `_compare`. -/
def CompareLib.compare (lib : CompareLib F) (got expected mode : String) : Bool :=
  let g := lib.strip got.toList
  let e := lib.strip expected.toList
  if mode = "exact" then lib.lower g == lib.lower e
  else if mode = "numeric" then
    match lib.num g, lib.num e with
    | some ng, some ne => lib.close ng ne
    | _, _ => false
  else if mode = "set" then (lib.tokens g).toFinset = (lib.tokens e).toFinset
  else if mode = "bool" then
    match lib.normBool g, lib.normBool e with
    | some bg, some be => bg == be
    | _, _ => false
  else if mode = "regex" then (lib.fullmatch e g).getD false
  else false

/-- The tokens that an answer is compared by. -/
def StrLib.answerTokens (lib : StrLib) (answer : String) : List (List Char) :=
  lib.tokens (lib.strip answer.toList)

variable {lib : CompareLib F}

theorem compare_set_iff_mem {got expected : String} :
    lib.compare got expected "set" = true ↔
      ∀ t, t ∈ lib.answerTokens got ↔ t ∈ lib.answerTokens expected := by
  have hset : lib.compare got expected "set" = decide ((lib.answerTokens got).toFinset =
      (lib.answerTokens expected).toFinset) := rfl
  rw [hset, decide_eq_true_eq, Finset.ext_iff]
  simp only [List.mem_toFinset]

/-- A comparison in the mode `set` depends on which tokens occur only. -/
theorem compare_set_congr {got got' expected : String}
    (h : ∀ t, t ∈ lib.answerTokens got ↔ t ∈ lib.answerTokens got') :
    lib.compare got expected "set" = lib.compare got' expected "set" := by
  rw [Bool.eq_iff_iff, compare_set_iff_mem, compare_set_iff_mem]
  simp only [h]

/-- A token more or less matters iff it is the only one of its kind. -/
theorem compare_set_ne_iff {got got' expected : String} {t : List Char}
    (hperm : (lib.answerTokens got).Perm (t :: lib.answerTokens got')) :
    lib.compare got expected "set" ≠ lib.compare got' expected "set" ↔
      t ∉ lib.answerTokens got' ∧ (lib.compare got expected "set" = true ∨
        lib.compare got' expected "set" = true) := by
  by_cases ht : t ∈ lib.answerTokens got'
  · have hsame : lib.compare got expected "set" = lib.compare got' expected "set" := by
      refine compare_set_congr fun s => ?_
      rw [hperm.mem_iff, List.mem_cons]
      constructor
      · rintro (rfl | hs)
        · exact ht
        · exact hs
      · exact .inr
    simp [hsame, ht]
  · have hnot : ¬ (lib.compare got expected "set" = true ∧
        lib.compare got' expected "set" = true) := by
      rw [compare_set_iff_mem, compare_set_iff_mem]
      rintro ⟨h, h'⟩
      exact ht ((h' t).mpr ((h t).mp (hperm.mem_iff.mpr List.mem_cons_self)))
    cases hgot : lib.compare got expected "set" with
    | false => simp [ht]
    | true =>
      have hgot' : lib.compare got' expected "set" = false := by
        rw [hgot] at hnot
        simpa using hnot
      simp [ht, hgot']

/-- **Comparing sets.** The mode `set` finds two answers equal iff their tokens are the same with
the same repetitions, exactly if not the same tokens are repeated differently. The order of the
tokens does not matter; nor does repeating one, and leaving one out matters iff it was the only
one of its kind and the answer is right with it or without it. -/
theorem compare_set_iff (lib : CompareLib F) :
    (∀ got expected,
      (lib.compare got expected "set" = true ↔
        (lib.answerTokens got).Perm (lib.answerTokens expected)) ↔
      ((∀ t, t ∈ lib.answerTokens got ↔ t ∈ lib.answerTokens expected) →
        ∀ t, (lib.answerTokens got).count t = (lib.answerTokens expected).count t)) ∧
    (∀ got got' expected, (lib.answerTokens got).Perm (lib.answerTokens got') →
      lib.compare got expected "set" = lib.compare got' expected "set") ∧
    ∀ got got' expected t, (lib.answerTokens got).Perm (t :: lib.answerTokens got') →
      (lib.compare got expected "set" ≠ lib.compare got' expected "set" ↔
        t ∉ lib.answerTokens got' ∧ (lib.compare got expected "set" = true ∨
          lib.compare got' expected "set" = true)) := by
  refine ⟨fun got expected => ?_, fun got got' expected hperm => ?_,
    fun got got' expected t hperm => ?_⟩
  · rw [compare_set_iff_mem, List.perm_iff_count]
    constructor
    · exact fun h hmem => h.mp hmem
    · refine fun h => ⟨h, fun hcount t => ?_⟩
      rw [← List.count_pos_iff, ← List.count_pos_iff, hcount]
  · exact compare_set_congr fun t => hperm.mem_iff
  · exact compare_set_ne_iff hperm

/-- ASCII only. -/
def asciiStr : StrLib where
  isSpace c := c.toNat == 32 || (9 ≤ c.toNat && c.toNat ≤ 13) || (28 ≤ c.toNat && c.toNat ≤ 31)
  lower s := s.map Char.toLower

/-- `3,3,4` passes for `3,4`. -/
theorem repeated_passes :
    ¬ (asciiStr.answerTokens "3,3,4").Perm (asciiStr.answerTokens "3,4") ∧
    ∀ (F : Type) (lib : CompareLib F), lib.toStrLib = asciiStr →
      lib.compare "3,3,4" "3,4" "set" = true := by
  refine ⟨by decide, fun F lib hlib => ?_⟩
  rw [compare_set_iff_mem, hlib]
  have hgot : asciiStr.answerTokens "3,3,4" = [['3'], ['3'], ['4']] := by decide
  have hexpected : asciiStr.answerTokens "3,4" = [['3'], ['4']] := by decide
  rw [hgot, hexpected]
  simp

end Trainfer
