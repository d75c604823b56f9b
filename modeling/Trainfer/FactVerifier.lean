import Trainfer.MathVerifier
import Mathlib.Algebra.Order.Field.Basic
import Mathlib.Algebra.Order.Field.Rat
import Mathlib.Algebra.BigOperators.Group.List.Basic
import Mathlib.Algebra.Order.BigOperators.Group.List
import Mathlib.Data.Finset.Dedup
import Mathlib.Tactic.Linarith
import Mathlib.Tactic.Positivity

/-! `verify_facts`: how well a text retains a list of facts.

The average is a number from zero to one (`verifyFacts_mem`), since the F1 score of two lists of
tokens is (`tokenF1_mem`): what they share is a set, and no larger than either list. -/

namespace Trainfer

/-- The character classes of `re`, and `str.lower`. -/
structure TextLib extends Unicode where
  lower : List Char → List Char

namespace TextLib

variable (lib : TextLib)

def strip (s : List Char) : List Char := (s.dropWhile lib.isSpace).rdropWhile lib.isSpace

/-- `s.split()`. -/
def words (s : List Char) : List (List Char) :=
  (s.splitOnP lib.isSpace).filter fun t => !t.isEmpty

/-- `string.punctuation`. -/
def isPunctuation (c : Char) : Bool :=
  33 ≤ c.toNat && c.toNat ≤ 47 || 58 ≤ c.toNat && c.toNat ≤ 64 ||
    91 ≤ c.toNat && c.toNat ≤ 96 || 123 ≤ c.toNat && c.toNat ≤ 126

/-- `\b(a|an|the)\b`. -/
def article : Regex Char :=
  Regex.seqs [boundary lib.toUnicode,
    .group (Regex.alts [word "a", word "an", word "the"]), boundary lib.toUnicode]

/-- `_normalize_text`. -/
def normalizeText (s : List Char) : List Char :=
  let text := (lib.lower s).filter fun c => !isPunctuation c
  let text := Regex.sub lib.article [' '] text
  [' '].intercalate (lib.words text)

/-- `_token_f1`. -/
def tokenF1 (pred target : List Char) : ℚ :=
  let predToks := lib.words (lib.normalizeText pred)
  let targetToks := lib.words (lib.normalizeText target)
  if predToks = [] ∨ targetToks = [] then
    if predToks = targetToks then 1 else 0
  else
    let common := predToks.toFinset ∩ targetToks.toFinset
    if common = ∅ then 0
    else
      let prec : ℚ := common.card / predToks.length
      let recalled : ℚ := common.card / targetToks.length
      2 * (prec * recalled) / (prec + recalled)

/-- The score of one fact. -/
def factScore (generation fact : List Char) : ℚ :=
  if lib.normalizeText fact <:+: lib.normalizeText generation then 1
  else lib.tokenF1 generation fact

/-- `verify_facts`. -/
def verifyFacts (generation : List Char) (facts : List (List Char)) : ℚ :=
  if facts = [] then 1
  else (facts.map (lib.factScore generation)).sum / facts.length

/-! ## Bounds -/

/-- The harmonic mean of two shares is one. -/
theorem harmonicMean_mem {p r : ℚ} (hp : 0 < p) (hp1 : p ≤ 1) (hr : 0 < r) (hr1 : r ≤ 1) :
    0 ≤ 2 * (p * r) / (p + r) ∧ 2 * (p * r) / (p + r) ≤ 1 := by
  have hsum : 0 < p + r := add_pos hp hr
  constructor
  · positivity
  · have hleft : p * r ≤ p := mul_le_of_le_one_right hp.le hr1
    have hright : p * r ≤ r := mul_le_of_le_one_left hr.le hp1
    rw [div_le_one hsum]
    linarith

/-- The share of a list that a nonempty subset of its elements is. -/
theorem share_mem {α : Type} [DecidableEq α] {s : Finset α} {xs : List α} (hs : s.Nonempty)
    (hsub : s ⊆ xs.toFinset) : (0 : ℚ) < s.card / xs.length ∧ (s.card : ℚ) / xs.length ≤ 1 := by
  have hle : s.card ≤ xs.length := (Finset.card_le_card hsub).trans (List.toFinset_card_le xs)
  have hpos : 0 < s.card := hs.card_pos
  have hlength : (0 : ℚ) < xs.length := by exact_mod_cast hpos.trans_le hle
  have hcard : (0 : ℚ) < s.card := by exact_mod_cast hpos
  constructor
  · exact div_pos hcard hlength
  · rw [div_le_one hlength]
    exact_mod_cast hle

theorem tokenF1_mem (pred target : List Char) :
    0 ≤ lib.tokenF1 pred target ∧ lib.tokenF1 pred target ≤ 1 := by
  unfold tokenF1
  dsimp only
  split
  · split
    · exact ⟨zero_le_one, le_rfl⟩
    · exact ⟨le_rfl, zero_le_one⟩
  · split
    · exact ⟨le_rfl, zero_le_one⟩
    · rename_i hcommon
      have hne := Finset.nonempty_iff_ne_empty.mpr hcommon
      obtain ⟨hprec, hprec1⟩ := share_mem hne Finset.inter_subset_left
      obtain ⟨hrec, hrec1⟩ := share_mem hne Finset.inter_subset_right
      exact harmonicMean_mem hprec hprec1 hrec hrec1

theorem factScore_mem (generation fact : List Char) :
    0 ≤ lib.factScore generation fact ∧ lib.factScore generation fact ≤ 1 := by
  unfold factScore
  split
  · exact ⟨zero_le_one, le_rfl⟩
  · exact lib.tokenF1_mem generation fact

/-- **The score of a text** is between zero and one. -/
theorem verifyFacts_mem (generation : List Char) (facts : List (List Char)) :
    0 ≤ lib.verifyFacts generation facts ∧ lib.verifyFacts generation facts ≤ 1 := by
  unfold verifyFacts
  split
  · exact ⟨zero_le_one, le_rfl⟩
  · rename_i hne
    have hlength : (0 : ℚ) < facts.length := by
      exact_mod_cast List.length_pos_iff.mpr hne
    have hnonneg : 0 ≤ (facts.map (lib.factScore generation)).sum :=
      List.sum_nonneg fun x hx => by
        obtain ⟨fact, -, rfl⟩ := List.mem_map.mp hx
        exact (lib.factScore_mem generation fact).1
    have hle : (facts.map (lib.factScore generation)).sum ≤ facts.length := by
      have hcard := List.sum_le_card_nsmul (facts.map (lib.factScore generation)) 1 fun x hx => by
        obtain ⟨fact, -, rfl⟩ := List.mem_map.mp hx
        exact (lib.factScore_mem generation fact).2
      simpa using hcard
    exact ⟨div_nonneg hnonneg hlength.le, (div_le_one hlength).mpr hle⟩

end TextLib

end Trainfer
