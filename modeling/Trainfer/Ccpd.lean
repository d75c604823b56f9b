import Trainfer.Errors
import Trainfer.Objective
import Trainfer.Lib.Ranks
import Mathlib.Data.List.GetD

/-! `ccpd_v2_loss` up to its gate: the candidates, their scores, the pinned ends and the rank
advantages. The gate compares the spread of the ranks with `tau`, and ranks spread over the whole
list whatever the scores are. -/

namespace Trainfer

open Ranks

variable (K : Type) [Scalar K] {P L τ : Type}

/-- A feedback sample; `none` is `None` or a missing key. -/
structure CcpdSample where
  prompt : String
  bad : Option String := none
  critique : Option String := none
  preferred : Option String := none
  auxCandidates : List String := []

/-- The keyword arguments; `piRef` says whether a frozen reference came with the call. -/
structure CcpdArgs where
  piRef : Bool := false
  beta : K := 1 / 10
  alpha : K := 3 / 10
  gamma : K := 1 / 20
  tau : K := 1 / 2
  distillTopM : Int := 2
  kAux : Int := 4
  maxNewTokens : Int := 256
  piRefMode : Option String := some "adapter_disabled"

/-- What `ccpd_v2_loss` asks of the model. -/
structure CcpdModel (P L : Type) where
  /-- `_sample_candidates`. -/
  sampleCandidates : P → String → Option String → ℕ → Int → Except PyError (List String)
  /-- The mean log-probability of a response after a prompt. -/
  logprobMean : P → String → String → Except PyError K
  /-- Steps 4a to 4c: REINFORCE, distillation on the top ranked, the KL anchor. -/
  loss : P → String → List String → List K → CcpdArgs K → Except PyError L

/-- `if text:` -/
def given (text : Option String) : Option String := text.filter fun y => y != ""

/-- The user's rewrite in front of the candidates, unless it is one. -/
def withPreferred (s : CcpdSample) (candidates : List String) : List String :=
  match given s.preferred with
  | some y => if y ∈ candidates then candidates else y :: candidates
  | none => candidates

/-- The bad response behind them, unless it is one. -/
def withBad (s : CcpdSample) (candidates : List String) : List String :=
  match given s.bad with
  | some y => if y ∈ candidates then candidates else candidates ++ [y]
  | none => candidates

variable {K}

/-- What is sampled beside the candidates that came with the sample. -/
def sampleAux (k : CcpdModel K P L) (p : P) (args : CcpdArgs K) (s : CcpdSample) :
    Except PyError (List String) :=
  let need := max 0 (args.kAux - s.auxCandidates.length)
  if 0 < need then k.sampleCandidates p s.prompt s.critique need.toNat args.maxNewTokens
  else .ok []

/-- Step 1. -/
def assemble (k : CcpdModel K P L) (p : P) (args : CcpdArgs K) (s : CcpdSample) :
    Except PyError (List String) := do
  let sampled ← sampleAux k p args s
  return withBad s (withPreferred s (s.auxCandidates ++ sampled))

/-- `score_rc`. -/
def scoreRc (k : CcpdModel K P L) (p : P) (prompt response critique : String) (beta : K) :
    Except PyError K := do
  let lpWith ← k.logprobMean p (prompt ++ "\n\n[Feedback: " ++ critique ++ "]\n\n") response
  let lpWithout ← k.logprobMean p prompt response
  return beta * (lpWith - lpWithout)

variable [LinearOrder K]

def maxOf (xs : List K) : K := xs.max?.getD 0

def minOf (xs : List K) : K := xs.min?.getD 0

/-- The user's rewrite above all scores, and then the bad response below them. -/
def pinEnds (s : CcpdSample) (candidates : List String) (scores : List K) : List K :=
  let scores := match given s.preferred with
    | some y => scores.set (candidates.idxOf y) (maxOf scores + 1)
    | none => scores
  match given s.bad with
  | some y => scores.set (candidates.idxOf y) (minOf scores - 1)
  | none => scores

/-- Step 2. -/
def scoreCandidates (k : CcpdModel K P L) (p : P) (args : CcpdArgs K) (s : CcpdSample)
    (candidates : List String) : Except PyError (List K) :=
  match given s.critique with
  | some critique => candidates.mapM fun y => scoreRc k p s.prompt y critique args.beta
  | none => do
    let scores ← candidates.mapM (k.logprobMean p s.prompt)
    return pinEnds s candidates scores

/-- `rank_advantages`. -/
def rankAdvantages (A : Argsort) (scores : List K) : List K :=
  List.ofFn (A.centered K scores.get)

/-- `ccpd_v2_loss`. -/
def ccpdV2Loss (A : Argsort) (k : CcpdModel K P L) (p : P) (samples : List CcpdSample)
    (args : CcpdArgs K) : Except PyError (Result L τ) :=
  match samples with
  | [s] => do
    let candidates ← assemble k p args s
    if candidates.length < 2 then
      throw ⟨.valueError, "ccpd_v2_loss needs at least 2 candidates (aux + bad or " ++
        "user_preferred + bad)"⟩
    let scores ← scoreCandidates k p args s candidates
    let advantages := rankAdvantages A scores
    if maxOf advantages - minOf advantages < args.tau then
      return ⟨none, []⟩
    let loss ← k.loss p s.prompt candidates advantages args
    return ⟨some loss, []⟩
  | _ => .error ⟨.valueError, "ccpd_v2_loss expects exactly one feedback sample per call"⟩

/-! ## Scores -/

theorem maxOf_eq {xs : List K} {m : K} (hm : m ∈ xs) (h : ∀ x ∈ xs, x ≤ m) : maxOf xs = m := by
  rw [maxOf, List.max?_eq_some_iff.mpr ⟨hm, h⟩, Option.getD_some]

theorem minOf_eq {xs : List K} {m : K} (hm : m ∈ xs) (h : ∀ x ∈ xs, m ≤ x) : minOf xs = m := by
  rw [minOf, List.min?_eq_some_iff.mpr ⟨hm, h⟩, Option.getD_some]

theorem length_pinEnds (s : CcpdSample) (candidates : List String) (scores : List K) :
    (pinEnds s candidates scores).length = scores.length := by
  unfold pinEnds
  cases given s.preferred with
  | none =>
    cases given s.bad with
    | none => rfl
    | some z => simp
  | some y =>
    cases given s.bad with
    | none => simp
    | some z => simp

/-- Every candidate gets a score. -/
theorem length_scoreCandidates {k : CcpdModel K P L} {p : P} {args : CcpdArgs K} {s : CcpdSample}
    {candidates : List String} {scores : List K}
    (h : scoreCandidates k p args s candidates = .ok scores) :
    scores.length = candidates.length := by
  unfold scoreCandidates at h
  split at h
  · exact (forall₂_of_mapM h).length_eq.symm
  · obtain ⟨plain, hplain, h⟩ := bind_ok h
    cases h
    rw [length_pinEnds, (forall₂_of_mapM hplain).length_eq]

/-! ## Rank advantages -/

variable (A : Argsort)

@[simp] theorem length_rankAdvantages (scores : List K) :
    (rankAdvantages A scores).length = scores.length := List.length_ofFn

theorem rankAdvantages_perm (scores : List K) : (rankAdvantages A scores).Perm
    ((List.range scores.length).map (Argsort.orderStatistic K scores.length)) :=
  A.centered_perm K scores.get

/-- The advantages of a list that is given as a tuple. -/
theorem rankAdvantages_of_get {scores : List K} {n : ℕ} (hn : scores.length = n)
    {f : Fin n → K} (hf : ∀ i : Fin n, scores.get (i.cast hn.symm) = f i) :
    rankAdvantages A scores = List.ofFn (A.centered K f) := by
  subst hn
  have hget : scores.get = f := funext hf
  rw [rankAdvantages, hget]

theorem rankAdvantages_map {scores : List K} (hnodup : scores.Nodup) {φ : K → K}
    (hφ : StrictMonoOn φ {x | x ∈ scores}) :
    rankAdvantages A (scores.map φ) = rankAdvantages A scores := by
  have hn : (scores.map φ).length = scores.length := List.length_map φ
  rw [rankAdvantages_of_get A hn (f := φ ∘ scores.get) (fun i => by simp)]
  have hinj : Function.Injective scores.get := List.nodup_iff_injective_get.mp hnodup
  have hrank : A.rank (φ ∘ scores.get) = A.rank scores.get :=
    A.rank_congr hinj fun i j => hφ.lt_iff_lt (List.get_mem _ _) (List.get_mem _ _)
  unfold rankAdvantages Argsort.centered
  rw [hrank]

variable [IsStrictOrderedRing K]

theorem rankAdvantages_neg {scores : List K} (hnodup : scores.Nodup) :
    rankAdvantages A (scores.map Neg.neg) = (rankAdvantages A scores).map Neg.neg := by
  have hn : (scores.map Neg.neg).length = scores.length := List.length_map _
  rw [rankAdvantages_of_get A hn (f := fun i => -scores.get i) (fun i => by simp)]
  have hinj : Function.Injective scores.get := List.nodup_iff_injective_get.mp hnodup
  rw [rankAdvantages, List.map_ofFn]
  congr 1
  funext i
  exact A.centered_rev K hinj (fun i j => neg_lt_neg_iff) i

theorem rankAdvantages_lt {scores : List K} {i j : ℕ} (hi : i < scores.length)
    (hj : j < scores.length) (h : scores.getD i 0 < scores.getD j 0) :
    (rankAdvantages A scores).getD i 0 < (rankAdvantages A scores).getD j 0 := by
  have hget : ∀ {n : ℕ} (hn : n < scores.length), (rankAdvantages A scores).getD n 0 =
      A.centered K scores.get ⟨n, hn⟩ := by
    intro n hn
    rw [List.getD_eq_getElem _ _ (by simpa using hn)]
    simp [rankAdvantages]
  rw [hget hi, hget hj]
  apply A.centered_lt_of_lt
  rw [List.getD_eq_getElem _ _ hi, List.getD_eq_getElem _ _ hj] at h
  exact h

/-! ## The gate -/

/-- The advantages spread over the whole list, whatever the scores are. -/
theorem spread_rankAdvantages {scores : List K} (h : 0 < scores.length) :
    maxOf (rankAdvantages A scores) - minOf (rankAdvantages A scores) = scores.length - 1 := by
  have hmem : ∀ x, x ∈ rankAdvantages A scores ↔
      ∃ i < scores.length, Argsort.orderStatistic K scores.length i = x := by
    intro x
    rw [(rankAdvantages_perm A scores).mem_iff, List.mem_map]
    simp only [List.mem_range]
  have hmax : maxOf (rankAdvantages A scores) =
      Argsort.orderStatistic K scores.length (scores.length - 1) := by
    refine maxOf_eq ((hmem _).mpr ⟨_, by omega, rfl⟩) fun x hx => ?_
    obtain ⟨i, hi, rfl⟩ := (hmem x).mp hx
    rcases Nat.lt_or_ge i (scores.length - 1) with hlt | hge
    · exact (Argsort.orderStatistic_lt K hlt).le
    · rw [show i = scores.length - 1 by omega]
  have hmin : minOf (rankAdvantages A scores) = Argsort.orderStatistic K scores.length 0 := by
    refine minOf_eq ((hmem _).mpr ⟨0, h, rfl⟩) fun x hx => ?_
    obtain ⟨i, hi, rfl⟩ := (hmem x).mp hx
    rcases Nat.eq_zero_or_pos i with rfl | hpos
    · exact le_refl _
    · exact (Argsort.orderStatistic_lt K hpos).le
  rw [hmax, hmin, Argsort.orderStatistic, Argsort.orderStatistic, sub_sub_sub_cancel_right,
    Nat.cast_sub h, Nat.cast_one, Nat.cast_zero, sub_zero]

/-- Past the candidates and their scores, the gate only looks at how many there are. -/
theorem ccpdV2Loss_eq {k : CcpdModel K P L} {p : P} {args : CcpdArgs K} {s : CcpdSample}
    {candidates : List String} (hcandidates : assemble k p args s = .ok candidates)
    (htwo : 2 ≤ candidates.length) {scores : List K}
    (hscores : scoreCandidates k p args s candidates = .ok scores) :
    (ccpdV2Loss A k p [s] args : Except PyError (Result L τ)) =
      if (candidates.length : K) - 1 < args.tau then .ok ⟨none, []⟩
      else (k.loss p s.prompt candidates (rankAdvantages A scores) args).map
        fun loss => ⟨some loss, []⟩ := by
  have hlength := length_scoreCandidates hscores
  have hspread := spread_rankAdvantages A (show 0 < scores.length by omega)
  rw [hlength] at hspread
  simp only [ccpdV2Loss, hcandidates, hscores, hspread, bind, Except.bind,
    if_neg (not_lt.mpr htwo)]
  split
  · rfl
  · cases k.loss p s.prompt candidates (rankAdvantages A scores) args with
    | error e => rfl
    | ok loss => rfl

/-- **The skip.** On the critique path, with equal scores for all candidates, the loss is `None`
exactly if `tau` is above the number of candidates less one. -/
theorem ccpdV2Loss_skips_iff {k : CcpdModel K P L} {p : P} {args : CcpdArgs K} {s : CcpdSample}
    {critique : String} (hcritique : given s.critique = some critique)
    {candidates : List String} (hcandidates : assemble k p args s = .ok candidates)
    (htwo : 2 ≤ candidates.length) {scores : List K}
    (hscores : candidates.mapM (fun y => scoreRc k p s.prompt y critique args.beta) =
      .ok scores) :
    (∀ x ∈ scores, ∀ y ∈ scores, x = y) → 0 < args.tau →
      ((∃ r : Result L τ, ccpdV2Loss A k p [s] args = .ok r ∧ r.loss = none) ↔
        (candidates.length : K) - 1 < args.tau) := by
  intro _ _
  have hscored : scoreCandidates k p args s candidates = .ok scores := by
    rw [scoreCandidates, hcritique]
    exact hscores
  rw [ccpdV2Loss_eq A hcandidates htwo hscored]
  constructor
  · rintro ⟨r, hr, hnone⟩
    by_contra hge
    rw [if_neg hge] at hr
    cases hl : k.loss p s.prompt candidates (rankAdvantages A scores) args with
    | error e =>
      rw [hl] at hr
      cases hr
    | ok loss =>
      rw [hl] at hr
      cases hr
      cases hnone
  · intro hlt
    rw [if_pos hlt]
    exact ⟨_, rfl, rfl⟩

/-- Mathlib's stable sort. -/
def stableArgsort : Argsort where
  perm := Tuple.sort
  monotone_perm := Tuple.monotone_sort

/-- Every response has the log-probability 0. -/
def flatModel : CcpdModel ℚ Unit Unit where
  sampleCandidates _ _ _ n _ := .ok (List.replicate n "sampled")
  logprobMean _ _ _ := .ok 0
  loss _ _ _ _ _ := .ok ()

def sameAnswer : CcpdSample where
  prompt := "Say something."
  bad := some "Same answer."
  critique := some "Be concise."
  auxCandidates := List.replicate 4 "Same answer."

theorem scores_sameAnswer (beta : ℚ) :
    (List.replicate 4 "Same answer.").mapM (fun y =>
      scoreRc flatModel () sameAnswer.prompt y "Be concise." beta) = .ok [0, 0, 0, 0] := by
  have hscore : ∀ y, scoreRc flatModel () sameAnswer.prompt y "Be concise." beta = .ok 0 := by
    intro y
    show Except.ok (beta * (0 - 0)) = _
    rw [sub_zero, mul_zero]
  simp only [hscore]
  rfl

/-- Four equal candidates are trained on with the default `tau`. -/
theorem sameAnswer_trained :
    ¬ ∀ (A : Argsort) (k : CcpdModel ℚ Unit Unit) (p : Unit) (args : CcpdArgs ℚ)
      (s : CcpdSample) (critique : String) (candidates : List String) (scores : List ℚ),
      given s.critique = some critique → assemble k p args s = .ok candidates →
      2 ≤ candidates.length →
      candidates.mapM (fun y => scoreRc k p s.prompt y critique args.beta) = .ok scores →
      (∀ x ∈ scores, ∀ y ∈ scores, x = y) → 0 < args.tau →
      ∃ r : Result Unit Unit, ccpdV2Loss A k p [s] args = .ok r ∧ r.loss = none := by
  intro hall
  obtain ⟨r, hr, hnone⟩ := hall stableArgsort flatModel () {} sameAnswer "Be concise."
    (List.replicate 4 "Same answer.") [0, 0, 0, 0] rfl rfl (by decide) (scores_sameAnswer _)
    (by simp) (by norm_num)
  have hscored : scoreCandidates flatModel () {} sameAnswer (List.replicate 4 "Same answer.") =
      .ok [0, 0, 0, 0] := scores_sameAnswer _
  rw [ccpdV2Loss_eq stableArgsort rfl (by decide) hscored, if_neg (by norm_num)] at hr
  cases hr
  cases hnone

/-- A `tau` above 3 skips them. -/
theorem sameAnswer_skipped : ∃ r : Result Unit Unit,
    ccpdV2Loss stableArgsort flatModel () [sameAnswer] { tau := 10 } = .ok r ∧ r.loss = none := by
  have hlength : 2 ≤ (List.replicate 4 "Same answer.").length := by decide
  exact (ccpdV2Loss_skips_iff stableArgsort rfl rfl hlength (scores_sameAnswer _) (by simp)
    (by norm_num)).mpr (by norm_num)

end Trainfer
