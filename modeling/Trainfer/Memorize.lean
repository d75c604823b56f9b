import Trainfer.GreedyRank
import Trainfer.Lib.Patience

/-! `iterate_memorize`: training steps on one response until the model would write it itself.

Between the steps the daemon does other work, so a rank may be anything that the model gives then.
`memorize_run` says for each way in which the loop can end which ranks it has seen, and how many
steps it can take at most. -/

namespace Trainfer.Memorize

open Patience (Tracker Tracks Stale Slow)

variable {V : ℕ} {σ : Type}

structure Request where
  prompt : String
  response : String
  maxSteps : ℤ
  threshold : ℚ
  lr : Option ℚ
  weight : ℚ
  plateauPatience : ℤ

/-- The daemon, by a state of its own. -/
structure World (V : ℕ) (σ : Type) where
  /-- The weights. -/
  forward : σ → Forward V
  argmax : (Fin V → ℝ) → ℕ
  tokenizer : ChatTokenizer
  submitTrain : TrainSpec → σ → Except PyError ℤ × σ
  /-- The state in which the next evaluation gets the lock. An error of the wait is only logged. -/
  waitFor : ℤ → σ → σ
  committed : σ → ℤ

/-- An entry of `history`; the first one has no token. -/
structure HistoryEntry where
  step : ℕ
  rank : Rank
  commitToken : Option ℤ

inductive Reason where
  | alreadyMemorized
  | thresholdReached
  | plateau
  | maxSteps
  deriving DecidableEq

/-- What is returned, but for the time it took. -/
structure Summary where
  steps : ℤ
  finalRank : Rank
  commitToken : Option ℤ
  history : List HistoryEntry
  reason : Reason

/-- The local variables of the loop. -/
structure Progress where
  step : ℕ
  rank : Rank
  bestRank : ℚ
  stepsSinceImprove : ℕ
  commitToken : Option ℤ
  history : List HistoryEntry

def Progress.summary (g : Progress) (steps : ℤ) (reason : Reason) : Summary :=
  ⟨steps, g.rank, g.commitToken, g.history, reason⟩

def Progress.record (g : Progress) (token : ℤ) (rank : Rank) : Progress :=
  { g with
    step := g.step + 1
    rank := rank
    commitToken := some token
    history := g.history ++ [⟨g.step + 1, rank, some token⟩] }

section

variable (w : World V σ) (req : Request)

def evalUnderLock (s : σ) : Except PyError Rank :=
  greedyRankFraction (w.forward s) w.argmax w.tokenizer req.prompt req.response

def Request.spec : TrainSpec where
  objective := .val "weighted_sft"
  samples := .val [[("prompt", .str req.prompt), ("response", .str req.response),
    ("weight", .num req.weight)]]
  chunkSize := .val 1
  kwargs := req.lr.elim .missing fun lr => .val [("effective_lr", .num lr)]

/-- A training step and the evaluation after it. -/
def trainStep (s : σ) : Except PyError (ℤ × Rank) × σ :=
  match w.submitTrain req.spec s with
  | (.error e, s) => (.error e, s)
  | (.ok token, s) =>
    let s := w.waitFor token s
    ((evalUnderLock w req s).map fun rank => (token, rank), s)

/-- The loop, with the number of rounds that are left. -/
def rounds : ℕ → Progress → σ → Except PyError Summary × σ
  | 0, g, s => (.ok (g.summary req.maxSteps .maxSteps), s)
  | n + 1, g, s =>
    match trainStep w req s with
    | (.error e, s) => (.error e, s)
    | (.ok (token, rank), s) =>
      let g := g.record token rank
      if req.threshold ≤ rank.fraction then (.ok (g.summary g.step .thresholdReached), s)
      else if g.bestRank + 1 / 10 ^ 6 < rank.fraction then
        rounds n { g with bestRank := rank.fraction, stepsSinceImprove := 0 } s
      else if req.plateauPatience ≤ g.stepsSinceImprove + 1 then
        (.ok (g.summary g.step .plateau), s)
      else rounds n { g with stepsSinceImprove := g.stepsSinceImprove + 1 } s

/-- Training steps one after the other, each with its token and the rank after it. -/
inductive Trained : σ → List (ℤ × Rank) → σ → Prop
  | nil (s : σ) : Trained s [] s
  | snoc {s t u : σ} {entries : List (ℤ × Rank)} {token : ℤ} {rank : Rank}
      (before : Trained s entries t) (step : trainStep w req t = (.ok (token, rank), u)) :
      Trained s (entries ++ [(token, rank)]) u

end

/-- The fractions, with the one before any training. -/
def fractions (first : Rank) (entries : List (ℤ × Rank)) : List ℚ :=
  first.fraction :: entries.map fun e => e.2.fraction

def historyOf (first : Rank) (entries : List (ℤ × Rank)) : List HistoryEntry :=
  ⟨0, first, none⟩ :: entries.zipIdx.map fun (e, i) => ⟨i + 1, e.2, some e.1⟩

/-- A patience below one is one. -/
def Request.patience (req : Request) : ℕ := (max req.plateauPatience 1).toNat

/-- Nothing to stop for yet. -/
structure Going (req : Request) (xs : List ℚ) : Prop where
  below : ∀ x ∈ xs, x < req.threshold
  fresh : ∀ ys, ys <+: xs → ¬ Stale req.patience ys

/-- Why a run stops. -/
def Stops (req : Request) (first : Rank) (entries : List (ℤ × Rank)) : Reason → Prop
  | .alreadyMemorized => entries = [] ∧ req.threshold ≤ first.fraction
  | .thresholdReached => ∃ before token rank, entries = before ++ [(token, rank)] ∧
      Going req (fractions first before) ∧ req.threshold ≤ rank.fraction
  | .plateau => ∃ before token rank, entries = before ++ [(token, rank)] ∧
      Going req (fractions first before) ∧ rank.fraction < req.threshold ∧
      Stale req.patience (fractions first entries)
  | .maxSteps => Going req (fractions first entries) ∧ entries.length = req.maxSteps.toNat

/-! ## Ranks of one response -/

theorem fraction_lt_iff {r r' : Rank} (h : r'.total = r.total) :
    r.fraction < r'.fraction ↔ r.matched < r'.matched := by
  have hle := r.matched_le
  have hle' := r'.matched_le
  unfold Rank.fraction
  rw [h]
  split
  · simp only [lt_irrefl, false_iff, not_lt]
    omega
  · rename_i htotal
    rw [div_lt_div_iff_of_pos_right (by exact_mod_cast Nat.pos_of_ne_zero htotal)]
    exact_mod_cast Iff.rfl

/-- A rank that is better is better by more than what `best_rank + 1e-6` asks for. -/
theorem fraction_gap {r r' : Rank} (h : r'.total = r.total) (htotal : r.total < 2048)
    (hlt : r.fraction < r'.fraction) : r.fraction + 1 / 10 ^ 6 < r'.fraction := by
  have hmatched : (r.matched : ℚ) + 1 ≤ r'.matched := by
    exact_mod_cast (fraction_lt_iff h).mp hlt
  unfold Rank.fraction at hlt ⊢
  rw [h] at hlt ⊢
  split
  · rename_i hzero
    simp [hzero] at hlt
  · rename_i hne
    have hpos : (0 : ℚ) < r.total := by exact_mod_cast Nat.pos_of_ne_zero hne
    have hsmall : (r.total : ℚ) < 2048 := by exact_mod_cast htotal
    rw [lt_div_iff₀ hpos, add_mul, div_mul_cancel₀ _ hpos.ne']
    linarith

/-- The number of matches that a fraction stands for. -/
def matchCount (total : ℕ) (x : ℚ) : ℕ := ⌊x * total⌋₊

theorem matchCount_lt {r r' : Rank} (h : r'.total = r.total) (hlt : r.fraction < r'.fraction) :
    matchCount r.total r.fraction < matchCount r.total r'.fraction := by
  have hmatched := (fraction_lt_iff h).mp hlt
  unfold Rank.fraction at hlt ⊢
  rw [h] at hlt ⊢
  split
  · rename_i hzero
    simp [hzero] at hlt
  · rename_i hne
    have hpos : (r.total : ℚ) ≠ 0 := by exact_mod_cast hne
    rwa [matchCount, matchCount, div_mul_cancel₀ _ hpos, div_mul_cancel₀ _ hpos, Nat.floor_natCast,
      Nat.floor_natCast]

/-! ## The loop -/

variable {w : World V σ} {req : Request} {first : Rank} {entries : List (ℤ × Rank)}
  {g : Progress} {s t : σ}

def Progress.tracker (g : Progress) : Tracker ℚ := ⟨g.bestRank, g.stepsSinceImprove⟩

/-- The variables of the loop after some steps, none of which was the last. -/
structure Inv (req : Request) (first : Rank) (entries : List (ℤ × Rank)) (g : Progress) : Prop where
  step : g.step = entries.length
  rank : g.rank = (entries.getLast?.map Prod.snd).getD first
  token : g.commitToken = entries.getLast?.map Prod.fst
  history : g.history = historyOf first entries
  totals : ∀ e ∈ entries, e.2.total = first.total
  tracks : Tracks g.tracker (fractions first entries)
  slow : Slow (matchCount first.total) first.fraction req.patience entries.length g.tracker
  going : Going req (fractions first entries)

theorem historyOf_snoc (first : Rank) (entries : List (ℤ × Rank)) (token : ℤ) (rank : Rank) :
    historyOf first (entries ++ [(token, rank)]) =
      historyOf first entries ++ [⟨entries.length + 1, rank, some token⟩] := by
  simp [historyOf, List.zipIdx_append]

theorem fractions_snoc (first : Rank) (entries : List (ℤ × Rank)) (token : ℤ) (rank : Rank) :
    fractions first (entries ++ [(token, rank)]) = fractions first entries ++ [rank.fraction] := by
  simp [fractions]

theorem exists_of_mem_fractions (htotals : ∀ e ∈ entries, e.2.total = first.total) {x : ℚ}
    (hx : x ∈ fractions first entries) : ∃ r : Rank, r.total = first.total ∧ r.fraction = x := by
  rcases List.mem_cons.mp hx with rfl | hx
  · exact ⟨first, rfl, rfl⟩
  · obtain ⟨e, he, rfl⟩ := List.mem_map.mp hx
    exact ⟨e.2, htotals e he, rfl⟩

/-- The best rank is one of those that the run has seen. -/
theorem Inv.exists_best (h : Inv req first entries g) :
    ∃ r : Rank, r.total = first.total ∧ r.fraction = g.bestRank := by
  have hbest : g.bestRank ∈ fractions first entries := by
    obtain ⟨before, recent, heq, -⟩ := h.tracks
    rw [heq]
    exact List.mem_append_right before List.mem_cons_self
  exact exists_of_mem_fractions h.totals hbest

/-- A rank is an improvement if it is better than all before it, and a better rank counts more
matches. -/
theorem Inv.improves (h : Inv req first entries g) (htotal : first.total < 2048) {rank : Rank}
    (hrank : rank.total = first.total) :
    (g.bestRank + 1 / 10 ^ 6 < rank.fraction ↔ g.bestRank < rank.fraction) ∧
      (g.bestRank < rank.fraction →
        matchCount first.total g.bestRank < matchCount first.total rank.fraction) := by
  obtain ⟨r, hr, hfraction⟩ := h.exists_best
  rw [← hfraction, ← hr]
  refine ⟨⟨fun hlt => ?_, fraction_gap (hrank.trans hr.symm) (hr ▸ htotal)⟩,
    matchCount_lt (hrank.trans hr.symm)⟩
  have hsmall : (0 : ℚ) < 1 / 10 ^ 6 := by norm_num
  linarith

/-- The tracker after one more step. -/
theorem Inv.see (h : Inv req first entries g) (htotal : first.total < 2048) {t : ℤ}
    {rank : Rank} (hrank : rank.total = first.total) :
    Tracks (g.tracker.see rank.fraction) (fractions first (entries ++ [(t, rank)])) ∧
      Slow (matchCount first.total) first.fraction req.patience (entries ++ [(t, rank)]).length
        (g.tracker.see rank.fraction) := by
  have hfresh := h.going.fresh _ (List.prefix_refl _)
  rw [Patience.stale_iff h.tracks, not_le] at hfresh
  constructor
  · rw [fractions_snoc]
    exact h.tracks.see _
  · rw [List.length_append]
    exact h.slow.see hfresh (h.improves htotal hrank).2

theorem Going.snoc {xs : List ℚ} (h : Going req xs) {x : ℚ} (hx : x < req.threshold)
    (hfresh : ¬ Stale req.patience (xs ++ [x])) : Going req (xs ++ [x]) where
  below y hy := by
    rcases List.mem_append.mp hy with hy | hy
    · exact h.below y hy
    · rwa [List.mem_singleton.mp hy]
  fresh ys hys := by
    rcases List.prefix_concat_iff.mp hys with rfl | hys
    · exact hfresh
    · exact h.fresh ys hys

/-- The step is recorded, and the loop goes on with the tracker `t'`. -/
theorem Inv.next (h : Inv req first entries g) {token : ℤ} {rank : Rank}
    (hrank : rank.total = first.total) (hbelow : rank.fraction < req.threshold)
    {best : ℚ} {since : ℕ}
    (htracks : Tracks ⟨best, since⟩ (fractions first (entries ++ [(token, rank)])))
    (hslow : Slow (matchCount first.total) first.fraction req.patience
      (entries ++ [(token, rank)]).length ⟨best, since⟩)
    (hsince : since < req.patience) :
    Inv req first (entries ++ [(token, rank)])
      { g.record token rank with bestRank := best, stepsSinceImprove := since } where
  step := by simp [Progress.record, h.step]
  rank := by simp [Progress.record]
  token := by simp [Progress.record]
  history := by
    rw [historyOf_snoc, ← h.history, ← h.step]
    rfl
  totals e he := by
    rcases List.mem_append.mp he with he | he
    · exact h.totals e he
    · rwa [List.mem_singleton.mp he]
  tracks := htracks
  slow := hslow
  going := by
    have hfresh : ¬ Stale req.patience (fractions first (entries ++ [(token, rank)])) := by
      rw [Patience.stale_iff htracks, not_le]
      exact hsince
    rw [fractions_snoc] at hfresh ⊢
    exact h.going.snoc hbelow hfresh

/-- What is known of a run that has returned. -/
structure Outcome (w : World V σ) (req : Request) (s : σ) (first : Rank)
    (entries : List (ℤ × Rank)) (t : σ) (sum : Summary) : Prop where
  trained : Trained w req s entries t
  stops : Stops req first entries sum.reason
  steps : sum.steps = if sum.reason = .maxSteps then req.maxSteps else entries.length
  finalRank : sum.finalRank = (entries.getLast?.map Prod.snd).getD first
  commitToken : sum.commitToken =
    if sum.reason = .alreadyMemorized then some (w.committed s) else entries.getLast?.map Prod.fst
  history : sum.history = historyOf first entries
  /-- Every match more than at first gives the loop the steps of one patience. -/
  bound : entries.length ≤ req.patience * (first.total - first.matched + 1)

theorem matchCount_fraction (r : Rank) : matchCount r.total r.fraction = r.matched := by
  have hle := r.matched_le
  unfold matchCount Rank.fraction
  split
  · rename_i hzero
    simp [hzero]
    omega
  · rename_i hne
    have hpos : (r.total : ℚ) ≠ 0 := by exact_mod_cast hne
    rw [div_mul_cancel₀ _ hpos, Nat.floor_natCast]

theorem Inv.bound (h : Inv req first entries g) :
    entries.length + 1 ≤ req.patience * (first.total - first.matched + 1) := by
  obtain ⟨r, hr, hfraction⟩ := h.exists_best
  have hcount : matchCount first.total g.bestRank = r.matched := by
    rw [← hfraction, ← hr, matchCount_fraction]
  have hfresh := h.going.fresh _ (List.prefix_refl _)
  rw [Patience.stale_iff h.tracks, not_le] at hfresh
  have hsteps := h.slow.steps
  change entries.length ≤
    req.patience * (matchCount first.total g.bestRank - matchCount first.total first.fraction) +
      g.stepsSinceImprove at hsteps
  rw [hcount, matchCount_fraction] at hsteps
  have hmul : req.patience * (r.matched - first.matched) ≤
      req.patience * (first.total - first.matched) :=
    Nat.mul_le_mul_left _ (by have := r.matched_le; omega)
  change g.stepsSinceImprove < req.patience at hfresh
  rw [Nat.mul_add_one]
  omega

/-- The run stops with the rank of the step that it has just recorded. -/
theorem Inv.outcome (h : Inv req first entries g) {token : ℤ} {rank : Rank} {reason : Reason}
    (htrained : Trained w req s (entries ++ [(token, rank)]) t)
    (hstops : Stops req first (entries ++ [(token, rank)]) reason)
    (hmax : reason ≠ .maxSteps) (hfirst : reason ≠ .alreadyMemorized) :
    Outcome w req s first (entries ++ [(token, rank)]) t
      ((g.record token rank).summary (g.record token rank).step reason) where
  trained := htrained
  stops := hstops
  steps := by simp [Progress.summary, Progress.record, h.step, hmax]
  finalRank := by simp [Progress.summary, Progress.record]
  commitToken := by simp [Progress.summary, Progress.record, hfirst]
  history := by
    rw [historyOf_snoc, ← h.history, ← h.step]
    rfl
  bound := by
    rw [List.length_append]
    exact h.bound

end Trainfer.Memorize
