import Trainfer.Kto
import Mathlib.Algebra.Module.Prod
import Mathlib.Algebra.Module.Rat

/-! What a train step that raises leaves behind.

The parameters and the optimizers are as they were. The drift average is not: every call of
`kto_loss` that measured its batch has moved it, also where a later objective or the backward
pass then raised. Apart from that a failed attempt cannot be told from one never made. -/

namespace Trainfer

open Effect

variable {P E L G τ M : Type}

namespace TrainEngine

variable {cfg : EngineConfig} {b : Backend P E L G τ M} {s t : Engine P E L τ M}

/-! ## Engines that a step cannot tell apart -/

/-- The two engines agree on everything that a step reads; an optimizer that one of them has
still to make may be cached in the other. -/
structure Alike (cfg : EngineConfig) (b : Backend P E L G τ M) (s t : Engine P E L τ M) :
    Prop where
  params : t.params = s.params
  ema : t.ema = s.ema
  events : t.events = s.events
  slots : ∀ objective, slotOptimizer cfg b objective t = slotOptimizer cfg b objective s

/-- A slot names the rate of its optimizer. -/
theorem newOptimizer_congr {objective objective' : String}
    (h : cfg.key objective = cfg.key objective') (moments : M) :
    cfg.newOptimizer objective moments = cfg.newOptimizer objective' moments := by
  unfold EngineConfig.key at h
  unfold EngineConfig.newOptimizer
  cases hp : cfg.perObjective with
  | false => simp
  | true =>
    simp only [hp, if_true] at h
    rw [h]

variable (cfg b) in
/-- Making an optimizer is not seen by a later step. -/
theorem slotOptimizer_withSlot (objective objective' : String) (s : Engine P E L τ M) :
    slotOptimizer cfg b objective' { s with opts := withSlot cfg b objective s } =
      slotOptimizer cfg b objective' s := by
  unfold slotOptimizer withSlot
  by_cases hcached : (s.opts.lookup (cfg.key objective)).isSome
  · rw [if_pos hcached]
  · rw [if_neg hcached]
    by_cases hkey : cfg.key objective' = cfg.key objective
    · have hnone : s.opts.lookup (cfg.key objective) = none := by simpa using hcached
      rw [hkey, AList.lookup_insert, hnone, Option.getD_some, Option.getD_none,
        newOptimizer_congr hkey]
    · simp only [AList.lookup_insert_ne hkey]

variable (cfg b) in
theorem slotOptimizer_insert (objective objective' : String) (s : Engine P E L τ M)
    (opt : Optimizer M) :
    slotOptimizer cfg b objective' { s with opts := s.opts.insert (cfg.key objective) opt } =
      if cfg.key objective' = cfg.key objective then opt
      else slotOptimizer cfg b objective' s := by
  unfold slotOptimizer
  by_cases hkey : cfg.key objective' = cfg.key objective
  · rw [hkey, AList.lookup_insert, Option.getD_some, if_pos rfl]
  · simp only [AList.lookup_insert_ne hkey, if_neg hkey]

theorem alike_unstepped (objective : String) (loss : L) (h : Alike cfg b s t) :
    Alike cfg b (unstepped cfg b objective loss s) (unstepped cfg b objective loss t) where
  params := h.params
  ema := h.ema
  events := by simp [unstepped, h.events]
  slots objective' := (slotOptimizer_withSlot cfg b objective objective' t).trans
    ((h.slots objective').trans (slotOptimizer_withSlot cfg b objective objective' s).symm)

theorem alike_stepped (objective : String) (loss : L) (params : P) (moments : M)
    (h : Alike cfg b s t) :
    Alike cfg b (stepped cfg b objective loss s params moments)
      (stepped cfg b objective loss t params moments) where
  params := rfl
  ema := h.ema
  events := by simp [stepped, h.events, h.slots objective]
  slots objective' := by
    have ht := slotOptimizer_insert cfg b objective objective' t
      { slotOptimizer cfg b objective t with moments }
    have hs := slotOptimizer_insert cfg b objective objective' s
      { slotOptimizer cfg b objective s with moments }
    refine ht.trans (Eq.trans ?_ hs.symm)
    rw [h.slots objective, h.slots objective']

theorem alike_optimize (objective : String) (loss : L) (h : Alike cfg b s t) :
    (exec (optimize cfg b objective loss) t).1 = (exec (optimize cfg b objective loss) s).1 ∧
      Alike cfg b (exec (optimize cfg b objective loss) s).2
        (exec (optimize cfg b objective loss) t).2 := by
  have hupdate : ∀ grad, updateOf cfg b objective t grad = updateOf cfg b objective s grad := by
    intro grad
    unfold updateOf
    rw [h.slots objective, h.params]
  rw [exec_optimize, exec_optimize, h.params]
  cases b.backward s.params loss with
  | error e => exact ⟨rfl, alike_unstepped objective loss h⟩
  | ok grad =>
    simp only [hupdate]
    cases updateOf cfg b objective s grad with
    | error e => exact ⟨rfl, alike_unstepped objective loss h⟩
    | ok new => exact ⟨rfl, alike_stepped objective loss new.1 new.2 h⟩

/-- Optimizers are only added, and a new one starts afresh. -/
theorem lookup_withSlot {objective key : String} {s : Engine P E L τ M} {opt : Optimizer M} :
    (s.opts.lookup key = some opt → (withSlot cfg b objective s).lookup key = some opt) ∧
      ((withSlot cfg b objective s).lookup key = some opt → s.opts.lookup key = none →
        opt = cfg.newOptimizer objective b.moments) := by
  unfold withSlot
  by_cases hcached : (s.opts.lookup (cfg.key objective)).isSome
  · rw [if_pos hcached]
    refine ⟨id, fun h hnone => ?_⟩
    rw [hnone] at h
    cases h
  · rw [if_neg hcached]
    by_cases hkey : key = cfg.key objective
    · rw [hkey, AList.lookup_insert]
      refine ⟨fun h => ?_, fun h _ => (Option.some.inj h).symm⟩
      rw [h] at hcached
      exact absurd rfl hcached
    · rw [AList.lookup_insert_ne hkey]
      refine ⟨id, fun h hnone => ?_⟩
      rw [hnone] at h
      cases h

variable [AddCommGroup L] [Module ℚ L]

/-- A step does the same on both. -/
theorem alike_step (spec : TrainSpec) (h : Alike cfg b s t) :
    (exec (step cfg b spec) t).1 = (exec (step cfg b spec) s).1 ∧
      Alike cfg b (exec (step cfg b spec) s).2 (exec (step cfg b spec) t).2 := by
  obtain ⟨y, ⟨g, -, hy⟩, hstep⟩ := step_ends cfg b spec
  rw [hstep s, hstep t, exec_bind, exec_bind, hy s, hy t, h.params, h.ema, h.events]
  have hcalled : Alike cfg b
      { s with ema := (g s.params s.ema).2.1, events := s.events ++ (g s.params s.ema).2.2 }
      { t with
        params := s.params, ema := (g s.params s.ema).2.1
        events := s.events ++ (g s.params s.ema).2.2 } := ⟨rfl, rfl, rfl, h.slots⟩
  rcases (g s.params s.ema).1 with err | _ | ⟨objective, loss⟩
  · exact ⟨rfl, hcalled⟩
  · exact ⟨rfl, hcalled⟩
  · exact alike_optimize objective loss hcalled

/-! ## A step that raises -/

/-- A step that raises has called objectives, and made an optimizer at most. -/
theorem step_error {spec : TrainSpec} {e : PyError}
    (h : exec (step cfg b spec) s = (.error e, t)) :
    t.params = s.params ∧
      (t.opts = s.opts ∨ ∃ objective, t.opts = withSlot cfg b objective s) ∧
      ∃ events, t.events = s.events ++ events ∧ t.ema = events.foldl (drift b s.params) s.ema := by
  obtain ⟨y, ⟨g, hg, hy⟩, hstep⟩ := step_ends cfg b spec
  rw [hstep s, exec_bind, hy s] at h
  rcases hout : (g s.params s.ema).1 with err | _ | ⟨objective, loss⟩
  · rw [hout] at h
    cases h
    exact ⟨rfl, .inl rfl, _, rfl, hg _ _⟩
  · rw [hout] at h
    cases h
  · rw [hout] at h
    have hraised : t = unstepped cfg b objective loss { s with
        ema := (g s.params s.ema).2.1, events := s.events ++ (g s.params s.ema).2.2 } := by
      simp only [finish, exec_optimize] at h
      split at h
      · cases h
        rfl
      · split at h
        · cases h
          rfl
        · cases h
    subst hraised
    refine ⟨rfl, .inr ⟨objective, rfl⟩, (g s.params s.ema).2.2 ++ [.backward loss], ?_, ?_⟩
    · simp [unstepped]
    · rw [List.foldl_append, ← hg s.params s.ema]
      rfl

/-- **A failed step.** Parameters and optimizers are what they were, at most a fresh optimizer
is new; the drift average is what the calls of `kto_loss` made of it; and a retry, of this
spec or of any other, does what it would do on an engine with this average that the attempt
never touched. -/
theorem failed_step {k : KtoModel P L τ} {rest : Backend P Unit L G τ M} {spec : TrainSpec}
    {s t : Engine P Ema L τ M} {e : PyError}
    (h : trainStep cfg (withKto k rest) spec s = (.error e, t)) :
    t.params = s.params ∧
    (∀ key opt, s.opts.lookup key = some opt → t.opts.lookup key = some opt) ∧
    (∀ key opt, t.opts.lookup key = some opt → s.opts.lookup key = none →
      opt.moments = rest.moments) ∧
    t.ema = t.events.foldl (drift (withKto k rest) s.params) s.ema ∧
    ((∀ event ∈ t.events, ∀ c, event.call? = some c → c.fn ≠ "kto_loss") → t.ema = s.ema) ∧
    ∀ spec', (trainStep cfg (withKto k rest) spec' t).1 =
        (trainStep cfg (withKto k rest) spec' { s with ema := t.ema }).1 ∧
      Alike cfg (withKto k rest) (trainStep cfg (withKto k rest) spec' { s with ema := t.ema }).2
        (trainStep cfg (withKto k rest) spec' t).2 := by
  obtain ⟨hparams, hopts, events, hevents, hema⟩ := step_error h
  simp only [List.nil_append] at hevents hparams hema hopts
  subst hevents
  refine ⟨hparams, fun key opt hopt => ?_, fun key opt hopt hnone => ?_, hema, fun hno => ?_,
    fun spec' => alike_step spec' ⟨hparams, rfl, rfl, fun objective' => ?_⟩⟩
  · rcases hopts with hopts | ⟨objective, hopts⟩
    · rw [hopts]
      exact hopt
    · rw [hopts]
      exact lookup_withSlot.1 hopt
  · rcases hopts with hopts | ⟨objective, hopts⟩
    · rw [hopts, hnone] at hopt
      cases hopt
    · rw [hopts] at hopt
      rw [lookup_withSlot.2 hopt hnone]
      exact newOptimizer_moments ..
  · rw [hema]
    exact foldl_drift_withKto hno s.ema
  · rcases hopts with hopts | ⟨objective, hopts⟩
    · unfold slotOptimizer
      simp only [hopts]
    · have hslot := slotOptimizer_withSlot cfg (withKto k rest) objective objective'
        { s with events := [] }
      unfold slotOptimizer at hslot ⊢
      simp only [hopts]
      exact hslot

end TrainEngine

/-! ## One thumbs-up under `safety_monitor` -/

open TrainEngine

/-- One trainable number, which is also the log-ratio of every sample. -/
def scalarKto : KtoModel ℚ (ℚ × ℚ) Unit where
  parseFloat _ := none
  logratio p samples _ := .ok (samples.map fun _ => p)
  loss p _ _ z0 := .ok ⟨some (1 - (p - z0), -1), []⟩

/-- `kto` exposes no target positions, which `safety_monitor` requires. -/
def thumbsUpSpec : TrainSpec where
  objective := .val "kto"
  samples := .val [[("prompt", .str "p"), ("response", .str "r"), ("label", .str "desirable")]]
  batchObjectives := .val [[("name", .str "safety_monitor")]]

def freshEngine : Engine ℚ Ema (ℚ × ℚ) Unit Unit := { params := 3, ema := fun _ => none }

theorem thumbsUp_fails : ∃ e t,
    trainStep {} (withKto scalarKto scalarBackend) thumbsUpSpec freshEngine = (.error e, t) ∧
      t.ema (1 / 10) = some 3 := by
  refine ⟨_, _, rfl, ?_⟩
  decide +kernel

/-- The monitor raises after `kto` has written the average. -/
theorem thumbsUp_moves_average :
    ¬ ∀ (cfg : EngineConfig) (k : KtoModel ℚ (ℚ × ℚ) Unit)
      (rest : Backend ℚ Unit (ℚ × ℚ) ℚ Unit Unit) (spec : TrainSpec)
      (s t : Engine ℚ Ema (ℚ × ℚ) Unit Unit) (e : PyError),
      trainStep cfg (withKto k rest) spec s = (.error e, t) → t.ema = s.ema := by
  intro h
  obtain ⟨e, t, hstep, hema⟩ := thumbsUp_fails
  rw [h _ _ _ _ _ _ _ hstep] at hema
  cases hema

theorem thumbsUp_keeps_rest : ∃ e t,
    trainStep {} (withKto scalarKto scalarBackend) thumbsUpSpec freshEngine = (.error e, t) ∧
      t.params = freshEngine.params ∧
      t.ema = t.events.foldl (drift (withKto scalarKto scalarBackend) 3) freshEngine.ema := by
  obtain ⟨e, t, hstep, -⟩ := thumbsUp_fails
  have hkept := failed_step hstep
  exact ⟨e, t, hstep, hkept.1, hkept.2.2.2.1⟩

end Trainfer
