import Trainfer.TrainTrace
import Trainfer.EngineInvariant
import Mathlib.Algebra.Module.Prod

/-! Learning rates. The optimizer of a slot keeps the rate it was made with, and the
`effective_lr` that objectives read is resolved apart from it. `lrAgrees_iff` says for
which configurations and specs the two agree. -/

namespace Trainfer

open Effect TrainEngine

variable {P E L G τ M : Type}

namespace EngineConfig

/-- The rate of an optimizer made for a slot of the map. -/
def keyLr (cfg : EngineConfig) (key : String) : ℚ :=
  if cfg.perObjective then cfg.lrFor key else cfg.lr

@[simp] theorem newOptimizer_lr (cfg : EngineConfig) (objective : String) (moments : M) :
    (cfg.newOptimizer objective moments).lr = cfg.keyLr (cfg.key objective) := by
  unfold newOptimizer keyLr key
  split
  · rfl
  · split <;> rfl

end EngineConfig

/-- Every cached optimizer has the rate of its slot. -/
def RatesKept (cfg : EngineConfig) (s : Engine P E L τ M) : Prop :=
  ∀ key opt, s.opts.lookup key = some opt → opt.lr = cfg.keyLr key

theorem RatesKept.insert {cfg : EngineConfig} {s : Engine P E L τ M} (hs : RatesKept cfg s)
    {key : String} {opt : Optimizer M} (hopt : opt.lr = cfg.keyLr key) :
    ∀ key' opt', (s.opts.insert key opt).lookup key' = some opt' →
      opt'.lr = cfg.keyLr key' := by
  intro key' opt' h
  by_cases hk : key' = key
  · subst hk
    rw [AList.lookup_insert] at h
    cases h
    exact hopt
  · rw [AList.lookup_insert_ne hk] at h
    exact hs key' opt' h

theorem RatesKept.slotOptimizer_lr {cfg : EngineConfig} {b : Backend P E L G τ M}
    {s : Engine P E L τ M} (hs : RatesKept cfg s) (objective : String) :
    (slotOptimizer cfg b objective s).lr = cfg.keyLr (cfg.key objective) := by
  unfold slotOptimizer
  cases h : s.opts.lookup (cfg.key objective) with
  | none => simp
  | some opt => exact hs _ opt h

/-! ## No step changes the rate of a slot -/

theorem ratesKept_invariant (cfg : EngineConfig) (b : Backend P E L G τ M) :
    EngineInvariant cfg b (RatesKept cfg)
      fun objective opt => opt.lr = cfg.keyLr (cfg.key objective) where
  record _ _ hs := hs
  ema _ _ hs := hs
  found _ objective opt hs h := hs (cfg.key objective) opt h
  made _ _ hs _ := ⟨by simp, hs.insert (by simp)⟩
  stepped _ _ _ _ _ hs hopt := RatesKept.insert hs hopt

section
variable {cfg : EngineConfig} {b : Backend P E L G τ M} [AddCommGroup L] [Module ℚ L]

theorem ratesKept_run {s : Engine P E L τ M} (hs : RatesKept cfg s) (task : EngineTask P) :
    RatesKept cfg (run cfg b s task) := by
  cases task with
  | step spec => exact ((ratesKept_invariant cfg b).keeps_step spec { s with events := [] } hs).1
  | resetOptimizer =>
    intro key opt h
    simp [run, resetOptimizer] at h
  | weights params => exact hs

theorem ratesKept_after (params : P) (history : List (EngineTask P)) :
    RatesKept cfg (after cfg b params history) := by
  unfold after
  suffices ∀ s : Engine P E L τ M, RatesKept cfg s →
      RatesKept cfg (history.foldl (run cfg b) s) by
    apply this
    intro key opt h
    simp at h
  induction history with
  | nil => exact fun s hs => hs
  | cons task history ih => exact fun s hs => ih _ (ratesKept_run hs task)

end

/-! ## The rate that objectives read -/

theorem lookup_filter_ne (d : JsonObject) {key key' : String} (hne : key ≠ key') :
    (d.filter fun e => e.1 != key').lookup key = d.lookup key := by
  induction d with
  | nil => rfl
  | cons e d ih =>
    obtain ⟨k, v⟩ := e
    by_cases hk : k = key'
    · subst hk
      have hkey : (key == k) = false := by simpa using hne
      rw [List.filter_cons_of_neg (by simp), ih, List.lookup_cons, hkey]
    · rw [List.filter_cons_of_pos (by simpa using hk), List.lookup_cons, List.lookup_cons, ih]

/-- Plumbing sets batch tensors and nothing else. -/
theorem get?_plumbTensors (result : Result L τ) (kwargs : Kwargs τ) {key : String}
    (hkey : key ∉ ["target_positions", "target_token_ids", "input_ids", "attention_mask"]) :
    (EngineConfig.plumbTensors result kwargs).get? key = kwargs.get? key := by
  unfold EngineConfig.plumbTensors
  generalize ["target_positions", "target_token_ids", "input_ids", "attention_mask"] = keys at hkey
  induction keys generalizing kwargs with
  | nil => rfl
  | cons k keys ih =>
    obtain ⟨hk, hkeys⟩ := List.ne_and_not_mem_of_not_mem_cons hkey
    rw [List.foldl_cons, ih _ hkeys]
    split
    · exact Kwargs.get?_setDefault_ne kwargs _ hk
    · rfl

/-- A primary reads the caller's `effective_lr`, or else the rate configured for its name. -/
theorem primaryKwargs_effectiveLr (cfg : EngineConfig) (spec : TrainSpec) (name : String)
    (kwargs : JsonObject) :
    (cfg.primaryKwargs spec name kwargs : Kwargs τ).get? "effective_lr" =
      some (.json ((kwargs.lookup "effective_lr").getD (.num (cfg.lrFor name)))) := by
  unfold EngineConfig.primaryKwargs
  rw [Kwargs.get?_setDefault_ne _ _ (by decide), Kwargs.get?_setDefault_self,
    get?_piRef _ _ (by decide), Kwargs.get?_ofJson]
  cases kwargs.lookup "effective_lr" <;> rfl

/-- `safety_monitor` reads its own `effective_lr`, or else the rate of the first primary's
name. -/
theorem batchKwargs_effectiveLr (cfg : EngineConfig) (primary : String) (first : Result L τ)
    (bo : JsonObject) :
    (cfg.batchKwargs primary first "safety_monitor" bo).get? "effective_lr" =
      some (.json ((bo.lookup "effective_lr").getD (.num (cfg.lrFor primary)))) := by
  unfold EngineConfig.batchKwargs
  rw [if_pos rfl, Kwargs.get?_setDefault_self, Kwargs.get?_setDefault_ne _ _ (by decide),
    get?_plumbTensors _ _ (by decide), get?_piRef _ _ (by decide), Kwargs.get?_ofJson,
    lookup_filter_ne _ (by decide)]
  cases bo.lookup "effective_lr" <;> rfl

/-! ## Agreement -/

/-- The arguments of the calls that are told the learning rate. -/
def EngineEvent.lrReader : EngineEvent L τ → Option (Kwargs τ)
  | .primary _ _ kwargs => some kwargs
  | .batch name _ kwargs => if name = "safety_monitor" then some kwargs else none
  | _ => none

/-- Every call of the step that is told a rate is told that of the optimizer stepped. -/
def LrAgrees (events : List (EngineEvent L τ)) : Prop :=
  ∀ key lr, .step key lr ∈ events → ∀ event ∈ events, ∀ kwargs,
    event.lrReader = some kwargs → kwargs.get? "effective_lr" = some (.json (.num lr))

/-- A rate that the caller sends is `rate`, and without one the rate configured for `name` is. -/
def EngineConfig.Matches (cfg : EngineConfig) (rate : ℚ) (name : String) : Option Value → Prop
  | some sent => sent = .num rate
  | none => cfg.lrFor name = rate

/-- One rate for the whole step: that of the objective's own optimizer, where it has one,
and `lr` otherwise. A spec with several objectives uses the slot with the empty name. -/
def RatesMatch (cfg : EngineConfig) (spec : TrainSpec) : Prop :=
  let rate := if cfg.perObjective then cfg.lrFor spec.slot else cfg.lr
  (∀ p ∈ spec.primaryList, cfg.Matches rate p.name (p.kwargs.lookup "effective_lr")) ∧
    ∀ bo ∈ spec.batchList, batchName bo = "safety_monitor" →
      cfg.Matches rate spec.monitored (bo.lookup "effective_lr")

theorem matches_iff (cfg : EngineConfig) (rate : ℚ) (name : String) (sent : Option Value) :
    (some (.json (sent.getD (.num (cfg.lrFor name)))) : Option (Arg τ)) =
      some (.json (.num rate)) ↔ cfg.Matches rate name sent := by
  cases sent <;> simp [EngineConfig.Matches]

theorem slot_keyLr (cfg : EngineConfig) (spec : TrainSpec) :
    cfg.keyLr (cfg.key spec.slot) =
      if cfg.perObjective then cfg.lrFor spec.slot else cfg.lr := by
  unfold EngineConfig.keyLr EngineConfig.key
  split <;> rfl

/-- Agreement, over the events of a step that reached the optimizer. -/
theorem lrAgrees_events_iff (cfg : EngineConfig) (spec : TrainSpec) (first : Result L τ)
    (loss : L) (key : String) (rate : ℚ) :
    LrAgrees (spec.primaryList.map (primaryEvent cfg spec) ++
        spec.batchList.map (batchEvent cfg spec first) ++ [.backward loss, .step key rate]) ↔
      (∀ p ∈ spec.primaryList, cfg.Matches rate p.name (p.kwargs.lookup "effective_lr")) ∧
        ∀ bo ∈ spec.batchList, batchName bo = "safety_monitor" →
          cfg.Matches rate spec.monitored (bo.lookup "effective_lr") := by
  constructor
  · intro h
    refine ⟨fun p hp => ?_, fun bo hbo hname => ?_⟩
    · have hread := h key rate (by simp) (primaryEvent cfg spec p)
        (by simp only [List.mem_append, List.mem_map]; exact .inl (.inl ⟨p, hp, rfl⟩)) _ rfl
      rw [primaryKwargs_effectiveLr] at hread
      exact (matches_iff cfg rate p.name _).mp hread
    · have hread := h key rate (by simp) (batchEvent cfg spec first bo)
        (by simp only [List.mem_append, List.mem_map]; exact .inl (.inr ⟨bo, hbo, rfl⟩)) _
        (by simp [batchEvent, EngineEvent.lrReader, hname]; rfl)
      rw [batchKwargs_effectiveLr] at hread
      exact (matches_iff cfg rate spec.monitored _).mp hread
  · rintro ⟨hprimary, hbatch⟩ key' lr hstep event hevent kwargs hreads
    have hlr : lr = rate := by
      simp only [List.mem_append, List.mem_map, List.mem_cons, primaryEvent, batchEvent] at hstep
      have hlast : key' = key ∧ lr = rate := by simpa using hstep
      exact hlast.2
    subst hlr
    simp only [List.mem_append, List.mem_map, List.mem_cons, List.not_mem_nil, or_false] at hevent
    rcases hevent with (⟨p, hp, rfl⟩ | ⟨bo, hbo, rfl⟩) | rfl | rfl
    · cases hreads
      rw [primaryKwargs_effectiveLr]
      exact (matches_iff cfg lr p.name _).mpr (hprimary p hp)
    · by_cases hname : batchName bo = "safety_monitor"
      · simp only [batchEvent, EngineEvent.lrReader, hname, ↓reduceIte, Option.some.injEq] at hreads
        rw [← hreads, batchKwargs_effectiveLr]
        exact (matches_iff cfg lr spec.monitored _).mpr (hbatch bo hbo hname)
      · simp [batchEvent, EngineEvent.lrReader, hname] at hreads
    · cases hreads
    · cases hreads

variable [AddCommGroup L] [Module ℚ L]

/-- **Learning rates agree** in a step that reaches the optimizer exactly when the caller's
and the configured rates are the one rate of the step's slot. -/
theorem lrAgrees_iff {cfg : EngineConfig} {b : Backend P E L G τ M} {params : P}
    {history : List (EngineTask P)} {spec : TrainSpec} {out : StepOutcome L}
    {t : Engine P E L τ M}
    (h : trainStep cfg b spec (after cfg b params history) = (.ok out, t))
    (hout : out.skipped = false) : LrAgrees t.events ↔ RatesMatch cfg spec := by
  obtain ⟨_, first, loss, hevents⟩ := step_trained h hout
  have hrates :
      RatesKept cfg ({ after cfg b params history with events := [] } : Engine P E L τ M) :=
    ratesKept_after (b := b) params history
  rw [hevents, List.nil_append, hrates.slotOptimizer_lr, slot_keyLr]
  exact lrAgrees_events_iff cfg spec first loss _ _

/-- The spec of `iterate_memorize`; `lr` is the client's, if it sent one. -/
def memorizeSpec (prompt response : String) (weight : ℚ) (lr : Option ℚ) : TrainSpec where
  objective := .val "weighted_sft"
  samples := .val [[("prompt", .str prompt), ("response", .str response), ("weight", .num weight)]]
  chunkSize := .val 1
  kwargs := match lr with
    | some lr => .val [("effective_lr", .num lr)]
    | none => .missing

/-- A client's rate is right only when it is the one configured. -/
theorem ratesMatch_memorizeSpec (cfg : EngineConfig) (prompt response : String)
    (weight lr : ℚ) :
    RatesMatch cfg (memorizeSpec prompt response weight (some lr)) ↔
      lr = if cfg.perObjective then cfg.lrFor "weighted_sft" else cfg.lr := by
  simp [RatesMatch, memorizeSpec, TrainSpec.primaryList, TrainSpec.entries?, TrainSpec.hasObjs,
    TrainSpec.defaultKwargs, TrainSpec.batchList, TrainSpec.slot, Field.get?, Field.getD,
    EngineConfig.Matches]

/-- Two objectives under `safety_monitor`. -/
def monitoredSpec : TrainSpec where
  objectives := .val
    [{ name := .val "weighted_sft", weight := .val (1 / 10) }, { name := .val "unlike" }]
  samples := .val [[("prefix", .str "a"), ("bad_token_id", .num 7), ("good_token_id", .num 8)]]
  batchObjectives := .val [[("name", .str "safety_monitor")]]

/-- A step with one objective, a reset, and weights put in place by another task. -/
def monitoredHistory : List (EngineTask ℚ) :=
  [.step (memorizeSpec "p" "r" 1 none), .resetOptimizer, .weights 2]

theorem monitored_agrees :
    LrAgrees (trainStep {} scalarBackend monitoredSpec
        (after {} scalarBackend 3 monitoredHistory)).2.events ↔ RatesMatch {} monitoredSpec :=
  @lrAgrees_iff _ _ _ _ _ _ _ _ {} scalarBackend 3 monitoredHistory monitoredSpec
    ⟨some _, false⟩ _ rfl rfl

/-- `per_objective_lr={"unlike": 5e-5}` with one shared optimizer at `lr=1e-5`. -/
def unlikeFloor : EngineConfig := { perObjectiveLr := AList.insert "unlike" (5 / 100000) ∅ }

def unlikeSpec : TrainSpec where
  objective := .val "unlike"
  samples := .val [[("prefix", .str "a"), ("bad_token_id", .num 7), ("good_token_id", .num 8)]]

/-- `unlike` is told 5e-5 and the parameters are stepped with 1e-5. -/
theorem unlike_told_other_rate :
    ¬ ∀ (cfg : EngineConfig) (b : Backend ℚ Unit (ℚ × ℚ) ℚ Unit Unit) (params : ℚ)
      (history : List (EngineTask ℚ)) (spec : TrainSpec) (out : StepOutcome (ℚ × ℚ))
      (t : Engine ℚ Unit (ℚ × ℚ) Unit Unit),
      trainStep cfg b spec (after cfg b params history) = (.ok out, t) →
        out.skipped = false → LrAgrees t.events := by
  intro h
  have hagree := h unlikeFloor scalarBackend 3 [] unlikeSpec ⟨some _, false⟩ _ rfl rfl
  have htold := hagree "" (1 / 100000) (.tail _ (.tail _ (.head _))) _ (.head _) _ rfl
  have hrate : (5 / 100000 : ℚ) = 1 / 100000 := by
    injection htold with harg
    injection harg with hvalue
    injection hvalue
  exact absurd hrate (by decide +kernel)

end Trainfer
