import Trainfer.StepCases
import Trainfer.LearningRate
import Mathlib.Data.List.ReduceOption
import Mathlib.Algebra.BigOperators.Group.List.Basic

/-! The combined-loss step: one backward pass over the weighted sum of all losses.

A spec says which calls a step makes, `entryCall` for each of its objectives and `batchCall` for
each batch objective. `combined_step` says what `_step_multi` makes of the results: the loss is
the sum of what the objectives contributed, and it is stepped on once, or the step is skipped. -/

namespace Trainfer

open Effect

variable {P E L G τ M : Type}

namespace ObjectiveSpec

/-- `float(entry.get("weight", 1.0))`, where the weight is not `None`. -/
def weightValue (entry : ObjectiveSpec) : ℚ := (entry.weight.getD 1).getD 1

theorem entryWeight_eq {entry : ObjectiveSpec} (hweight : entry.weight ≠ .null) :
    entryWeight entry = .ok entry.weightValue := by
  unfold entryWeight weightValue
  cases hq : entry.weight with
  | null => exact absurd hq hweight
  | missing => rfl
  | val q => rfl

end ObjectiveSpec

namespace TrainSpec

/-- A spec with several objectives, as the daemon's schema lets it through: only the samples and
the arguments of an entry may be null. -/
structure Combined (spec : TrainSpec) (primaries : List ObjectiveSpec) : Prop where
  entries : spec.entries? = some primaries
  named : ∀ entry ∈ primaries, ∃ name fn, entry.name = .val name ∧
    OBJECTIVES.lookup name = some fn
  weighted : ∀ entry ∈ primaries, entry.weight ≠ .null
  samples : spec.samples ≠ .null
  kwargs : spec.kwargs ≠ .null
  batch : ∀ bo ∈ spec.batchList, ∃ name fn, bo.lookup "name" = some (.str name) ∧
    OBJECTIVES.lookup name = some fn

namespace Combined

variable {spec : TrainSpec} {primaries : List ObjectiveSpec}

theorem notNone_kwargs (h : spec.Combined primaries) :
    notNone (spec.kwargs.getD []) = .ok spec.defaultKwargs := by
  unfold defaultKwargs
  cases hk : spec.kwargs with
  | null => exact absurd hk h.kwargs
  | missing => rfl
  | val kwargs => rfl

theorem notNone_samples (h : spec.Combined primaries) :
    notNone (spec.samples.getD []) = .ok ((spec.samples.getD []).getD []) := by
  cases hk : spec.samples with
  | null => exact absurd hk h.samples
  | missing => rfl
  | val samples => rfl

theorem batchSamples_eq (h : spec.Combined primaries) : spec.batchSamples =
    some (TrainEngine.boSamples primaries ((spec.samples.getD []).getD [])) := by
  simp [batchSamples, h.entries]

theorem monitored_eq (h : spec.Combined primaries) :
    spec.monitored = TrainEngine.firstName primaries := by
  simp [monitored, h.entries]

end Combined

end TrainSpec

namespace EngineConfig

/-- What the engine passes to a primary unless the caller does. -/
def plumbed (cfg : EngineConfig) (spec : TrainSpec) (name key : String) : Option (Arg τ) :=
  if key = "pi_ref" then (if cfg.frozenRef then some .piRef else none)
  else if key = "effective_lr" then some (.json (.num (cfg.lrFor name)))
  else if key = "batch_objectives" then some (.json (.list (spec.batchList.map .dict)))
  else none

theorem get?_setDefault (kwargs : Kwargs τ) (key key' : String) (arg : Arg τ) :
    (kwargs.setDefault key' arg).get? key =
      (kwargs.get? key).or (if key = key' then some arg else none) := by
  by_cases h : key = key'
  · subst h
    rw [Kwargs.get?_setDefault_self, if_pos rfl]
    cases kwargs.get? key with
    | none => rfl
    | some a => rfl
  · rw [Kwargs.get?_setDefault_ne _ _ h, if_neg h, Option.or_none]

/-- The caller's arguments come first. -/
theorem get?_primaryKwargs (cfg : EngineConfig) (spec : TrainSpec) (name : String)
    (kwargs : JsonObject) (key : String) :
    (cfg.primaryKwargs spec name kwargs : Kwargs τ).get? key =
      ((kwargs.lookup key).map .json).or (cfg.plumbed spec name key) := by
  have href : (if cfg.frozenRef then (Kwargs.ofJson kwargs : Kwargs τ).setDefault "pi_ref" .piRef
      else Kwargs.ofJson kwargs).get? key = ((kwargs.lookup key).map .json).or
        (if key = "pi_ref" then (if cfg.frozenRef then some .piRef else none) else none) := by
    cases cfg.frozenRef with
    | false => simp [Kwargs.get?_ofJson]
    | true => simp [get?_setDefault, Kwargs.get?_ofJson]
  unfold primaryKwargs plumbed
  rw [get?_setDefault, get?_setDefault, href]
  by_cases h₁ : key = "pi_ref"
  · subst h₁
    simp
  · by_cases h₂ : key = "effective_lr"
    · subst h₂
      simp
    · simp [h₁, h₂]

end EngineConfig

namespace TrainEngine

/-! ## The calls of a spec -/

def entryCall (cfg : EngineConfig) (spec : TrainSpec) (entry : ObjectiveSpec) : LossCall τ :=
  let name := entry.name.get?.getD ""
  ⟨(OBJECTIVES.lookup name).getD "", entry.samples.get?.or (spec.samples.getD []),
    cfg.primaryKwargs spec name (entry.kwargs.get?.getD spec.defaultKwargs)⟩

def batchCall (cfg : EngineConfig) (spec : TrainSpec) (first : Result L τ) (bo : JsonObject) :
    LossCall τ :=
  ⟨(OBJECTIVES.lookup (batchName bo)).getD "", spec.batchSamples,
    cfg.batchKwargs spec.monitored first (batchName bo) bo⟩

def entryEvent (cfg : EngineConfig) (spec : TrainSpec) (entry : ObjectiveSpec) :
    EngineEvent L τ :=
  primaryEvent cfg spec (entry.resolve (spec.samples.getD []) spec.defaultKwargs)

/-- Calls in turn. -/
def evalCalls (b : Backend P E L G τ M) (p : P) :
    List (LossCall τ) → E → Except PyError (List (Result L τ)) × E
  | [], e => (.ok [], e)
  | c :: cs, e =>
    match evalCall b p c e with
    | (.error err, e) => (.error err, e)
    | (.ok r, e) =>
      match evalCalls b p cs e with
      | (.error err, e) => (.error err, e)
      | (.ok rs, e) => (.ok (r :: rs), e)

theorem evalCalls_cons_ok {b : Backend P E L G τ M} {p : P} {c : LossCall τ}
    {cs : List (LossCall τ)} {e e' : E} {rs : List (Result L τ)}
    (h : evalCalls b p (c :: cs) e = (.ok rs, e')) :
    ∃ r rs' e₁, evalCall b p c e = (.ok r, e₁) ∧ evalCalls b p cs e₁ = (.ok rs', e') ∧
      rs = r :: rs' := by
  rw [evalCalls] at h
  rcases hc : evalCall b p c e with ⟨err | r, e₁⟩
  · simp only [hc] at h
    cases h
  · simp only [hc] at h
    rcases hcs : evalCalls b p cs e₁ with ⟨err | rs', e₂⟩
    · simp only [hcs] at h
      cases h
    · simp only [hcs] at h
      cases h
      exact ⟨r, rs', e₁, rfl, hcs, rfl⟩

variable {cfg : EngineConfig} {b : Backend P E L G τ M} {spec : TrainSpec}

theorem callPrimary_returns {name fn : String} (hname : OBJECTIVES.lookup name = some fn)
    {samples : Option (List Sample)} {kwargs : JsonObject} {s : Engine P E L τ M}
    {r : Result L τ} {e : E} (h : evalCall b s.params
      ⟨fn, samples, cfg.primaryKwargs spec name kwargs⟩ s.ema = (.ok r, e)) :
    exec (callPrimary cfg b spec (.str name) samples kwargs) s =
      (.ok (name, r), { s with
        ema := e
        events := s.events ++ [.primary name samples (cfg.primaryKwargs spec name kwargs)] }) := by
  have hobj : getObjective (.str name) = .ok (name, fn) := by
    simp only [getObjective, hname]
    rfl
  unfold callPrimary
  rw [hobj, exec_ofExcept_bind]
  simp only [exec_record_bind]
  rw [exec_bind, exec_callLoss, h]
  rfl

theorem callBatch_returns {name fn : String} {bo : JsonObject}
    (hbo : bo.lookup "name" = some (.str name)) (hname : OBJECTIVES.lookup name = some fn)
    {primary : String} {first : Result L τ} {samples : Option (List Sample)}
    {s : Engine P E L τ M} {r : Result L τ} {e : E} (h : evalCall b s.params
      ⟨fn, samples, cfg.batchKwargs primary first name bo⟩ s.ema = (.ok r, e)) :
    exec (callBatch cfg b primary first samples bo) s =
      (.ok r.loss, { s with
        ema := e
        events := s.events ++ [.batch name samples (cfg.batchKwargs primary first name bo)] }) := by
  have hobj : batchObjective bo = .ok (name, fn) := by
    simp only [batchObjective, hbo, getObjective, hname]
    rfl
  unfold callBatch
  rw [hobj, exec_ofExcept_bind]
  simp only [exec_record_bind]
  rw [exec_bind, exec_callLoss, h]
  rfl

/-! ## The sum so far -/

variable [AddCommGroup L]

/-- The loop variables after the losses `losses`, with `none` where an objective skipped. -/
def accumulated (first : Option (Result L τ)) (losses : List (Option L)) : MultiState L τ where
  total := if losses.reduceOption = [] then none else some losses.reduceOption.sum
  first := first
  skippedAll := losses.reduceOption.isEmpty

theorem accumulated_nil : accumulated none [] = ({} : MultiState L τ) := by
  simp [accumulated]

theorem accumulated_skip (first : Option (Result L τ)) (losses : List (Option L)) :
    accumulated first (losses ++ [none]) = accumulated first losses := by
  simp [accumulated, List.reduceOption_append]

theorem accumulated_add (first : Option (Result L τ)) (losses : List (Option L)) (loss : L) :
    accumulated first (losses ++ [some loss]) =
      ⟨some ((accumulated first losses).total.getD 0 + loss), first, false⟩ := by
  by_cases h : losses.reduceOption = []
  · simp [accumulated, List.reduceOption_append, h]
  · simp [accumulated, List.reduceOption_append, h]

/-- One round of the loop over the batch objectives. -/
def addBatch (acc : MultiState L τ) (boLoss : Option L) : MultiState L τ :=
  { acc with total := addLoss acc.total boLoss, skippedAll := acc.skippedAll && boLoss.isNone }

theorem addBatch_accumulated (first : Option (Result L τ)) (losses : List (Option L))
    (boLoss : Option L) :
    addBatch (accumulated first losses) boLoss = accumulated first (losses ++ [boLoss]) := by
  cases boLoss with
  | none =>
    rw [accumulated_skip]
    simp [addBatch, addLoss]
  | some loss =>
    rw [accumulated_add]
    simp [addBatch, addLoss, accumulated]

/-! ## The loops -/

theorem batchLoop_returns {bos : List JsonObject} {first : Result L τ}
    (hnamed : ∀ bo ∈ bos, ∃ name fn, bo.lookup "name" = some (.str name) ∧
      OBJECTIVES.lookup name = some fn)
    (first? : Option (Result L τ)) (losses : List (Option L)) {s : Engine P E L τ M}
    {rs : List (Result L τ)} {e : E}
    (h : evalCalls b s.params (bos.map (batchCall cfg spec first)) s.ema = (.ok rs, e)) :
    exec (bos.foldlM (fun acc bo => do
        let boLoss ← callBatch cfg b spec.monitored first spec.batchSamples bo
        return addBatch acc boLoss) (accumulated first? losses)) s =
      (.ok (accumulated first? (losses ++ rs.map Result.loss)),
        { s with ema := e, events := s.events ++ bos.map (batchEvent cfg spec first) }) := by
  induction bos generalizing losses s rs with
  | nil =>
    cases h
    simp
  | cons bo bos ih =>
    obtain ⟨r, rs', e₁, hr, hrs, rfl⟩ := evalCalls_cons_ok h
    obtain ⟨name, fn, hbo, hname⟩ := hnamed bo (.head _)
    have hbn : batchName bo = name := by simp [batchName, hbo]
    simp only [batchCall, hbn, hname, Option.getD_some] at hr
    rw [List.foldlM_cons, exec_bind, exec_bind, callBatch_returns hbo hname hr]
    simp only [exec_pure, addBatch_accumulated]
    rw [ih (fun x hx => hnamed x (.tail _ hx)) _ hrs]
    simp [batchEvent, hbn]

variable [Module ℚ L]

theorem primaryStep_returns {entry : ObjectiveSpec} {name fn : String}
    (hentry : entry.name = .val name) (hname : OBJECTIVES.lookup name = some fn)
    (hweight : entry.weight ≠ .null) {first : Option (Result L τ)} {losses : List (Option L)}
    {s : Engine P E L τ M} {r : Result L τ} {e : E}
    (h : evalCall b s.params (entryCall cfg spec entry) s.ema = (.ok r, e)) :
    exec (primaryStep cfg b spec (spec.samples.getD []) spec.defaultKwargs
        (accumulated first losses) entry) s =
      (.ok (accumulated (first.or (some r)) (losses ++ [r.loss.map (entry.weightValue • ·)])),
        { s with ema := e, events := s.events ++ [entryEvent cfg spec entry] }) := by
  have hcall : entryCall cfg spec entry = (⟨fn, entry.samples.get?.or (spec.samples.getD []),
      cfg.primaryKwargs spec name (entry.kwargs.get?.getD spec.defaultKwargs)⟩ : LossCall τ) := by
    simp [entryCall, hentry, Field.get?, hname]
  have hevent : (entryEvent cfg spec entry : EngineEvent L τ) =
      .primary name (entry.samples.get?.or (spec.samples.getD []))
        (cfg.primaryKwargs spec name (entry.kwargs.get?.getD spec.defaultKwargs)) := by
    simp [entryEvent, primaryEvent, ObjectiveSpec.resolve, hentry, Field.get?]
  rw [hcall] at h
  have hobj : nameField "name" entry.name = .ok (.str name) := by
    rw [hentry]
    rfl
  unfold primaryStep
  rw [hobj, exec_ofExcept_bind]
  simp only
  rw [ObjectiveSpec.entryWeight_eq hweight, exec_ofExcept_bind]
  simp only
  rw [exec_bind, callPrimary_returns hname h, hevent]
  cases hr : r.loss with
  | none =>
    simp only [hr, Option.map_none, accumulated_skip]
    rfl
  | some loss =>
    simp only [hr, Option.map_some, accumulated_add, exec_pure]
    have hfirst : (accumulated (first.or (some r)) losses).total =
        (accumulated first losses).total := rfl
    rw [hfirst]
    cases ht : (accumulated first losses).total with
    | none => simp [accumulated]
    | some total => simp [accumulated]

/-- What the entries of a spec contribute. -/
def weighted (primaries : List ObjectiveSpec) (rs : List (Result L τ)) : List (Option L) :=
  List.zipWith (fun entry r => r.loss.map (entry.weightValue • ·)) primaries rs

theorem primaryLoop_returns {entries : List ObjectiveSpec}
    (hnamed : ∀ entry ∈ entries, ∃ name fn, entry.name = .val name ∧
      OBJECTIVES.lookup name = some fn)
    (hweighted : ∀ entry ∈ entries, entry.weight ≠ .null)
    (first : Option (Result L τ)) (losses : List (Option L)) {s : Engine P E L τ M}
    {rs : List (Result L τ)} {e : E}
    (h : evalCalls b s.params (entries.map (entryCall cfg spec)) s.ema = (.ok rs, e)) :
    exec (entries.foldlM (primaryStep cfg b spec (spec.samples.getD []) spec.defaultKwargs)
        (accumulated first losses)) s =
      (.ok (accumulated (first.or rs.head?) (losses ++ weighted entries rs)),
        { s with ema := e, events := s.events ++ entries.map (entryEvent cfg spec) }) := by
  induction entries generalizing first losses s rs with
  | nil =>
    cases h
    simp [weighted]
  | cons entry entries ih =>
    obtain ⟨r, rs', e₁, hr, hrs, rfl⟩ := evalCalls_cons_ok h
    obtain ⟨name, fn, hentry, hname⟩ := hnamed entry (.head _)
    rw [List.foldlM_cons, exec_bind,
      primaryStep_returns hentry hname (hweighted entry (.head _)) hr]
    simp only
    rw [ih (fun x hx => hnamed x (.tail _ hx)) (fun x hx => hweighted x (.tail _ hx)) _ _ hrs]
    cases first with
    | none => simp [weighted]
    | some r₀ => simp [weighted]

/-! ## The whole step -/

/-- The result whose tensors `safety_monitor` gets. -/
def firstResult (rs : List (Result L τ)) : Result L τ := rs.head?.getD ⟨none, []⟩

/-- What the objectives of a step contribute to its loss. -/
def contributed (primaries : List ObjectiveSpec) (rs bs : List (Result L τ)) : List L :=
  (weighted primaries rs ++ bs.map Result.loss).reduceOption

/-- The engine after the calls. -/
def called (cfg : EngineConfig) (spec : TrainSpec) (primaries : List ObjectiveSpec)
    (rs : List (Result L τ)) (ema : E) (s : Engine P E L τ M) : Engine P E L τ M :=
  { s with
    ema
    events := s.events ++ primaries.map (entryEvent cfg spec) ++
      spec.batchList.map (batchEvent cfg spec (firstResult rs)) }

theorem step_eq_stepMulti {primaries : List ObjectiveSpec} (hspec : spec.Combined primaries) :
    step cfg b spec = stepMulti cfg b spec primaries := by
  have hentries := hspec.entries
  unfold TrainSpec.entries? at hentries
  split at hentries
  · rename_i hobjs
    simp [step, hobjs, hentries]
  · cases hentries

theorem exec_step_combined {primaries : List ObjectiveSpec} (hspec : spec.Combined primaries)
    {s : Engine P E L τ M} {rs bs : List (Result L τ)} {e e' : E}
    (hrs : evalCalls b s.params (primaries.map (entryCall cfg spec)) s.ema = (.ok rs, e))
    (hbs : evalCalls b s.params (spec.batchList.map (batchCall cfg spec (firstResult rs))) e =
      (.ok bs, e')) :
    exec (step cfg b spec) s =
      exec (finish cfg b (if contributed primaries rs bs = [] then none
        else some (sharedKey, (contributed primaries rs bs).sum)))
        (called cfg spec primaries rs e' s) := by
  have hloop := primaryLoop_returns hspec.named hspec.weighted none [] hrs
  rw [accumulated_nil, List.nil_append, Option.none_or] at hloop
  have hbatchLoop := batchLoop_returns hspec.batch rs.head? (weighted primaries rs)
    (s := { s with ema := e, events := s.events ++ primaries.map (entryEvent cfg spec) }) hbs
  simp only [addBatch] at hbatchLoop
  have hfirst : (accumulated rs.head? (weighted primaries rs)).first.getD ⟨none, []⟩ =
      firstResult rs := rfl
  rw [step_eq_stepMulti hspec]
  unfold stepMulti
  rw [hspec.notNone_kwargs, exec_ofExcept_bind]
  simp only
  rw [exec_bind, hloop]
  simp only [hspec.notNone_samples, exec_ofExcept_bind, hfirst, ← hspec.monitored_eq,
    ← hspec.batchSamples_eq]
  rw [exec_bind, hbatchLoop]
  simp only [accumulated, contributed]
  by_cases hl : (weighted primaries rs ++ bs.map Result.loss).reduceOption = []
  · simp only [hl, if_true, List.isEmpty_nil, finish]
    rfl
  · have hne : (weighted primaries rs ++ bs.map Result.loss).reduceOption.isEmpty = false := by
      simpa using hl
    simp only [hl, if_false, hne, finish]
    rfl

/-- **A combined-loss step.** Each entry's objective is called with the entry's own samples and
arguments or the spec's, each batch objective once. If nothing is contributed the step is
skipped; otherwise the backward pass and the optimizer step are those of the sum. -/
theorem combined_step {primaries : List ObjectiveSpec} (hspec : spec.Combined primaries)
    {s : Engine P E L τ M} {rs bs : List (Result L τ)} {e e' : E}
    (hrs : evalCalls b s.params (primaries.map (entryCall cfg spec)) s.ema = (.ok rs, e))
    (hbs : evalCalls b s.params (spec.batchList.map (batchCall cfg spec (firstResult rs))) e =
      (.ok bs, e')) :
    (∀ entry ∈ primaries,
      (entryCall cfg spec entry : LossCall τ).samples =
        (if entry.samples.get?.isSome then entry.samples.get? else spec.samples.getD []) ∧
      ∀ key, (entryCall cfg spec entry : LossCall τ).kwargs.get? key =
        (((entry.kwargs.get?.getD spec.defaultKwargs).lookup key).map .json).or
          (cfg.plumbed spec (entry.name.get?.getD "") key)) ∧
    (contributed primaries rs bs = [] →
      exec (step cfg b spec) s = (.ok ⟨none, true⟩, called cfg spec primaries rs e' s)) ∧
    (contributed primaries rs bs ≠ [] →
      ∀ grad, b.backward s.params (contributed primaries rs bs).sum = .ok grad →
        exec (step cfg b spec) s = match updateOf cfg b sharedKey s grad with
          | .error err => (.error err, unstepped cfg b sharedKey (contributed primaries rs bs).sum
              (called cfg spec primaries rs e' s))
          | .ok (params, moments) => (.ok ⟨some (contributed primaries rs bs).sum, false⟩,
              stepped cfg b sharedKey (contributed primaries rs bs).sum
                (called cfg spec primaries rs e' s) params moments)) := by
  refine ⟨fun entry _ => ⟨?_, fun key => ?_⟩, fun h => ?_, fun h grad hgrad => ?_⟩
  · cases hs : entry.samples.get? with
    | none => simp [entryCall, hs]
    | some samples => simp [entryCall, hs]
  · exact EngineConfig.get?_primaryKwargs cfg spec _ _ key
  · rw [exec_step_combined hspec hrs hbs, if_pos h]
    rfl
  · have hupdate : updateOf cfg b sharedKey (called cfg spec primaries rs e' s) grad =
        updateOf cfg b sharedKey s grad := rfl
    have hgrad' : b.backward (called cfg spec primaries rs e' s).params
        (contributed primaries rs bs).sum = .ok grad := hgrad
    rw [exec_step_combined hspec hrs hbs, if_neg h]
    cases hnew : updateOf cfg b sharedKey s grad with
    | error err => simp only [finish, exec_optimize, hgrad', hupdate, hnew]
    | ok new => simp only [finish, exec_optimize, hgrad', hupdate, hnew]

/-! ## Two objectives and a monitor -/

def monitoredEntries : List ObjectiveSpec :=
  [{ name := .val "weighted_sft", weight := .val (1 / 10) }, { name := .val "unlike" }]

theorem combined_monitoredSpec : monitoredSpec.Combined monitoredEntries where
  entries := rfl
  named := by
    intro entry hentry
    rcases List.mem_pair.mp hentry with rfl | rfl
    · exact ⟨_, _, rfl, rfl⟩
    · exact ⟨_, _, rfl, rfl⟩
  weighted := by
    intro entry hentry
    rcases List.mem_pair.mp hentry with rfl | rfl
    · exact nofun
    · exact nofun
  samples := nofun
  kwargs := nofun
  batch := by
    intro bo hbo
    obtain rfl := List.mem_singleton.mp hbo
    exact ⟨_, _, rfl, rfl⟩

/-- What `scalarBackend` returns at the parameter 3. -/
def monitoredResults : List (Result (ℚ × ℚ) Unit) :=
  List.replicate 2 ⟨some (3, 1), [("target_positions", ())]⟩

/-- A tenth of the first loss, the second loss, and the monitor's zero. -/
theorem contributed_monitoredResults :
    contributed monitoredEntries monitoredResults [⟨some 0, []⟩] =
      [(3 / 10, 1 / 10), (3, 1), (0, 0)] := by
  simp [contributed, weighted, monitoredEntries, monitoredResults, ObjectiveSpec.weightValue,
    List.reduceOption, List.replicate]
  exact ⟨by decide +kernel, rfl⟩

theorem monitored_combined : ∃ params,
    exec (step {} scalarBackend monitoredSpec) { params := 3, ema := () } =
      (.ok ⟨some (contributed monitoredEntries monitoredResults [⟨some 0, []⟩]).sum, false⟩,
        stepped {} scalarBackend sharedKey
          (contributed monitoredEntries monitoredResults [⟨some 0, []⟩]).sum
          (called {} monitoredSpec monitoredEntries monitoredResults ()
            { params := 3, ema := () }) params ()) := by
  have hne : contributed monitoredEntries monitoredResults [⟨some 0, []⟩] ≠ [] := by
    rw [contributed_monitoredResults]
    exact nofun
  exact ⟨_, (combined_step combined_monitoredSpec rfl rfl).2.2 hne _ rfl⟩

end TrainEngine

end Trainfer
