import Trainfer.TrainTrace
import Mathlib.Algebra.Module.Prod

/-! Soundness of the gate of `unlike`. The gate looks at a list of batch objectives in its
keyword arguments; the anchor runs later, from the spec, on samples chosen for all batch
objectives. `anchored_iff` says for which specs the anchor covers what the gate let pass. -/

namespace Trainfer

open Effect TrainEngine

variable {P E L G τ M : Type}

/-- Every pure sample of an `unlike` primary without `allow_unanchored=True` is in a list
that a `kl_anchor` ran on. -/
def Anchored (events : List (EngineEvent L τ)) : Prop :=
  ∀ samples kwargs, .primary "unlike" samples kwargs ∈ events →
    kwargs.get? "allow_unanchored" ≠ some (.json (.bool true)) →
    ∀ s ∈ samples.getD [], s.isPure = true →
      ∃ anchored bkwargs, .batch "kl_anchor" anchored bkwargs ∈ events ∧ s ∈ anchored.getD []

def TrainSpec.hasAnchor (spec : TrainSpec) : Prop := ∃ bo ∈ spec.batchList, isAnchor bo = true

/-- The caller replaces the list that the gate looks at, or switches the gate off with a
truthy value other than `True`. -/
def Primary.BypassesGate (p : Primary) : Prop :=
  p.kwargs.lookup "batch_objectives" ≠ none ∨
    (p.kwargs.lookup "allow_unanchored").any Value.truthy = true

/-- The spec has `s` at its own level, or it has no samples there and `s` is in the first
non-empty list that an entry brings. -/
def TrainSpec.AnchorReaches (spec : TrainSpec) (s : Sample) : Prop :=
  s ∈ (spec.samples.getD []).getD [] ∨
    (spec.samples.getD []).getD [] = [] ∧ ∃ before entry after,
      spec.entries? = some (before ++ entry :: after) ∧
        (∀ e ∈ before, e.samples.get?.getD [] = []) ∧ s ∈ entry.samples.get?.getD []

/-- An `unlike` primary that bypasses the gate comes with an anchor in the spec itself, and
an anchor reaches the pure samples of one that brings its own. -/
def AnchorsCover (spec : TrainSpec) : Prop :=
  ∀ p ∈ spec.primaryList, p.name = "unlike" →
    p.kwargs.lookup "allow_unanchored" ≠ some (.bool true) →
    ∀ s ∈ p.samples.getD [], s.isPure = true →
      (p.BypassesGate → spec.hasAnchor) ∧
        (p.ownSamples = true → spec.AnchorReaches s)

theorem isAnchor_iff (bo : JsonObject) : isAnchor bo = true ↔ batchName bo = "kl_anchor" := by
  unfold isAnchor batchName
  cases bo.lookup "name" with
  | none => simp
  | some v => cases v <;> simp [Value.isStr]

/-! ## What the gate was handed -/

/-- Arguments that are not plumbed are the caller's. -/
theorem primaryKwargs_get?_ne (cfg : EngineConfig) (spec : TrainSpec) (name : String)
    (kwargs : JsonObject) {key : String}
    (hkey : key ∉ ["pi_ref", "effective_lr", "batch_objectives"]) :
    (cfg.primaryKwargs spec name kwargs : Kwargs τ).get? key =
      (kwargs.lookup key).map .json := by
  simp only [List.mem_cons, List.not_mem_nil, or_false, not_or] at hkey
  obtain ⟨href, hlr, hbo⟩ := hkey
  unfold EngineConfig.primaryKwargs
  rw [Kwargs.get?_setDefault_ne _ _ hbo, Kwargs.get?_setDefault_ne _ _ hlr,
    get?_piRef _ _ href, Kwargs.get?_ofJson]

/-- The gate sees the spec's own batch objectives unless the caller sends others. -/
theorem primaryKwargs_batchObjectives (cfg : EngineConfig) (spec : TrainSpec) (name : String)
    (kwargs : JsonObject) (hkwargs : kwargs.lookup "batch_objectives" = none) :
    (cfg.primaryKwargs spec name kwargs : Kwargs τ).get? "batch_objectives" =
      some (.json (.list (spec.batchList.map .dict))) := by
  unfold EngineConfig.primaryKwargs
  rw [Kwargs.get?_setDefault_self, Kwargs.get?_setDefault_ne _ _ (by decide),
    get?_piRef _ _ (by decide), Kwargs.get?_ofJson, hkwargs]
  rfl

theorem primaryKwargs_allowUnanchored (cfg : EngineConfig) (spec : TrainSpec) (name : String)
    (kwargs : JsonObject) :
    (cfg.primaryKwargs spec name kwargs : Kwargs τ).allowUnanchored =
      (kwargs.lookup "allow_unanchored").any Value.truthy := by
  unfold Kwargs.allowUnanchored
  rw [primaryKwargs_get?_ne cfg spec name kwargs (by decide)]
  cases kwargs.lookup "allow_unanchored" <;> rfl

/-- A call of `unlike` that is not refused has passed the gate. -/
theorem unlikeGate_of_accepted {cfg : EngineConfig} {spec : TrainSpec} {p : Primary}
    (h : Accepted cfg spec τ p) (hname : p.name = "unlike") :
    ∃ warnings, unlikeGate p.samples
      (cfg.primaryKwargs spec p.name p.kwargs : Kwargs τ) = .ok warnings := by
  obtain ⟨fn, hfn, hcall⟩ := h
  have hunlike : fn = "unlike_loss" := by
    have hlookup := (getObjective_ok hfn).2
    rw [hname] at hlookup
    exact (Option.some.inj hlookup).symm
  subst hunlike
  obtain ⟨_, _, hcall⟩ := bind_ok hcall
  obtain ⟨warnings, hgate, _⟩ := bind_ok hcall
  exact ⟨warnings, hgate⟩

/-- A pure sample that passed the gate, with nothing bypassed, has an anchor in the spec. -/
theorem hasAnchor_of_accepted {cfg : EngineConfig} {spec : TrainSpec} {p : Primary}
    (h : Accepted cfg spec τ p) (hname : p.name = "unlike") (hbypass : ¬ p.BypassesGate)
    {s : Sample} (hs : s ∈ p.samples.getD []) (hpure : s.isPure = true) : spec.hasAnchor := by
  obtain ⟨hbos, hallow⟩ := not_or.mp hbypass
  obtain ⟨warnings, hgate⟩ := unlikeGate_of_accepted h hname
  cases hsamples : p.samples with
  | none =>
    rw [hsamples] at hs
    cases hs
  | some samples =>
    rw [hsamples] at hs hgate
    cases samples with
    | nil => cases hs
    | cons s₀ samples =>
      unfold unlikeGate at hgate
      rw [primaryKwargs_batchObjectives cfg spec p.name p.kwargs (not_not.mp hbos),
        primaryKwargs_allowUnanchored] at hgate
      obtain ⟨anchorWarnings, hchecked, _⟩ := bind_ok hgate
      obtain ⟨anchor, anchors, hanchors⟩ := anchors_ne_nil hchecked (by simp)
        ⟨s, hs, hpure⟩ (Bool.eq_false_iff.mpr hallow)
      rw [anchorsOf_dicts] at hanchors
      have hmem : anchor ∈ spec.batchList.filter isAnchor := by
        rw [Except.ok.inj hanchors]
        exact List.mem_cons_self
      exact ⟨anchor, List.mem_filter.mp hmem⟩

/-! ## What the anchor runs on -/

/-- The batch objectives run on the spec's samples wherever a primary does. -/
theorem mem_batchSamples {spec : TrainSpec} {p : Primary} (hp : p ∈ spec.primaryList)
    (hown : p.ownSamples = false) {s : Sample} (hs : s ∈ p.samples.getD []) :
    s ∈ spec.batchSamples.getD [] := by
  unfold TrainSpec.primaryList at hp
  unfold TrainSpec.batchSamples
  cases hentries : spec.entries? with
  | none =>
    simp only [hentries, List.mem_singleton] at hp ⊢
    rw [hp] at hs
    exact hs
  | some primaries =>
    simp only [hentries, List.mem_map] at hp ⊢
    obtain ⟨entry, _, rfl⟩ := hp
    have hnone : entry.samples.get? = none := by
      simpa [ObjectiveSpec.resolve] using hown
    have hdefault : s ∈ (spec.samples.getD []).getD [] := by
      simpa [ObjectiveSpec.resolve, hnone] using hs
    have hne : ((spec.samples.getD []).getD []).isEmpty = false := by
      rw [List.isEmpty_eq_false_iff_exists_mem]
      exact ⟨s, hdefault⟩
    simpa [boSamples, hne] using hdefault

theorem filter_nonempty_eq_none {x : Option (List Sample)} :
    (x.filter fun ss => !ss.isEmpty) = none ↔ x.getD [] = [] := by
  cases x with
  | none => simp
  | some ss => cases ss <;> simp [Option.filter]

/-- The first non-empty list of an entry, if there is one. -/
theorem mem_firstSamples {primaries : List ObjectiveSpec} {s : Sample} :
    s ∈ (primaries.findSome? fun e => e.samples.get?.filter fun ss => !ss.isEmpty).getD [] ↔
      ∃ before entry after, primaries = before ++ entry :: after ∧
        (∀ e ∈ before, e.samples.get?.getD [] = []) ∧ s ∈ entry.samples.get?.getD [] := by
  induction primaries with
  | nil => simp
  | cons e primaries ih =>
    rw [List.findSome?_cons]
    cases he : e.samples.get?.filter fun ss => !ss.isEmpty with
    | some ss =>
      have hss : e.samples.get? = some ss := (Option.filter_eq_some_iff.mp he).1
      have hne : ss ≠ [] := by simpa using (Option.filter_eq_some_iff.mp he).2
      constructor
      · intro hs
        exact ⟨[], e, primaries, rfl, by simp, by simpa [hss] using hs⟩
      · rintro ⟨before, entry, after, heq, hbefore, hs⟩
        cases before with
        | nil =>
          obtain ⟨rfl, rfl⟩ := List.cons.inj heq
          simpa [hss] using hs
        | cons e' before =>
          obtain ⟨rfl, rfl⟩ := List.cons.inj heq
          exact absurd (by simpa [hss] using hbefore e List.mem_cons_self) hne
    | none =>
      have hempty : e.samples.get?.getD [] = [] := filter_nonempty_eq_none.mp he
      rw [ih]
      constructor
      · rintro ⟨before, entry, after, rfl, hbefore, hs⟩
        refine ⟨e :: before, entry, after, rfl, fun e' he' => ?_, hs⟩
        rcases List.mem_cons.mp he' with rfl | he'
        · exact hempty
        · exact hbefore e' he'
      · rintro ⟨before, entry, after, heq, hbefore, hs⟩
        cases before with
        | nil =>
          obtain ⟨rfl, rfl⟩ := List.cons.inj heq
          rw [hempty] at hs
          cases hs
        | cons e' before =>
          obtain ⟨rfl, rfl⟩ := List.cons.inj heq
          exact ⟨before, entry, after, rfl,
            fun e'' he'' => hbefore e'' (List.mem_cons_of_mem _ he''), hs⟩

theorem mem_batchSamples_iff {spec : TrainSpec} {s : Sample} :
    s ∈ spec.batchSamples.getD [] ↔ spec.AnchorReaches s := by
  unfold TrainSpec.batchSamples TrainSpec.AnchorReaches
  cases hentries : spec.entries? with
  | none => simp
  | some primaries =>
    cases hdefault : (spec.samples.getD []).getD [] with
    | cons d ds => simp [boSamples]
    | nil =>
      simp only [boSamples, List.isEmpty_nil, ↓reduceIte, Option.getD_some, List.not_mem_nil,
        false_or, true_and, Option.some.injEq]
      exact mem_firstSamples

/-! ## The events of the step -/

section
variable {cfg : EngineConfig} {spec : TrainSpec} {first : Result L τ} {loss : L}
  {key : String} {rate : ℚ}

theorem primary_mem_events {name : String} {samples : Option (List Sample)} {kwargs : Kwargs τ} :
    EngineEvent.primary name samples kwargs ∈ spec.primaryList.map (primaryEvent cfg spec) ++
        spec.batchList.map (batchEvent cfg spec first) ++ [.backward loss, .step key rate] ↔
      ∃ p ∈ spec.primaryList, p.name = name ∧ p.samples = samples ∧
        cfg.primaryKwargs spec p.name p.kwargs = kwargs := by
  simp [primaryEvent, batchEvent]

theorem batch_mem_events {name : String} {samples : Option (List Sample)} {kwargs : Kwargs τ} :
    EngineEvent.batch name samples kwargs ∈ spec.primaryList.map (primaryEvent cfg spec) ++
        spec.batchList.map (batchEvent cfg spec first) ++ [.backward loss, .step key rate] ↔
      ∃ bo ∈ spec.batchList, batchName bo = name ∧ spec.batchSamples = samples ∧
        cfg.batchKwargs spec.monitored first (batchName bo) bo = kwargs := by
  simp [primaryEvent, batchEvent]

end

variable [AddCommGroup L] [Module ℚ L]

/-- **Soundness of the gate.** In a step that reaches the optimizer the pure samples of
`unlike` are anchored exactly when the spec's anchors cover them. -/
theorem anchored_iff {cfg : EngineConfig} {b : Backend P E L G τ M} {spec : TrainSpec}
    {s t : Engine P E L τ M} {out : StepOutcome L}
    (h : trainStep cfg b spec s = (.ok out, t)) (hout : out.skipped = false) :
    Anchored t.events ↔ AnchorsCover spec := by
  obtain ⟨haccepted, first, loss, hevents⟩ := step_trained h hout
  rw [hevents, List.nil_append]
  have hallow : ∀ p : Primary,
      (cfg.primaryKwargs spec p.name p.kwargs : Kwargs τ).get? "allow_unanchored" ≠
        some (.json (.bool true)) ↔ p.kwargs.lookup "allow_unanchored" ≠ some (.bool true) := by
    intro p
    rw [primaryKwargs_get?_ne cfg spec p.name p.kwargs (by decide)]
    simp
  constructor
  · intro hanchored p hp hname hp_allow x hx hpure
    obtain ⟨samples, kwargs, hmem, hin⟩ := hanchored p.samples _
      (primary_mem_events.mpr ⟨p, hp, hname, rfl, rfl⟩) ((hallow p).mpr hp_allow) x hx hpure
    obtain ⟨bo, hbo, hboname, hsamples, _⟩ := batch_mem_events.mp hmem
    refine ⟨fun _ => ⟨bo, hbo, (isAnchor_iff bo).mpr hboname⟩, fun _ => ?_⟩
    rw [← mem_batchSamples_iff, hsamples]
    exact hin
  · intro hcover samples kwargs hmem hk_allow x hx hpure
    obtain ⟨p, hp, hname, rfl, rfl⟩ := primary_mem_events.mp hmem
    obtain ⟨hspec, hown⟩ := hcover p hp hname ((hallow p).mp hk_allow) x hx hpure
    have hanchor : spec.hasAnchor := by
      by_cases hbypass : p.BypassesGate
      · exact hspec hbypass
      · exact hasAnchor_of_accepted (haccepted p hp) hname hbypass hx hpure
    have hin : x ∈ spec.batchSamples.getD [] := by
      cases ho : p.ownSamples with
      | true => exact mem_batchSamples_iff.mpr (hown ho)
      | false => exact mem_batchSamples hp ho hx
    obtain ⟨bo, hbo, hanchor⟩ := hanchor
    have hboname : batchName bo = "kl_anchor" := (isAnchor_iff bo).mp hanchor
    exact ⟨_, _, batch_mem_events.mpr ⟨bo, hbo, hboname, rfl, rfl⟩, hin⟩

/-- A pure sample under an anchor that runs on the same list. -/
def coveredSpec : TrainSpec where
  objective := .val "unlike"
  samples := .val [[("prefix", .str "a"), ("bad_token_id", .num 7)]]
  batchObjectives := .val [[("name", .str "kl_anchor"), ("scope", .str "target_position")]]

theorem covered_anchored :
    Anchored (trainStep {} scalarBackend coveredSpec ⟨3, (), ∅, []⟩).2.events ↔
      AnchorsCover coveredSpec :=
  @anchored_iff _ _ _ _ _ _ _ _ {} scalarBackend coveredSpec ⟨3, (), ∅, []⟩ _
    ⟨some _, false⟩ rfl rfl

/-- `unlike` brings its own pure sample, and so does the entry before it. -/
def apartSpec : TrainSpec where
  objectives := .val
    [{ name := .val "sft", samples := .val [[("prompt", .str "p"), ("response", .str "r")]] },
      { name := .val "unlike",
        samples := .val [[("prefix", .str "a"), ("bad_token_id", .num 7)]] }]
  batchObjectives := .val [[("name", .str "kl_anchor"), ("scope", .str "target_position")]]

/-- The gate passes, the anchor runs on the samples of `sft`, and the step is taken. -/
theorem unlike_unanchored :
    ¬ ∀ (cfg : EngineConfig) (b : Backend ℚ Unit (ℚ × ℚ) ℚ Unit Unit) (spec : TrainSpec)
      (s t : Engine ℚ Unit (ℚ × ℚ) Unit Unit) (out : StepOutcome (ℚ × ℚ)),
      trainStep cfg b spec s = (.ok out, t) → out.skipped = false → Anchored t.events := by
  intro h
  obtain ⟨t, out, ht, hout⟩ : ∃ (t : Engine ℚ Unit (ℚ × ℚ) Unit Unit) (out : StepOutcome (ℚ × ℚ)),
      trainStep {} scalarBackend apartSpec ⟨3, (), ∅, []⟩ = (.ok out, t) ∧ out.skipped = false :=
    ⟨_, ⟨some _, false⟩, rfl, rfl⟩
  have hanchored := h {} scalarBackend apartSpec _ t out ht hout
  obtain ⟨_, first, loss, hevents⟩ := step_trained ht hout
  rw [hevents, List.nil_append] at hanchored
  have hunlike : ⟨"unlike", some [[("prefix", .str "a"), ("bad_token_id", .num 7)]], [], true⟩ ∈
      apartSpec.primaryList := .tail _ (.head _)
  obtain ⟨samples, kwargs, hmem, hin⟩ := hanchored _ _
    (primary_mem_events.mpr ⟨_, hunlike, rfl, rfl, rfl⟩)
    (by rw [primaryKwargs_get?_ne _ _ _ _ (by decide)]; simp) _ (.head _) rfl
  obtain ⟨bo, _, _, hsamples, _⟩ := batch_mem_events.mp hmem
  have hsft : apartSpec.batchSamples = some [[("prompt", .str "p"), ("response", .str "r")]] := rfl
  rw [← hsamples, hsft] at hin
  simp at hin

end Trainfer
