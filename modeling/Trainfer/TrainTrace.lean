import Trainfer.TrainEngine

/-! What a train step does, read off its spec. `step_trained` lists the events of every
step that reaches the optimizer: the primaries in order, the batch objectives in order,
one backward pass and one optimizer step. -/

namespace Trainfer

open Effect

variable {P E L G τ M : Type}

/-- A primary with its samples and arguments resolved. -/
structure Primary where
  name : String
  samples : Option (List Sample)
  kwargs : JsonObject
  ownSamples : Bool

namespace ObjectiveSpec

/-- An entry takes the spec's samples and arguments where it has none. -/
def resolve (entry : ObjectiveSpec) (defaultSamples : Option (List Sample))
    (defaultKwargs : JsonObject) : Primary where
  name := entry.name.get?.getD ""
  samples := entry.samples.get?.or defaultSamples
  kwargs := entry.kwargs.get?.getD defaultKwargs
  ownSamples := entry.samples.get?.isSome

end ObjectiveSpec

namespace TrainSpec

def defaultKwargs (spec : TrainSpec) : JsonObject := (spec.kwargs.getD []).getD []

/-- The entries of a multi-objective spec. -/
def entries? (spec : TrainSpec) : Option (List ObjectiveSpec) :=
  if spec.hasObjs then spec.objectives.get? else none

def primaryList (spec : TrainSpec) : List Primary :=
  match spec.entries? with
  | some primaries =>
    primaries.map fun entry => entry.resolve (spec.samples.getD []) spec.defaultKwargs
  | none => [⟨spec.objective.get?.getD "", spec.samples.getD [], spec.defaultKwargs, false⟩]

/-- The samples that the batch objectives run on. -/
def batchSamples (spec : TrainSpec) : Option (List Sample) :=
  match spec.entries? with
  | some primaries => some (TrainEngine.boSamples primaries ((spec.samples.getD []).getD []))
  | none => spec.samples.getD []

/-- The primary whose result and rate `safety_monitor` gets. -/
def monitored (spec : TrainSpec) : String :=
  match spec.entries? with
  | some primaries => TrainEngine.firstName primaries
  | none => spec.objective.get?.getD ""

/-- The objective that the optimizer is asked for. -/
def slot (spec : TrainSpec) : String :=
  match spec.entries? with
  | some _ => sharedKey
  | none => spec.objective.get?.getD ""

end TrainSpec

/-- `bo["name"]`. -/
def batchName (bo : JsonObject) : String :=
  match bo.lookup "name" with
  | some (.str name) => name
  | _ => ""

namespace TrainEngine

def primaryEvent (cfg : EngineConfig) (spec : TrainSpec) (p : Primary) : EngineEvent L τ :=
  .primary p.name p.samples (cfg.primaryKwargs spec p.name p.kwargs)

def batchEvent (cfg : EngineConfig) (spec : TrainSpec) (first : Result L τ) (bo : JsonObject) :
    EngineEvent L τ :=
  .batch (batchName bo) spec.batchSamples
    (cfg.batchKwargs spec.monitored first (batchName bo) bo)

/-- The objective is registered and its call is not refused. -/
def Accepted (cfg : EngineConfig) (spec : TrainSpec) (τ : Type) (p : Primary) : Prop :=
  ∃ fn, getObjective (.str p.name) = .ok (p.name, fn) ∧
    acceptCall fn p.samples (cfg.primaryKwargs spec p.name p.kwargs : Kwargs τ) = .ok ()

/-- The optimizer that a step finds or makes. -/
def slotOptimizer (cfg : EngineConfig) (b : Backend P E L G τ M) (objective : String)
    (s : Engine P E L τ M) : Optimizer M :=
  (s.opts.lookup (cfg.key objective)).getD (cfg.newOptimizer objective b.moments)

/-- The step from `s` to `t` reached the optimizer: every primary was accepted and called,
then every batch objective, then came one backward pass and one optimizer step. -/
def Trained (cfg : EngineConfig) (b : Backend P E L G τ M) (spec : TrainSpec)
    (s t : Engine P E L τ M) : Prop :=
  (∀ p ∈ spec.primaryList, Accepted cfg spec τ p) ∧ ∃ (first : Result L τ) (loss : L),
    t.events = s.events ++ spec.primaryList.map (primaryEvent cfg spec) ++
      spec.batchList.map (batchEvent cfg spec first) ++
      [.backward loss, .step (cfg.key spec.slot) (slotOptimizer cfg b spec.slot s).lr]

/-! ## The calls -/

theorem get?_piRef (frozen : Bool) (kwargs : Kwargs τ) {key : String} (hkey : key ≠ "pi_ref") :
    (if frozen then kwargs.setDefault "pi_ref" .piRef else kwargs).get? key =
      kwargs.get? key := by
  split
  · exact Kwargs.get?_setDefault_ne kwargs _ hkey
  · rfl

theorem getObjective_ok {v : Value} {name fn : String} (h : getObjective v = .ok (name, fn)) :
    v = .str name ∧ OBJECTIVES.lookup name = some fn := by
  obtain ⟨_, _, h⟩ := bind_ok h
  cases v with
  | str key =>
    cases hk : OBJECTIVES.lookup key with
    | none =>
      simp only [hk] at h
      cases h
    | some fn' =>
      simp only [hk] at h
      cases h
      exact ⟨rfl, hk⟩
  | null | bool | num | list | dict => cases h

theorem batchObjective_ok {bo : JsonObject} {name fn : String}
    (h : batchObjective bo = .ok (name, fn)) : batchName bo = name := by
  unfold batchObjective at h
  cases hl : bo.lookup "name" with
  | none => simp [hl] at h
  | some v =>
    simp only [hl] at h
    obtain ⟨rfl, _⟩ := getObjective_ok h
    simp [batchName, hl]

theorem notNone_ok {α : Type} {x : Option α} {a : α} (h : notNone x = .ok a) : x = some a := by
  cases x with
  | none => cases h
  | some b => cases h; rfl

theorem nameField_ok {key name : String} {f : Field String}
    (h : nameField key f = .ok (.str name)) : f.get? = some name := by
  cases f with
  | missing => cases h
  | null => cases h
  | val s => cases h; rfl

/-- Only the log and the drift average change. -/
def Kept (s t : Engine P E L τ M) : Prop := t.opts = s.opts ∧ t.params = s.params

theorem exec_record_bind {β : Type} (event : EngineEvent L τ)
    (f : PUnit → EngineM P E L τ M β) (s : Engine P E L τ M) :
    exec (record event >>= f) s = exec (f ⟨⟩) { s with events := s.events ++ [event] } := rfl

theorem callLoss_ok {b : Backend P E L G τ M} {fn : String} {samples : Option (List Sample)}
    {kwargs : Kwargs τ} {s t : Engine P E L τ M} {r : Result L τ}
    (h : exec (callLoss b fn samples kwargs) s = (.ok r, t)) :
    acceptCall fn samples kwargs = .ok () ∧ t.events = s.events ∧ Kept s t := by
  unfold callLoss at h
  obtain ⟨_, ha, h⟩ := exec_ofExcept_bind_ok.mp h
  rw [exec_get_bind, exec_modify_bind] at h
  obtain ⟨_, rfl⟩ := exec_ofExcept_ok h
  exact ⟨ha, rfl, rfl, rfl⟩

theorem callPrimary_ok {cfg : EngineConfig} {b : Backend P E L G τ M} {spec : TrainSpec}
    {v : Value} {samples : Option (List Sample)} {kwargs : JsonObject}
    {s t : Engine P E L τ M} {name : String} {r : Result L τ}
    (h : exec (callPrimary cfg b spec v samples kwargs) s = (.ok (name, r), t)) :
    v = .str name ∧
      (∃ fn, getObjective (.str name) = .ok (name, fn) ∧
        acceptCall fn samples (cfg.primaryKwargs spec name kwargs : Kwargs τ) = .ok ()) ∧
      t.events = s.events ++ [.primary name samples (cfg.primaryKwargs spec name kwargs)] ∧
      Kept s t := by
  unfold callPrimary at h
  obtain ⟨⟨name', fn⟩, hg, h⟩ := exec_ofExcept_bind_ok.mp h
  simp only [exec_record_bind] at h
  obtain ⟨r', t', hcall, h⟩ := exec_bind_ok.mp h
  cases h
  obtain ⟨ha, hev, hkept⟩ := callLoss_ok hcall
  obtain ⟨rfl, _⟩ := getObjective_ok hg
  exact ⟨rfl, ⟨fn, hg, ha⟩, hev, hkept⟩

theorem callBatch_ok {cfg : EngineConfig} {b : Backend P E L G τ M} {primary : String}
    {first : Result L τ} {samples : Option (List Sample)} {bo : JsonObject}
    {s t : Engine P E L τ M} {loss : Option L}
    (h : exec (callBatch cfg b primary first samples bo) s = (.ok loss, t)) :
    t.events = s.events ++ [.batch (batchName bo) samples
        (cfg.batchKwargs primary first (batchName bo) bo)] ∧ Kept s t := by
  unfold callBatch at h
  obtain ⟨⟨name, fn⟩, hg, h⟩ := exec_ofExcept_bind_ok.mp h
  simp only [exec_record_bind] at h
  obtain ⟨r, t', hcall, h⟩ := exec_bind_ok.mp h
  cases h
  obtain ⟨_, hev, hkept⟩ := callLoss_ok hcall
  rw [batchObjective_ok hg]
  exact ⟨hev, hkept⟩

/-! ## The loops -/

theorem Kept.trans {s t u : Engine P E L τ M} (h : Kept s t) (h' : Kept t u) : Kept s u :=
  ⟨h'.1.trans h.1, h'.2.trans h.2⟩

/-- A loop over the batch objectives runs each of them once, in order. -/
theorem batchLoop_ok {cfg : EngineConfig} {b : Backend P E L G τ M} {primary : String}
    {first : Result L τ} {samples : Option (List Sample)} {β : Type} {add : β → Option L → β}
    {bos : List JsonObject} {s t : Engine P E L τ M} {acc acc' : β}
    (h : exec (bos.foldlM (fun acc bo => do
      let boLoss ← callBatch cfg b primary first samples bo
      return add acc boLoss) acc) s = (.ok acc', t)) :
    t.events = s.events ++ bos.map (fun bo => .batch (batchName bo) samples
        (cfg.batchKwargs primary first (batchName bo) bo)) ∧ Kept s t := by
  refine exec_foldlM_ok (I := fun done _ u => u.events = s.events ++ done.map (fun bo =>
    EngineEvent.batch (batchName bo) samples
      (cfg.batchKwargs primary first (batchName bo) bo)) ∧ Kept s u) ?_ ?_ h
  · intro done bo c c' u u' ⟨hev, hkept⟩ hround
    obtain ⟨loss, w, hcall, hret⟩ := exec_bind_ok.mp hround
    cases hret
    obtain ⟨hev', hkept'⟩ := callBatch_ok hcall
    refine ⟨?_, hkept.trans hkept'⟩
    rw [hev', hev, List.map_append, List.append_assoc]
    rfl
  · exact ⟨by simp, rfl, rfl⟩

section
variable [AddCommGroup L] [Module ℚ L]

theorem primaryStep_ok {cfg : EngineConfig} {b : Backend P E L G τ M} {spec : TrainSpec}
    {samples : Option (List Sample)} {kwargs : JsonObject} {acc acc' : MultiState L τ}
    {entry : ObjectiveSpec} {s t : Engine P E L τ M}
    (h : exec (primaryStep cfg b spec samples kwargs acc entry) s = (.ok acc', t)) :
    Accepted cfg spec τ (entry.resolve samples kwargs) ∧
      t.events = s.events ++ [primaryEvent cfg spec (entry.resolve samples kwargs)] ∧
      Kept s t := by
  unfold primaryStep at h
  obtain ⟨v, hname, h⟩ := exec_ofExcept_bind_ok.mp h
  obtain ⟨w, _, h⟩ := exec_ofExcept_bind_ok.mp h
  obtain ⟨⟨name, r⟩, t', hcall, h⟩ := exec_bind_ok.mp h
  obtain ⟨hv, hacc, hev, hkept⟩ := callPrimary_ok hcall
  rw [hv] at hname
  have hres : (entry.resolve samples kwargs).name = name := by
    simp [ObjectiveSpec.resolve, nameField_ok hname]
  have ht : t = t' := by
    simp only at h
    split at h <;> cases h <;> rfl
  subst ht
  refine ⟨?_, ?_, hkept⟩
  · unfold Accepted
    rw [hres]
    exact hacc
  · unfold primaryEvent
    rw [hres]
    exact hev

/-- The loop over the primaries runs each of them once, in order. -/
theorem primaryLoop_ok {cfg : EngineConfig} {b : Backend P E L G τ M} {spec : TrainSpec}
    {samples : Option (List Sample)} {kwargs : JsonObject} {entries : List ObjectiveSpec}
    {acc acc' : MultiState L τ} {s t : Engine P E L τ M}
    (h : exec (entries.foldlM (primaryStep cfg b spec samples kwargs) acc) s = (.ok acc', t)) :
    (∀ entry ∈ entries, Accepted cfg spec τ (entry.resolve samples kwargs)) ∧
      t.events = s.events ++
        entries.map (fun entry => primaryEvent cfg spec (entry.resolve samples kwargs)) ∧
      Kept s t := by
  refine exec_foldlM_ok (I := fun done _ u =>
    (∀ entry ∈ done, Accepted cfg spec τ (entry.resolve samples kwargs)) ∧
      u.events = s.events ++
        done.map (fun entry => primaryEvent cfg spec (entry.resolve samples kwargs)) ∧
      Kept s u) ?_ ?_ h
  · intro done entry c c' u u' ⟨hacc, hev, hkept⟩ hround
    obtain ⟨hacc', hev', hkept'⟩ := primaryStep_ok hround
    refine ⟨?_, ?_, hkept.trans hkept'⟩
    · intro e he
      rcases List.mem_append.mp he with he | he
      · exact hacc e he
      · obtain rfl := List.mem_singleton.mp he
        exact hacc'
    · rw [hev', hev, List.map_append, List.append_assoc]
      rfl
  · exact ⟨by simp, by simp, rfl, rfl⟩

end

/-! ## The optimizer -/

theorem optimizer_ok {cfg : EngineConfig} {b : Backend P E L G τ M} {objective : String}
    {s t : Engine P E L τ M} {opt : Optimizer M}
    (h : exec (optimizer cfg b objective) s = (.ok opt, t)) :
    opt = slotOptimizer cfg b objective s ∧ t.events = s.events ∧ t.params = s.params ∧
      t.opts = if (s.opts.lookup (cfg.key objective)).isSome then s.opts
        else s.opts.insert (cfg.key objective) opt := by
  unfold optimizer at h
  rw [exec_get_bind] at h
  cases hl : s.opts.lookup (cfg.key objective) with
  | some opt' =>
    simp only [hl] at h
    cases h
    exact ⟨by simp [slotOptimizer, hl], rfl, rfl, by simp⟩
  | none =>
    simp only [hl] at h
    cases h
    exact ⟨by simp [slotOptimizer, hl], rfl, rfl, by simp⟩

theorem optimize_ok {cfg : EngineConfig} {b : Backend P E L G τ M} {objective : String}
    {loss : L} {s t : Engine P E L τ M} {out : StepOutcome L}
    (h : exec (optimize cfg b objective loss) s = (.ok out, t)) :
    t.events = s.events ++
      [.backward loss, .step (cfg.key objective) (slotOptimizer cfg b objective s).lr] := by
  unfold optimize at h
  obtain ⟨opt, s₁, hopt, h⟩ := exec_bind_ok.mp h
  obtain ⟨hslot, hev, _, _⟩ := optimizer_ok hopt
  rw [exec_get_bind, exec_record_bind] at h
  obtain ⟨grad, _, h⟩ := exec_ofExcept_bind_ok.mp h
  obtain ⟨⟨params, moments⟩, _, h⟩ := exec_ofExcept_bind_ok.mp h
  cases h
  simp [hev, ← hslot]

theorem slotOptimizer_congr {cfg : EngineConfig} {b : Backend P E L G τ M} {objective : String}
    {s t : Engine P E L τ M} (h : Kept s t) :
    slotOptimizer cfg b objective t = slotOptimizer cfg b objective s := by
  unfold slotOptimizer
  rw [h.1]

/-! ## The whole step -/

variable [AddCommGroup L]

theorem stepSingle_trained {cfg : EngineConfig} {b : Backend P E L G τ M} {spec : TrainSpec}
    (hsingle : spec.entries? = none) {s t : Engine P E L τ M} {out : StepOutcome L}
    (h : exec (stepSingle cfg b spec) s = (.ok out, t)) (hout : out.skipped = false) :
    Trained cfg b spec s t := by
  unfold stepSingle at h
  obtain ⟨v, hname, h⟩ := exec_ofExcept_bind_ok.mp h
  obtain ⟨kwargs, hkw, h⟩ := exec_ofExcept_bind_ok.mp h
  obtain ⟨⟨name, first⟩, s₁, hcall, h⟩ := exec_bind_ok.mp h
  obtain ⟨hv, hacc, hev₁, hkept₁⟩ := callPrimary_ok hcall
  rw [hv] at hname
  obtain ⟨bos, hbos, h⟩ := exec_ofExcept_bind_ok.mp h
  obtain ⟨loss, s₂, hloop, h⟩ := exec_bind_ok.mp h
  obtain ⟨hev₂, hkept₂⟩ := batchLoop_ok hloop
  have hobj : spec.objective.get? = some name := nameField_ok hname
  have hbl : spec.batchList = bos := by simp [TrainSpec.batchList, notNone_ok hbos]
  have hpl : spec.primaryList = [⟨name, spec.samples.getD [], kwargs, false⟩] := by
    simp [TrainSpec.primaryList, hsingle, hobj, TrainSpec.defaultKwargs, notNone_ok hkw]
  cases loss with
  | none =>
    cases h
    cases hout
  | some loss =>
    have hev₃ := optimize_ok h
    rw [slotOptimizer_congr hkept₂, slotOptimizer_congr hkept₁] at hev₃
    refine ⟨?_, first, loss, ?_⟩
    · rw [hpl]
      intro p hp
      obtain rfl := List.mem_singleton.mp hp
      exact hacc
    · rw [hev₃, hev₂, hev₁, hpl, hbl]
      simp [primaryEvent, batchEvent, TrainSpec.slot, TrainSpec.monitored,
        TrainSpec.batchSamples, hsingle, hobj]

variable [Module ℚ L]

theorem stepMulti_trained {cfg : EngineConfig} {b : Backend P E L G τ M} {spec : TrainSpec}
    {primaries : List ObjectiveSpec} (hmulti : spec.entries? = some primaries)
    {s t : Engine P E L τ M} {out : StepOutcome L}
    (h : exec (stepMulti cfg b spec primaries) s = (.ok out, t)) (hout : out.skipped = false) :
    Trained cfg b spec s t := by
  unfold stepMulti at h
  obtain ⟨kwargs, hkw, h⟩ := exec_ofExcept_bind_ok.mp h
  obtain ⟨acc, s₁, hprim, h⟩ := exec_bind_ok.mp h
  obtain ⟨hacc, hev₁, hkept₁⟩ := primaryLoop_ok hprim
  obtain ⟨samples, hsamples, h⟩ := exec_ofExcept_bind_ok.mp h
  obtain ⟨acc', s₂, hloop, h⟩ := exec_bind_ok.mp h
  obtain ⟨hev₂, hkept₂⟩ := batchLoop_ok hloop
  have hsamples' : spec.samples.getD [] = some samples := notNone_ok hsamples
  have hpl : spec.primaryList =
      primaries.map fun entry => entry.resolve (spec.samples.getD []) kwargs := by
    simp [TrainSpec.primaryList, hmulti, TrainSpec.defaultKwargs, notNone_ok hkw]
  split at h
  · rename_i loss _ _
    have hev₃ := optimize_ok h
    rw [slotOptimizer_congr hkept₂, slotOptimizer_congr hkept₁] at hev₃
    refine ⟨?_, acc.first.getD ⟨none, []⟩, loss, ?_⟩
    · rw [hpl]
      intro p hp
      obtain ⟨entry, hentry, rfl⟩ := List.mem_map.mp hp
      exact hacc entry hentry
    · rw [hev₃, hev₂, hev₁, hpl]
      simp [batchEvent, TrainSpec.slot, TrainSpec.monitored, TrainSpec.batchSamples, hmulti,
        hsamples', Function.comp_def]
  · cases h
    cases hout

/-- **The events of a train step.** A step that reaches the optimizer calls every primary
and then every batch objective, in the order of the spec, makes one backward pass and
steps the optimizer of its slot. -/
theorem step_trained {cfg : EngineConfig} {b : Backend P E L G τ M} {spec : TrainSpec}
    {s t : Engine P E L τ M} {out : StepOutcome L}
    (h : exec (step cfg b spec) s = (.ok out, t)) (hout : out.skipped = false) :
    Trained cfg b spec s t := by
  unfold step at h
  split at h
  · rename_i primaries hobjs hget
    exact stepMulti_trained (by simp [TrainSpec.entries?, hobjs, hget]) h hout
  · rename_i hother
    refine stepSingle_trained ?_ h hout
    unfold TrainSpec.entries?
    cases hobjs : spec.hasObjs with
    | false => rfl
    | true =>
      cases hget : spec.objectives.get? with
      | none => rfl
      | some primaries => exact absurd hget (hother primaries hobjs)

end TrainEngine

end Trainfer
