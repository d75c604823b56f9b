import Trainfer.SubmitTrain
import Trainfer.TrainTrace

/-! The number of samples that admission compares with the cap, and the number that the engine
hands to the primaries.

`submit_train` adds up the lists of the entries; the engine gives an entry without a list the
list of the spec. A request model writes every optional field of an entry, so an entry that
shares the list of the spec has the key `samples`, with `None`. -/

namespace Trainfer

open Effect

/-- A body of `POST /v1/train`: an entry of `objectives`. -/
structure ObjectiveRequest where
  name : String
  weight : ℚ := 1
  samples : Option (List Sample) := none
  kwargs : Option JsonObject := none
  extra : JsonObject := []

/-- A body of `POST /v1/train`. -/
structure TrainRequest where
  objective : Option String := none
  objectives : Option (List ObjectiveRequest) := none
  samples : List Sample := []
  batchObjectives : List JsonObject := []
  kwargs : JsonObject := []
  chunkSize : Int := 2

/-- An optional field as `model_dump` writes it. -/
def Field.ofOption {α : Type} : Option α → Field α
  | none => .null
  | some a => .val a

@[simp] theorem Field.get?_ofOption {α : Type} (o : Option α) : (Field.ofOption o).get? = o := by
  cases o <;> rfl

def ObjectiveRequest.modelDump (o : ObjectiveRequest) : ObjectiveSpec where
  name := .val o.name
  weight := .val o.weight
  samples := .ofOption o.samples
  kwargs := .ofOption o.kwargs
  extra := o.extra

def TrainRequest.modelDump (req : TrainRequest) : TrainSpec where
  objective := .ofOption req.objective
  objectives := .ofOption (req.objectives.map fun os => os.map ObjectiveRequest.modelDump)
  samples := .val req.samples
  batchObjectives := .val req.batchObjectives
  kwargs := .val req.kwargs
  chunkSize := .val req.chunkSize

/-! ## What the engine hands out -/

/-- The samples of the primaries, an entry's own or the spec's. -/
def TrainSpec.handed (spec : TrainSpec) : Nat :=
  (spec.primaryList.map fun p => (p.samples.getD []).length).sum

/-- The samples in a call of a primary. -/
def EngineEvent.samplesOf {L τ : Type} : EngineEvent L τ → Nat
  | .primary _ samples _ => (samples.getD []).length
  | _ => 0

variable {P E L G τ M : Type} [AddCommGroup L] [Module ℚ L]

/-- A step that reaches the optimizer has handed out that number. -/
theorem handed_of_trainStep {cfg : EngineConfig} {b : Backend P E L G τ M} {spec : TrainSpec}
    {s t : Engine P E L τ M} {out : StepOutcome L}
    (h : TrainEngine.trainStep cfg b spec s = (.ok out, t)) (hout : out.skipped = false) :
    (t.events.map EngineEvent.samplesOf).sum = spec.handed := by
  obtain ⟨-, first, loss, hevents⟩ := TrainEngine.step_trained h hout
  have hprimaries : (spec.primaryList.map (TrainEngine.primaryEvent cfg spec)).map
      (EngineEvent.samplesOf : EngineEvent L τ → Nat) =
        spec.primaryList.map fun p => (p.samples.getD []).length := by
    rw [List.map_map]
    rfl
  have hbatch : ((spec.batchList.map (TrainEngine.batchEvent cfg spec first)).map
      EngineEvent.samplesOf).sum = 0 := by
    rw [List.map_map]
    exact List.sum_eq_zero fun n hn => by
      obtain ⟨bo, -, rfl⟩ := List.mem_map.mp hn
      rfl
  rw [hevents, List.nil_append, List.map_append, List.map_append, List.sum_append,
    List.sum_append, hprimaries, hbatch]
  simp [TrainSpec.handed, EngineEvent.samplesOf]

/-! ## What admission counts -/

/-- The comparison is made with the number that the engine hands out, and decides alone. -/
structure Counts {ρ : Type} (m : Controller ρ) (spec : TrainSpec) : Prop where
  number : spec.totalSamples = .ok spec.handed
  above : m.maxSamples < spec.handed → m.admission spec = .error
    ⟨.trainfer .batchTooLarge,
      s!"batch_too_large: request has {spec.handed} samples, cap is {m.maxSamples}"⟩
  within : spec.handed ≤ m.maxSamples → m.admission spec = .ok ()

/-- The loop of the admission comes to its end exactly if every entry has a list. -/
theorem countLoop_ok_iff {os : List ObjectiveRequest} {n k : Nat} :
    (os.map ObjectiveRequest.modelDump).foldlM
        (fun total obj => (pyLen (obj.samples.getD [])).map fun n => total + n) n = .ok k ↔
      (∀ o ∈ os, o.samples ≠ none) ∧
        k = n + (os.map fun o => (o.samples.getD []).length).sum := by
  induction os generalizing n with
  | nil =>
    simp only [List.map_nil, List.foldlM_nil, pure, Except.pure, Except.ok.injEq, List.sum_nil,
      Nat.add_zero, List.not_mem_nil, false_implies, implies_true, true_and]
    exact eq_comm
  | cons o os ih =>
    rw [List.map_cons, List.foldlM_cons, List.forall_mem_cons, List.map_cons, List.sum_cons]
    cases hsamples : o.samples with
    | none =>
      simp [ObjectiveRequest.modelDump, hsamples, Field.ofOption, pyLen, Except.map, bind,
        Except.bind]
    | some ss =>
      have hturn : (pyLen (o.modelDump.samples.getD [])).map (fun k => n + k) =
          .ok (n + ss.length) := by
        simp [ObjectiveRequest.modelDump, hsamples, Field.ofOption, pyLen, Except.map]
      rw [hturn]
      refine Iff.trans (@ih (n + ss.length)) ?_
      simp [Nat.add_assoc]

theorem entries?_modelDump (req : TrainRequest) :
    req.modelDump.entries? = match req.objectives with
      | none => none
      | some os => if os.isEmpty then none else some (os.map ObjectiveRequest.modelDump) := by
  unfold TrainSpec.entries? TrainSpec.hasObjs TrainRequest.modelDump
  cases req.objectives with
  | none => rfl
  | some os => cases os <;> simp

/-- An entry with a list is handed its own. -/
theorem handed_of_lists {req : TrainRequest} {os : List ObjectiveRequest}
    (hentries : req.modelDump.entries? = some (os.map ObjectiveRequest.modelDump))
    (hlists : ∀ o ∈ os, o.samples ≠ none) :
    req.modelDump.handed = (os.map fun o => (o.samples.getD []).length).sum := by
  rw [TrainSpec.handed, TrainSpec.primaryList, hentries, List.map_map, List.map_map]
  refine congrArg List.sum (List.map_congr_left fun o ho => ?_)
  obtain ⟨ss, hss⟩ := Option.ne_none_iff_exists'.mp (hlists o ho)
  simp [Function.comp, ObjectiveSpec.resolve, ObjectiveRequest.modelDump, hss]

theorem totalSamples_eq_handed_iff (req : TrainRequest) :
    req.modelDump.totalSamples = .ok req.modelDump.handed ↔
      ∀ os, req.objectives = some os → ∀ o ∈ os, o.samples ≠ none := by
  have hentries := entries?_modelDump req
  cases hobjs : req.modelDump.hasObjs with
  | false =>
    have hnone : req.modelDump.entries? = none := by simp [TrainSpec.entries?, hobjs]
    have hsingle : req.modelDump.handed = req.samples.length := by
      simp only [TrainSpec.handed, TrainSpec.primaryList, hnone]
      rfl
    constructor
    · intro _ os hos o ho
      rw [hnone, hos] at hentries
      cases os with
      | nil => cases ho
      | cons o' os => simp at hentries
    · intro _
      rw [hsingle, TrainSpec.totalSamples, hobjs]
      rfl
  | true =>
    cases hos : req.objectives with
    | none => simp [TrainSpec.hasObjs, TrainRequest.modelDump, hos] at hobjs
    | some os =>
      have hget : req.modelDump.objectiveList = os.map ObjectiveRequest.modelDump := by
        simp [TrainSpec.objectiveList, TrainRequest.modelDump, hos]
      have hne : os.isEmpty = false := by
        cases os with
        | nil => simp [TrainSpec.hasObjs, TrainRequest.modelDump, hos] at hobjs
        | cons o os => rfl
      have hentries : req.modelDump.entries? = some (os.map ObjectiveRequest.modelDump) := by
        simpa [hos, hne] using hentries
      rw [TrainSpec.totalSamples, if_pos hobjs, hget, countLoop_ok_iff, Nat.zero_add]
      constructor
      · rintro ⟨hlists, -⟩ _ ⟨⟩
        exact hlists
      · intro hlists
        exact ⟨hlists os rfl, handed_of_lists hentries (hlists os rfl)⟩

theorem admission_eq {ρ : Type} {m : Controller ρ} {spec : TrainSpec}
    (hopen : m.shuttingDown = false) (hshape : spec.checkShape = .ok ()) {n : Nat}
    (htotal : spec.totalSamples = .ok n) :
    m.admission spec = if m.maxSamples < n then
      .error ⟨.trainfer .batchTooLarge,
        s!"batch_too_large: request has {n} samples, cap is {m.maxSamples}"⟩ else .ok () := by
  simp [Controller.admission, Controller.rejectIfShuttingDown, hopen, hshape, htotal, bind,
    Except.bind]

/-- **Admission.** For a request of one of the two shapes, admission counts what the engine hands
to the primaries, refuses above the cap and lets through at or below it, exactly if no entry
leaves its samples to the spec. -/
theorem counts_iff {ρ : Type} {m : Controller ρ} {req : TrainRequest}
    (hopen : m.shuttingDown = false) (hshape : req.modelDump.checkShape = .ok ()) :
    Counts m req.modelDump ↔ ∀ os, req.objectives = some os → ∀ o ∈ os, o.samples ≠ none := by
  rw [← totalSamples_eq_handed_iff]
  constructor
  · exact fun h => h.number
  · intro htotal
    have hadmission := admission_eq hopen hshape htotal
    refine ⟨htotal, fun habove => ?_, fun hwithin => ?_⟩
    · rw [hadmission, if_pos habove]
    · rw [hadmission, if_neg (not_lt.mpr hwithin)]

/-- Two entries, each with its own list. -/
def routedRequest : TrainRequest where
  objectives := some [{ name := "sft", samples := some [[], []] },
    { name := "kto", samples := some [[]] }]

theorem routedRequest_counts :
    Counts (Controller.init 2 64 : Controller Unit) routedRequest.modelDump ∧
      Counts (Controller.init 3 64 : Controller Unit) routedRequest.modelDump :=
  ⟨(counts_iff rfl rfl).mpr (by rintro _ ⟨⟩; decide),
    (counts_iff rfl rfl).mpr (by rintro _ ⟨⟩; decide)⟩

/-- One entry, which shares the list of the spec. -/
def sharedRequest : TrainRequest where
  objectives := some [{ name := "sft" }]
  samples := [[], []]

/-- The entry is handed two samples, and counting it fails. -/
theorem sharedRequest_fails :
    sharedRequest.modelDump.handed = 2 ∧
      (Controller.init 64 64 : Controller Unit).admission sharedRequest.modelDump =
        .error ⟨.typeError, "object of type 'NoneType' has no len()"⟩ ∧
      ¬ Counts (Controller.init 64 64 : Controller Unit) sharedRequest.modelDump := by
  refine ⟨rfl, rfl, fun h => ?_⟩
  have hnumber := h.number
  cases hnumber

end Trainfer
