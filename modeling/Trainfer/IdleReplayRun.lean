import Trainfer.FeedbackReplay
import Trainfer.LogReaders
import Trainfer.DaemonStream
import Mathlib

/-! Runs of the idle replay scheduler.

Between two polls anything may happen to the log, to the queue and to the clock. A poll itself
goes from the idle check to the update of the counts without a suspension, because
`submit_train` never suspends, so it is one step. -/

namespace Trainfer.ReplayRun

open ComputeQueue (QueueTask)
open TrajectoryLog (iterWithOffsets scan)

variable {ρ F : Type}

/-- `ReplayPolicy`. Seconds are ticks of the monotonic clock; the half-life is part of the
weights. -/
structure ReplayPolicy where
  idleThreshold : Nat
  maxReplaysPerRecord : Int
  minFeedbackRecords : Int

/-- `stats` -/
structure Stats where
  idleChecks : Nat := 0
  replaysEnqueued : Nat := 0
  replaysSkippedEmpty : Nat := 0
  replaysSkippedCapped : Nat := 0
  lastReplayOffset : Int := -1

inductive Phase where
  | stopped
  | running
  /-- The task has ended with an exception. -/
  | crashed

/-- A record that was picked. The rest is about the moment: the log, the queue, the clock and
the times of all submits so far. -/
structure Pick (ρ : Type) where
  offset : Nat
  record : JsonObject
  /-- What was handed to `submit_train`, and whether that went through. -/
  submission : Option (TrainSpec × Bool)
  file : Bytes
  queue : ComputeQueue.State Payload ρ
  now : Nat
  submits : List Nat

structure State (ρ : Type) where
  drain : GracefulDrain.State Payload ρ
  shuttingDown : Bool
  file : Bytes
  /-- The last reading of `time.monotonic`. -/
  clock : Nat
  phase : Phase
  replayed : Nat → Int
  stats : Stats
  /-- When a submit went through; a ghost, like `picks`. -/
  submits : List Nat
  picks : List (Pick ρ)

def init (maxDepth : Int) (file : Bytes) : State ρ where
  drain := GracefulDrain.init maxDepth
  shuttingDown := false
  file := file
  clock := 0
  phase := .stopped
  replayed := fun _ => 0
  stats := {}
  submits := []
  picks := []

def scheduler (policy : ReplayPolicy) (s : State ρ) : IdleReplay where
  replayed := s.replayed
  maxReplaysPerRecord := policy.maxReplaysPerRecord
  minFeedbackRecords := policy.minFeedbackRecords

def controller (maxSamples : Int) (s : State ρ) : Controller ρ :=
  ⟨s.shuttingDown, maxSamples, s.drain.queue⟩

/-- The spec with `_replay` and `_replay_offset`. -/
def tagged (spec : TrainSpec) (offset : Nat) : TrainSpec :=
  { spec with extra :=
      JsonObject.update spec.extra [("_replay", .bool true), ("_replay_offset", .num offset)] }

/-- The time of the submit that has led from one queue to the other, if there was one. -/
def submitted (q q' : ComputeQueue.State Payload ρ) : List Nat :=
  if q.nextToken < q'.nextToken then [q'.lastEnqueueTs] else []

/-- What a poll depends on: the clock at the idle check and at the submit, the wall clock with
its weights, what `random.choices` draws, and the new batch id. -/
structure Poll (F : Type) where
  checkedAt : Nat
  submittedAt : Nat
  wall : Clock F
  choice : List F → Nat
  batchId : String

/-- The end of `_maybe_replay_one`, with a spec. -/
def replay (maxSamples : Int) (p : Poll F) (s : State ρ) (offset : Nat) (record : JsonObject)
    (spec : TrainSpec) : State ρ :=
  let spec := tagged spec offset
  let (result, m) := (controller maxSamples s).submitTrain spec p.batchId fun _ => p.submittedAt
  let ok := match result with
    | .ok _ => true
    | .error _ => false
  let s' := { s with
    drain := { s.drain with queue := m.queue }
    submits := s.submits ++ submitted s.drain.queue m.queue
    picks := s.picks ++ [⟨offset, record, some (spec, ok), s.file, s.drain.queue,
      p.submittedAt, s.submits⟩] }
  -- `except Exception` logs what `submit_train` raises
  if ok then
    { s' with
      replayed := Function.update s.replayed offset (s.replayed offset + 1)
      stats := { s.stats with
        replaysEnqueued := s.stats.replaysEnqueued + 1
        lastReplayOffset := offset } }
  else s'

/-- `_maybe_replay_one`. -/
def maybeReplayOne (json : Json) (policy : ReplayPolicy) (maxSamples : Int) (p : Poll F)
    (s : State ρ) : State ρ :=
  match (scheduler policy s).pickRecord json p.wall p.choice s.file with
  | .error _ => { s with phase := .crashed }
  | .ok none =>
    { s with stats :=
        { s.stats with replaysSkippedEmpty := s.stats.replaysSkippedEmpty + 1 } }
  | .ok (some (offset, v)) =>
    match v.asDict with
    | .error _ => { s with phase := .crashed }
    | .ok record =>
      match feedbackToBatch record .null .null with
      | none =>
        -- not replayable: its count is burnt
        { s with
          replayed := Function.update s.replayed offset policy.maxReplaysPerRecord
          stats := { s.stats with replaysSkippedCapped := s.stats.replaysSkippedCapped + 1 }
          picks := s.picks ++
            [⟨offset, record, none, s.file, s.drain.queue, p.submittedAt, s.submits⟩] }
      | some spec => replay maxSamples p s offset record spec

/-- One turn of `_run`, from the end of its sleep. -/
def poll (json : Json) (policy : ReplayPolicy) (maxSamples : Int) (p : Poll F) (s : State ρ) :
    State ρ :=
  let s := { s with
    clock := p.submittedAt
    stats := { s.stats with idleChecks := s.stats.idleChecks + 1 } }
  if ComputeQueue.isIdleFor s.drain.queue p.checkedAt policy.idleThreshold then
    maybeReplayOne json policy maxSamples p s
  else s

inductive Label (ρ F : Type) where
  | start
  /-- The loop sees `_stop`, or is cancelled. -/
  | ended
  | poll (p : Poll F)
  /-- The log grows. -/
  | append (bytes : Bytes)
  /-- Anything that happens to the queue. -/
  | queue (a : GracefulDrain.Label Payload ρ)
  | shutdown

/-- The reading of the clock that a submit stores. -/
def readAt : GracefulDrain.Label Payload ρ → Option Nat
  | .queue (.submit _ _ _ now) | .queue (.trySubmit _ _ _ now) => some now
  | _ => none

/-- One step. `time.monotonic` does not go backwards. -/
def step (json : Json) (policy : ReplayPolicy) (maxSamples : Int) (s : State ρ) :
    Label ρ F → Option (State ρ)
  | .start =>
    match s.phase with
    | .stopped => some { s with phase := .running }
    | _ => none
  | .ended =>
    match s.phase with
    | .running => some { s with phase := .stopped }
    | _ => none
  | .poll p =>
    match s.phase with
    | .running =>
      if s.clock ≤ p.checkedAt ∧ p.checkedAt ≤ p.submittedAt then
        some (poll json policy maxSamples p s)
      else none
    | _ => none
  | .append bytes => some { s with file := s.file ++ bytes }
  | .queue a =>
    let now := (readAt a).getD s.clock
    if s.clock ≤ now then
      (GracefulDrain.step s.drain a).map fun drain => { s with
        drain := drain
        clock := now
        submits := s.submits ++ submitted s.drain.queue drain.queue }
    else none
  | .shutdown => some { s with shuttingDown := true }

/-! ## Safety -/

/-- `submit_train` was called for the pick and has returned. -/
def Pick.replayed (p : Pick ρ) : Bool :=
  match p.submission with
  | some (_, ok) => ok
  | none => false

/-- The picks of an offset that were submitted. -/
def State.replaysOf (s : State ρ) (offset : Nat) : List (Pick ρ) :=
  s.picks.filter fun p => p.offset == offset && p.replayed

/-- A feedback record of the log was picked while the queue was idle, and submitted, if it was,
as what `feedback_to_batch` makes of it. -/
structure Pick.Good (json : Json) (policy : ReplayPolicy) (p : Pick ρ) : Prop where
  logged : (p.offset, .dict p.record) ∈ (iterWithOffsets json p.file 0 (some ["feedback"])).items
  feedback : (JsonObject.get p.record "kind").isStr "feedback" = true
  spec : p.submission.map Prod.fst =
    (feedbackToBatch p.record .null .null).map fun spec => tagged spec p.offset
  idle : ComputeQueue.isIdleFor p.queue p.now policy.idleThreshold = true
  nonePending : p.queue.pending = []
  quiet : ∀ submit ∈ p.submits, submit + policy.idleThreshold ≤ p.now

structure Safe (json : Json) (policy : ReplayPolicy) (s : State ρ) : Prop where
  capped : ∀ offset, ((s.replaysOf offset).length : Int) ≤ max 0 policy.maxReplaysPerRecord
  good : ∀ p ∈ s.picks, p.Good json policy
  /-- A record without a spec is not picked again. -/
  burnt : s.picks.Pairwise fun p q =>
    feedbackToBatch p.record .null .null = none → q.offset ≠ p.offset

/-! ## The picker -/

/-- A filtered scan yields objects of the listed kinds. -/
theorem hasKind_of_mem_scan {json : Json} {ks : List String} {ls : List (Nat × Bytes)}
    {item : Nat × Value} (h : item ∈ (scan json (some ks) ls).items) :
    ∃ record, item.2 = .dict record ∧ hasKind (some ks) record = true := by
  induction ls with
  | nil => cases h
  | cons l ls ih =>
    obtain ⟨pos, line⟩ := l
    simp only [scan] at h
    split at h
    · exact ih h
    · cases hl : json.loads (Lines.strip isSpace line) with
      | error e =>
        simp only [hl] at h
        split at h
        · exact ih h
        · cases h
      | ok v =>
        simp only [hl] at h
        cases hp : passes (some ks) v with
        | error e =>
          simp only [hp] at h
          cases h
        | ok b =>
          simp only [hp] at h
          cases b with
          | false => exact ih h
          | true =>
            rcases List.mem_cons.mp h with rfl | h
            · rcases passes_ok hp with ⟨hnone, -⟩ | ⟨o, rfl, -, hkind⟩
              · cases hnone
              · exact ⟨o, rfl, hkind.symm⟩
            · exact ih h

theorem candidate_some {clock : Clock F} {sched : IdleReplay} {item : Nat × Value}
    {c : Nat × Value × F} (h : keptBy (sched.candidate clock) item = some c) :
    c.1 = item.1 ∧ c.2.1 = item.2 ∧ sched.replayed item.1 < sched.maxReplaysPerRecord := by
  have hok : sched.candidate clock item = .ok (some c) := by
    unfold keptBy at h
    split at h
    · rename_i o ho
      rw [ho, h]
    · cases h
  unfold IdleReplay.candidate at hok
  by_cases hcap : sched.maxReplaysPerRecord ≤ sched.replayed item.1
  · simp [hcap, pure, Except.pure] at hok
  · simp only [hcap, if_false, bind, Except.bind, pure, Except.pure] at hok
    have hend : ∀ w, (if clock.positive w = true then
          (Except.ok (some (item.1, item.2, w)) : Except PyError _) else .ok none) =
        .ok (some c) → c.1 = item.1 ∧ c.2.1 = item.2 := by
      intro w hw
      split at hw
      · obtain rfl := Option.some.inj (Except.ok.inj hw)
        exact ⟨rfl, rfl⟩
      · cases hw
    have hboth : c.1 = item.1 ∧ c.2.1 = item.2 := by
      cases hdict : item.2.asDict with
      | error e => simp [hdict] at hok
      | ok record =>
        cases hts : record.lookup "ts" with
        | none =>
          simp only [hdict, hts] at hok
          exact hend _ hok
        | some v =>
          cases hfloat : clock.toFloat v with
          | error e => simp [hdict, hts, hfloat] at hok
          | ok ts =>
            simp only [hdict, hts, hfloat] at hok
            exact hend _ hok
    exact ⟨hboth.1, hboth.2, not_le.mp hcap⟩

/-- What the picker returns is a feedback record of the log, under its cap. -/
theorem pickRecord_some {json : Json} {clock : Clock F} {choice : List F → Nat}
    {sched : IdleReplay} {file : Bytes} {offset : Nat} {v : Value}
    (h : sched.pickRecord json clock choice file = .ok (some (offset, v))) :
    (offset, v) ∈ (iterWithOffsets json file 0 (some ["feedback"])).items ∧
      (∃ record, v = .dict record ∧ (JsonObject.get record "kind").isStr "feedback" = true) ∧
      sched.replayed offset < sched.maxReplaysPerRecord := by
  obtain ⟨found, w, hfound, hmem⟩ := IdleReplay.mem_of_pickRecord h
  rw [IdleReplay.candidates] at hfound
  rw [(consume_ok hfound).2, List.mem_filterMap] at hmem
  obtain ⟨item, hitem, hkept⟩ := hmem
  obtain ⟨rfl, rfl, hcap⟩ := candidate_some hkept
  refine ⟨hitem, ?_, hcap⟩
  obtain ⟨record, hrecord, hkind⟩ := hasKind_of_mem_scan hitem
  exact ⟨record, hrecord, by simpa [hasKind] using hkind⟩

/-! ## Submits and the clock -/

/-- Between the queues nothing was submitted, or something at that time. -/
def Ticked (q q' : ComputeQueue.State Payload ρ) (now : Nat) : Prop :=
  q'.nextToken = q.nextToken ∧ q'.lastEnqueueTs = q.lastEnqueueTs ∨
    q.nextToken < q'.nextToken ∧ q'.lastEnqueueTs = now

theorem ticked_submit {q q' : ComputeQueue.State Payload ρ} {kind batchId : String}
    {payload : Payload} {now : Nat} {task : QueueTask Payload} {st : AsyncQueue.PutStatus}
    (h : ComputeQueue.submit q kind payload batchId now = .ok (task, st, q')) :
    Ticked q q' now := by
  obtain ⟨-, -, -, rfl⟩ := ComputeQueue.submit_ok h
  exact .inr ⟨Int.lt_succ _, rfl⟩

theorem ticked_reapLoop (ps : List (QueueTask Payload)) (q : ComputeQueue.State Payload ρ)
    (n : Nat) :
    (GracefulDrain.reapLoop q n ps).2.nextToken = q.nextToken ∧
      (GracefulDrain.reapLoop q n ps).2.lastEnqueueTs = q.lastEnqueueTs := by
  induction ps generalizing q n with
  | nil => exact ⟨rfl, rfl⟩
  | cons x ps ih =>
    unfold GracefulDrain.reapLoop
    split
    · exact ih q n
    · exact ih (GracefulDrain.dropTask q x) (n + 1)

/-- Only a submit issues a token, and it stores the time. -/
theorem ticked_drain {d d' : GracefulDrain.State Payload ρ} {a : GracefulDrain.Label Payload ρ}
    (h : GracefulDrain.step d a = some d') (clock : Nat) :
    Ticked d.queue d'.queue ((readAt a).getD clock) := by
  cases GracefulDrain.moved h with
  | queue hqueue =>
    cases ComputeQueue.stepped hqueue with
    | submitted ha hsub =>
      rcases ha with rfl | ⟨rfl, -⟩
      · exact ticked_submit hsub
      · exact ticked_submit hsub
    | _ => exact .inl ⟨rfl, rfl⟩
  | flags => exact .inl ⟨rfl, rfl⟩
  | reaped => exact .inl (ticked_reapLoop _ _ 0)

theorem Ticked.trans {q q' q'' : ComputeQueue.State Payload ρ} {now : Nat}
    (h : Ticked q q' now) (h' : Ticked q' q'' now) : Ticked q q'' now := by
  rcases h with ⟨htoken, htime⟩ | ⟨hlt, htime⟩
  · rcases h' with ⟨htoken', htime'⟩ | ⟨hlt', htime'⟩
    · exact .inl ⟨htoken'.trans htoken, htime'.trans htime⟩
    · exact .inr ⟨htoken ▸ hlt', htime'⟩
  · rcases h' with ⟨htoken', htime'⟩ | ⟨hlt', htime'⟩
    · exact .inr ⟨htoken' ▸ hlt, htime'.trans htime⟩
    · exact .inr ⟨lt_trans hlt hlt', htime'⟩

theorem ticked_submitTrain (m : Controller ρ) (spec : TrainSpec) (batchId : String) (now : Nat) :
    Ticked m.queue (m.submitTrain spec batchId fun _ => now).2.queue now := by
  refine Controller.submitTrain_preserves (I := fun q => Ticked m.queue q now) ?_ (.inl ⟨rfl, rfl⟩)
  exact fun q t st q' payload i hq hsub =>
    hq.trans (ticked_submit (ComputeQueue.trySubmit_ok hsub).2)

/-! ## The invariant -/

/-- The last submit is the latest one, and the clock has passed it. -/
structure Timed (q : ComputeQueue.State Payload ρ) (submits : List Nat) (clock : Nat) : Prop where
  last : ∀ submit ∈ submits, submit ≤ q.lastEnqueueTs
  past : q.lastEnqueueTs ≤ clock

theorem Timed.step {q q' : ComputeQueue.State Payload ρ} {submits : List Nat} {clock now : Nat}
    (h : Timed q submits clock) (htick : Ticked q q' now) (hnow : clock ≤ now) :
    Timed q' (submits ++ submitted q q') now := by
  rcases htick with ⟨htoken, htime⟩ | ⟨hlt, htime⟩
  · have hnone : submitted q q' = [] := by simp [submitted, htoken]
    rw [hnone, List.append_nil]
    exact ⟨fun submit hs => htime ▸ h.last submit hs, htime ▸ le_trans h.past hnow⟩
  · have hone : submitted q q' = [now] := by simp [submitted, hlt, htime]
    refine ⟨fun submit hs => ?_, htime ▸ le_refl now⟩
    rw [hone] at hs
    rw [htime]
    rcases List.mem_append.mp hs with hs | hs
    · exact le_trans (h.last submit hs) (le_trans h.past hnow)
    · exact le_of_eq (List.mem_singleton.mp hs)

structure Inv (json : Json) (policy : ReplayPolicy) (s : State ρ) : Prop where
  timed : Timed s.drain.queue s.submits s.clock
  counted : ∀ offset, ((s.replaysOf offset).length : Int) ≤ s.replayed offset
  capped : ∀ offset, s.replayed offset ≤ max 0 policy.maxReplaysPerRecord
  good : ∀ p ∈ s.picks, p.Good json policy
  /-- The count of a record without a spec is at the cap. -/
  spent : ∀ p ∈ s.picks, feedbackToBatch p.record .null .null = none →
    policy.maxReplaysPerRecord ≤ s.replayed p.offset
  burnt : s.picks.Pairwise fun p q =>
    feedbackToBatch p.record .null .null = none → q.offset ≠ p.offset

theorem Inv.safe {json : Json} {policy : ReplayPolicy} {s : State ρ} (h : Inv json policy s) :
    Safe json policy s :=
  ⟨fun offset => le_trans (h.counted offset) (h.capped offset), h.good, h.burnt⟩

theorem inv_init (json : Json) (policy : ReplayPolicy) (maxDepth : Int) (file : Bytes) :
    Inv json policy (init maxDepth file : State ρ) where
  timed := ⟨by simp [init], le_refl 0⟩
  counted := by simp [init, State.replaysOf]
  capped := by simp [init]
  good := by simp [init]
  spent := by simp [init]
  burnt := .nil

/-- What leaves the picks and the counts alone. -/
theorem Inv.frame {json : Json} {policy : ReplayPolicy} {s t : State ρ} (h : Inv json policy s)
    (htimed : Timed t.drain.queue t.submits t.clock) (hreplayed : t.replayed = s.replayed)
    (hpicks : t.picks = s.picks) : Inv json policy t where
  timed := htimed
  counted := by
    have hsame : t.replaysOf = s.replaysOf := by
      funext offset
      rw [State.replaysOf, State.replaysOf, hpicks]
    rw [hsame, hreplayed]
    exact h.counted
  capped := by rw [hreplayed]; exact h.capped
  good := by rw [hpicks]; exact h.good
  spent := by rw [hpicks, hreplayed]; exact h.spent
  burnt := by rw [hpicks]; exact h.burnt

/-- A pick under the cap is added, and the count of its offset goes up as far as it was
replayed, or to the cap. -/
theorem Inv.pick {json : Json} {policy : ReplayPolicy} {s t : State ρ} {p : Pick ρ} {n : Int}
    (h : Inv json policy s) (htimed : Timed t.drain.queue t.submits t.clock)
    (hpicks : t.picks = s.picks ++ [p]) (hgood : p.Good json policy)
    (hcap : s.replayed p.offset < policy.maxReplaysPerRecord)
    (hreplayed : t.replayed = Function.update s.replayed p.offset n)
    (hlow : s.replayed p.offset + (if p.replayed then 1 else 0) ≤ n)
    (hhigh : n ≤ policy.maxReplaysPerRecord)
    (hnone : feedbackToBatch p.record .null .null = none → n = policy.maxReplaysPerRecord) :
    Inv json policy t where
  timed := htimed
  counted := by
    intro offset
    have hcount := h.counted offset
    rw [hreplayed, State.replaysOf, hpicks, List.filter_append, List.length_append]
    by_cases hoffset : offset = p.offset
    · subst hoffset
      rw [Function.update_self]
      cases hp : p.replayed with
      | false => simpa [State.replaysOf, hp] using le_trans hcount (by simpa [hp] using hlow)
      | true =>
        simp only [State.replaysOf] at hcount
        simp only [hp, if_true] at hlow
        simp only [List.filter_cons, hp, beq_self_eq_true, Bool.and_self, if_true,
          List.filter_nil, List.length_singleton]
        push_cast
        omega
    · have hne : (p.offset == offset) = false := by simpa using Ne.symm hoffset
      rw [Function.update_of_ne hoffset]
      simpa [State.replaysOf, hne] using hcount
  capped := by
    intro offset
    rw [hreplayed]
    by_cases hoffset : offset = p.offset
    · rw [hoffset, Function.update_self]
      exact le_max_of_le_right hhigh
    · rw [Function.update_of_ne hoffset]
      exact h.capped offset
  good := by
    rw [hpicks]
    intro q hq
    rcases List.mem_append.mp hq with hq | hq
    · exact h.good q hq
    · exact List.mem_singleton.mp hq ▸ hgood
  spent := by
    rw [hpicks, hreplayed]
    intro q hq hspec
    rcases List.mem_append.mp hq with hq | hq
    · have hfull := h.spent q hq hspec
      -- a record at the cap was not picked
      have hne : q.offset ≠ p.offset := fun he => absurd (he ▸ hfull) (not_le.mpr hcap)
      rw [Function.update_of_ne hne]
      exact hfull
    · obtain rfl := List.mem_singleton.mp hq
      rw [Function.update_self, hnone hspec]
  burnt := by
    rw [hpicks]
    refine List.pairwise_append.mpr ⟨h.burnt, List.pairwise_singleton _ _, ?_⟩
    intro q hq p' hp' hspec he
    obtain rfl := List.mem_singleton.mp hp'
    exact absurd (he ▸ h.spent q hq hspec) (not_le.mpr hcap)

/-! ## The steps -/

/-- What is known where `_maybe_replay_one` is called. -/
theorem idle_later {q : ComputeQueue.State Payload ρ} {submits : List Nat} {clock now later n : Nat}
    (h : Timed q submits clock) (hnow : clock ≤ now) (hlater : now ≤ later)
    (hidle : ComputeQueue.isIdleFor q now n = true) :
    ComputeQueue.isIdleFor q later n = true ∧ q.pending = [] ∧
      ∀ submit ∈ submits, submit + n ≤ later := by
  unfold ComputeQueue.isIdleFor at hidle ⊢
  split at hidle
  · rename_i hpending
    have hgap := of_decide_eq_true hidle
    have hpast := h.past
    refine ⟨?_, List.isEmpty_iff.mp hpending, fun submit hs => ?_⟩
    · rw [if_pos hpending]
      exact decide_eq_true (by omega)
    · have hlast := h.last submit hs
      omega
  · cases hidle

theorem inv_maybeReplayOne {json : Json} {policy : ReplayPolicy} {maxSamples : Int} {p : Poll F}
    {s : State ρ} (h : Inv json policy s) (hclock : s.clock = p.submittedAt)
    (hidle : ComputeQueue.isIdleFor s.drain.queue p.submittedAt policy.idleThreshold = true)
    (hnone : s.drain.queue.pending = [])
    (hquiet : ∀ submit ∈ s.submits, submit + policy.idleThreshold ≤ p.submittedAt) :
    Inv json policy (maybeReplayOne json policy maxSamples p s) := by
  unfold maybeReplayOne
  split
  · exact h.frame h.timed rfl rfl
  · exact h.frame h.timed rfl rfl
  · rename_i offset v hpick
    obtain ⟨hlogged, ⟨record, rfl, hkind⟩, hunder⟩ := pickRecord_some hpick
    have hcap : s.replayed offset < policy.maxReplaysPerRecord := hunder
    simp only [Value.asDict]
    have hgood : ∀ submission : Option (TrainSpec × Bool),
        submission.map Prod.fst =
          (feedbackToBatch record .null .null).map (fun spec => tagged spec offset) →
        (⟨offset, record, submission, s.file, s.drain.queue, p.submittedAt, s.submits⟩ :
          Pick ρ).Good json policy :=
      fun _ hspec => ⟨hlogged, hkind, hspec, hidle, hnone, hquiet⟩
    cases hspec : feedbackToBatch record .null .null with
    | none =>
      exact h.pick h.timed rfl (hgood none (by rw [hspec]; rfl)) hcap rfl
        (by simpa [Pick.replayed] using hcap.le) (le_refl _) fun _ => rfl
    | some spec =>
      have htimed : ∀ m : Controller ρ,
          Ticked s.drain.queue m.queue p.submittedAt →
          Timed m.queue (s.submits ++ submitted s.drain.queue m.queue) s.clock := fun m hm =>
        hclock ▸ h.timed.step hm (le_of_eq hclock)
      simp only [replay]
      cases hsub : (controller maxSamples s).submitTrain (tagged spec offset) p.batchId
          fun _ => p.submittedAt with
      | mk result m =>
        have htick := ticked_submitTrain (controller maxSamples s) (tagged spec offset) p.batchId
          p.submittedAt
        rw [hsub] at htick
        have hsome : feedbackToBatch record .null .null ≠ none := by simp [hspec]
        cases result with
        | ok r =>
          exact h.pick (htimed m htick) rfl (hgood (some (_, true)) (by rw [hspec]; rfl)) hcap rfl
            (le_refl _) hcap fun hn => absurd hn hsome
        | error e =>
          refine h.pick (n := s.replayed offset) (htimed m htick) rfl
            (hgood (some (_, false)) (by rw [hspec]; rfl)) hcap ?_ (by simp [Pick.replayed])
            (le_of_lt hcap) fun hn => absurd hn hsome
          exact (Function.update_eq_self offset s.replayed).symm

theorem inv_step {json : Json} {policy : ReplayPolicy} {maxSamples : Int} (s : State ρ)
    (a : Label ρ F) (t : State ρ) (h : Inv json policy s)
    (hstep : step json policy maxSamples s a = some t) : Inv json policy t := by
  cases a with
  | start | ended =>
    simp only [step] at hstep
    split at hstep
    · obtain rfl := Option.some.inj hstep
      exact h.frame h.timed rfl rfl
    · cases hstep
  | poll p =>
    simp only [step] at hstep
    split at hstep
    · split at hstep
      · rename_i htime
        obtain ⟨hchecked, hsubmitted⟩ := htime
        obtain rfl := Option.some.inj hstep
        have htimed : Timed s.drain.queue s.submits p.submittedAt :=
          ⟨h.timed.last, le_trans h.timed.past (le_trans hchecked hsubmitted)⟩
        simp only [poll]
        split
        · rename_i hidle
          obtain ⟨hlater, hnone, hquiet⟩ := idle_later h.timed hchecked hsubmitted hidle
          exact inv_maybeReplayOne (h.frame htimed rfl rfl) rfl hlater hnone hquiet
        · exact h.frame htimed rfl rfl
      · cases hstep
    · cases hstep
  | append bytes =>
    obtain rfl := Option.some.inj hstep
    exact h.frame h.timed rfl rfl
  | queue a =>
    simp only [step] at hstep
    split at hstep
    · rename_i hnow
      obtain ⟨drain, hdrain, rfl⟩ := Option.map_eq_some_iff.mp hstep
      exact h.frame (h.timed.step (ticked_drain hdrain s.clock) hnow) rfl rfl
    · cases hstep
  | shutdown =>
    obtain rfl := Option.some.inj hstep
    exact h.frame h.timed rfl rfl

/-- **Idle replay.** In every run, whatever happens to the log, the queue and the clock, an
offset is replayed at most as often as the cap says, only feedback records with a spec are
submitted, as that spec with the replay tags, a record without one is not picked again, and the
queue is idle at every submission. -/
theorem idleReplay_safe (json : Json) (policy : ReplayPolicy) (maxSamples maxDepth : Int)
    (file : Bytes) (labels : List (Label ρ F)) :
    Runs.Always (step json policy maxSamples) (Safe json policy) (init maxDepth file) labels :=
  Runs.always_of_meets (fun s a t hi _ => inv_step s a t hi) (fun _ hi => hi.safe)
    (inv_init json policy maxDepth file) (Runs.meets_of_forall (fun _ _ => trivial) _ labels)

end Trainfer.ReplayRun
