import Trainfer.LogRoundTrip
import Trainfer.Schedulers
import Trainfer.Lib.Runs

/-! The TTRL scheduler and the log it picks from.

A poll picks the newest inference record under its cap and samples rollouts of its prompt
with `Controller.generate`, which writes an inference record of its own to the same log. The
text of a rollout, the keys that the verifiers extract from it and whether a submission goes
through come from outside and are part of the event. -/

namespace Trainfer.TTRL

open TrajectoryLog (appendRaw appendAll eventPayload)

structure Policy where
  kRollouts : Int
  maxPerPrompt : Int
  minPrompts : Int

/-! ## The vote -/

/-- `Counter(keys).most_common(1)`: the first of the keys with the largest count. -/
def mostCommon (keys : List String) : Option (String × Nat) :=
  keys.foldl (fun best key =>
    match best with
    | none => some (key, keys.count key)
    | some b => if b.2 < keys.count key then some (key, keys.count key) else some b) none

/-- `_majority_from_keys`. -/
def majorityFromKeys (keys : List (Option String)) (minCount : Nat) : Option (Nat × String) :=
  match mostCommon (keys.filterMap id) with
  | none => none
  | some (winner, top) =>
    if top < minCount then none
    else some (keys.findIdx fun key => key == some winner, winner)

/-! ## The log -/

/-- Who has written a record; a ghost of the model. -/
inductive Source where
  | user
  | sampler
  | other
  deriving DecidableEq

structure Record where
  offset : Nat
  payload : JsonObject
  source : Source

/-- `str(v)`, for the content of a message. -/
def textOf : Value → String
  | .str s => s
  | v => v.reprScalar

def Record.prompt (r : Record) : String := textOf (JsonObject.get r.payload "prompt")

/-- What a call of `generate` logs besides the prompt. -/
structure Reply where
  responseId : String
  response : String
  modelFingerprint : String
  ts : ℚ
  requestId : Option String
  deriving DecidableEq

/-- The payload of `log_inference`. -/
def inferencePayload (prompt : String) (reply : Reply) : JsonObject :=
  eventPayload "inference" reply.ts reply.requestId
    [("response_id", .str reply.responseId), ("prompt", .str prompt),
      ("response", .str reply.response), ("model_fingerprint", .str reply.modelFingerprint)]

/-! ## The scheduler -/

inductive Phase where
  /-- Between two polls. -/
  | waiting
  /-- Sampling, with so many calls of `generate` to go. -/
  | sampling (offset : Nat) (prompt domain : String) (left : Nat) (rollouts : List String)
  /-- The task has ended with an exception. -/
  | crashed

/-- A train step that was enqueued. -/
structure PseudoLabel where
  offset : Nat
  prompt : String
  response : String

structure State where
  file : Bytes
  records : List Record
  seen : Nat → Int
  phase : Phase
  labels : List PseudoLabel
  /-- The offsets that were picked. -/
  picks : List Nat

/-- One `generate` of the sampling: the record it has logged, if it got so far, and the raw
and parsed text it has returned, if it did not raise. -/
structure Rollout where
  logged : Option Reply
  result : Option (String × String)

inductive Event where
  | user (prompt : String) (reply : Reply)
  /-- Any other record of the daemon. -/
  | other (payload : JsonObject)
  /-- A poll that finds the queue idle. -/
  | poll
  | rollout (r : Rollout)
  /-- The vote on the rollouts, given their keys, and the submission of the winner. -/
  | finish (keys : List (Option String)) (submitted : Bool)

def State.log (s : State) (json : Json) (payload : JsonObject) (source : Source) : State :=
  let (offset, file) := appendRaw json s.file payload
  { s with file := file, records := s.records ++ [⟨offset, payload, source⟩] }

def picker (policy : Policy) (s : State) : TTRLPicker where
  seen := s.seen
  maxPerPrompt := policy.maxPerPrompt
  minPrompts := policy.minPrompts

/-- `self._seen[offset] = self._seen.get(offset, 0) + 1`. -/
def bump (seen : Nat → Int) (offset : Nat) : Nat → Int :=
  fun o => if o = offset then seen o + 1 else seen o

/-- `result.get("raw") or result.get("response") or ""`. -/
def rolloutText (raw response : String) : String := if raw = "" then response else raw

def poll (json : Json) (verifiers : Verifiers) (policy : Policy) (s : State) : State :=
  match (picker policy s).pickPrompt json verifiers s.file with
  | .error _ => { s with phase := .crashed }
  | .ok none => s
  | .ok (some (offset, prompt, domain)) =>
    { s with
      phase := .sampling offset (textOf prompt) domain policy.kRollouts.toNat []
      picks := s.picks ++ [offset] }

/-- The rest of `_maybe_run_one`, after the sampling. -/
def finish (s : State) (offset : Nat) (prompt : String) (rollouts : List String)
    (keys : List (Option String)) (submitted : Bool) : State :=
  match majorityFromKeys keys 2 with
  | none => { s with seen := bump s.seen offset, phase := .waiting }
  | some (idx, _) =>
    match rollouts[idx]? with
    | none => { s with phase := .crashed }
    | some winner =>
      -- the cap is charged before the submission, which may raise
      let s := { s with seen := bump s.seen offset, phase := .waiting }
      if submitted then { s with labels := s.labels ++ [⟨offset, prompt, winner⟩] } else s

def step (json : Json) (verifiers : Verifiers) (policy : Policy) (s : State) :
    Event → Option State
  | .user prompt reply => some (s.log json (inferencePayload prompt reply) .user)
  | .other payload => some (s.log json payload .other)
  | .poll =>
    match s.phase with
    | .waiting => some (poll json verifiers policy s)
    | _ => none
  | .rollout r =>
    match s.phase with
    | .sampling offset prompt domain (left + 1) rollouts =>
      let s := match r.logged with
        | some reply => s.log json (inferencePayload prompt reply) .sampler
        | none => s
      let rollouts := match r.result with
        | some (raw, response) => rollouts ++ [rolloutText raw response]
        | none => rollouts
      some { s with phase := .sampling offset prompt domain left rollouts }
    | _ => none
  | .finish keys submitted =>
    match s.phase with
    | .sampling offset prompt _ 0 rollouts =>
      if keys.length = rollouts.length then some (finish s offset prompt rollouts keys submitted)
      else none
    | _ => none

/-- The process starts on a log with these records. -/
def start (json : Json) (initial : List (JsonObject × Source)) : State where
  file := (appendAll json [] (initial.map Prod.fst)).2
  records := ((appendAll json [] (initial.map Prod.fst)).1.zip initial).map
    fun e => ⟨e.1, e.2.1, e.2.2⟩
  seen := fun _ => 0
  phase := .waiting
  labels := []
  picks := []

/-! ## The bound -/

/-- The inference records that come from user requests. -/
def State.userRecords (s : State) : List Record :=
  s.records.filter fun r => decide (r.source = .user)

/-- Train steps for a prompt are bounded by its user requests, and picks by all of them. -/
structure Bounded (policy : Policy) (s : State) : Prop where
  labels : ∀ p, ((s.labels.filter fun l => l.prompt == p).length : Int) ≤
    policy.maxPerPrompt * (s.userRecords.filter fun r => r.prompt == p).length
  picks : (s.picks.length : Int) ≤ policy.maxPerPrompt * s.userRecords.length

/-- The bounds hold throughout the run, and once no user request arrives any more the number
of picks stays below the bound of that moment. -/
structure NoSelfFeeding (json : Json) (verifiers : Verifiers) (policy : Policy)
    (initial : List (JsonObject × Source)) (events : List Event) : Prop where
  bounded : Runs.Always (step json verifiers policy) (Bounded policy) (start json initial) events
  stops : ∀ before after s t, events = before ++ after →
    Runs.exec (step json verifiers policy) (start json initial) before = some s →
    Runs.exec (step json verifiers policy) s after = some t →
    (∀ prompt reply, .user prompt reply ∉ after) →
    (t.picks.length : Int) ≤ policy.maxPerPrompt * s.userRecords.length

/-- The record is of the kind that is scanned, under its cap and claimed. -/
def eligible (verifiers : Verifiers) (policy : Policy) (s : State) (r : Record) : Bool :=
  hasKind (some ["inference"]) r.payload &&
    match TTRLPicker.candidate verifiers (picker policy s) (r.offset, .dict r.payload) with
    | .ok (some _) => true
    | _ => false

/-- At a poll, the newest eligible record comes from a user request, unless there are fewer
eligible ones than the picker asks for. -/
def UserNewest (verifiers : Verifiers) (policy : Policy) (s : State) : Event → Prop
  | .poll =>
    ((s.records.filter (eligible verifiers policy s)).length : Int) < policy.minPrompts ∨
      ∀ r ∈ (s.records.filter (eligible verifiers policy s)).getLast?, r.source = .user
  | _ => True

instance (verifiers : Verifiers) (policy : Policy) (s : State) :
    DecidablePred (UserNewest verifiers policy s)
  | .poll => inferInstanceAs (Decidable (_ ∨ _))
  | .user .. | .other _ | .rollout _ | .finish .. => inferInstanceAs (Decidable True)

/-- The payload that an event logs. -/
def logged (s : State) : Event → Option JsonObject
  | .user prompt reply => some (inferencePayload prompt reply)
  | .other payload => some payload
  | .rollout r =>
    match s.phase with
    | .sampling _ prompt _ _ _ => r.logged.map (inferencePayload prompt)
    | _ => none
  | _ => none

end Trainfer.TTRL
