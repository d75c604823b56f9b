import Trainfer.TrajectoryLog

/-! What the two idle schedulers pick from the trajectory log: a feedback record to replay,
by weighted choice, and an inference prompt to sample, the most recent one.

Both walk `iter_with_offsets` and stop with it when it raises. Times and weights are floats
and stay abstract. -/

namespace Trainfer

/-- `for x in gen:` with an `append` for each `x` that is not skipped. -/
def Gen.consume {α β : Type} (f : α → Except PyError (Option β)) (g : Gen α) :
    Except PyError (List β) := do
  let kept ← g.items.mapM f
  match g.error with
  | none => return kept.filterMap id
  | some e => throw e

/-- Float arithmetic as far as `_pick_record` uses it. -/
structure Clock (F : Type) where
  /-- `float(v)` -/
  toFloat : Value → Except PyError F
  now : F
  /-- `2 ** (-max(0, now - ts) / half_life)`, or one without a half-life. -/
  weight : F → F
  positive : F → Bool

/-- `IdleReplayScheduler`: replay counts by offset, and the policy. -/
structure IdleReplay where
  replayed : Nat → Int
  maxReplaysPerRecord : Int
  minFeedbackRecords : Int

namespace IdleReplay

variable {F : Type}

/-- One turn of the loop in `_pick_record`. -/
def candidate (clock : Clock F) (sched : IdleReplay) (item : Nat × Value) :
    Except PyError (Option (Nat × Value × F)) := do
  if sched.maxReplaysPerRecord ≤ sched.replayed item.1 then return none
  let record ← item.2.asDict
  let ts ← match record.lookup "ts" with
    | none => pure clock.now
    | some v => clock.toFloat v
  let w := clock.weight ts
  if clock.positive w then return some (item.1, item.2, w) else return none

/-- The scan of `_pick_record`. -/
def candidates (json : Json) (clock : Clock F) (sched : IdleReplay) (file : Bytes) :
    Except PyError (List (Nat × Value × F)) :=
  (TrajectoryLog.iterWithOffsets json file 0 (some ["feedback"])).consume (candidate clock sched)

/-- `_pick_record`, where `choice` is the index that `random.choices` draws. -/
def pickRecord (json : Json) (clock : Clock F) (choice : List F → Nat) (sched : IdleReplay)
    (file : Bytes) : Except PyError (Option (Nat × Value)) := do
  let found ← candidates json clock sched file
  if found.length < sched.minFeedbackRecords then return none
  match found[choice (found.map fun c => c.2.2)]? with
  | some c => return some (c.1, c.2.1)
  | none => throw ⟨.indexError, "Cannot choose from an empty population"⟩

end IdleReplay

/-- The verifier registry: each domain, with the `claims` of its verifier if it has one. -/
abbrev Verifiers := List (String × Option (Value → Except PyError Bool))

/-- `verifiers.select`: the first domain whose verifier claims the prompt. -/
def selectVerifier (prompt : Value) : Verifiers → Except PyError (Option String)
  | [] => .ok none
  | (_, none) :: rest => selectVerifier prompt rest
  | (domain, some claims) :: rest => do
    if ← claims prompt then return some domain else selectVerifier prompt rest

/-- The counts by offset, and the part of the policy that picks. -/
structure TTRLPicker where
  seen : Nat → Int
  maxPerPrompt : Int
  minPrompts : Int

namespace TTRLPicker

/-- One turn of the loop in `_pick_prompt`. -/
def candidate (verifiers : Verifiers) (picker : TTRLPicker) (item : Nat × Value) :
    Except PyError (Option (Nat × Value × String)) := do
  if picker.maxPerPrompt ≤ picker.seen item.1 then return none
  let prompt := JsonObject.get (← item.2.asDict) "prompt"
  if !prompt.truthy then return none
  match ← selectVerifier prompt verifiers with
  | none => return none
  | some domain => return some (item.1, prompt, domain)

/-- The rest of `_pick_prompt`, on what its loop has collected. -/
def newest (picker : TTRLPicker) (found : List (Nat × Value × String)) :
    Except PyError (Option (Nat × Value × String)) :=
  if found.length < picker.minPrompts then .ok none
  else
    match found.getLast? with
    | some c => .ok (some c)
    | none => .error ⟨.indexError, "list index out of range"⟩

def candidates (json : Json) (verifiers : Verifiers) (picker : TTRLPicker) (file : Bytes) :
    Except PyError (List (Nat × Value × String)) :=
  (TrajectoryLog.iterWithOffsets json file 0 (some ["inference"])).consume
    (candidate verifiers picker)

def pickPrompt (json : Json) (verifiers : Verifiers) (picker : TTRLPicker) (file : Bytes) :
    Except PyError (Option (Nat × Value × String)) := do
  picker.newest (← candidates json verifiers picker file)

end TTRLPicker

end Trainfer
