import Trainfer.SubmitTrain
import Trainfer.TrajectoryLog

/-! Feedback: from a request to a log record and a train spec, and from the log record back to
a train spec when it is replayed.

The live path fills a missing prompt or response from the response index by truth value, the
log by the presence of the key. -/

namespace Trainfer

/-- `v or w`. -/
def Value.or (v w : Value) : Value := if v.truthy then v else w

/-- A body of `POST /v1/feedback`: the declared fields and whatever else was sent. -/
structure FeedbackRequest where
  responseId : Option String
  kind : String
  extra : JsonObject
  undeclared : ∀ e ∈ extra, e.1 ≠ "response_id" ∧ e.1 ≠ "kind"

namespace FeedbackRequest

def idValue (req : FeedbackRequest) : Value :=
  match req.responseId with
  | none => .null
  | some rid => .str rid

/-- `req.model_dump()`. -/
def modelDump (req : FeedbackRequest) : JsonObject :=
  [("response_id", req.idValue), ("kind", .str req.kind)] ++ req.extra

end FeedbackRequest

/-- An entry of the response index: `messages[-1].get("content")` and the response. -/
structure Remembered where
  content : Value
  response : Value

/-! ## Routing -/

/-- The kind that `feedback_to_batch` goes by. -/
def routingKind (record : JsonObject) : Value :=
  let kind := JsonObject.get record "feedback_kind"
  if kind.truthy then kind
  else
    let top := JsonObject.get record "kind"
    if top.truthy && !top.isStr "feedback" then top else kind

def specOf (objective : String) (sample : Sample) : TrainSpec :=
  { objective := .val objective, samples := .val [sample] }

/-- `feedback_to_batch` after the prompt was found. -/
def routeKind (kind prompt badResponse : Value) (record : JsonObject) : Option TrainSpec :=
  let better := JsonObject.get record "better_response"
  let critique := JsonObject.get record "critique"
  if kind.isStr "binary" then
    let label := if (JsonObject.get record "value").isStr "up" then "desirable" else "undesirable"
    some (specOf "kto"
      [("prompt", prompt), ("response", badResponse), ("label", .str label)])
  else if kind.isStr "rewrite" || kind.isStr "preferred" then
    if !better.truthy then none
    else some (specOf "weighted_sft"
      [("prompt", prompt), ("response", better),
        ("weight", (record.lookup "weight").getD (.num 3))])
  else if kind.isStr "nl_critique" then
    if !critique.truthy then none
    else some (specOf "coh"
      [("prompt", prompt), ("bad", badResponse), ("critique", critique)])
  else if kind.isStr "nl_critique_with_rewrite" then
    if !critique.truthy || !better.truthy then none
    else some (specOf "coh"
      [("prompt", prompt), ("bad", badResponse), ("critique", critique), ("good", better)])
  else none

def feedbackToBatch (record : JsonObject) (promptFallback responseFallback : Value) :
    Option TrainSpec :=
  let prompt := ((JsonObject.get record "prompt").or promptFallback).or (.str "")
  let badResponse := ((JsonObject.get record "response").or responseFallback).or (.str "")
  if !prompt.truthy then none else routeKind (routingKind record) prompt badResponse record

/-! ## The live path -/

/-- The fields that are logged, with the prompt and the response filled in from the index. -/
def logFields (payload : JsonObject) (promptFallback responseFallback : Value) : JsonObject :=
  let fields := payload.filter fun e => !(e.1 == "response_id" || e.1 == "kind")
  let fields :=
    if !JsonObject.has fields "prompt" && promptFallback.truthy then
      fields ++ [("prompt", promptFallback)]
    else fields
  if !JsonObject.has fields "response" && responseFallback.truthy then
    fields ++ [("response", responseFallback)]
  else fields

/-- The data of `log_feedback(response_id, kind, **fields)`. -/
def feedbackData (responseId kind : Value) (fields : JsonObject) : Except PyError JsonObject :=
  if JsonObject.has fields "self" then
    .error ⟨.typeError, "TrajectoryLog.log_feedback() got multiple values for argument 'self'"⟩
  else .ok (JsonObject.update [("response_id", responseId), ("feedback_kind", kind)] fields)

def logFeedback (json : Json) (file : Bytes) (responseId kind : Value) (fields : JsonObject)
    (ts : ℚ) (requestId : Option String) : Except PyError (Nat × Bytes) := do
  let data ← feedbackData responseId kind fields
  return TrajectoryLog.logEvent json file "feedback" ts requestId data

/-- `self._response_index.get(rid) if rid else None`. -/
def priorOf (index : List (String × Remembered)) (req : FeedbackRequest) : Option Remembered :=
  match req.responseId with
  | none => none
  | some rid => if rid = "" then none else index.lookup rid

/-- `prior.get("messages", [{}])[-1].get("content") if prior else None`. -/
def promptFallback (index : List (String × Remembered)) (req : FeedbackRequest) : Value :=
  ((priorOf index req).map Remembered.content).getD .null

def responseFallback (index : List (String × Remembered)) (req : FeedbackRequest) : Value :=
  ((priorOf index req).map Remembered.response).getD .null

variable {ρ : Type}

/-- `submit_feedback` up to the call of `submit_train`: the log afterwards, and the train spec. -/
def submitFeedback (m : Controller ρ) (json : Json) (index : List (String × Remembered))
    (file : Bytes) (ts : ℚ) (requestId : Option String) (req : FeedbackRequest) :
    Bytes × Except PyError TrainSpec :=
  match m.rejectIfShuttingDown with
  | .error e => (file, .error e)
  | .ok () =>
    let payload := req.modelDump
    if (priorOf index req).isNone && !JsonObject.has payload "prompt" then
      (file, .error ⟨.trainfer .unknownResponseId, "unknown response_id " ++
        req.idValue.reprScalar ++ "; include prompt in payload to bypass index lookup"⟩)
    else
      let fields := logFields payload (promptFallback index req) (responseFallback index req)
      match logFeedback json file (req.idValue.or (.str ""))
          ((Value.str req.kind).or (.str "unknown")) fields ts requestId with
      | .error e => (file, .error e)
      | .ok (_, file) =>
        match feedbackToBatch payload (promptFallback index req) (responseFallback index req) with
        | none => (file, .error ⟨.trainfer .invalidInput,
            "unsupported or under-specified feedback kind " ++ (Value.str req.kind).reprScalar⟩)
        | some spec => (file, .ok spec)

/-- The record in the log: what `log_event` makes of the data of `log_feedback`. -/
def feedbackRecord (index : List (String × Remembered)) (ts : ℚ) (requestId : Option String)
    (req : FeedbackRequest) : Except PyError JsonObject :=
  (feedbackData (req.idValue.or (.str "")) ((Value.str req.kind).or (.str "unknown"))
    (logFields req.modelDump (promptFallback index req) (responseFallback index req))).map
      (TrajectoryLog.eventPayload "feedback" ts requestId)

/-! ## What the two paths disagree on -/

/-- No extra key is one that the daemon stamps on a feedback record. -/
def Unstamped (req : FeedbackRequest) : Prop :=
  ∀ e ∈ req.extra, e.1 ≠ "ts" ∧ e.1 ≠ "feedback_kind" ∧ e.1 ≠ "request_id"

/-- The key is there, with a value that counts as absent. -/
def Blank (payload : JsonObject) (key : String) : Prop :=
  JsonObject.has payload key = true ∧ (JsonObject.get payload key).truthy = false

instance (payload : JsonObject) (key : String) : Decidable (Blank payload key) :=
  inferInstanceAs (Decidable (_ ∧ _))

/-- The response that is being judged is part of the sample. -/
def UsesResponse (kind : String) : Prop :=
  kind = "binary" ∨ kind = "nl_critique" ∨ kind = "nl_critique_with_rewrite"

/-- Nothing that the live path takes from the index is sent along blank. -/
def Replayable (index : List (String × Remembered)) (req : FeedbackRequest) : Prop :=
  ¬ Blank req.modelDump "prompt" ∧
    ¬ (UsesResponse req.kind ∧ Blank req.modelDump "response" ∧
      (responseFallback index req).truthy = true)

end Trainfer
