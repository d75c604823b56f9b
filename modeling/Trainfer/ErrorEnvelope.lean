import Trainfer.TrajectoryLog

/-! Errors on the wire: the envelope of a response, the handlers that make it, and the request id
that goes with it.

The handlers of `TrainferError`, `HTTPException` and `RequestValidationError` run inside
`RequestIDMiddleware`; an exception that none of them takes goes through the middleware, which
takes its id back, and is answered outside of it. -/

namespace Trainfer

/-- The class attribute `code`. -/
def ErrorCode.code : ErrorCode → String
  | internal => "internal"
  | invalidInput => "invalid_input"
  | unknownObjective => "unknown_objective"
  | unknownResponseId => "unknown_response_id"
  | notFound => "not_found"
  | queueFull => "queue_full"
  | batchTooLarge => "batch_too_large"
  | rateLimited => "rate_limited"
  | shuttingDown => "shutting_down"
  | shutdownDropped => "shutdown_dropped"
  | timeout => "timeout"

def ErrorCode.statusCode : ErrorCode → ℕ
  | internal => 500
  | invalidInput | unknownObjective => 400
  | unknownResponseId | notFound => 404
  | queueFull | shuttingDown | shutdownDropped => 503
  | batchTooLarge => 413
  | rateLimited => 429
  | timeout => 504

def ErrorCode.retryAfterMs : ErrorCode → Option ℕ
  | queueFull => some 500
  | _ => none

/-- The name of the class. -/
def ErrorCode.className : ErrorCode → String
  | internal => "TrainferError"
  | invalidInput => "InvalidInputError"
  | unknownObjective => "UnknownObjectiveError"
  | unknownResponseId => "UnknownResponseIdError"
  | notFound => "NotFoundError"
  | queueFull => "QueueFullError"
  | batchTooLarge => "BatchTooLargeError"
  | rateLimited => "RateLimitedError"
  | shuttingDown => "ShuttingDownError"
  | shutdownDropped => "ShutdownDroppedError"
  | timeout => "TimeoutError"

/-- `type(exc).__name__`. -/
def ExcClass.className : ExcClass → String
  | trainfer code => code.className
  | valueError => "ValueError"
  | keyError => "KeyError"
  | typeError => "TypeError"
  | indexError => "IndexError"
  | attributeError => "AttributeError"
  | runtimeError => "RuntimeError"
  | asyncioTimeout => "TimeoutError"
  | fileNotFound => "FileNotFoundError"
  | decodeError => "JSONDecodeError"
  | other name => name

namespace ErrorEnvelope

/-- `ERROR_CODES`. -/
def errorCodes : List String :=
  ["invalid_input", "unknown_objective", "unknown_response_id", "not_found", "queue_full",
    "rate_limited", "batch_too_large", "shutting_down", "shutdown_dropped", "timeout", "internal"]

/-- What a route raises. -/
inductive Raised where
  | error (e : PyError)
  /-- `HTTPException`, with a detail that is not empty. -/
  | http (status : ℕ) (detail : Option String)
  /-- `RequestValidationError`, with the `loc` and the `msg` of each error. -/
  | validation (errors : List (List String × Option String))

structure Response where
  status : ℕ
  body : JsonObject
  requestIdHeader : String
  retryAfter : Option ℕ

/-- `envelope_payload`. -/
def envelopePayload (code message requestId : String) (retryable : Bool)
    (retryAfterMs : Option ℕ) : JsonObject :=
  let err : JsonObject := [("code", .str code), ("message", .str message),
    ("retryable", .bool retryable), ("request_id", .str requestId)]
  [("error", .dict (err ++
    (retryAfterMs.map fun ms => [("retry_after_ms", Value.num ms)]).getD []))]

/-- `_respond`, for the request id that `_resolve_request_id` finds. -/
def respond (requestId : String) (status : ℕ) (code message : String) (retryable : Bool)
    (retryAfterMs : Option ℕ) : Response where
  status := status
  body := envelopePayload code message requestId retryable retryAfterMs
  requestIdHeader := requestId
  retryAfter := retryAfterMs.map fun ms => max 1 (ms / 1000)

/-- `_HTTP_STATUS_TO_CODE`. -/
def httpStatusToCode : List (ℕ × String) :=
  [(400, "invalid_input"), (404, "not_found"), (503, "shutting_down"), (504, "timeout")]

def httpCode (status : ℕ) : String :=
  (httpStatusToCode.lookup status).getD (if status ≥ 500 then "internal" else "invalid_input")

/-- One error of `_format_validation_message`. -/
def validationBit (e : List String × Option String) : String :=
  let loc := ".".intercalate (e.1.filter (· != "body"))
  let msg := e.2.getD "invalid value"
  if loc = "" then msg else loc ++ ": " ++ msg

def formatValidationMessage (errors : List (List String × Option String)) : String :=
  let bits := (errors.take 3).map validationBit
  let bits := if 3 < errors.length then
    bits ++ ["(+" ++ toString (errors.length - 3) ++ " more)"] else bits
  let message := "; ".intercalate bits
  if message = "" then "invalid input" else message

/-- What the handlers inside the middleware make of an exception; `none` for one that they leave
alone. -/
def handle (requestId : String) : Raised → Option Response
  | .error ⟨.trainfer code, message⟩ =>
    some (respond requestId code.statusCode code.code
      (if message = "" then code.code else message) code.retryable code.retryAfterMs)
  | .error _ => none
  | .http status detail =>
    some (respond requestId status (httpCode status) (detail.getD (httpCode status))
      ([502, 503, 504].contains status) none)
  | .validation errors =>
    some (respond requestId 400 "invalid_input" (formatValidationMessage errors) false none)

/-- `_fallback_handler`. -/
def fallback (requestId : String) : Response :=
  respond requestId 500 "internal" "internal server error" false none

/-- The middleware: the id that came with the request, if it is not empty, or a new one. -/
def bindRequestId (incoming : Option String) (minted : String) : String :=
  (incoming.filter (· != "")).getD minted

/-- A request whose route raises: `RequestIDMiddleware.dispatch` around the handlers, and the
fallback around it, where no id is bound any more. -/
def answer (incoming : Option String) (minted minted' : String) (exc : Raised) : Response :=
  let rid := bindRequestId incoming minted
  (handle rid exc).elim (fallback minted') fun response => { response with requestIdHeader := rid }

/-! ## What a client sees -/

/-- An envelope with a code of the taxonomy, and with the id of the header. -/
def WellFormed (r : Response) : Prop :=
  ∃ err, r.body = [("error", .dict err)] ∧ (∃ code ∈ errorCodes, err.lookup "code" =
    some (.str code)) ∧ err.lookup "request_id" = some (.str r.requestIdHeader) ∧
    ((err.lookup "retry_after_ms").isSome ↔ r.retryAfter.isSome)

theorem code_mem (c : ErrorCode) : c.code ∈ errorCodes := by
  cases c <;> decide

theorem httpCode_mem (status : ℕ) : httpCode status ∈ errorCodes := by
  have hknown : ∀ e ∈ httpStatusToCode, e.2 ∈ errorCodes := by decide
  rw [httpCode]
  cases hcode : httpStatusToCode.lookup status with
  | none =>
    rw [Option.getD_none]
    split_ifs <;> decide
  | some code =>
    obtain ⟨front, back, hsplit, -⟩ := List.lookup_eq_some_iff.mp hcode
    exact hknown (status, code) (by simp [hsplit])

theorem respond_wellFormed {code : String} (hcode : code ∈ errorCodes) (requestId message : String)
    (status : ℕ) (retryable : Bool) (retryAfterMs : Option ℕ) :
    WellFormed (respond requestId status code message retryable retryAfterMs) := by
  refine ⟨_, rfl, ⟨code, hcode, rfl⟩, rfl, ?_⟩
  cases retryAfterMs <;> simp [respond]

theorem handle_wellFormed {requestId : String} {exc : Raised} {response : Response}
    (h : handle requestId exc = some response) :
    WellFormed response ∧ response.requestIdHeader = requestId := by
  cases exc with
  | error e =>
    obtain ⟨cls, message⟩ := e
    cases cls with
    | trainfer code =>
      cases h
      exact ⟨respond_wellFormed (code_mem code) _ _ _ _ _, rfl⟩
    | _ => cases h
  | http status detail =>
    cases h
    exact ⟨respond_wellFormed (httpCode_mem status) _ _ _ _ _, rfl⟩
  | validation errors =>
    cases h
    exact ⟨respond_wellFormed (by decide) _ _ _ _ _, rfl⟩

/-- Whatever a route raises is answered with an envelope that agrees with its header. The id is the
request's own if a handler took the exception; the fallback answers with a new one, and says the
same of all exceptions. -/
theorem answer_wellFormed (incoming : Option String) (minted minted' : String) (exc : Raised) :
    WellFormed (answer incoming minted minted' exc) ∧
      ((handle (bindRequestId incoming minted) exc).isSome ∧
          (answer incoming minted minted' exc).requestIdHeader = bindRequestId incoming minted ∨
        answer incoming minted minted' exc = fallback minted') := by
  cases hhandle : handle (bindRequestId incoming minted) exc with
  | none =>
    have hanswer : answer incoming minted minted' exc = fallback minted' := by
      simp only [answer, hhandle, Option.elim_none]
    rw [hanswer]
    exact ⟨respond_wellFormed (by decide : "internal" ∈ errorCodes) _ _ _ _ _, .inr rfl⟩
  | some response =>
    obtain ⟨hwell, hid⟩ := handle_wellFormed hhandle
    have hanswer : answer incoming minted minted' exc = response := by
      simp only [answer, hhandle, Option.elim_some]
      rw [← hid]
    rw [hanswer]
    exact ⟨hwell, .inl ⟨rfl, hid⟩⟩

end ErrorEnvelope

end Trainfer
