import Trainfer.ErrorEnvelope
import Trainfer.ReasoningFinal
import Trainfer.ResponseIndex

/-! A streamed chat: `stream_generate` with its producer thread, and the events that the server
makes of it.

The thread puts chunks of text into a queue and a sentinel behind them; the generator takes them
out, splits them with the reasoning parser and yields deltas; the server makes an event of each
and closes the stream with `[DONE]`. `transcript` is the stream without thread and queue, and
`refines_transcript` says that a client gets it, whole or up to where it goes away, in every
interleaving. -/

namespace Trainfer.ChatStream

open Reasoning (ReasoningParser ParserState Delta makeState feed finalize yielded)
open ResponseIndex (Generation)

/-- A request with `stream`, and what it meets on its way. -/
structure Request where
  responseId : String
  /-- `cfg.model`. -/
  model : String
  /-- `current_request_id() or ""`. -/
  requestId : String
  /-- The content of the last message. -/
  prompt : String
  parser : Option (ReasoningParser Char)
  /-- What the wait for the commit token raises, other than a timeout or an unknown token. -/
  waitError : Option PyError
  /-- What `log_inference` raises. -/
  logError : Option PyError
  modelFingerprint : String
  ts : ℚ
  /-- `time.time() - t0` and the cursor, for the last chunk. -/
  latency : ℚ
  commitCursor : ℤ
  /-- The tokens of prompt and completion, if the tokenizer counts them. -/
  usage : Option (ℕ × ℕ)
  /-- `str.isspace` of a character. -/
  isSpace : Char → Bool

namespace Request

variable (r : Request)

/-! ## The chunks of the stream -/

def text (s : List Char) : Value := .str (String.ofList s)

/-- An object with the fields that all chunks share. -/
def chunk (choices : List Value) (rest : JsonObject) : JsonObject :=
  [("object", .str "chat.completion.chunk"), ("model", .str r.model), ("choices", .list choices)] ++
    rest

def choice (delta rest : JsonObject) : Value :=
  .dict ([("index", .num 0), ("delta", .dict delta)] ++ rest)

def errorChoice : Value := choice [] [("finish_reason", .str "error")]

def errorObject (message : String) : Value :=
  .dict [("code", .str "internal"), ("message", .str message), ("retryable", .bool false),
    ("request_id", .str r.requestId)]

/-- `delta_obj`, with the channels that have text. -/
def deltaObject (d : Delta Char) : JsonObject :=
  [("role", .str "assistant")] ++ (if d.content = [] then [] else [("content", text d.content)]) ++
    (if d.reasoning = [] then [] else [("reasoning_content", text d.reasoning)])

def deltaPayload (d : Delta Char) : JsonObject :=
  ("id", .str r.responseId) :: r.chunk [choice (deltaObject d) []]
    [("trainfer", .dict [("response_id", .str r.responseId)])]

/-- The error that the producer has left behind. -/
def errorPayload (message : String) : JsonObject :=
  r.chunk [errorChoice] [("trainfer", .dict [("error", r.errorObject message),
    ("response_id", .str r.responseId)])]

/-- An exception of the generator. -/
def raisedPayload (e : PyError) : JsonObject :=
  [("object", .str "chat.completion.chunk"), ("choices", .list [errorChoice]),
    ("trainfer", .dict [("error", r.errorObject (e.cls.className ++ ": " ++ e.message))])]

def finalPayload : JsonObject :=
  ("id", .str r.responseId) :: r.chunk [choice [] [("finish_reason", .str "stop")]]
    [("trainfer", .dict [("latency_s", .num r.latency), ("commit_cursor", .num r.commitCursor),
      ("response_id", .str r.responseId)])]

def usagePayload (u : ℕ × ℕ) : JsonObject :=
  ("id", .str r.responseId) :: r.chunk []
    [("usage", .dict [("prompt_tokens", .num u.1), ("completion_tokens", .num u.2),
      ("total_tokens", .num ((u.1 + u.2 : ℕ) : ℚ))])]

end Request

/-- What is written to the client. -/
inductive Frame where
  | data (payload : JsonObject)
  | done

/-- The response that is logged and remembered. -/
def Request.generation (r : Request) (fullText : List Char) : Generation where
  content := r.prompt
  reply :=
    { responseId := r.responseId
      response := String.ofList (Lines.strip r.isSpace fullText)
      modelFingerprint := r.modelFingerprint
      ts := r.ts
      requestId := if r.requestId = "" then none else some r.requestId }

/-! ## The generator -/

/-- The parser before the first chunk. Without one, text is content at once. -/
def initialParser (r : Request) : ParserState Char :=
  r.parser.elim ⟨.content, []⟩ makeState

/-- What the generator yields for a chunk, and the parser after it. -/
def parse (r : Request) (s : ParserState Char) (chunk : List Char) :
    List (Delta Char) × ParserState Char :=
  match r.parser with
  | none => ([⟨[], chunk⟩], s)
  | some p => (yielded (feed p s chunk).1, (feed p s chunk).2)

/-- What it yields at the end. -/
def flush (r : Request) (s : ParserState Char) : List (Delta Char) :=
  match r.parser with
  | none => []
  | some _ => yielded (finalize s)

/-- The server leaves out a delta without text. -/
def deltaFrames (r : Request) (ds : List (Delta Char)) : List Frame :=
  ds.flatMap fun d => if d.reasoning = [] ∧ d.content = [] then [] else [.data (r.deltaPayload d)]

/-! ## Thread and queue -/

inductive Item where
  | chunk (c : List Char)
  | done

inductive Producer where
  | idle
  | running
  | ended
  deriving DecidableEq

/-- Where the consumer stands. The last two are a stream that was closed and a client that has
gone. -/
inductive Phase where
  | start
  | loop
  | tail
  | logging
  | usage
  | done
  | closed
  | gone
  deriving DecidableEq

structure State where
  producer : Producer
  queue : List Item
  /-- `ERR.get("exc")`. -/
  err : Option String
  phase : Phase
  parser : ParserState Char
  fullParts : List (List Char)
  frames : List Frame
  ttftObserved : Bool
  /-- Calls of `record_generate_latency`. -/
  recorded : ℕ
  /-- What was logged and remembered. -/
  finished : List Generation
  /-- A ghost: the chunks that the thread has put into the queue. -/
  produced : List (List Char)

def init (r : Request) : State where
  producer := .idle
  queue := []
  err := none
  phase := .start
  parser := initialParser r
  fullParts := []
  frames := []
  ttftObserved := false
  recorded := 0
  finished := []
  produced := []

inductive Action where
  /-- The thread: a chunk that is not empty, an exception, the end (also by an exception that is
  no `Exception`). -/
  | chunk (c : List Char)
  | raise (message : String)
  | finish
  | consume
  | disconnect

namespace State

/-- The deltas are written; the first one is observed. -/
def send (s : State) (r : Request) (ds : List (Delta Char)) : State :=
  let frames := deltaFrames r ds
  { s with
    frames := s.frames ++ frames
    recorded := s.recorded + if s.ttftObserved || frames.isEmpty then 0 else 1
    ttftObserved := s.ttftObserved || !frames.isEmpty }

def write (s : State) (frames : List Frame) (phase : Phase) : State :=
  { s with frames := s.frames ++ frames, phase := phase }

/-- The next step of the consumer. -/
def consume (s : State) (r : Request) : Option State :=
  match s.phase with
  | .start =>
    match r.waitError with
    | some e => some (s.write [.data (r.raisedPayload e)] .done)
    | none => some { s with phase := .loop, producer := .running }
  | .loop =>
    match s.queue with
    | [] => none
    | .chunk c :: queue =>
      let (ds, parser) := parse r s.parser c
      some ({ s with queue, parser, fullParts := s.fullParts ++ [c] }.send r ds)
    | .done :: queue =>
      match s.err with
      | some message => some ({ s with queue }.write [.data (r.errorPayload message)] .done)
      | none => some { s with queue, phase := .tail }
  | .tail => some { s.send r (flush r s.parser) with phase := .logging }
  | .logging =>
    match r.logError with
    | some e => some (s.write [.data (r.raisedPayload e)] .done)
    | none =>
      some { s.write [.data r.finalPayload] .usage with
        finished := s.finished ++ [r.generation s.fullParts.flatten] }
  | .usage => some (s.write (r.usage.elim [] fun u => [.data (r.usagePayload u)]) .done)
  | .done => some (s.write [.done] .closed)
  | .closed | .gone => none

end State

def step (r : Request) (s : State) : Action → Option State
  | .chunk c =>
    if s.producer = .running ∧ c ≠ [] then
      some { s with queue := s.queue ++ [.chunk c], produced := s.produced ++ [c] }
    else none
  | .raise message =>
    if s.producer = .running then
      some { s with producer := .ended, err := some message, queue := s.queue ++ [.done] }
    else none
  | .finish =>
    if s.producer = .running then some { s with producer := .ended, queue := s.queue ++ [.done] }
    else none
  | .consume => s.consume r
  | .disconnect => if s.phase = .closed ∨ s.phase = .gone then none else some { s with phase := .gone }

/-! ## The stream in one go -/

/-- The parser after some chunks. -/
def parserAfter (r : Request) (chunks : List (List Char)) : ParserState Char :=
  chunks.foldl (fun s c => (parse r s c).2) (initialParser r)

/-- The frames for chunks that come to a parser. -/
def framesFrom (r : Request) (s : ParserState Char) : List (List Char) → List Frame
  | [] => []
  | c :: cs => deltaFrames r (parse r s c).1 ++ framesFrom r (parse r s c).2 cs

def chunkFrames (r : Request) (chunks : List (List Char)) : List Frame :=
  framesFrom r (initialParser r) chunks

def textFrames (r : Request) (chunks : List (List Char)) : List Frame :=
  chunkFrames r chunks ++ deltaFrames r (flush r (parserAfter r chunks))

/-- What follows the text when nothing has gone wrong. -/
def closing (r : Request) : List Frame :=
  [.data r.finalPayload] ++ (r.usage.elim [] fun u => [.data (r.usagePayload u)]) ++ [.done]

/-- The whole stream for what the thread produces and how it ends. -/
def transcript (r : Request) (chunks : List (List Char)) (err : Option String) : List Frame :=
  match r.waitError with
  | some e => [.data (r.raisedPayload e), .done]
  | none =>
    match err with
    | some message => chunkFrames r chunks ++ [.data (r.errorPayload message), .done]
    | none =>
      textFrames r chunks ++
        match r.logError with
        | some e => [.data (r.raisedPayload e), .done]
        | none => closing r

/-- What is logged of it. -/
def transcriptLog (r : Request) (chunks : List (List Char)) (err : Option String) :
    List Generation :=
  if r.waitError.isNone && err.isNone && r.logError.isNone then [r.generation chunks.flatten]
  else []

end Trainfer.ChatStream
