import Trainfer.ComputeQueue
import Trainfer.ErrorEnvelope
import Trainfer.GreedyRank
import Trainfer.LogRoundTrip
import Trainfer.MetricFanout
import Trainfer.SubmitTrain
import Trainfer.Lib.Effect

/-! `_handle_task`: what the worker does with a task, and what is said about it in the trajectory
log, to the metrics backend and on the commit stream.

`commit_trail` compares the three over every run of the worker: whoever reads the log finds the
commits that the stream has announced. -/

namespace Trainfer.TaskHandler

open ComputeQueue (QueueTask)
open TrajectoryLog (eventPayload written entries yielded iterWithOffsets size)
open MetricFanout (flattenScalars)
open Effect

variable {σ : Type}

/-- The result of `TrainEngine.step`. A step that was skipped has no loss. -/
structure StepResult where
  loss : Option ℚ
  components : Components

/-- What the handler calls. -/
structure Backend (σ : Type) where
  step : TrainSpec → σ → Except PyError StepResult × σ
  mergeActiveIntoResidual : σ → Except PyError Unit × σ
  mergesApplied : σ → ℤ
  residualFingerprint : σ → String
  save : String → σ → Except PyError Unit × σ
  /-- The manifest. -/
  load : String → σ → Except PyError Value × σ
  resetOptimizer : σ → σ
  resetActiveAdapter : σ → Except PyError Unit × σ
  greedyRankFraction : String → String → σ → Except PyError Rank

/-- What a task meets. -/
structure Env where
  ts : ℚ
  isoNow : String
  requestId : Option String
  /-- What a write to the log raises; nothing is written then. -/
  logError : Option PyError
  /-- What `log_metrics` of the backend raises. -/
  sinkError : Option PyError
  /-- Prometheus raises, which is only logged. -/
  metricsFail : Bool

/-- The event of `broadcast_commit`. -/
structure Announcement where
  cursor : ℤ
  ts : String
  objective : String
  loss : ℚ
  components : Components
  batchSize : ℕ

structure Worker (σ : Type) where
  state : σ
  file : Bytes
  /-- A ghost: what has been appended to the file. -/
  logged : List JsonObject := []
  /-- Calls of `record_train_step`, and their number for `record_eval_greedy_rank`. -/
  stepsRecorded : List (String × Option ℚ) := []
  evalsRecorded : ℕ := 0
  /-- Calls of `log_metrics`. -/
  sink : List (Dict ℚ × ℤ) := []
  announced : List Announcement := []

inductive Reply where
  | trained (loss : Option ℚ) (components : Components)
  | other (fields : JsonObject)

abbrev HandlerM (σ : Type) := Eff (Worker σ) PyError

/-! ## The log -/

def logEvent (json : Json) (env : Env) (kind : String) (data : JsonObject) : HandlerM σ PUnit := do
  match env.logError with
  | some e => throw e
  | none =>
    modify fun w => { w with
      file := (TrajectoryLog.logEvent json w.file kind env.ts env.requestId data).2
      logged := w.logged ++ [eventPayload kind env.ts env.requestId data] }

/-! ## The handler -/

def Payload.spec : Payload → TrainSpec
  | .train spec => spec
  | _ => {}

/-- `payload["name"]`. -/
def Payload.name : Payload → Except PyError String
  | .named name => .ok name
  | _ => .error ⟨.keyError, "'name'"⟩

def Payload.texts : Payload → Except PyError (String × String)
  | .evalPoint prompt response => .ok (prompt, response)
  | _ => .error ⟨.keyError, "'prompt'"⟩

def Announcement.fields (a : Announcement) : List Value :=
  [.num a.cursor, .str a.objective, .num a.loss, .num a.batchSize]

variable {b : Backend σ} {json : Json} {env : Env} {task : QueueTask Payload} {w w' : Worker σ}

/-- The records and the announcements of a task. -/
structure Adds (json : Json) (w w' : Worker σ) (records : List JsonObject)
    (anns : List Announcement) : Prop where
  file : w'.file = w.file ++ written json records
  logged : w'.logged = w.logged ++ records
  announced : w'.announced = w.announced ++ anns

theorem Adds.trans {w'' : Worker σ} {records records' : List JsonObject}
    {anns anns' : List Announcement} (h : Adds json w w' records anns)
    (h' : Adds json w' w'' records' anns') :
    Adds json w w'' (records ++ records') (anns ++ anns') where
  file := by rw [h'.file, h.file, TrajectoryLog.written_append, List.append_assoc]
  logged := by rw [h'.logged, h.logged, List.append_assoc]
  announced := by rw [h'.announced, h.announced, List.append_assoc]

end Trainfer.TaskHandler
