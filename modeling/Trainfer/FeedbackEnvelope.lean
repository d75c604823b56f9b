import Trainfer.FeedbackReplay
import Trainfer.Follower
import Trainfer.LogReaders
import Mathlib

/-! The envelope of a feedback record: the keys that the daemon stamps, and who may set them.

Three spreads merge the fields of a client into the record, and in each of them the later
value wins. A log is produced by a list of writes; `envelope_iff` says for which of them the
stamped keys hold what the daemon put there. -/

namespace Trainfer.DaemonLog

open TrajectoryLog

/-! ## Writes -/

/-- What the daemon logs of itself: `log_inference`, `log_train`, and `log_event` with
`"train_error"` and `"eval_point"`. -/
inductive OwnEvent where
  | inference (responseId prompt response fingerprint : String)
  | trainStep (batchId : Value) (objective : String) (loss : ℚ) (batchSize commitToken : Int)
      (components : Option JsonObject)
  | trainError (batchId : Value) (objective : String) (commitToken : Int)
      (errorType error : String)
  | evalPoint (prompt response : String) (fraction : ℚ) (matched total : Int)
      (fingerprint : String) (commitToken : Int)

namespace OwnEvent

def kind : OwnEvent → String
  | inference .. => "inference"
  | trainStep .. => "train_step"
  | trainError .. => "train_error"
  | evalPoint .. => "eval_point"

def data : OwnEvent → JsonObject
  | inference responseId prompt response fingerprint =>
    [("response_id", .str responseId), ("prompt", .str prompt), ("response", .str response),
      ("model_fingerprint", .str fingerprint)]
  | trainStep batchId objective loss batchSize commitToken components =>
    [("batch_id", batchId), ("objective", .str objective), ("loss", .num loss),
      ("batch_size", .num batchSize), ("commit_token", .num commitToken)] ++
        (components.map fun c => ("components", .dict c)).toList
  | trainError batchId objective commitToken errorType error =>
    [("batch_id", batchId), ("objective", .str objective), ("commit_token", .num commitToken),
      ("error_type", .str errorType), ("error", .str error)]
  | evalPoint prompt response fraction matched total fingerprint commitToken =>
    [("prompt", .str prompt), ("response", .str response), ("fraction", .num fraction),
      ("matched", .num matched), ("total", .num total), ("model_fingerprint", .str fingerprint),
      ("commit_token", .num commitToken)]

end OwnEvent

variable {ρ : Type}

/-- A call of `submit_feedback`: the body, and what the daemon adds to it. -/
structure Submission (ρ : Type) where
  controller : Controller ρ
  index : List (String × Remembered)
  ts : ℚ
  requestId : Option String
  req : FeedbackRequest

/-- The record that the call logs, if it gets that far. -/
def Submission.record (s : Submission ρ) : Option JsonObject :=
  match s.controller.rejectIfShuttingDown with
  | .error _ => none
  | .ok () =>
    if (priorOf s.index s.req).isNone && !JsonObject.has s.req.modelDump "prompt" then none
    else (feedbackRecord s.index s.ts s.requestId s.req).toOption

/-- One of the daemon's own writers is called. -/
inductive Write (ρ : Type) where
  | feedback (s : Submission ρ)
  | own (ts : ℚ) (requestId : Option String) (event : OwnEvent)

namespace Write

/-- The log after the call. -/
def apply (json : Json) (file : Bytes) : Write ρ → Bytes
  | feedback s => (submitFeedback s.controller json s.index file s.ts s.requestId s.req).1
  | own ts requestId event => (logEvent json file event.kind ts requestId event.data).2

def record : Write ρ → Option JsonObject
  | feedback s => s.record
  | own ts requestId event => some (eventPayload event.kind ts requestId event.data)

end Write

/-- The log that the calls produce. -/
def log (json : Json) (ws : List (Write ρ)) : Bytes :=
  ws.foldl (fun file w => w.apply json file) []

def records (ws : List (Write ρ)) : List JsonObject := ws.filterMap Write.record

/-- The submission is one of the writes, and its record starts at the offset. -/
def LoggedAt (json : Json) (ws : List (Write ρ)) (s : Submission ρ) (offset : Nat)
    (record : JsonObject) : Prop :=
  ∃ before after, ws = before ++ .feedback s :: after ∧ s.record = some record ∧
    offset = size (log json before)

/-! ## What the stamped keys are to hold -/

structure Enveloped (s : Submission ρ) (record : JsonObject) : Prop where
  kind : record.lookup "kind" = some (.str "feedback")
  ts : record.lookup "ts" = some (.num s.ts)
  responseId : record.lookup "response_id" = some (.str (s.req.responseId.getD ""))
  feedbackKind : record.lookup "feedback_kind" = some (.str s.req.kind)
  requestId : ∀ id, s.requestId = some id → record.lookup "request_id" = some (.str id)

/-- The event of a tail is the record with the offset of its line. -/
def Shown (entry : Nat × JsonObject) (event : JsonObject) : Prop :=
  event.lookup "offset" = some (.num entry.1) ∧
    ∀ key, key ≠ "offset" → event.lookup key = entry.2.lookup key

/-- The entries that a tail returns: from the offset on, or the last `n`. -/
def window (n : Int) (since : Nat) (es : List (Nat × JsonObject)) : List (Nat × JsonObject) :=
  let later := es.filter fun e => decide (since ≤ e.1)
  if since = 0 then lastSlice later n else later

variable {F : Type}

/-- Nothing in the log of these writes stands where the daemon's own values belong, and the
readers that rely on those get along with it. -/
structure OwnEnvelope (json : Json) (clock : Clock F) (choice : List F → Nat)
    (sched : IdleReplay) (ws : List (Write ρ)) : Prop where
  enveloped : ∀ s offset record, LoggedAt json ws s offset record → Enveloped s record
  tail : ∀ n k, ∃ resp,
    tailStructured json (log json ws) n (size (log json (ws.take k))) = .ok resp ∧
      List.Forall₂ Shown
        (window n (size (log json (ws.take k))) (entries json 0 (records ws))) resp.events
  picks : ∃ picked, sched.pickRecord json clock choice (log json ws) = .ok picked
  routes : ∀ offset v, sched.pickRecord json clock choice (log json ws) = .ok (some (offset, v)) →
    ∃ s record, LoggedAt json ws s offset record ∧ v = .dict record ∧
      routingKind record = .str s.req.kind

/-! ## The condition -/

/-- The key was not sent, or with the value that the daemon gives it. -/
def Unchallenged (extra : JsonObject) (key : String) (stamp : Value) : Prop :=
  ∀ v, extra.lookup key = some v → v = stamp

structure Uncontested (s : Submission ρ) (offset : Nat) : Prop where
  ts : Unchallenged s.req.extra "ts" (.num s.ts)
  feedbackKind : Unchallenged s.req.extra "feedback_kind" (.str s.req.kind)
  /-- An empty kind is logged as `"unknown"`. -/
  named : s.req.kind = "" → (s.req.extra.lookup "feedback_kind").isSome = true
  requestId : ∀ id, s.requestId = some id → Unchallenged s.req.extra "request_id" (.str id)
  offset : Unchallenged s.req.extra "offset" (.num offset)

/-- The record at the offset is under its cap, and recent enough to have a weight. -/
def Pickable (clock : Clock F) (sched : IdleReplay) (s : Submission ρ) (offset : Nat) : Prop :=
  sched.replayed offset < sched.maxReplaysPerRecord ∧
    ∃ t, clock.toFloat (.num s.ts) = .ok t ∧ clock.positive (clock.weight t) = true

/-! ## The last spread wins -/

theorem lookup_map_getD (d e : JsonObject) (key : String) :
    (d.map fun entry => (entry.1, (e.lookup entry.1).getD entry.2)).lookup key =
      (d.lookup key).map fun v => (e.lookup key).getD v := by
  induction d with
  | nil => rfl
  | cons entry d ih =>
    obtain ⟨k, v⟩ := entry
    by_cases hkey : key = k
    · subst hkey
      simp
    · have hne : (key == k) = false := by simpa using hkey
      simpa [List.lookup_cons, hne] using ih

theorem lookup_update_or (d e : JsonObject) (key : String) :
    (JsonObject.update d e).lookup key = (e.lookup key).or (d.lookup key) := by
  cases hd : d.lookup key with
  | none => rw [JsonObject.lookup_update hd, Option.or_none]
  | some v =>
    rw [JsonObject.update, List.lookup_append, lookup_map_getD d e, hd]
    cases e.lookup key <;> rfl

/-- What `log_event` itself puts into a record. -/
def stamps (kind : String) (ts : ℚ) (requestId : Option String) : JsonObject :=
  [("kind", .str kind), ("ts", .num ts)] ++
    (requestId.map fun rid => ("request_id", .str rid)).toList

theorem lookup_eventPayload_or (kind : String) (ts : ℚ) (requestId : Option String)
    (data : JsonObject) (key : String) :
    (eventPayload kind ts requestId data).lookup key =
      (data.lookup key).or ((stamps kind ts requestId).lookup key) := by
  cases requestId with
  | none => exact lookup_update_or _ _ _
  | some rid =>
    have hbase := lookup_update_or [("kind", .str kind), ("ts", .num ts)] data
    simp only [eventPayload, stamps]
    by_cases hkey : key = "request_id"
    · subst hkey
      cases hd : data.lookup "request_id" with
      | some v => simp [JsonObject.has, hbase, hd]
      | none => simp [JsonObject.has, hbase, hd, List.lookup_append, List.lookup_cons]
    · have hne : (key == "request_id") = false := by simpa using hkey
      split
      · rw [hbase]
        simp [List.lookup_cons, hne]
      · rw [List.lookup_append, hbase]
        simp [List.lookup_cons, hne]

theorem lookup_logFields_routing (payload : JsonObject) (pf rf : Value) {key : String}
    (h : key = "response_id" ∨ key = "kind") : (logFields payload pf rf).lookup key = none := by
  have hbase : (payload.filter fun e => !(e.1 == "response_id" || e.1 == "kind")).lookup key =
      none := by
    rw [lookup_filter_key fun k => !(k == "response_id" || k == "kind")]
    rcases h with rfl | rfl <;> simp
  rw [logFields, lookup_addMissing, lookup_addMissing, hbase]
  rcases h with rfl | rfl <;> simp

section

variable {index : List (String × Remembered)} {req : FeedbackRequest} {ts : ℚ}
  {requestId : Option String} {record : JsonObject}

/-- The value of a stamped key: that of the client, or else that of the daemon. -/
theorem lookup_stamped (h : feedbackRecord index ts requestId req = .ok record) {key : String}
    (hkey : key ∉ ["prompt", "response", "response_id", "kind"]) :
    record.lookup key = (req.extra.lookup key).or
      (([("response_id", req.idValue.or (.str "")),
        ("feedback_kind", (Value.str req.kind).or (.str "unknown"))].lookup key).or
          ((stamps "feedback" ts requestId).lookup key)) := by
  simp only [List.mem_cons, List.not_mem_nil, or_false, not_or] at hkey
  obtain ⟨hprompt, hresponse, hid, hkind⟩ := hkey
  rw [feedbackRecord_ok h, lookup_eventPayload_or, lookup_update_or,
    lookup_logFields _ _ _ ⟨hid, hkind⟩, lookup_modelDump ⟨hid, hkind⟩]
  simp [hprompt, hresponse, Option.or_assoc]

/-- The two keys that are routed by cannot be sent among the others. -/
theorem lookup_routing (h : feedbackRecord index ts requestId req = .ok record) {key : String}
    (hkey : key = "response_id" ∨ key = "kind") :
    record.lookup key =
      ([("response_id", req.idValue.or (.str "")),
        ("feedback_kind", (Value.str req.kind).or (.str "unknown"))].lookup key).or
          ((stamps "feedback" ts requestId).lookup key) := by
  rw [feedbackRecord_ok h, lookup_eventPayload_or, lookup_update_or,
    lookup_logFields_routing _ _ _ hkey, Option.none_or]

end

theorem idValue_or (req : FeedbackRequest) :
    req.idValue.or (.str "") = .str (req.responseId.getD "") := by
  cases hid : req.responseId with
  | none => simp [FeedbackRequest.idValue, hid, Value.or, Value.truthy]
  | some rid =>
    by_cases hempty : rid = "" <;>
      simp [FeedbackRequest.idValue, hid, Value.or, Value.truthy, hempty]

theorem unchallenged_iff {extra : JsonObject} {key : String} {stamp : Value} :
    (extra.lookup key).or (some stamp) = some stamp ↔ Unchallenged extra key stamp := by
  unfold Unchallenged
  cases extra.lookup key with
  | none => simp
  | some v => simp

/-! ## The record of a submission -/

theorem Submission.record_some {s : Submission ρ} {record : JsonObject}
    (h : s.record = some record) :
    feedbackRecord s.index s.ts s.requestId s.req = .ok record := by
  unfold Submission.record at h
  split at h
  · cases h
  · split at h
    · cases h
    · cases hrecord : feedbackRecord s.index s.ts s.requestId s.req with
      | error e => simp [hrecord, Except.toOption] at h
      | ok r =>
        simp only [hrecord, Except.toOption, Option.some.injEq] at h
        rw [h]

theorem kind_record {s : Submission ρ} {record : JsonObject} (h : s.record = some record) :
    record.lookup "kind" = some (.str "feedback") := by
  rw [lookup_routing (Submission.record_some h) (.inr rfl)]
  simp [stamps, List.lookup_cons]

theorem feedbackKind_iff (req : FeedbackRequest) :
    (req.extra.lookup "feedback_kind").or (some ((Value.str req.kind).or (.str "unknown"))) =
        some (.str req.kind) ↔
      Unchallenged req.extra "feedback_kind" (.str req.kind) ∧
        (req.kind = "" → (req.extra.lookup "feedback_kind").isSome = true) := by
  unfold Unchallenged
  cases req.extra.lookup "feedback_kind" with
  | some v => simp
  | none =>
    by_cases hempty : req.kind = ""
    · simp [hempty, Value.or, Value.truthy]
    · simp [hempty, Value.or, Value.truthy]

theorem enveloped_iff {s : Submission ρ} {record : JsonObject} (h : s.record = some record) :
    Enveloped s record ↔
      Unchallenged s.req.extra "ts" (.num s.ts) ∧
        (Unchallenged s.req.extra "feedback_kind" (.str s.req.kind) ∧
          (s.req.kind = "" → (s.req.extra.lookup "feedback_kind").isSome = true)) ∧
        ∀ id, s.requestId = some id → Unchallenged s.req.extra "request_id" (.str id) := by
  have hrecord := Submission.record_some h
  have hts : record.lookup "ts" = (s.req.extra.lookup "ts").or (some (.num s.ts)) := by
    rw [lookup_stamped hrecord (by decide)]
    simp [stamps, List.lookup_cons]
  have hkind : record.lookup "feedback_kind" = (s.req.extra.lookup "feedback_kind").or
      (some ((Value.str s.req.kind).or (.str "unknown"))) := by
    rw [lookup_stamped hrecord (by decide)]
    simp [List.lookup_cons]
  have hid : ∀ id, s.requestId = some id →
      record.lookup "request_id" = (s.req.extra.lookup "request_id").or (some (.str id)) := by
    intro id hid
    rw [lookup_stamped hrecord (by decide)]
    simp [stamps, hid, List.lookup_cons]
  constructor
  · intro henv
    refine ⟨unchallenged_iff.mp (hts ▸ henv.ts),
      (feedbackKind_iff _).mp (hkind ▸ henv.feedbackKind), fun id hsome => ?_⟩
    exact unchallenged_iff.mp (hid id hsome ▸ henv.requestId id hsome)
  · rintro ⟨hfree, hroute, hrid⟩
    refine ⟨kind_record h, hts.trans (unchallenged_iff.mpr hfree), ?_,
      hkind.trans ((feedbackKind_iff _).mpr hroute), fun id hsome => ?_⟩
    · rw [lookup_routing hrecord (.inl rfl), idValue_or]
      simp
    · exact (hid id hsome).trans (unchallenged_iff.mpr (hrid id hsome))

theorem offset_record {s : Submission ρ} {record : JsonObject} (h : s.record = some record) :
    record.lookup "offset" = s.req.extra.lookup "offset" := by
  rw [lookup_stamped (Submission.record_some h) (by decide)]
  cases s.requestId <;> simp [stamps, List.lookup_cons]

/-- The daemon's own records carry none of the keys that a reader goes by. -/
theorem lookup_own (ts : ℚ) (requestId : Option String) (event : OwnEvent) :
    (eventPayload event.kind ts requestId event.data).lookup "kind" = some (.str event.kind) ∧
      (eventPayload event.kind ts requestId event.data).lookup "offset" = none := by
  have hdata : ∀ key ∈ ["kind", "offset"], event.data.lookup key = none := by
    intro key hkey
    simp only [List.mem_cons, List.not_mem_nil, or_false] at hkey
    cases event with
    | trainStep _ _ _ _ _ components =>
      cases components <;> rcases hkey with rfl | rfl <;> simp [OwnEvent.data, List.lookup_cons]
    | inference | trainError | evalPoint =>
      rcases hkey with rfl | rfl <;> simp [OwnEvent.data, List.lookup_cons]
  rw [lookup_eventPayload_or, lookup_eventPayload_or, hdata _ (by simp), hdata _ (by simp)]
  cases requestId <;> simp [stamps, List.lookup_cons]

/-! ## The log of the writes -/

theorem submitFeedback_fst (s : Submission ρ) (json : Json) (file : Bytes) :
    (submitFeedback s.controller json s.index file s.ts s.requestId s.req).1 =
      file ++ written json s.record.toList := by
  unfold submitFeedback Submission.record
  cases s.controller.rejectIfShuttingDown with
  | error e => simp [written]
  | ok u =>
    simp only
    split
    · simp [written]
    · cases hdata : feedbackData (s.req.idValue.or (.str ""))
          ((Value.str s.req.kind).or (.str "unknown")) (logFields s.req.modelDump
            (promptFallback s.index s.req) (responseFallback s.index s.req)) with
      | error e =>
        simp [logFeedback, feedbackRecord, hdata, bind, Except.bind, Except.map,
          Except.toOption, written]
      | ok data =>
        simp only [logFeedback, feedbackRecord, hdata, bind, Except.bind, pure, Except.pure,
          Except.map, Except.toOption]
        split <;> simp [written, logEvent, appendRaw]

theorem Write.apply_eq (w : Write ρ) (json : Json) (file : Bytes) :
    w.apply json file = file ++ written json w.record.toList := by
  cases w with
  | feedback s => exact submitFeedback_fst s json file
  | own ts requestId event => simp [Write.apply, Write.record, logEvent, appendRaw, written]

theorem records_append (ws vs : List (Write ρ)) :
    records (ws ++ vs) = records ws ++ records vs :=
  List.filterMap_append

theorem log_eq (json : Json) (ws : List (Write ρ)) : log json ws = written json (records ws) := by
  induction ws using List.reverseRecOn with
  | nil => rfl
  | append_singleton ws w ih =>
    rw [records_append, written_append, ← ih]
    have hlast : records [w] = w.record.toList := by
      cases h : w.record <;> simp [records, h]
    rw [hlast, ← Write.apply_eq]
    simp [log]

/-- Every record of the log comes from one of the writes, at the size the log had then. -/
theorem exists_write {json : Json} {ws : List (Write ρ)} {pos : Nat} {e : Nat × JsonObject}
    (h : e ∈ entries json pos (records ws)) :
    ∃ before w after, ws = before ++ w :: after ∧ w.record = some e.2 ∧
      e.1 = pos + (written json (records before)).length := by
  induction ws generalizing pos with
  | nil => simp [records, entries] at h
  | cons w ws ih =>
    cases hrecord : w.record with
    | none =>
      have hskip : records (w :: ws) = records ws := by simp [records, hrecord]
      obtain ⟨before, v, after, rfl, hv, hpos⟩ := ih (hskip ▸ h)
      refine ⟨w :: before, v, after, rfl, hv, ?_⟩
      have hskip' : records (w :: before) = records before := by simp [records, hrecord]
      rw [hskip']
      exact hpos
    | some p =>
      have hhead : ∀ vs, records (w :: vs) = p :: records vs := fun vs => by
        simp [records, hrecord]
      rw [hhead, entries] at h
      rcases List.mem_cons.mp h with rfl | h
      · exact ⟨[], w, ws, rfl, hrecord, by simp [records, written]⟩
      · obtain ⟨before, v, after, rfl, hv, hpos⟩ := ih h
        refine ⟨w :: before, v, after, rfl, hv, ?_⟩
        rw [hhead, hpos]
        simp [written]
        omega

theorem LoggedAt.mem_entries {json : Json} {ws : List (Write ρ)} {s : Submission ρ} {offset : Nat}
    {record : JsonObject} (h : LoggedAt json ws s offset record) :
    (offset, record) ∈ entries json 0 (records ws) := by
  obtain ⟨before, after, rfl, hrecord, rfl⟩ := h
  have hhead : records (.feedback s :: after) = record :: records after := by
    simp [records, Write.record, hrecord]
  rw [records_append, entries_append, hhead, entries, size, log_eq, Nat.zero_add]
  simp

/-- A record that the feedback filter lets through is that of a submission. -/
theorem exists_loggedAt {json : Json} {ws : List (Write ρ)} {e : Nat × JsonObject}
    (h : e ∈ entries json 0 (records ws)) (hkind : hasKind (some ["feedback"]) e.2 = true) :
    ∃ s, LoggedAt json ws s e.1 e.2 := by
  obtain ⟨before, w, after, rfl, hrecord, hpos⟩ := exists_write h
  cases w with
  | feedback s =>
    exact ⟨s, before, after, rfl, hrecord, by rw [hpos, Nat.zero_add, size, log_eq]⟩
  | own ts requestId event =>
    have hown := (lookup_own ts requestId event).1
    rw [Option.some.inj hrecord] at hown
    cases event <;> simp [hasKind, JsonObject.get, hown, Value.isStr, OwnEvent.kind] at hkind

theorem hashableKind_of_str {p : JsonObject} {kind : String}
    (h : p.lookup "kind" = some (.str kind)) : HashableKind p := by
  rw [HashableKind, JsonObject.get, h]
  rfl

theorem hashableKind_records {ws : List (Write ρ)} : ∀ p ∈ records ws, HashableKind p := by
  intro p hp
  obtain ⟨w, -, hw⟩ := List.mem_filterMap.mp hp
  cases w with
  | feedback s => exact hashableKind_of_str (kind_record hw)
  | own ts requestId event =>
    obtain rfl := Option.some.inj hw
    exact hashableKind_of_str (lookup_own ts requestId event).1

/-! ## The tail -/

theorem lastSlice_map {α β : Type} (f : α → β) (xs : List α) (n : Int) :
    lastSlice (xs.map f) n = (lastSlice xs n).map f := by
  unfold lastSlice
  split <;> simp [List.map_drop]

theorem mapM_tailEvent_dicts (es : List (Nat × JsonObject)) :
    (es.map fun e => (e.1, Value.dict e.2)).mapM tailEvent =
      .ok (es.map fun e => JsonObject.update [("offset", .num e.1)] e.2) := by
  rw [List.mapM_map]
  exact mapM_map_ok fun e _ => rfl

/-- From a line boundary on, every event is the spread of its offset and its record. -/
theorem tailStructured_log {json : Json} {ws : List (Write ρ)}
    (h : ∀ p ∈ records ws, json.RoundTrips p) (n : Int) (k : Nat) :
    ∃ resp, tailStructured json (log json ws) n (size (log json (ws.take k))) = .ok resp ∧
      resp.events =
        (window n (size (log json (ws.take k))) (entries json 0 (records ws))).map fun e =>
          JsonObject.update [("offset", .num e.1)] e.2 := by
  have hsplit : records ws = records (ws.take k) ++ records (ws.drop k) := by
    rw [← records_append, List.take_append_drop]
  have hrest : ∀ p ∈ records (ws.drop k), json.RoundTrips p := fun p hp =>
    h p (hsplit ▸ List.mem_append_right _ hp)
  have hitems := @Follower.tailItems_boundary json (records (ws.take k)) _ hrest n
  have hfilter := @filter_entries_boundary json (records (ws.take k)) (records (ws.drop k))
  simp only [size, log_eq]
  rw [hsplit, tailStructured, hitems, window, hfilter, yielded_none, lastSlice_map,
    ← apply_ite (List.map _)]
  simp only [bind, Except.bind, mapM_tailEvent_dicts, pure, Except.pure]
  exact ⟨_, rfl, rfl⟩

theorem shown_iff (e : Nat × JsonObject) :
    Shown e (JsonObject.update [("offset", .num e.1)] e.2) ↔
      Unchallenged e.2 "offset" (.num e.1) := by
  have hspread := lookup_update_or [("offset", .num e.1)] e.2
  rw [Shown, hspread]
  simp only [List.lookup_cons_self, unchallenged_iff, and_iff_left_iff_imp]
  intro _ key hkey
  have hne : (key == "offset") = false := by simpa using hkey
  rw [hspread]
  simp [List.lookup_cons, hne]

/-! ## The picker -/

variable {json : Json} {clock : Clock F} {choice : List F → Nat} {sched : IdleReplay}
  {ws : List (Write ρ)}

theorem iterWithOffsets_log (h : ∀ p ∈ records ws, json.RoundTrips p) :
    iterWithOffsets json (log json ws) 0 (some ["feedback"]) =
      ⟨yielded (some ["feedback"]) (entries json 0 (records ws)), none⟩ := by
  rw [log_eq]
  exact @iterWithOffsets_boundary json (some ["feedback"]) [] (records ws) h
    (.inr hashableKind_records)

/-- What the picker scans are the records of the submissions. -/
theorem mem_yielded_iff {item : Nat × Value} :
    item ∈ yielded (some ["feedback"]) (entries json 0 (records ws)) ↔
      ∃ s record, LoggedAt json ws s item.1 record ∧ item.2 = .dict record := by
  constructor
  · intro h
    obtain ⟨e, he, rfl⟩ := List.mem_map.mp h
    obtain ⟨hmem, hkind⟩ := List.mem_filter.mp he
    obtain ⟨s, hs⟩ := exists_loggedAt hmem hkind
    exact ⟨s, e.2, hs, rfl⟩
  · rintro ⟨s, record, hs, hv⟩
    refine List.mem_map.mpr ⟨(item.1, record), List.mem_filter.mpr ⟨hs.mem_entries, ?_⟩, ?_⟩
    · obtain ⟨_, _, _, hrecord, _⟩ := hs
      simp [hasKind, JsonObject.get, kind_record hrecord, Value.isStr]
    · exact Prod.ext rfl hv.symm

variable (sched) in
/-- What the picker makes of the record of a submission. -/
theorem candidate_logged (hfloat : ∀ s, .feedback s ∈ ws → ∃ t, clock.toFloat (.num s.ts) = .ok t)
    (henv : ∀ s offset record, LoggedAt json ws s offset record → Enveloped s record)
    {s : Submission ρ} {offset : Nat} {record : JsonObject} (hs : LoggedAt json ws s offset record) :
    ∃ t, clock.toFloat (.num s.ts) = .ok t ∧
      sched.candidate clock (offset, .dict record) =
        .ok (if sched.replayed offset < sched.maxReplaysPerRecord ∧
            clock.positive (clock.weight t) = true then
          some (offset, .dict record, clock.weight t) else none) := by
  obtain ⟨before, after, hws, -, -⟩ := id hs
  obtain ⟨t, ht⟩ := hfloat s (hws ▸ List.mem_append_right _ List.mem_cons_self)
  exact ⟨t, ht, sched.candidate_eq offset (henv s offset record hs).ts ht⟩

/-- On records that keep their timestamp, the scan of the picker goes through, and its
candidates are those that may be picked. -/
theorem candidates_log (hjson : ∀ p ∈ records ws, json.RoundTrips p)
    (hfloat : ∀ s, .feedback s ∈ ws → ∃ t, clock.toFloat (.num s.ts) = .ok t)
    (henv : ∀ s offset record, LoggedAt json ws s offset record → Enveloped s record) :
    ∃ found, sched.candidates json clock (log json ws) = .ok found ∧
      (found ≠ [] ↔ ∃ s offset record, LoggedAt json ws s offset record ∧
        Pickable clock sched s offset) ∧
      ∀ c ∈ found, ∃ s record, LoggedAt json ws s c.1 record ∧ c.2.1 = .dict record := by
  have hturn := fun {s offset record} (hs : LoggedAt json ws s offset record) =>
    candidate_logged sched hfloat henv hs
  have htotal : ∃ found, sched.candidates json clock (log json ws) = .ok found := by
    rw [IdleReplay.candidates, iterWithOffsets_log hjson]
    refine consume_total rfl fun item hitem => ?_
    obtain ⟨s, record, hs, hv⟩ := mem_yielded_iff.mp hitem
    obtain ⟨t, -, hcand⟩ := hturn hs
    rw [show item = (item.1, .dict record) from Prod.ext rfl hv]
    exact ⟨_, hcand⟩
  obtain ⟨found, hfound⟩ := htotal
  have hmem : ∀ c, c ∈ found ↔ ∃ item ∈ yielded (some ["feedback"]) (entries json 0 (records ws)),
      keptBy (sched.candidate clock) item = some c := by
    rw [IdleReplay.candidates, iterWithOffsets_log hjson] at hfound
    intro c
    rw [(consume_ok hfound).2, List.mem_filterMap]
  refine ⟨found, hfound, ?_, fun c hc => ?_⟩
  · constructor
    · intro hne
      obtain ⟨c, hc⟩ := List.exists_mem_of_ne_nil found hne
      obtain ⟨item, hitem, hkept⟩ := (hmem c).mp hc
      obtain ⟨s, record, hs, hv⟩ := mem_yielded_iff.mp hitem
      obtain ⟨t, ht, hcand⟩ := hturn hs
      rw [show item = (item.1, .dict record) from Prod.ext rfl hv, keptBy, hcand] at hkept
      simp only [Option.ite_none_right_eq_some] at hkept
      exact ⟨s, item.1, record, hs, hkept.1.1, t, ht, hkept.1.2⟩
    · rintro ⟨s, offset, record, hs, hcap, t, ht, hpos⟩
      obtain ⟨t', ht', hcand⟩ := hturn hs
      obtain rfl : t = t' := Except.ok.inj (ht.symm.trans ht')
      refine List.ne_nil_of_mem ((hmem (offset, .dict record, clock.weight t)).mpr
        ⟨(offset, .dict record), mem_yielded_iff.mpr ⟨s, record, hs, rfl⟩, ?_⟩)
      rw [keptBy, hcand]
      simp [hcap, hpos]
  · obtain ⟨item, hitem, hkept⟩ := (hmem c).mp hc
    obtain ⟨s, record, hs, hv⟩ := mem_yielded_iff.mp hitem
    obtain ⟨t, -, hcand⟩ := hturn hs
    rw [show item = (item.1, .dict record) from Prod.ext rfl hv, keptBy, hcand] at hkept
    simp only [Option.ite_none_right_eq_some, Option.some.injEq] at hkept
    obtain ⟨-, rfl⟩ := hkept
    exact ⟨s, record, hs, rfl⟩

theorem routingKind_enveloped {s : Submission ρ} {record : JsonObject} (h : Enveloped s record) :
    routingKind record = .str s.req.kind := by
  have hkind : JsonObject.get record "feedback_kind" = .str s.req.kind := by
    rw [JsonObject.get, h.feedbackKind]
    rfl
  have htop : JsonObject.get record "kind" = .str "feedback" := by
    rw [JsonObject.get, h.kind]
    rfl
  simp [routingKind, hkind, htop, Value.isStr, Value.truthy]

/-! ## When the envelope is the daemon's own -/

theorem uncontested_iff {s : Submission ρ} {offset : Nat} {record : JsonObject}
    (h : s.record = some record) :
    Uncontested s offset ↔
      Enveloped s record ∧ Unchallenged record "offset" (.num offset) := by
  have hoffset : Unchallenged record "offset" (.num offset) ↔
      Unchallenged s.req.extra "offset" (.num offset) := by
    rw [Unchallenged, Unchallenged, offset_record h]
  rw [enveloped_iff h, hoffset]
  constructor
  · intro hfree
    exact ⟨⟨hfree.ts, ⟨hfree.feedbackKind, hfree.named⟩, hfree.requestId⟩, hfree.offset⟩
  · rintro ⟨⟨hts, ⟨hkind, hnamed⟩, hid⟩, hoffset⟩
    exact ⟨hts, hkind, hnamed, hid, hoffset⟩

/-- The whole log is shown with true offsets exactly if no submission challenges its own. -/
theorem tail_iff (hjson : ∀ p ∈ records ws, json.RoundTrips p) :
    (∀ n k, ∃ resp,
      tailStructured json (log json ws) n (size (log json (ws.take k))) = .ok resp ∧
        List.Forall₂ Shown
          (window n (size (log json (ws.take k))) (entries json 0 (records ws))) resp.events) ↔
      ∀ s offset record, LoggedAt json ws s offset record →
        Unchallenged record "offset" (.num offset) := by
  constructor
  · intro h s offset record hs
    -- a tail of the whole file, without a cap
    obtain ⟨resp, hresp, hshown⟩ := h 0 0
    obtain ⟨resp', hresp', hevents⟩ := tailStructured_log hjson 0 0
    obtain rfl := Except.ok.inj (hresp.symm.trans hresp')
    have hwindow : window 0 (size (log json (ws.take 0))) (entries json 0 (records ws)) =
        entries json 0 (records ws) := by
      simp [window, size, log, lastSlice]
    rw [hevents, hwindow, List.forall₂_map_right_iff, List.forall₂_same] at hshown
    exact (shown_iff _).mp (hshown _ hs.mem_entries)
  · intro h n k
    obtain ⟨resp, hresp, hevents⟩ := tailStructured_log hjson n k
    refine ⟨resp, hresp, ?_⟩
    rw [hevents, List.forall₂_map_right_iff, List.forall₂_same]
    intro e he
    have hentry : e ∈ entries json 0 (records ws) := by
      unfold window at he
      split at he
      · exact List.mem_of_mem_filter ((Follower.lastSlice_sublist _ n).subset he)
      · exact List.mem_of_mem_filter he
    rw [shown_iff]
    obtain ⟨before, w, after, rfl, hw, hpos⟩ := exists_write hentry
    cases w with
    | feedback s =>
      exact h s e.1 e.2 ⟨before, after, rfl, hw, by rw [hpos, Nat.zero_add, size, log_eq]⟩
    | own ts requestId event =>
      have hown := (lookup_own ts requestId event).2
      rw [Option.some.inj hw] at hown
      simp [Unchallenged, hown]

/-- **The envelope.** The stamped keys of a log hold the daemon's own values, and its readers
get along with them, exactly if no submission sent another value for one of them, and the
policy does not ask for a choice where there is nothing to choose from. -/
theorem envelope_iff (hjson : ∀ p ∈ records ws, json.RoundTrips p)
    (hfloat : ∀ s, .feedback s ∈ ws → ∃ t, clock.toFloat (.num s.ts) = .ok t)
    (hchoice : ∀ weights, weights ≠ [] → choice weights < weights.length) :
    OwnEnvelope json clock choice sched ws ↔
      (∀ s offset record, LoggedAt json ws s offset record → Uncontested s offset) ∧
        (sched.minFeedbackRecords ≤ 0 → ∃ s offset record,
          LoggedAt json ws s offset record ∧ Pickable clock sched s offset) := by
  have hsome : ∀ {s offset record}, LoggedAt json ws s offset record → s.record = some record :=
    fun ⟨_, _, _, hrecord, _⟩ => hrecord
  constructor
  · intro h
    have htail := (tail_iff hjson).mp h.tail
    refine ⟨fun s offset record hs => (uncontested_iff (hsome hs)).mpr
      ⟨h.enveloped s offset record hs, htail s offset record hs⟩, ?_⟩
    obtain ⟨found, hfound, hne, -⟩ := candidates_log hjson hfloat h.enveloped
    rw [← hne]
    exact (IdleReplay.pickRecord_ok_iff hchoice hfound).mp h.picks
  · rintro ⟨hfree, hmin⟩
    have henv : ∀ s offset record, LoggedAt json ws s offset record → Enveloped s record :=
      fun s offset record hs =>
        ((uncontested_iff (hsome hs)).mp (hfree s offset record hs)).1
    obtain ⟨found, hfound, hne, hmem⟩ := candidates_log hjson hfloat henv
    refine ⟨henv, (tail_iff hjson).mpr fun s offset record hs =>
      ((uncontested_iff (hsome hs)).mp (hfree s offset record hs)).2,
      (IdleReplay.pickRecord_ok_iff hchoice hfound).mpr fun hzero => hne.mpr (hmin hzero),
      fun offset v hpick => ?_⟩
    obtain ⟨found', w, hfound', hc⟩ := IdleReplay.mem_of_pickRecord hpick
    obtain rfl := Except.ok.inj (hfound.symm.trans hfound')
    obtain ⟨s, record, hs, hv⟩ := hmem _ hc
    exact ⟨s, record, hs, hv, routingKind_enveloped (henv s offset record hs)⟩

/-! ## A vote, and a vote from yesterday -/

/-- Numbers are times, texts are not, and every record weighs the same. -/
def sampleClock : Clock ℚ where
  toFloat
    | .num q => .ok q
    | _ => .error ⟨.valueError, "could not convert string to float: 'yesterday'"⟩
  now := 0
  weight _ := 1
  positive w := decide (0 < w)

def sampleSched : IdleReplay := ⟨fun _ => 0, 3, 1⟩

def vote : Submission Unit := ⟨Controller.init 64 64, voteIndex, 0, none, voteRequest⟩

theorem loggedAt_single {json : Json} {s s' : Submission ρ} {offset : Nat} {record : JsonObject}
    (h : LoggedAt json [.feedback s] s' offset record) : s' = s ∧ offset = 0 := by
  obtain ⟨before, after, hws, -, rfl⟩ := h
  rcases List.singleton_eq_append_iff.mp hws with ⟨rfl, hhead⟩ | ⟨-, hhead⟩
  · have hs := (List.cons.inj hhead).1
    exact ⟨by injection hs, rfl⟩
  · cases hhead

set_option maxRecDepth 4000 in
theorem vote_enveloped :
    OwnEnvelope voteJson sampleClock (fun _ => 0) sampleSched [.feedback vote] := by
  have hfree : Uncontested vote 0 := by
    refine ⟨?_, ?_, by decide, ?_, ?_⟩
    · simp [Unchallenged, vote, voteRequest, List.lookup_cons]
    · simp [Unchallenged, vote, voteRequest, List.lookup_cons]
    · simp [vote]
    · simp [Unchallenged, vote, voteRequest, List.lookup_cons]
  refine (envelope_iff ?_ ?_ fun weights hw => List.length_pos_iff.mpr hw).mpr
    ⟨fun s offset record hs => ?_, fun hmin => absurd hmin (by decide)⟩
  · intro p hp
    obtain rfl := List.mem_singleton.mp hp
    exact ⟨by decide, by decide, by rintro _ ⟨⟩; rfl, by rintro _ ⟨⟩; rfl, rfl⟩
  · rintro s -
    exact ⟨s.ts, rfl⟩
  · obtain ⟨rfl, rfl⟩ := loggedAt_single hs
    exact hfree

/-- The vote with a timestamp of the client's. -/
def yesterday : Submission Unit :=
  { vote with req := ⟨some "r1", "binary", [("value", .str "up"), ("ts", .str "yesterday")],
      by simp⟩ }

def yesterdayJson : Json where
  dumps _ := "\x7b\"kind\":\"feedback\",\"ts\":\"yesterday\",\"response_id\":\"r1\"," ++
    "\"feedback_kind\":\"binary\",\"value\":\"up\",\"prompt\":\"hi\",\"response\":\"hello\"\x7d"
  loads _ := .ok (.dict [("kind", .str "feedback"), ("ts", .str "yesterday"),
    ("response_id", .str "r1"), ("feedback_kind", .str "binary"), ("value", .str "up"),
    ("prompt", .str "hi"), ("response", .str "hello")])

set_option maxRecDepth 4000 in
/-- The log has one feedback record, and the picker raises on it. -/
theorem yesterday_raises :
    ¬ ∀ (json : Json) (clock : Clock ℚ) (choice : List ℚ → Nat) (sched : IdleReplay)
      (ws : List (Write Unit)), (∀ p ∈ records ws, json.RoundTrips p) →
      (∀ s, .feedback s ∈ ws → ∃ t, clock.toFloat (.num s.ts) = .ok t) →
      (∀ weights, weights ≠ [] → choice weights < weights.length) →
      0 < sched.minFeedbackRecords → OwnEnvelope json clock choice sched ws := by
  intro h
  have hlaw := h yesterdayJson sampleClock (fun _ => 0) sampleSched [.feedback yesterday]
    (fun p hp => by
      obtain rfl := List.mem_singleton.mp hp
      exact ⟨by decide, by decide, by rintro _ ⟨⟩; rfl, by rintro _ ⟨⟩; rfl, rfl⟩)
    (fun s _ => ⟨s.ts, rfl⟩) (fun weights hw => List.length_pos_iff.mpr hw) (by decide)
  obtain ⟨picked, hpick⟩ := hlaw.picks
  have hraise : sampleSched.pickRecord yesterdayJson sampleClock (fun _ => 0)
      (log yesterdayJson [.feedback yesterday]) =
        .error ⟨.valueError, "could not convert string to float: 'yesterday'"⟩ := by rfl
  rw [hraise] at hpick
  cases hpick

end Trainfer.DaemonLog
