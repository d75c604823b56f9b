import Trainfer.Feedback
import Mathlib

/-! Replaying a feedback record against training on it live.

The record holds every field of the payload under its own key, so the two routings can only
differ in the prompt and the response. `replay_eq_live_iff` says when they do. -/

namespace Trainfer

/-! ## Lookups -/

theorem lookup_filter_key (p : String → Bool) (l : JsonObject) (key : String) :
    (l.filter fun e => p e.1).lookup key = if p key then l.lookup key else none := by
  induction l with
  | nil => simp
  | cons e l ih =>
    obtain ⟨k, v⟩ := e
    rw [List.filter_cons]
    by_cases hk : key = k
    · subst hk
      cases hp : p key with
      | true => simp
      | false => simpa [hp] using ih
    · have hne : (key == k) = false := by simpa using hk
      cases hp : p k with
      | true => simpa [hp, List.lookup_cons, hne] using ih
      | false => simpa [hp, List.lookup_cons, hne] using ih

namespace JsonObject

theorem has_eq_false {d : JsonObject} {key : String} : has d key = false ↔ d.lookup key = none := by
  simp [has]

theorem get_congr {d e : JsonObject} {key : String} (h : d.lookup key = e.lookup key) :
    get d key = get e key := by
  rw [get, get, h]

theorem lookup_eq_none {d : JsonObject} {key : String} (h : ∀ e ∈ d, e.1 ≠ key) :
    d.lookup key = none := by
  rw [List.lookup_eq_none_iff]
  exact fun e he => by simpa using (h e he).symm

theorem lookup_map_keys (d : JsonObject) (f : String × Value → Value) {key : String}
    (h : d.lookup key = none) : (d.map fun e => (e.1, f e)).lookup key = none := by
  rw [List.lookup_eq_none_iff] at h ⊢
  intro e he
  obtain ⟨e', he', rfl⟩ := List.mem_map.mp he
  exact h e' he'

/-- A key that is not in the first dictionary is looked up in the second. -/
theorem lookup_update {d e : JsonObject} {key : String} (h : d.lookup key = none) :
    (update d e).lookup key = e.lookup key := by
  rw [update, List.lookup_append, lookup_map_keys d _ h, Option.none_or,
    lookup_filter_key (fun k => !has d k), has_eq_false.mpr h]
  rfl

end JsonObject

/-! ## What is in the record -/

variable {index : List (String × Remembered)} {req : FeedbackRequest} {ts : ℚ}
  {requestId : Option String}

theorem lookup_modelDump {key : String} (h : key ≠ "response_id" ∧ key ≠ "kind") :
    req.modelDump.lookup key = req.extra.lookup key := by
  have h1 : (key == "response_id") = false := by simpa using h.1
  have h2 : (key == "kind") = false := by simpa using h.2
  simp [FeedbackRequest.modelDump, List.lookup_cons, h1, h2]

/-- Adding a key that is missing, unless the value counts as absent. -/
theorem lookup_addMissing (fields : JsonObject) (name key : String) (v : Value) :
    (if !JsonObject.has fields name && v.truthy then fields ++ [(name, v)] else fields).lookup key =
      if key = name ∧ fields.lookup key = none ∧ v.truthy = true then some v
      else fields.lookup key := by
  by_cases hkey : key = name
  · subst hkey
    cases hl : fields.lookup key with
    | some w => simp [JsonObject.has, hl]
    | none => cases v.truthy <;> simp [JsonObject.has, hl, List.lookup_append]
  · have hne : (key == name) = false := by simpa using hkey
    split
    · simp [hkey, List.lookup_append, List.lookup_cons, hne]
    · simp [hkey]

/-- A logged field is the one that was sent or, for a prompt or response that was not sent, the
one of the index. -/
theorem lookup_logFields (payload : JsonObject) (pf rf : Value) {key : String}
    (h : key ≠ "response_id" ∧ key ≠ "kind") :
    (logFields payload pf rf).lookup key =
      if key = "prompt" ∧ payload.lookup key = none ∧ pf.truthy = true then some pf
      else if key = "response" ∧ payload.lookup key = none ∧ rf.truthy = true then some rf
      else payload.lookup key := by
  have hbase : (payload.filter fun e => !(e.1 == "response_id" || e.1 == "kind")).lookup key =
      payload.lookup key := by
    rw [lookup_filter_key fun k => !(k == "response_id" || k == "kind")]
    simp [h.1, h.2]
  rw [logFields, lookup_addMissing, lookup_addMissing, hbase]
  by_cases hprompt : key = "prompt"
  · subst hprompt
    simp
  · by_cases hresponse : key = "response"
    · subst hresponse
      simp
    · simp [hprompt, hresponse]

/-- The keys that `log_event` and `log_feedback` stamp. -/
def stampedKeys : List String := ["kind", "ts", "request_id", "response_id", "feedback_kind"]

theorem feedbackData_ok {rid kind : Value} {fields data : JsonObject}
    (h : feedbackData rid kind fields = .ok data) :
    data = JsonObject.update [("response_id", rid), ("feedback_kind", kind)] fields := by
  unfold feedbackData at h
  split at h
  · cases h
  · exact (Except.ok.inj h).symm

theorem lookup_eventPayload {data : JsonObject} {key : String}
    (h : key ∉ ["kind", "ts", "request_id"]) :
    (TrajectoryLog.eventPayload "feedback" ts requestId data).lookup key = data.lookup key := by
  simp only [List.mem_cons, List.not_mem_nil, or_false, not_or] at h
  obtain ⟨hkind, hts, hrid⟩ := h
  have hbase : (JsonObject.update [("kind", .str "feedback"), ("ts", .num ts)] data).lookup key =
      data.lookup key := by
    refine JsonObject.lookup_update (JsonObject.lookup_eq_none ?_)
    simp [Ne.symm hkind, Ne.symm hts]
  have hne : (key == "request_id") = false := by simpa using hrid
  unfold TrajectoryLog.eventPayload
  cases requestId with
  | none => exact hbase
  | some rid =>
    simp only
    split
    · exact hbase
    · rw [List.lookup_append, hbase]
      simp [List.lookup_cons, hne]

theorem feedbackRecord_ok {record : JsonObject}
    (h : feedbackRecord index ts requestId req = .ok record) :
    record = TrajectoryLog.eventPayload "feedback" ts requestId
      (JsonObject.update [("response_id", req.idValue.or (.str "")),
        ("feedback_kind", (Value.str req.kind).or (.str "unknown"))]
        (logFields req.modelDump (promptFallback index req) (responseFallback index req))) := by
  unfold feedbackRecord at h
  cases hdata : feedbackData (req.idValue.or (.str "")) ((Value.str req.kind).or (.str "unknown"))
      (logFields req.modelDump (promptFallback index req) (responseFallback index req)) with
  | error e =>
    rw [hdata] at h
    cases h
  | ok data =>
    rw [hdata] at h
    rw [← feedbackData_ok hdata]
    exact (Except.ok.inj h).symm

theorem lookup_record {record : JsonObject} (h : feedbackRecord index ts requestId req = .ok record)
    {key : String} (hkey : key ∉ stampedKeys) :
    record.lookup key =
      (logFields req.modelDump (promptFallback index req) (responseFallback index req)).lookup
        key := by
  simp only [stampedKeys, List.mem_cons, List.not_mem_nil, or_false, not_or] at hkey
  obtain ⟨hkind, hts, hrid, hresponse, hfeedback⟩ := hkey
  rw [feedbackRecord_ok h, lookup_eventPayload (by simp [hkind, hts, hrid])]
  refine JsonObject.lookup_update (JsonObject.lookup_eq_none ?_)
  simp [Ne.symm hresponse, Ne.symm hfeedback]

/-- Anything but the prompt and the response is logged as it was sent. -/
theorem lookup_record_other {record : JsonObject}
    (h : feedbackRecord index ts requestId req = .ok record) {key : String}
    (hkey : key ∉ "prompt" :: "response" :: stampedKeys) :
    record.lookup key = req.modelDump.lookup key := by
  simp only [List.mem_cons, not_or] at hkey
  obtain ⟨hprompt, hresponse, hkey⟩ := hkey
  have hdeclared : key ≠ "response_id" ∧ key ≠ "kind" := by
    simp only [stampedKeys, List.mem_cons, not_or] at hkey
    exact ⟨hkey.2.2.2.1, hkey.1⟩
  rw [lookup_record h hkey, lookup_logFields _ _ _ hdeclared]
  simp [hprompt, hresponse]

theorem feedbackKind_modelDump (h : Unstamped req) :
    req.modelDump.lookup "feedback_kind" = none := by
  rw [lookup_modelDump (by decide)]
  exact JsonObject.lookup_eq_none fun e he => (h e he).2.1

theorem routingKind_modelDump (h : Unstamped req) :
    routingKind req.modelDump =
      if req.kind ≠ "" ∧ req.kind ≠ "feedback" then .str req.kind else .null := by
  have hnone : JsonObject.get req.modelDump "feedback_kind" = .null := by
    rw [JsonObject.get, feedbackKind_modelDump h]
    rfl
  have hkind : JsonObject.get req.modelDump "kind" = .str req.kind := rfl
  unfold routingKind
  simp only [hnone, hkind, Value.truthy, Value.isStr, Bool.false_eq_true, if_false]
  by_cases hempty : req.kind = ""
  · simp [hempty]
  · by_cases hfeedback : req.kind = "feedback"
    · simp [hfeedback]
    · simp [hempty, hfeedback]

theorem routingKind_record {record : JsonObject} (hstamps : Unstamped req)
    (h : feedbackRecord index ts requestId req = .ok record) (hkind : req.kind ≠ "") :
    routingKind record = .str req.kind := by
  have hfields : (logFields req.modelDump (promptFallback index req)
      (responseFallback index req)).lookup "feedback_kind" = none := by
    rw [lookup_logFields _ _ _ (by decide), feedbackKind_modelDump hstamps]
    simp
  have hor : (Value.str req.kind).or (.str "unknown") = .str req.kind := by
    simp [Value.or, Value.truthy, hkind]
  have hget : JsonObject.get record "feedback_kind" = .str req.kind := by
    rw [JsonObject.get, feedbackRecord_ok h, lookup_eventPayload (by decide)]
    simp [JsonObject.update, List.lookup_cons, hfields, hor]
  simp [routingKind, hget, Value.truthy, hkind]

/-! ## The prompt and the response -/

namespace Value

theorem or_of_truthy {v : Value} (h : v.truthy = true) (w : Value) : v.or w = v := by
  rw [Value.or, if_pos h]

theorem or_of_falsy {v : Value} (h : v.truthy = false) (w : Value) : v.or w = w := by
  rw [Value.or, h]
  rfl

@[simp] theorem null_or (w : Value) : null.or w = w := rfl

end Value

/-- The live path resolves a field by truth value, the replay what was logged by the key. -/
theorem resolve_eq {payload record : JsonObject} {key : String} {fallback : Value}
    (h : record.lookup key =
      if payload.lookup key = none ∧ fallback.truthy = true then some fallback
      else payload.lookup key) :
    (Blank payload key → ((JsonObject.get record key).or .null).or (.str "") = .str "") ∧
      (¬ (Blank payload key ∧ fallback.truthy = true) →
        ((JsonObject.get record key).or .null).or (.str "") =
          ((JsonObject.get payload key).or fallback).or (.str "")) := by
  cases hl : payload.lookup key with
  | none =>
    have hget : JsonObject.get payload key = .null := by rw [JsonObject.get, hl]; rfl
    refine ⟨fun hblank => ?_, fun _ => ?_⟩
    · simp [Blank, JsonObject.has, hl] at hblank
    · rw [hget, Value.null_or]
      cases hf : fallback.truthy with
      | true =>
        have hrec : JsonObject.get record key = fallback := by
          rw [JsonObject.get, h]
          simp [hl, hf]
        rw [hrec, Value.or_of_truthy hf]
      | false =>
        have hrec : JsonObject.get record key = .null := by
          rw [JsonObject.get, h]
          simp [hl, hf]
        rw [hrec, Value.null_or, Value.null_or, Value.or_of_falsy hf]
  | some v =>
    have hget : JsonObject.get payload key = v := by rw [JsonObject.get, hl]; rfl
    have hrec : JsonObject.get record key = v := by
      rw [JsonObject.get, h, hl]
      simp
    rw [hrec, hget]
    refine ⟨fun hblank => ?_, fun hok => ?_⟩
    · have hor : v.or .null = .null := Value.or_of_falsy (hget ▸ hblank.2) _
      rw [hor, Value.null_or]
    · cases hv : v.truthy with
      | true =>
        have hor : ∀ w, v.or w = v := Value.or_of_truthy hv
        simp only [hor]
      | false =>
        have hf : fallback.truthy = false := by
          cases hf : fallback.truthy with
          | false => rfl
          | true => exact absurd ⟨⟨by simp [JsonObject.has, hl], hget ▸ hv⟩, hf⟩ hok
        have hor : ∀ w, v.or w = w := Value.or_of_falsy hv
        rw [hor, hor, Value.null_or, Value.or_of_falsy hf]

/-! ## Routing -/

theorem routeKind_congr (kind prompt bad : Value) {record payload : JsonObject}
    (h : ∀ key ∈ ["better_response", "critique", "value", "weight"],
      record.lookup key = payload.lookup key) :
    routeKind kind prompt bad record = routeKind kind prompt bad payload := by
  have hbetter := JsonObject.get_congr (h "better_response" (by simp))
  have hcritique := JsonObject.get_congr (h "critique" (by simp))
  have hvalue := JsonObject.get_congr (h "value" (by simp))
  have hweight := h "weight" (by simp)
  simp only [routeKind, hbetter, hcritique, hvalue, hweight]

/-- The rewrites carry their own response. -/
theorem routeKind_of_not_uses {kind : String} (h : ¬ UsesResponse kind) (prompt bad bad' : Value)
    (record : JsonObject) :
    routeKind (.str kind) prompt bad record = routeKind (.str kind) prompt bad' record := by
  simp only [UsesResponse, not_or] at h
  obtain ⟨hbinary, hcritique, hboth⟩ := h
  simp [routeKind, Value.isStr, hbinary, hcritique, hboth]

theorem routeKind_binary (prompt : Value) (record : JsonObject) :
    ∃ label, ∀ bad, routeKind (.str "binary") prompt bad record = some (specOf "kto"
      [("prompt", prompt), ("response", bad), ("label", label)]) :=
  ⟨_, fun _ => rfl⟩

theorem routeKind_critique (prompt bad : Value) (record : JsonObject) :
    routeKind (.str "nl_critique") prompt bad record =
      if !(JsonObject.get record "critique").truthy then none
      else some (specOf "coh" [("prompt", prompt), ("bad", bad),
        ("critique", JsonObject.get record "critique")]) := rfl

theorem routeKind_critiqueWithRewrite (prompt bad : Value) (record : JsonObject) :
    routeKind (.str "nl_critique_with_rewrite") prompt bad record =
      if !(JsonObject.get record "critique").truthy ||
          !(JsonObject.get record "better_response").truthy then none
      else some (specOf "coh" [("prompt", prompt), ("bad", bad),
        ("critique", JsonObject.get record "critique"),
        ("good", JsonObject.get record "better_response")]) := rfl

theorem specOf_inj {objective : String} {sample sample' : Sample}
    (h : specOf objective sample = specOf objective sample') : sample = sample' := by
  have hsamples := congrArg TrainSpec.samples h
  injection hsamples with hsamples
  injection hsamples

/-- The other kinds put the response into the sample. -/
theorem routeKind_response {kind : String} (h : UsesResponse kind) {prompt bad bad' : Value}
    {record : JsonObject} {spec : TrainSpec}
    (hspec : routeKind (.str kind) prompt bad record = some spec)
    (hspec' : routeKind (.str kind) prompt bad' record = some spec) : bad = bad' := by
  have heq := hspec.trans hspec'.symm
  have hsecond : ∀ {key : String} {rest : Sample} {objective : String},
      specOf objective (("prompt", prompt) :: (key, bad) :: rest) =
        specOf objective (("prompt", prompt) :: (key, bad') :: rest) → bad = bad' := by
    intro key rest objective hs
    have htail := (List.cons.inj (specOf_inj hs)).2
    exact (Prod.mk.inj (List.cons.inj htail).1).2
  rcases h with rfl | rfl | rfl
  · obtain ⟨label, hlabel⟩ := routeKind_binary prompt record
    rw [hlabel, hlabel] at heq
    exact hsecond (Option.some.inj heq)
  · rw [routeKind_critique] at hspec heq
    rw [routeKind_critique] at heq
    split at hspec
    · cases hspec
    · rename_i hc
      rw [if_neg hc, if_neg hc] at heq
      exact hsecond (Option.some.inj heq)
  · rw [routeKind_critiqueWithRewrite] at hspec heq
    rw [routeKind_critiqueWithRewrite] at heq
    split at hspec
    · cases hspec
    · rename_i hc
      rw [if_neg hc, if_neg hc] at heq
      exact hsecond (Option.some.inj heq)

/-- Only the five kinds are routed. -/
theorem routeKind_null (prompt bad : Value) (record : JsonObject) :
    routeKind .null prompt bad record = none := rfl

/-! ## The two paths -/

variable {ρ : Type} {m : Controller ρ} {json : Json} {file file' : Bytes} {spec : TrainSpec}

theorem submitFeedback_ok
    (h : submitFeedback m json index file ts requestId req = (file', .ok spec)) :
    ∃ record, feedbackRecord index ts requestId req = .ok record ∧
      file' = (TrajectoryLog.appendRaw json file record).2 ∧
      feedbackToBatch req.modelDump (promptFallback index req) (responseFallback index req) =
        some spec := by
  unfold submitFeedback at h
  split at h
  · cases h
  · simp only at h
    split at h
    · cases h
    · split at h
      · cases h
      · rename_i offset file'' hlog
        split at h
        · cases h
        · rename_i spec' hspec
          obtain ⟨rfl, hok⟩ := Prod.mk.inj h
          obtain rfl := Except.ok.inj hok
          simp only [logFeedback, bind, Except.bind, pure, Except.pure] at hlog
          cases hdata : feedbackData (req.idValue.or (.str ""))
              ((Value.str req.kind).or (.str "unknown"))
              (logFields req.modelDump (promptFallback index req) (responseFallback index req)) with
          | error e => simp [hdata] at hlog
          | ok data =>
            simp only [hdata, Except.ok.injEq] at hlog
            refine ⟨TrajectoryLog.eventPayload "feedback" ts requestId data, ?_, ?_, hspec⟩
            · rw [feedbackRecord, hdata]
              rfl
            · exact (congrArg Prod.snd hlog).symm

theorem resolve_prompt {record : JsonObject}
    (h : feedbackRecord index ts requestId req = .ok record) :
    (Blank req.modelDump "prompt" →
        ((JsonObject.get record "prompt").or .null).or (.str "") = .str "") ∧
      (¬ (Blank req.modelDump "prompt" ∧ (promptFallback index req).truthy = true) →
        ((JsonObject.get record "prompt").or .null).or (.str "") =
          ((JsonObject.get req.modelDump "prompt").or (promptFallback index req)).or
            (.str "")) := by
  refine resolve_eq ?_
  rw [lookup_record h (by decide), lookup_logFields _ _ _ (by decide)]
  simp only [String.reduceEq, false_and, if_false, true_and]

theorem resolve_response {record : JsonObject}
    (h : feedbackRecord index ts requestId req = .ok record) :
    (Blank req.modelDump "response" →
        ((JsonObject.get record "response").or .null).or (.str "") = .str "") ∧
      (¬ (Blank req.modelDump "response" ∧ (responseFallback index req).truthy = true) →
        ((JsonObject.get record "response").or .null).or (.str "") =
          ((JsonObject.get req.modelDump "response").or (responseFallback index req)).or
            (.str "")) := by
  refine resolve_eq ?_
  rw [lookup_record h (by decide), lookup_logFields _ _ _ (by decide)]
  simp only [String.reduceEq, false_and, if_false, true_and]

/-- What the live path and the replay make of the same request. -/
theorem feedbackToBatch_live (hstamps : Unstamped req)
    (h : feedbackToBatch req.modelDump (promptFallback index req) (responseFallback index req) =
      some spec) :
    req.kind ≠ "" ∧
      routeKind (.str req.kind)
        (((JsonObject.get req.modelDump "prompt").or (promptFallback index req)).or (.str ""))
        (((JsonObject.get req.modelDump "response").or (responseFallback index req)).or (.str ""))
        req.modelDump = some spec ∧
      (((JsonObject.get req.modelDump "prompt").or (promptFallback index req)).or
        (.str "")).truthy = true := by
  simp only [feedbackToBatch, routingKind_modelDump hstamps] at h
  split at h
  · cases h
  · rename_i hprompt
    split at h
    · rename_i hkind
      exact ⟨hkind.1, h, by simpa using hprompt⟩
    · rw [routeKind_null] at h
      cases h

theorem feedbackToBatch_replay {record : JsonObject} (hstamps : Unstamped req)
    (h : feedbackRecord index ts requestId req = .ok record) (hkind : req.kind ≠ "") :
    feedbackToBatch record .null .null =
      if (((JsonObject.get record "prompt").or .null).or (.str "")).truthy = false then none
      else routeKind (.str req.kind) (((JsonObject.get record "prompt").or .null).or (.str ""))
        (((JsonObject.get record "response").or .null).or (.str "")) req.modelDump := by
  have hcongr : ∀ kind prompt bad,
      routeKind kind prompt bad record = routeKind kind prompt bad req.modelDump :=
    fun kind prompt bad => routeKind_congr kind prompt bad fun key hkey =>
      lookup_record_other h (by revert key; decide)
  simp only [feedbackToBatch, routingKind_record hstamps h hkind, hcongr, Bool.not_eq_true']

/-- **Live and replayed feedback.** The record of a request that was turned into a train spec is
turned into the same spec without fallbacks, exactly if the request carries no blank prompt,
and no blank response where the response is used and the index has one. -/
theorem replay_eq_live_iff (hstamps : Unstamped req)
    (h : submitFeedback m json index file ts requestId req = (file', .ok spec)) :
    ∃ record, feedbackRecord index ts requestId req = .ok record ∧
      file' = (TrajectoryLog.appendRaw json file record).2 ∧
      (feedbackToBatch record .null .null = some spec ↔ Replayable index req) := by
  obtain ⟨record, hrecord, hfile, hbatch⟩ := submitFeedback_ok h
  refine ⟨record, hrecord, hfile, ?_⟩
  obtain ⟨hkind, hlive, htruthy⟩ := feedbackToBatch_live hstamps hbatch
  obtain ⟨hblankP, hsameP⟩ := resolve_prompt hrecord
  obtain ⟨hblankR, hsameR⟩ := resolve_response hrecord
  rw [feedbackToBatch_replay hstamps hrecord hkind]
  constructor
  · intro hreplay
    split at hreplay
    · cases hreplay
    · rename_i hprompt
      have hnotBlank : ¬ Blank req.modelDump "prompt" := fun hblank =>
        hprompt (by rw [hblankP hblank]; rfl)
      refine ⟨hnotBlank, fun ⟨huses, hblank, hfallback⟩ => ?_⟩
      -- the live sample has the response of the index, the replayed one an empty text
      rw [hsameP fun hb => hnotBlank hb.1, hblankR hblank] at hreplay
      have hbad := routeKind_response huses hlive hreplay
      rw [Value.or_of_falsy hblank.2, Value.or_of_truthy hfallback] at hbad
      rw [hbad] at hfallback
      cases hfallback
  · rintro ⟨hnotBlank, hresponse⟩
    rw [hsameP fun hb => hnotBlank hb.1, if_neg (by simp [htruthy]), ← hlive]
    by_cases huses : UsesResponse req.kind
    · rw [hsameR fun hb => hresponse ⟨huses, hb⟩]
    · exact routeKind_of_not_uses huses _ _ _ _

/-! ## Two votes on a remembered response -/

/-- Encodes every payload as the record of `voteRequest`. -/
def voteJson : Json where
  dumps _ := "\x7b\"kind\":\"feedback\",\"ts\":0.0,\"response_id\":\"r1\"," ++
    "\"feedback_kind\":\"binary\",\"value\":\"up\",\"prompt\":\"hi\",\"response\":\"hello\"\x7d"
  loads _ := .ok (.dict [("kind", .str "feedback"), ("ts", .num 0), ("response_id", .str "r1"),
    ("feedback_kind", .str "binary"), ("value", .str "up"), ("prompt", .str "hi"),
    ("response", .str "hello")])

def voteIndex : List (String × Remembered) := [("r1", ⟨.str "hi", .str "hello"⟩)]

def voteRequest : FeedbackRequest := ⟨some "r1", "binary", [("value", .str "up")], by simp⟩

/-- The same vote, with an explicit null where the response would be. -/
def nullResponse : FeedbackRequest :=
  ⟨some "r1", "binary", [("value", .str "up"), ("response", .null)], by simp⟩

theorem voteRequest_replays :
    ∃ record, feedbackRecord voteIndex 0 none voteRequest = .ok record ∧
      feedbackToBatch record .null .null = some (specOf "kto"
        [("prompt", .str "hi"), ("response", .str "hello"), ("label", .str "desirable")]) := by
  obtain ⟨record, hrecord, -, hiff⟩ := @replay_eq_live_iff voteIndex voteRequest 0 none Unit
    (Controller.init 64 64) voteJson [] _ _ (by simp [Unstamped, voteRequest]) rfl
  exact ⟨record, hrecord, hiff.mpr ⟨by decide, fun hlost => absurd hlost.2.1 (by decide)⟩⟩

theorem nullResponse_differs :
    ¬ ∀ (m : Controller Unit) (json : Json) (index : List (String × Remembered)) (file : Bytes)
      (ts : ℚ) (requestId : Option String) (req : FeedbackRequest) (file' : Bytes)
      (spec : TrainSpec), Unstamped req →
      submitFeedback m json index file ts requestId req = (file', .ok spec) →
      ∃ record, feedbackRecord index ts requestId req = .ok record ∧
        feedbackToBatch record .null .null = some spec := by
  intro h
  obtain ⟨record, hrecord, hspec⟩ := h (Controller.init 64 64) voteJson voteIndex [] 0 none
    nullResponse _ _ (by simp [Unstamped, nullResponse]) rfl
  obtain rfl := Except.ok.inj hrecord
  have hsample := specOf_inj (Option.some.inj hspec)
  have hresponse := (Prod.mk.inj (List.cons.inj (List.cons.inj hsample).2).1).2
  exact absurd (Value.str.inj hresponse) (by decide)

end Trainfer
