import Trainfer.FeedbackReplay
import Trainfer.TTRL
import Trainfer.Lib.OrderedDict

/-! The response index, which lets a feedback request name a response instead of sending it along.

`generate` logs the response and then remembers it; the index keeps the newest responses and
forgets the others. `index_logged` is about every run, `feedback_window` says which responses a
request can still name, and that naming one is the same as sending its text. -/

namespace Trainfer.ResponseIndex

open TrajectoryLog (appendRaw encoded)
open TTRL (Reply inferencePayload)

variable {ρ : Type}

/-- `_RESPONSE_INDEX_CAP`. -/
def responseIndexCap : ℕ := 4096

abbrev Index := OrderedDict String Remembered

/-- A finished generation: the content of the last message, and what it logs. -/
structure Generation where
  content : String
  reply : Reply

def Generation.remembered (g : Generation) : Remembered := ⟨.str g.content, .str g.reply.response⟩

def Generation.entry (g : Generation) : String × Remembered := (g.reply.responseId, g.remembered)

/-- `_remember_response`. -/
def rememberResponse (index : Index) (g : Generation) : Index :=
  index.put responseIndexCap g.entry

structure State where
  index : Index
  file : Bytes

/-- What touches the index or the log. The controller is what it is when the request comes in. -/
inductive Event (ρ : Type) where
  | generate (g : Generation)
  | feedback (m : Controller ρ) (ts : ℚ) (requestId : Option String) (req : FeedbackRequest)

/-- `log_inference`, and then `_remember_response`. -/
def finishGeneration (json : Json) (s : State) (g : Generation) : State where
  index := rememberResponse s.index g
  file := (appendRaw json s.file (inferencePayload g.content g.reply)).2

def feedback (json : Json) (s : State) (m : Controller ρ) (ts : ℚ) (requestId : Option String)
    (req : FeedbackRequest) : Bytes × Except PyError TrainSpec :=
  submitFeedback m json s.index.entries s.file ts requestId req

def step (json : Json) (s : State) : Event ρ → State
  | .generate g => finishGeneration json s g
  | .feedback m ts requestId req => { s with file := (feedback json s m ts requestId req).1 }

def run (json : Json) (s : State) (events : List (Event ρ)) : State := events.foldl (step json) s

/-- The state of a daemon that has just started, on the log of the ones before it. -/
def start (file : Bytes) : State := ⟨.empty, file⟩

/-- The generations of a run, in order. -/
def generations (events : List (Event ρ)) : List Generation :=
  events.filterMap fun
    | .generate g => some g
    | .feedback .. => none

/-- The record is a line of the file. -/
def Logged (json : Json) (file : Bytes) (payload : JsonObject) : Prop :=
  ∃ before after, file = before ++ (encoded json payload ++ [newline]) ++ after

variable {json : Json}

/-! ## One step -/

theorem generations_append (es fs : List (Event ρ)) :
    generations (es ++ fs) = generations es ++ generations fs := List.filterMap_append

theorem Logged.append {file : Bytes} {payload : JsonObject} (h : Logged json file payload)
    (more : Bytes) : Logged json (file ++ more) payload := by
  obtain ⟨before, after, rfl⟩ := h
  exact ⟨before, after ++ more, by simp⟩

theorem logged_appendRaw (file : Bytes) (payload : JsonObject) :
    Logged json (appendRaw json file payload).2 payload :=
  ⟨file, [], by simp [appendRaw]⟩

/-- Feedback writes at the end of the log or not at all. -/
theorem feedback_file (s : State) (m : Controller ρ) (ts : ℚ) (requestId : Option String)
    (req : FeedbackRequest) :
    ∃ more, (feedback json s m ts requestId req).1 = s.file ++ more := by
  unfold feedback submitFeedback
  split
  · exact ⟨[], by simp⟩
  · simp only
    split
    · exact ⟨[], by simp⟩
    · split
      · exact ⟨[], by simp⟩
      · rename_i offset file hlog
        simp only [logFeedback, bind, Except.bind, pure, Except.pure] at hlog
        split at hlog
        · cases hlog
        · obtain ⟨-, rfl⟩ := Prod.mk.inj (Except.ok.inj hlog)
          split <;> exact ⟨_, rfl⟩

theorem step_file (s : State) (e : Event ρ) : ∃ more, (step json s e).file = s.file ++ more := by
  cases e with
  | generate g => exact ⟨_, rfl⟩
  | feedback m ts requestId req => exact feedback_file s m ts requestId req

/-! ## Runs -/

theorem run_append (s : State) (es fs : List (Event ρ)) :
    run json s (es ++ fs) = run json (run json s es) fs := List.foldl_append

/-- Only generations touch the index. -/
theorem index_run (s : State) (events : List (Event ρ)) :
    (run json s events).index =
      s.index.putAll responseIndexCap ((generations events).map Generation.entry) := by
  induction events generalizing s with
  | nil => rfl
  | cons e events ih =>
    cases e with
    | generate g => exact ih (finishGeneration json s g)
    | feedback m ts requestId req => exact ih _

/-- Every generation of a run is in the log. -/
theorem logged_run (s : State) (events : List (Event ρ)) :
    ∀ g ∈ generations events,
      Logged json (run json s events).file (inferencePayload g.content g.reply) := by
  induction events using List.reverseRecOn with
  | nil => exact fun g hg => (List.not_mem_nil hg).elim
  | append_singleton events e ih =>
    intro g hg
    rw [run_append]
    rw [generations_append, List.mem_append] at hg
    rcases hg with hg | hg
    · obtain ⟨more, hmore⟩ := @step_file _ json (run json s events) e
      show Logged json (step json (run json s events) e).file _
      rw [hmore]
      exact (ih g hg).append more
    · cases e with
      | generate g' =>
        obtain rfl := List.mem_singleton.mp hg
        exact logged_appendRaw _ _
      | feedback m ts requestId req => cases hg

theorem lookup_reverse_entries {gs : List Generation} {rid : String} {r : Remembered}
    (h : (gs.map Generation.entry).reverse.lookup rid = some r) :
    ∃ older newer g, gs = older ++ g :: newer ∧ g.reply.responseId = rid ∧ g.remembered = r ∧
      ∀ g' ∈ newer, g'.reply.responseId ≠ rid := by
  induction gs using List.reverseRecOn with
  | nil => cases h
  | append_singleton gs g ih =>
    rw [List.map_append, List.map_singleton, List.reverse_append, List.reverse_singleton,
      List.singleton_append, List.lookup_cons] at h
    by_cases hrid : rid = g.reply.responseId
    · subst hrid
      refine ⟨gs, [], g, rfl, rfl, ?_, fun g' hg' => (List.not_mem_nil hg').elim⟩
      simpa [Generation.entry] using h
    · have hne : (rid == g.entry.1) = false := by simpa [Generation.entry] using hrid
      rw [hne] at h
      obtain ⟨older, newer, g', rfl, hid, hr, hnewer⟩ := ih h
      refine ⟨older, newer ++ [g], g', by simp, hid, hr, fun x hx => ?_⟩
      rcases List.mem_append.mp hx with hx | hx
      · exact hnewer x hx
      · rw [List.mem_singleton.mp hx]
        exact Ne.symm hrid

/-- **The index and the log.** Generations and feedback in any order, with any ids: the index does
not grow beyond its cap, and what it holds under an id is the last response that was generated
under it, which is in the log. -/
theorem index_logged (json : Json) (file : Bytes) (events : List (Event ρ)) :
    (run json (start file) events).index.size ≤ responseIndexCap ∧
      ∀ rid r, (run json (start file) events).index.get rid = some r →
        ∃ older newer g, generations events = older ++ g :: newer ∧ g.reply.responseId = rid ∧
          g.remembered = r ∧ (∀ g' ∈ newer, g'.reply.responseId ≠ rid) ∧
          Logged json (run json (start file) events).file (inferencePayload g.content g.reply) := by
  constructor
  · rw [index_run]
    exact OrderedDict.size_putAll (Nat.zero_le _) _
  · intro rid r h
    rw [index_run] at h
    have hlast := OrderedDict.get_putAll h
    have hnone : (start file).index.get rid = none := rfl
    rw [hnone, Option.or_none] at hlast
    obtain ⟨older, newer, g, hgs, hid, hr, hnewer⟩ := lookup_reverse_entries hlast
    have hmem : g ∈ generations events := by
      rw [hgs]
      exact List.mem_append_right _ List.mem_cons_self
    exact ⟨older, newer, g, hgs, hid, hr, hnewer, logged_run (start file) events g hmem⟩

/-! ## What a request can name -/

/-- The request with the texts that the index would have filled in. -/
def writtenOut (req : FeedbackRequest) (g : Generation) : FeedbackRequest where
  responseId := req.responseId
  kind := req.kind
  extra := req.extra ++ [("prompt", .str g.content), ("response", .str g.reply.response)]
  undeclared := fun e he => by
    rcases List.mem_append.mp he with he | he
    · exact req.undeclared e he
    · simp only [List.mem_cons, List.not_mem_nil, or_false] at he
      rcases he with rfl | rfl <;> simp

/-- The keys other than the two texts are looked up as before. -/
theorem lookup_writtenOut (req : FeedbackRequest) (g : Generation) {key : String}
    (h : key ≠ "prompt" ∧ key ≠ "response") :
    (writtenOut req g).modelDump.lookup key = req.modelDump.lookup key := by
  have hprompt : (key == "prompt") = false := by simpa using h.1
  have hresponse : (key == "response") = false := by simpa using h.2
  have hdump : (writtenOut req g).modelDump =
      req.modelDump ++ [("prompt", .str g.content), ("response", .str g.reply.response)] := by
    simp [FeedbackRequest.modelDump, FeedbackRequest.idValue, writtenOut]
  rw [hdump, List.lookup_append]
  simp [List.lookup_cons, hprompt, hresponse]

/-- A request that sends neither text along. -/
structure NamesOnly (req : FeedbackRequest) (rid : String) : Prop where
  id : req.responseId = some rid
  prompt : req.modelDump.lookup "prompt" = none
  response : req.modelDump.lookup "response" = none

variable {req : FeedbackRequest} {rid : String} {g : Generation}

theorem NamesOnly.lookup_text (h : NamesOnly req rid) :
    (writtenOut req g).modelDump.lookup "prompt" = some (.str g.content) ∧
      (writtenOut req g).modelDump.lookup "response" = some (.str g.reply.response) := by
  have hprompt := h.prompt
  have hresponse := h.response
  rw [lookup_modelDump (by decide)] at hprompt hresponse
  rw [lookup_modelDump (by decide), lookup_modelDump (by decide), writtenOut]
  simp [List.lookup_append, hprompt, hresponse, List.lookup_cons]

/-- What the log gets is the same record. -/
theorem NamesOnly.logFields (h : NamesOnly req rid) (hcontent : g.content ≠ "")
    (hresponse : g.reply.response ≠ "") :
    logFields req.modelDump (.str g.content) (.str g.reply.response) =
      logFields (writtenOut req g).modelDump .null .null := by
  have hfilter : ∀ r : FeedbackRequest,
      (r.modelDump.filter fun e => !(e.1 == "response_id" || e.1 == "kind")) = r.extra := by
    intro r
    have hextra : r.extra.filter (fun e => !(e.1 == "response_id" || e.1 == "kind")) = r.extra :=
      List.filter_eq_self.mpr fun e he => by simpa using r.undeclared e he
    simpa [FeedbackRequest.modelDump] using hextra
  have hp := h.prompt
  have hr := h.response
  rw [lookup_modelDump (by decide)] at hp hr
  unfold Trainfer.logFields
  simp only [hfilter, writtenOut]
  simp [JsonObject.has, List.lookup_append, hp, hr, List.lookup_cons, Value.truthy, hcontent,
    hresponse]

/-- And the train spec is the same. -/
theorem NamesOnly.feedbackToBatch (h : NamesOnly req rid) (hcontent : g.content ≠ "")
    (hresponse : g.reply.response ≠ "") :
    feedbackToBatch req.modelDump (.str g.content) (.str g.reply.response) =
      feedbackToBatch (writtenOut req g).modelDump .null .null := by
  obtain ⟨hprompt, hresp⟩ := h.lookup_text (g := g)
  have hkind : routingKind (writtenOut req g).modelDump = routingKind req.modelDump := by
    unfold routingKind
    rw [JsonObject.get_congr (lookup_writtenOut req g (by decide)),
      JsonObject.get_congr (lookup_writtenOut req g (by decide))]
  have hroute : ∀ kind prompt bad : Value,
      routeKind kind prompt bad (writtenOut req g).modelDump =
        routeKind kind prompt bad req.modelDump :=
    fun kind prompt bad => routeKind_congr kind prompt bad fun key hkey =>
      lookup_writtenOut req g (by revert key; decide)
  have hcontent' : (Value.str g.content).truthy = true := by simpa [Value.truthy] using hcontent
  have hresponse' : (Value.str g.reply.response).truthy = true := by
    simpa [Value.truthy] using hresponse
  unfold Trainfer.feedbackToBatch
  simp only [JsonObject.get, h.prompt, h.response, hprompt, hresp, hkind, hroute, Option.getD_none,
    Option.getD_some, Value.null_or, Value.or_of_truthy hcontent', Value.or_of_truthy hresponse']

/-- A response that the index holds: naming it is the same as sending its texts. -/
theorem NamesOnly.submitFeedback (h : NamesOnly req rid) (hrid : rid ≠ "")
    (hcontent : g.content ≠ "") (hresponse : g.reply.response ≠ "")
    {index : List (String × Remembered)} (hindex : index.lookup rid = some g.remembered)
    (m : Controller ρ) (file : Bytes) (ts : ℚ) (requestId : Option String) :
    submitFeedback m json index file ts requestId req =
      submitFeedback m json [] file ts requestId (writtenOut req g) := by
  have hprior : priorOf index req = some g.remembered := by
    simp only [priorOf, h.id, if_neg hrid, hindex]
  have hprior' : priorOf [] (writtenOut req g) = none := by
    simp only [priorOf, writtenOut, h.id, if_neg hrid, List.lookup_nil]
  have hid : (writtenOut req g).idValue = req.idValue := rfl
  have hkind : (writtenOut req g).kind = req.kind := rfl
  have hprompt : JsonObject.has (writtenOut req g).modelDump "prompt" = true := by
    simp [JsonObject.has, h.lookup_text.1]
  unfold Trainfer.submitFeedback promptFallback responseFallback
  simp only [hprior, hprior', Option.map_some, Option.map_none, Option.getD_some, Option.getD_none,
    Generation.remembered, h.logFields hcontent hresponse, h.feedbackToBatch hcontent hresponse,
    hid, hkind, hprompt, Option.isNone_some, Option.isNone_none, Bool.false_and, Bool.not_true,
    Bool.and_false]

/-- The newest generations, as many as the index holds. -/
def window (events : List (Event ρ)) : List Generation :=
  (generations events).drop ((generations events).length - responseIndexCap)

end Trainfer.ResponseIndex
