import Trainfer.LogReaders
import Trainfer.MajorityVote
import Mathlib

/-! How often the TTRL scheduler trains on a prompt.

The counts are charged to the offset of a record, so a run trains at most `maxPerPrompt`
times on each record. `noSelfFeeding_of_userNewest` carries this over to the requests of users, as
long as no record of the sampling itself is picked; `selfFed_unbounded` is a run that trains
on its own records. -/

namespace Trainfer.TTRL

open TrajectoryLog

variable {json : Json} {verifiers : Verifiers} {policy : Policy}

/-! ## Counting -/

/-- Each element of `u` accounts for at most `c` elements of `l`. -/
theorem length_le_mul_of_count_le {l u : List Nat} {c : Int} (hsub : ∀ a ∈ l, a ∈ u)
    (hcount : ∀ a, (l.count a : Int) ≤ c) : (l.length : Int) ≤ c * u.length := by
  induction u generalizing l with
  | nil =>
    have hnil : l = [] := List.eq_nil_iff_forall_not_mem.mpr fun a ha => by simpa using hsub a ha
    simp [hnil]
  | cons b u ih =>
    have hrest := ih (l := l.filter fun a => decide ¬(a == b) = true)
      (fun a ha => by
        obtain ⟨hal, hne⟩ := List.mem_filter.mp ha
        exact (List.mem_cons.mp (hsub a hal)).resolve_left (by simpa using hne))
      (fun a => le_trans (by exact_mod_cast List.filter_sublist.count_le a) (hcount a))
    have hsplit : l.length =
        l.count b + (l.filter fun a => decide ¬(a == b) = true).length := by
      rw [List.count, ← List.countP_eq_length_filter]
      exact List.length_eq_countP_add_countP (· == b)
    have hb := hcount b
    rw [List.length_cons, hsplit]
    push_cast
    linarith

/-! ## What a poll picks -/

/-- A filtered scan of whole records that ends well has met no kind that cannot be looked up. -/
theorem hashable_of_scan {ks : List String} {ps : List JsonObject}
    (h : ∀ p ∈ ps, json.RoundTrips p) (pos : Nat)
    (herror : (scan json (some ks)
      (Lines.starts pos (Lines.lines newline (written json ps)))).error = none) :
    ∀ p ∈ ps, HashableKind p := by
  induction ps generalizing pos with
  | nil => simp
  | cons p ps ih =>
    have hp := h p List.mem_cons_self
    have hfile : written json (p :: ps) = encoded json p ++ newline :: written json ps := by
      simp [written]
    rw [hfile, Lines.lines_append_line (newline_notMem_encoded hp), Lines.starts] at herror
    have hkind : HashableKind p := by
      have hne : (encoded json p).isEmpty = false := by simpa using encoded_ne_nil hp
      have hloads : json.loads (encoded json p) = .ok (.dict p) := hp.loads_dumps
      simp only [scan, (strip_encoded hp).1, hne, hloads, Bool.false_eq_true, if_false, passes,
        Value.asDict, bind, Except.bind] at herror
      rw [HashableKind]
      cases hk : (JsonObject.get p "kind").checkHashable with
      | ok u => rfl
      | error e => simp [hk, Gen.raise] at herror
    rw [scan_line hp (.inr hkind) (strip_encoded hp).1] at herror
    refine List.forall_mem_cons.mpr ⟨hkind, ih (fun q hq => h q (List.mem_cons_of_mem p hq))
      (pos + (encoded json p ++ [newline]).length) ?_⟩
    split at herror
    · exact herror
    · exact herror

theorem getLast?_filterMap {α β : Type} {f : α → Option β} {xs : List α} {b : β}
    (h : (xs.filterMap f).getLast? = some b) :
    ∃ a, (xs.filter fun x => (f x).isSome).getLast? = some a ∧ f a = some b := by
  induction xs using List.reverseRecOn with
  | nil => simp at h
  | append_singleton xs x ih =>
    cases hx : f x with
    | none =>
      simp only [List.filterMap_append, List.filterMap_cons, hx, List.filterMap_nil,
        List.append_nil] at h
      simpa [List.filter_append, hx] using ih h
    | some c =>
      simp only [List.filterMap_append, List.filterMap_cons, hx, List.filterMap_nil,
        List.getLast?_concat, Option.some.injEq] at h
      exact ⟨x, by simp [List.filter_append, hx], h ▸ hx⟩

theorem candidate_some {picker : TTRLPicker} {offset : Nat} {payload : JsonObject}
    {c : Nat × Value × String}
    (h : TTRLPicker.candidate verifiers picker (offset, .dict payload) = .ok (some c)) :
    picker.seen offset < picker.maxPerPrompt ∧ c.1 = offset ∧
      c.2.1 = JsonObject.get payload "prompt" := by
  unfold TTRLPicker.candidate at h
  simp only [Value.asDict, bind, Except.bind, pure, Except.pure] at h
  split at h
  · cases h
  · rename_i hcap
    split at h
    · cases h
    · split at h
      · cases h
      · split at h
        · cases h
        · obtain rfl := Option.some.inj (Except.ok.inj h)
          exact ⟨not_le.mp hcap, rfl, rfl⟩

/-- The records are what the file holds, at their offsets. -/
structure Logged (json : Json) (s : State) : Prop where
  texts : ∀ r ∈ s.records, json.RoundTrips r.payload
  file : s.file = written json (s.records.map Record.payload)
  offsets : s.records.map (fun r => (r.offset, r.payload)) =
    entries json 0 (s.records.map Record.payload)

/-- What the picker makes of a record. -/
def candidateOf (verifiers : Verifiers) (policy : Policy) (s : State) (r : Record) :
    Option (Nat × Value × String) :=
  if hasKind (some ["inference"]) r.payload then
    keptBy (TTRLPicker.candidate verifiers (picker policy s)) (r.offset, .dict r.payload)
  else none

theorem eligible_eq (s : State) (r : Record) :
    eligible verifiers policy s r = (candidateOf verifiers policy s r).isSome := by
  unfold eligible candidateOf keptBy
  cases hasKind (some ["inference"]) r.payload with
  | false => rfl
  | true =>
    cases TTRLPicker.candidate verifiers (picker policy s) (r.offset, .dict r.payload) with
    | error e => rfl
    | ok o => cases o <;> rfl

/-- The picker sees the records that are of its kind. -/
theorem candidates_ok {s : State} (h : Logged json s) {found : List (Nat × Value × String)}
    (hfound : (picker policy s).candidates json verifiers s.file = .ok found) :
    found = s.records.filterMap (candidateOf verifiers policy s) := by
  have htexts : ∀ p ∈ s.records.map Record.payload, json.RoundTrips p := fun p hp => by
    obtain ⟨r, hr, rfl⟩ := List.mem_map.mp hp
    exact h.texts r hr
  obtain ⟨herror, rfl⟩ := consume_ok hfound
  rw [iterWithOffsets, linesFrom, List.drop_zero, h.file] at herror ⊢
  rw [scan_written htexts (.inr (hashable_of_scan htexts 0 herror)), yielded, ← h.offsets,
    List.filter_map, List.map_map, List.filterMap_map, List.filterMap_filter]
  rfl

theorem pick_newest {s : State} (h : Logged json s) {offset : Nat} {prompt : Value}
    {domain : String}
    (hpick : (picker policy s).pickPrompt json verifiers s.file =
      .ok (some (offset, prompt, domain))) :
    policy.minPrompts ≤ ((s.records.filter (eligible verifiers policy s)).length : Int) ∧
      ∃ r, (s.records.filter (eligible verifiers policy s)).getLast? = some r ∧
        r.offset = offset ∧ r.prompt = textOf prompt ∧ s.seen offset < policy.maxPerPrompt := by
  simp only [TTRLPicker.pickPrompt, bind, Except.bind] at hpick
  cases hfound : (picker policy s).candidates json verifiers s.file with
  | error e => simp [hfound] at hpick
  | ok found =>
    simp only [hfound, TTRLPicker.newest] at hpick
    have heq := candidates_ok h hfound
    have helig : eligible verifiers policy s = fun r =>
        (candidateOf verifiers policy s r).isSome := funext (eligible_eq s)
    split at hpick
    · simp at hpick
    · rename_i hmin
      split at hpick
      · rename_i c hlast
        obtain rfl := Option.some.inj (Except.ok.inj hpick)
        rw [heq] at hlast
        obtain ⟨r, hr, hc⟩ := getLast?_filterMap hlast
        refine ⟨?_, r, by rw [helig]; exact hr, ?_⟩
        · have hlen : found.length = (s.records.filter (eligible verifiers policy s)).length := by
            rw [heq, helig, List.length_filterMap_eq_countP, List.countP_eq_length_filter]
          rw [← hlen]
          exact not_lt.mp hmin
        · unfold candidateOf keptBy at hc
          split at hc
          · split at hc
            · rename_i o ho
              subst hc
              obtain ⟨hlt, h1, h2⟩ := candidate_some ho
              obtain rfl : offset = r.offset := h1
              exact ⟨rfl, by rw [Record.prompt, ← h2], hlt⟩
            · cases hc
          · cases hc
      · cases hpick

/-! ## The log -/

theorem Logged.of_same {s t : State} (h : Logged json s) (hfile : t.file = s.file)
    (hrecords : t.records = s.records) : Logged json t where
  texts := hrecords ▸ h.texts
  file := by
    rw [hfile, hrecords]
    exact h.file
  offsets := by
    rw [hrecords]
    exact h.offsets

theorem Logged.append {s t : State} (h : Logged json s) {payload : JsonObject} {source : Source}
    (hp : json.RoundTrips payload)
    (hfile : t.file = (s.log json payload source).file)
    (hrecords : t.records = (s.log json payload source).records) : Logged json t where
  texts := fun r hr => by
    rw [hrecords] at hr
    rcases List.mem_append.mp hr with hr | hr
    · exact h.texts r hr
    · rw [List.mem_singleton.mp hr]
      exact hp
  file := by
    rw [hfile, hrecords]
    simp only [State.log, appendRaw, List.map_append, written_append, h.file]
    simp [written]
  offsets := by
    rw [hrecords]
    simp only [State.log, appendRaw, List.map_append, entries_append, h.offsets, h.file]
    simp [entries]

theorem logged_start {initial : List (JsonObject × Source)}
    (h : ∀ e ∈ initial, json.RoundTrips e.1) : Logged json (start json initial) := by
  have hoffsets : (start json initial).records.map (fun r => (r.offset, r.payload)) =
      entries json 0 (initial.map Prod.fst) := by
    have hzip := (List.zip_of_prod rfl
      (@map_snd_entries json 0 (initial.map Prod.fst))).symm
    refine Eq.trans ?_ hzip
    simp only [start, appendAll_eq, List.map_map, List.length_nil]
    rw [List.zip_map_right]
    rfl
  have hpayloads : (start json initial).records.map Record.payload = initial.map Prod.fst := by
    have hmap := congrArg (List.map Prod.snd) hoffsets
    rw [map_snd_entries, List.map_map] at hmap
    exact hmap
  refine ⟨fun r hr => ?_, ?_, by rw [hpayloads, hoffsets]⟩
  · have hmem : r.payload ∈ initial.map Prod.fst := hpayloads ▸ List.mem_map_of_mem hr
    obtain ⟨e, he, hre⟩ := List.mem_map.mp hmem
    exact hre ▸ h e he
  · rw [hpayloads]
    simp [start, appendAll_eq]

/-! ## Inversion of a step -/

theorem poll_some {s t : State} (h : step json verifiers policy s .poll = some t) :
    s.phase = .waiting ∧ t = poll json verifiers policy s := by
  simp only [step] at h
  split at h
  · rename_i hphase
    exact ⟨hphase, (Option.some.inj h).symm⟩
  · cases h

/-- A rollout may log a record, and has one call less to go. -/
theorem rollout_some {s t : State} {r : Rollout}
    (h : step json verifiers policy s (.rollout r) = some t) :
    ∃ offset prompt domain left rollouts rollouts',
      s.phase = .sampling offset prompt domain (left + 1) rollouts ∧
        t = { (match r.logged with
          | some reply => s.log json (inferencePayload prompt reply) .sampler
          | none => s) with phase := .sampling offset prompt domain left rollouts' } := by
  simp only [step] at h
  split at h
  · rename_i offset prompt domain left rollouts hphase
    exact ⟨offset, prompt, domain, left, rollouts, _, hphase, (Option.some.inj h).symm⟩
  · cases h

theorem finish_some {s t : State} {keys : List (Option String)} {submitted : Bool}
    (h : step json verifiers policy s (.finish keys submitted) = some t) :
    ∃ offset prompt domain rollouts, s.phase = .sampling offset prompt domain 0 rollouts ∧
      keys.length = rollouts.length ∧ t = finish s offset prompt rollouts keys submitted := by
  simp only [step] at h
  split at h
  · rename_i offset prompt domain rollouts hphase
    split at h
    · rename_i hlen
      exact ⟨offset, prompt, domain, rollouts, hphase, hlen, (Option.some.inj h).symm⟩
    · cases h
  · cases h

theorem poll_log (s : State) : (poll json verifiers policy s).file = s.file ∧
    (poll json verifiers policy s).records = s.records := by
  unfold poll
  split <;> exact ⟨rfl, rfl⟩

theorem finish_log (s : State) (offset : Nat) (prompt : String) (rollouts : List String)
    (keys : List (Option String)) (submitted : Bool) :
    (finish s offset prompt rollouts keys submitted).file = s.file ∧
      (finish s offset prompt rollouts keys submitted).records = s.records := by
  unfold finish
  split
  · exact ⟨rfl, rfl⟩
  · split
    · exact ⟨rfl, rfl⟩
    · cases submitted <;> exact ⟨rfl, rfl⟩

/-! ## The invariant -/

/-- One, if a rollout of this record is being sampled. -/
def inFlight (s : State) (o : Nat) : Int :=
  match s.phase with
  | .sampling offset _ _ _ _ => if o = offset then 1 else 0
  | _ => 0

structure Charged (policy : Policy) (s : State) : Prop where
  labels : ∀ l ∈ s.labels, ∃ r ∈ s.userRecords, r.offset = l.offset ∧ r.prompt = l.prompt
  trained : ∀ o, ((s.labels.map PseudoLabel.offset).count o : Int) ≤ s.seen o
  picked : ∀ o ∈ s.picks, ∃ r ∈ s.userRecords, r.offset = o
  counted : ∀ o, (s.picks.count o : Int) ≤ s.seen o + inFlight s o
  capped : ∀ o, s.seen o + inFlight s o ≤ policy.maxPerPrompt
  current : ∀ offset prompt domain left rollouts,
    s.phase = .sampling offset prompt domain left rollouts →
      ∃ r ∈ s.userRecords, r.offset = offset ∧ r.prompt = prompt

theorem count_concat (l : List Nat) (a o : Nat) :
    ((l ++ [a]).count o : Int) = l.count o + if o = a then 1 else 0 := by
  rw [List.count_append, List.count_singleton]
  by_cases h : o = a
  · simp [h]
  · simp [h, Ne.symm h]

theorem inFlight_nonneg (s : State) (o : Nat) : 0 ≤ inFlight s o := by
  unfold inFlight
  split
  · split <;> omega
  · omega

theorem count_le_of_sublist {l m : List Nat} {c : Int} (h : l.Sublist m)
    (hcount : ∀ a, (m.count a : Int) ≤ c) (a : Nat) : (l.count a : Int) ≤ c :=
  le_trans (by exact_mod_cast h.count_le a) (hcount a)

theorem Charged.bounded {s : State} (h : Charged policy s) : Bounded policy s := by
  have hpicks : ∀ o, (s.picks.count o : Int) ≤ policy.maxPerPrompt := fun o =>
    le_trans (h.counted o) (h.capped o)
  have hlabels : ∀ o, ((s.labels.map PseudoLabel.offset).count o : Int) ≤
      policy.maxPerPrompt := fun o => by
    have := h.trained o
    have := h.capped o
    have := inFlight_nonneg s o
    omega
  refine ⟨fun p => ?_, ?_⟩
  · have hle := length_le_mul_of_count_le
      (l := (s.labels.filter fun l => l.prompt == p).map PseudoLabel.offset)
      (u := (s.userRecords.filter fun r => r.prompt == p).map Record.offset)
      (fun o ho => by
        obtain ⟨l, hl, rfl⟩ := List.mem_map.mp ho
        obtain ⟨hl, hp⟩ := List.mem_filter.mp hl
        obtain ⟨r, hr, hoffset, hprompt⟩ := h.labels l hl
        exact List.mem_map.mpr ⟨r, List.mem_filter.mpr ⟨hr, by rw [hprompt]; exact hp⟩, hoffset⟩)
      (count_le_of_sublist (List.filter_sublist.map _) hlabels)
    simpa using hle
  · have hle := length_le_mul_of_count_le (l := s.picks) (u := s.userRecords.map Record.offset)
      (fun o ho => by
        obtain ⟨r, hr, rfl⟩ := h.picked o ho
        exact List.mem_map_of_mem hr)
      hpicks
    simpa using hle

theorem charged_start (h : 0 ≤ policy.maxPerPrompt) (initial : List (JsonObject × Source)) :
    Charged policy (start json initial) where
  labels := by simp [start]
  trained := by simp [start]
  picked := by simp [start]
  counted := by simp [start, inFlight]
  capped := by simpa [start, inFlight] using h
  current := by simp [start]

/-- A record is appended; the sampling may go on to its next rollout. -/
theorem Charged.append {s t : State} (h : Charged policy s)
    (hrecords : ∃ rs, t.records = s.records ++ rs) (hseen : t.seen = s.seen)
    (hlabels : t.labels = s.labels) (hpicks : t.picks = s.picks)
    (hphase : t.phase = s.phase ∨ ∃ offset prompt domain n left rs rs',
      s.phase = .sampling offset prompt domain n rs ∧
        t.phase = .sampling offset prompt domain left rs') : Charged policy t := by
  have husers : ∀ r ∈ s.userRecords, r ∈ t.userRecords := fun r hr => by
    obtain ⟨rs, hrs⟩ := hrecords
    rw [State.userRecords, hrs, List.filter_append]
    exact List.mem_append_left _ hr
  have hflight : ∀ o, inFlight t o = inFlight s o := fun o => by
    rcases hphase with hphase | ⟨_, _, _, _, _, _, _, hs, ht⟩
    · simp only [inFlight, hphase]
    · simp only [inFlight, hs, ht]
  refine ⟨?_, ?_, ?_, ?_, ?_, ?_⟩
  · intro l hl
    obtain ⟨r, hr, hrl⟩ := h.labels l (hlabels ▸ hl)
    exact ⟨r, husers r hr, hrl⟩
  · intro o
    rw [hlabels, hseen]
    exact h.trained o
  · intro o ho
    obtain ⟨r, hr, hro⟩ := h.picked o (hpicks ▸ ho)
    exact ⟨r, husers r hr, hro⟩
  · intro o
    rw [hpicks, hseen, hflight]
    exact h.counted o
  · intro o
    rw [hseen, hflight]
    exact h.capped o
  · intro offset prompt domain left rollouts ht
    rcases hphase with hphase | ⟨offset', prompt', domain', n, left', rs, rs', hs, ht'⟩
    · obtain ⟨r, hr, hrp⟩ := h.current offset prompt domain left rollouts (hphase ▸ ht)
      exact ⟨r, husers r hr, hrp⟩
    · obtain ⟨rfl, rfl, rfl, rfl, rfl⟩ := Phase.sampling.inj (ht'.symm.trans ht)
      obtain ⟨r, hr, hrp⟩ := h.current offset' prompt' domain' n rs hs
      exact ⟨r, husers r hr, hrp⟩

theorem Charged.poll {s : State} (hlog : Logged json s) (h : Charged policy s)
    (hphase : s.phase = .waiting) (hg : UserNewest verifiers policy s .poll) :
    Charged policy (poll json verifiers policy s) := by
  have hidle : ∀ o, inFlight s o = 0 := fun o => by simp [inFlight, hphase]
  unfold TTRL.poll
  split
  · refine ⟨h.labels, h.trained, h.picked, fun o => ?_, fun o => ?_, by simp⟩
    · have hcount := h.counted o
      rw [hidle] at hcount
      exact hcount
    · have hcap := h.capped o
      rw [hidle] at hcap
      exact hcap
  · exact h
  · rename_i offset prompt domain hpick
    obtain ⟨hmin, r, hlast, rfl, hprompt, hlt⟩ := pick_newest hlog hpick
    have hmem : r ∈ s.userRecords := by
      have hr := (List.mem_filter.mp (List.mem_of_getLast? hlast)).1
      have hsource := hg.resolve_left (not_lt.mpr hmin) r hlast
      exact List.mem_filter.mpr ⟨hr, by simp [hsource]⟩
    refine ⟨h.labels, h.trained, fun o ho => ?_, fun o => ?_, fun o => ?_, ?_⟩
    · rcases List.mem_append.mp ho with ho | ho
      · exact h.picked o ho
      · exact ⟨r, hmem, (List.mem_singleton.mp ho).symm⟩
    · have hcount := h.counted o
      rw [hidle] at hcount
      simp only [inFlight, count_concat]
      omega
    · have hcap := h.capped o
      rw [hidle] at hcap
      simp only [inFlight]
      split
      · rename_i ho
        rw [ho]
        omega
      · exact hcap
    · intro offset' prompt' domain' left rollouts hsampling
      obtain ⟨rfl, rfl, _⟩ := Phase.sampling.inj hsampling
      exact ⟨r, hmem, rfl, hprompt⟩

/-- The sampled record is charged, and a label may follow. -/
theorem Charged.charge {s t : State} (h : Charged policy s) {offset : Nat} {prompt domain : String}
    {left : Nat} {rollouts : List String}
    (hphase : s.phase = .sampling offset prompt domain left rollouts)
    (hrecords : t.records = s.records) (hseen : t.seen = bump s.seen offset)
    (hpicks : t.picks = s.picks) (hwaiting : t.phase = .waiting)
    (hlabels : t.labels = s.labels ∨
      ∃ response, t.labels = s.labels ++ [⟨offset, prompt, response⟩]) : Charged policy t := by
  have husers : t.userRecords = s.userRecords := by rw [State.userRecords, hrecords]; rfl
  have hflight : ∀ o, inFlight t o = 0 := fun o => by simp [inFlight, hwaiting]
  have hbump : ∀ o, t.seen o = s.seen o + inFlight s o := fun o => by
    simp only [hseen, bump, inFlight, hphase]
    split <;> omega
  refine ⟨?_, ?_, ?_, ?_, ?_, by simp [hwaiting]⟩
  · rw [husers]
    rcases hlabels with hl | ⟨response, hl⟩
    · rw [hl]
      exact h.labels
    · rw [hl]
      intro l hl
      rcases List.mem_append.mp hl with hl | hl
      · exact h.labels l hl
      · obtain rfl := List.mem_singleton.mp hl
        exact h.current offset prompt domain left rollouts hphase
  · intro o
    have htrained := h.trained o
    have hnonneg := inFlight_nonneg s o
    rw [hbump]
    rcases hlabels with hl | ⟨response, hl⟩
    · rw [hl]
      omega
    · rw [hl, List.map_append, List.map_singleton, count_concat]
      simp only [inFlight, hphase]
      omega
  · rw [husers, hpicks]
    exact h.picked
  · intro o
    rw [hpicks, hbump, hflight, add_zero]
    exact h.counted o
  · intro o
    rw [hbump, hflight, add_zero]
    exact h.capped o

theorem Charged.finish {s : State} (h : Charged policy s) {offset : Nat} {prompt domain : String}
    {left : Nat} {rollouts : List String} {keys : List (Option String)} (submitted : Bool)
    (hphase : s.phase = .sampling offset prompt domain left rollouts)
    (hlen : keys.length = rollouts.length) :
    Charged policy (finish s offset prompt rollouts keys submitted) := by
  unfold TTRL.finish
  split
  · exact h.charge hphase rfl rfl rfl rfl (.inl rfl)
  · rename_i idx key hvote
    have hidx : idx < rollouts.length := by
      rw [← hlen]
      exact (List.getElem?_eq_some_iff.mp (majority_of_majorityFromKeys hvote).2.found).1
    rw [List.getElem?_eq_getElem hidx]
    cases submitted with
    | false => exact h.charge hphase rfl rfl rfl rfl (.inl rfl)
    | true => exact h.charge hphase rfl rfl rfl rfl (.inr ⟨_, rfl⟩)

/-- What an event may log round-trips through the file. -/
def Texts (json : Json) (s : State) (e : Event) : Prop :=
  ∀ payload, logged s e = some payload → json.RoundTrips payload

theorem logged_step {s t : State} {e : Event} (h : Logged json s) (htexts : Texts json s e)
    (hstep : step json verifiers policy s e = some t) : Logged json t := by
  cases e with
  | user prompt reply =>
    obtain rfl := Option.some.inj hstep
    exact h.append (htexts _ rfl) rfl rfl
  | other payload =>
    obtain rfl := Option.some.inj hstep
    exact h.append (htexts _ rfl) rfl rfl
  | poll =>
    obtain ⟨_, rfl⟩ := poll_some hstep
    exact h.of_same (poll_log s).1 (poll_log s).2
  | rollout r =>
    obtain ⟨offset, prompt, domain, left, rollouts, rollouts', hphase, rfl⟩ := rollout_some hstep
    cases hlogged : r.logged with
    | none => exact h.of_same rfl rfl
    | some reply => exact h.append (htexts _ (by simp [logged, hphase, hlogged])) rfl rfl
  | finish keys submitted =>
    obtain ⟨offset, prompt, domain, rollouts, _, _, rfl⟩ := finish_some hstep
    have hlog := finish_log s offset prompt rollouts keys submitted
    exact h.of_same hlog.1 hlog.2

theorem charged_step {s t : State} {e : Event} (hlog : Logged json s) (h : Charged policy s)
    (hg : UserNewest verifiers policy s e) (hstep : step json verifiers policy s e = some t) :
    Charged policy t := by
  cases e with
  | user prompt reply =>
    obtain rfl := Option.some.inj hstep
    exact h.append ⟨_, rfl⟩ rfl rfl rfl (.inl rfl)
  | other payload =>
    obtain rfl := Option.some.inj hstep
    exact h.append ⟨_, rfl⟩ rfl rfl rfl (.inl rfl)
  | poll =>
    obtain ⟨hphase, rfl⟩ := poll_some hstep
    exact h.poll hlog hphase hg
  | rollout r =>
    obtain ⟨offset, prompt, domain, left, rollouts, rollouts', hphase, rfl⟩ := rollout_some hstep
    cases r.logged with
    | none => exact h.append ⟨[], by simp⟩ rfl rfl rfl (.inr ⟨_, _, _, _, _, _, _, hphase, rfl⟩)
    | some reply =>
      exact h.append ⟨_, rfl⟩ rfl rfl rfl (.inr ⟨_, _, _, _, _, _, _, hphase, rfl⟩)
  | finish keys submitted =>
    obtain ⟨offset, prompt, domain, rollouts, hphase, hlen, rfl⟩ := finish_some hstep
    exact h.finish submitted hphase hlen

/-- Only a user request adds to the user records. -/
theorem userRecords_step {s t : State} {e : Event} (he : ∀ prompt reply, e ≠ .user prompt reply)
    (hstep : step json verifiers policy s e = some t) : t.userRecords = s.userRecords := by
  have happend : ∀ payload source, source ≠ .user →
      (s.log json payload source).userRecords = s.userRecords := by
    intro payload source hsource
    simp [State.userRecords, State.log, appendRaw, hsource]
  cases e with
  | user prompt reply => exact absurd rfl (he prompt reply)
  | other payload =>
    obtain rfl := Option.some.inj hstep
    exact happend payload .other (by simp)
  | poll =>
    obtain ⟨_, rfl⟩ := poll_some hstep
    rw [State.userRecords, State.userRecords, (poll_log s).2]
  | rollout r =>
    obtain ⟨offset, prompt, domain, left, rollouts, rollouts', _, rfl⟩ := rollout_some hstep
    cases r.logged with
    | none => rfl
    | some reply => exact happend _ .sampler (by simp)
  | finish keys submitted =>
    obtain ⟨offset, prompt, domain, rollouts, _, _, rfl⟩ := finish_some hstep
    rw [State.userRecords, State.userRecords,
      (finish_log s offset prompt rollouts keys submitted).2]

/-- **TTRL and the requests of users.** In every run in which each poll picks, if anything, the
record of a user request, the train steps for a prompt are bounded by the user requests for it,
and once no user request arrives any more the picks are bounded for good. -/
theorem noSelfFeeding_of_userNewest {initial : List (JsonObject × Source)} {events : List Event}
    (hcap : 1 ≤ policy.maxPerPrompt) (hinitial : ∀ e ∈ initial, json.RoundTrips e.1)
    (htexts : Runs.Meets (step json verifiers policy) (Texts json) (start json initial) events)
    (hg : Runs.Meets (step json verifiers policy) (UserNewest verifiers policy)
      (start json initial) events) :
    NoSelfFeeding json verifiers policy initial events := by
  have hbounded : Runs.Always (step json verifiers policy) (Bounded policy)
      (start json initial) events := by
    refine Runs.always_of_meets (I := fun s => Logged json s ∧ Charged policy s) ?_
      (fun s h => h.2.bounded) ⟨logged_start hinitial, charged_start (by omega) initial⟩
      (htexts.and hg)
    rintro s e t ⟨hlog, h⟩ ⟨htext, hnewest⟩ hstep
    exact ⟨logged_step hlog htext hstep, charged_step hlog h hnewest hstep⟩
  refine ⟨hbounded, ?_⟩
  rintro before after s t rfl hbefore hafter hquiet
  have husers : t.userRecords = s.userRecords := by
    refine (Runs.exec_invariant (I := fun u => u.userRecords = s.userRecords)
      (fun u e w hu he hw => (userRecords_step he hw).trans hu) rfl hafter
      (Runs.meets_of_mem (P := fun e : Event => ∀ prompt reply, e ≠ .user prompt reply) ?_ s))
    exact fun e he prompt reply heq => hquiet prompt reply (heq ▸ he)
  have hrun := Runs.exec_append_some.mpr ⟨s, hbefore, hafter⟩
  rw [← husers]
  exact (hbounded.last hrun).picks

/-! ## A run that stays with the user's request, and one that does not -/

def sampleReply : Reply := ⟨"r", "2", "", 0, none⟩

/-- The text of the one record that the sample runs log. -/
def sampleText : String :=
  "\x7b\"kind\":\"inference\",\"ts\":0.0,\"response_id\":\"r\",\"prompt\":\"1+1\"," ++
    "\"response\":\"2\",\"model_fingerprint\":\"\"\x7d"

def sampleJson : Json where
  dumps _ := sampleText
  loads bytes :=
    if bytes = Utf8.encode sampleText then .ok (.dict (inferencePayload "1+1" sampleReply))
    else .error ⟨.decodeError, "Expecting value: line 1 column 1 (char 0)"⟩

theorem sampleJson_text : sampleJson.RoundTrips (inferencePayload "1+1" sampleReply) :=
  ⟨by decide, by decide, by rintro _ ⟨⟩; rfl, by rintro _ ⟨⟩; rfl, rfl⟩

def sampleVerifiers : Verifiers := [("math", some fun _ => .ok true)]

def samplePolicy : Policy := ⟨2, 1, 1⟩

def sampleRollout : Event := .rollout ⟨some sampleReply, some ("2", "2")⟩

def sampleEvents : List Event :=
  [.user "1+1" sampleReply, .poll, sampleRollout, sampleRollout, .finish [some "2", some "2"] true]

/-- The event logs nothing but the sample record. -/
def SampleOnly (s : State) : Event → Prop
  | .user prompt reply => prompt = "1+1" ∧ reply = sampleReply
  | .other _ => False
  | .rollout r =>
    r.logged = some sampleReply ∧
      match s.phase with
      | .sampling _ prompt _ _ _ => prompt = "1+1"
      | _ => True
  | _ => True

instance (s : State) : DecidablePred (SampleOnly s)
  | .user .. => inferInstanceAs (Decidable (_ ∧ _))
  | .other _ => inferInstanceAs (Decidable False)
  | .rollout _ =>
    match h : s.phase with
    | .sampling _ prompt _ _ _ =>
      decidable_of_iff (_ ∧ prompt = "1+1") (by simp only [SampleOnly, h]; rfl)
    | .waiting | .crashed => decidable_of_iff (_ ∧ True) (by simp only [SampleOnly, h]; rfl)
  | .poll | .finish .. => inferInstanceAs (Decidable True)

theorem SampleOnly.texts {s : State} {e : Event} (h : SampleOnly s e) : Texts sampleJson s e := by
  intro payload hlogged
  cases e with
  | user prompt reply =>
    obtain ⟨rfl, rfl⟩ := h
    obtain rfl := Option.some.inj hlogged
    exact sampleJson_text
  | other payload => exact h.elim
  | rollout r =>
    obtain ⟨hreply, hprompt⟩ := h
    unfold logged at hlogged
    cases hphase : s.phase with
    | sampling offset prompt domain left rollouts =>
      simp only [hphase] at hprompt hlogged
      rw [hreply, hprompt] at hlogged
      obtain rfl := Option.some.inj hlogged
      exact sampleJson_text
    | waiting | crashed => simp [hphase] at hlogged
  | poll | finish => cases hlogged

theorem sampleEvents_noSelfFeeding :
    NoSelfFeeding sampleJson sampleVerifiers samplePolicy [] sampleEvents := by
  refine noSelfFeeding_of_userNewest (by decide) (by simp) ?_ (by decide +kernel)
  have honly : Runs.Meets (step sampleJson sampleVerifiers samplePolicy) SampleOnly
      (start sampleJson []) sampleEvents := by decide +kernel
  exact honly.imp fun _ _ => SampleOnly.texts

/-- A second poll picks the record of the newest rollout. -/
def selfFedEvents : List Event := sampleEvents ++ sampleEvents.tail

theorem selfFed_unbounded :
    ¬ ∀ (json : Json) (verifiers : Verifiers) (policy : Policy)
      (initial : List (JsonObject × Source)) (events : List Event),
      1 ≤ policy.maxPerPrompt → 1 ≤ policy.minPrompts → (∀ e ∈ initial, json.RoundTrips e.1) →
      Runs.Meets (step json verifiers policy) (Texts json) (start json initial) events →
      NoSelfFeeding json verifiers policy initial events := by
  intro h
  have honly : Runs.Meets (step sampleJson sampleVerifiers samplePolicy) SampleOnly
      (start sampleJson []) selfFedEvents := by decide +kernel
  have hno := h sampleJson sampleVerifiers samplePolicy [] selfFedEvents (by decide) (by decide)
    (by simp) (honly.imp fun _ _ => SampleOnly.texts)
  have hcounts : (Runs.exec (step sampleJson sampleVerifiers samplePolicy) (start sampleJson [])
      selfFedEvents).map (fun t => ((t.labels.filter fun l => l.prompt == "1+1").length,
        (t.userRecords.filter fun r => r.prompt == "1+1").length)) = some (2, 1) := by
    decide +kernel
  obtain ⟨t, ht, hcount⟩ := Option.map_eq_some_iff.mp hcounts
  obtain ⟨hlabels, husers⟩ := Prod.mk.inj hcount
  have hbound := (hno.bounded.last ht).labels "1+1"
  rw [hlabels, husers] at hbound
  revert hbound
  decide

end Trainfer.TTRL
