import Trainfer.LogRoundTrip
import Trainfer.Lib.Runs

/-! A client that polls the tail of the log while writers append to it.

A call of `tail_structured` reads the lines first and takes `next_offset` from the size of the
file afterwards; appends may come before, between and after the two. The offset 0 means the
last `n` events, and it is also what a call on an empty log hands back. -/

namespace Trainfer.Follower

open TrajectoryLog

/-- The log, what the client passes next and what it has received. -/
structure State where
  file : Bytes
  /-- The previous `next_offset`, 0 before the first call. -/
  since : Nat
  /-- What the call that is going on has read. -/
  reading : Option (List (Nat × Value))
  /-- The offsets and records that each completed call has returned. -/
  returned : List (List (Nat × Value))
  /-- The offset of each record appended after the first call, and how many calls had begun. -/
  arrivals : List (Nat × Nat)

inductive Label where
  | append (payload : JsonObject)
  /-- A call begins and reads up to the end of the file. -/
  | read (n : Int)
  /-- The call builds its events, takes the size and returns. -/
  | finish

/-- How many calls have begun. -/
def State.begun (s : State) : Nat := s.returned.length + if s.reading.isSome then 1 else 0

def step (json : Json) (s : State) : Label → Option State
  | .append payload =>
    let (offset, file) := appendRaw json s.file payload
    some { s with
      file := file
      arrivals := if s.returned.isEmpty then s.arrivals else s.arrivals ++ [(offset, s.begun)] }
  | .read n =>
    match s.reading with
    | some _ => none
    | none =>
      match tailItems json s.file n s.since with
      | .error _ => some s
      | .ok items => some { s with reading := some items }
  | .finish =>
    match s.reading with
    | none => none
    | some items =>
      match items.mapM tailEvent with
      | .error _ => some { s with reading := none }
      | .ok _ => some { s with
          since := size s.file
          reading := none
          returned := s.returned ++ [items] }

/-- The log holds the payloads, and the client has not called yet. -/
def start (json : Json) (payloads : List JsonObject) : State where
  file := (appendAll json [] payloads).2
  since := 0
  reading := none
  returned := []
  arrivals := []

/-- The offsets of the records that the calls have returned. -/
def offsets (calls : List (List (Nat × Value))) : List Nat := calls.flatten.map Prod.fst

/-- Nothing is returned twice, and once a call that began after it has completed, a record
appended after the first call has been returned by exactly one of these calls. -/
structure Follows (s : State) : Prop where
  once : (offsets s.returned).Nodup
  found : ∀ a ∈ s.arrivals, a.2 < s.returned.length →
    (offsets (s.returned.drop a.2)).count a.1 = 1

/-- No append falls between the reading and the size of a call after the first, and a later
call that passes 0 is not capped below the number of lines. -/
def Undisturbed (s : State) : Label → Prop
  | .append _ => s.reading.isSome → s.returned.isEmpty
  | .read n => s.since ≠ 0 ∨ s.returned.isEmpty ∨ s.file = [] ∨ n = 0 ∨
      (Lines.lines newline s.file).length ≤ n
  | .finish => True

instance (s : State) : DecidablePred (Undisturbed s)
  | .append _ => inferInstanceAs (Decidable (_ → _))
  | .read _ => inferInstanceAs (Decidable (_ ∨ _ ∨ _ ∨ _ ∨ _))
  | .finish => inferInstanceAs (Decidable True)

variable {json : Json}

/-- A call during which nothing is appended is `tail_structured`. -/
theorem poll_eq_tailStructured {s t : State} {n : Int} (hs : s.reading = none)
    (hrun : Runs.exec (step json) s [.read n, .finish] = some t)
    {resp : TailResponse} (hresp : tailStructured json s.file n s.since = .ok resp) :
    t.since = resp.nextOffset ∧
      ∃ items, t.returned = s.returned ++ [items] ∧ items.mapM tailEvent = .ok resp.events := by
  simp only [tailStructured, bind, Except.bind, pure, Except.pure] at hresp
  cases hitems : tailItems json s.file n s.since with
  | error e => simp [hitems] at hresp
  | ok items =>
    cases hevents : items.mapM tailEvent with
    | error e => simp [hitems, hevents] at hresp
    | ok events =>
      simp only [hitems, hevents, Except.ok.injEq] at hresp
      subst hresp
      simp only [Runs.exec, step, hs, hitems, hevents, Option.bind_some, Option.some.injEq] at hrun
      subst hrun
      exact ⟨rfl, items, rfl, hevents⟩

/-! ## What a call reads -/

theorem written_eq_nil {ps : List JsonObject} (h : (written json ps).length = 0) : ps = [] := by
  cases ps with
  | nil => rfl
  | cons p ps => simp [written] at h

theorem length_lines_written {ps : List JsonObject} (h : ∀ p ∈ ps, json.RoundTrips p) :
    (Lines.lines newline (written json ps)).length = ps.length := by
  induction ps with
  | nil => rfl
  | cons p ps ih =>
    have hfile : written json (p :: ps) = encoded json p ++ newline :: written json ps := by
      simp [written]
    rw [hfile, Lines.lines_append_line (newline_notMem_encoded (h p List.mem_cons_self)),
      List.length_cons, ih fun q hq => h q (List.mem_cons_of_mem p hq), List.length_cons]

theorem length_entries (pos : Nat) (ps : List JsonObject) :
    (entries json pos ps).length = ps.length := by
  rw [← List.length_map (f := Prod.snd), map_snd_entries]

theorem tailItems_boundary {qs rs : List JsonObject} (h : ∀ p ∈ rs, json.RoundTrips p) (n : Int) :
    tailItems json (written json (qs ++ rs)) n (written json qs).length =
      .ok (if (written json qs).length = 0 then
          lastSlice (yielded none (entries json (written json qs).length rs)) n
        else yielded none (entries json (written json qs).length rs)) := by
  rw [tailItems, iterWithOffsets_boundary h (.inl rfl)]
  rfl

theorem lastSlice_sublist {α : Type} (xs : List α) (n : Int) :
    (lastSlice xs n).Sublist xs := by
  rw [lastSlice]
  split <;> exact List.drop_sublist _ _

theorem lastSlice_eq_self {α : Type} {xs : List α} {n : Int}
    (h : xs = [] ∨ n = 0 ∨ xs.length ≤ n) : lastSlice xs n = xs := by
  rw [lastSlice]
  rcases h with rfl | rfl | h
  · simp
  · simp
  · split
    · have hzero : xs.length - n.toNat = 0 := by omega
      rw [hzero, List.drop_zero]
    · have hzero : (-n).toNat = 0 := by omega
      rw [hzero, List.drop_zero]

theorem mapM_tailEvent {items : List (Nat × Value)} (h : ∀ e ∈ items, ∃ p, e.2 = .dict p) :
    ∃ events, items.mapM tailEvent = .ok events := by
  refine exists_mapM_ok_iff.mpr fun item hitem => ?_
  obtain ⟨p, hp⟩ := h item hitem
  obtain ⟨offset, value⟩ := item
  obtain rfl : value = .dict p := hp
  exact ⟨_, rfl⟩

/-! ## The invariant -/

/-- What a call has read starts at the offset it was given and lies inside the file. -/
structure Read (s : State) (items : List (Nat × Value)) : Prop where
  dicts : ∀ e ∈ items, ∃ p, e.2 = .dict p
  nodup : (items.map Prod.fst).Nodup
  bounds : ∀ o ∈ items.map Prod.fst, s.since ≤ o ∧ o < s.file.length

/-- The record is in the log at or after the next offset, and no later call has completed; if
one has begun, it has read the record. -/
structure Waiting (json : Json) (ps : List JsonObject) (s : State) (a : Nat × Nat) : Prop where
  logged : a.1 ∈ (entries json 0 ps).map Prod.fst
  ahead : s.since ≤ a.1
  next : a.2 = s.returned.length
  read : ∀ items, s.reading = some items → a.1 ∈ items.map Prod.fst

structure Inv (json : Json) (ps : List JsonObject) (s : State) : Prop where
  texts : ∀ p ∈ ps, json.RoundTrips p
  file : s.file = written json ps
  boundary : ∃ qs rs, ps = qs ++ rs ∧ s.since = (written json qs).length
  once : (offsets s.returned).Nodup
  behind : ∀ o ∈ offsets s.returned, o < s.since
  reading : ∀ items, s.reading = some items → Read s items
  arrivals : ∀ a ∈ s.arrivals,
    a.1 ∈ offsets (s.returned.drop a.2) ∨ Waiting json ps s a
  fresh : s.returned = [] → s.arrivals = []

theorem Inv.follows {ps : List JsonObject} {s : State} (h : Inv json ps s) : Follows s := by
  refine ⟨h.once, fun a ha hlt => ?_⟩
  rcases h.arrivals a ha with hfound | hwait
  · refine List.count_eq_one_of_mem ?_ hfound
    rw [offsets, List.map_flatten]
    have honce := h.once
    rw [offsets, List.map_flatten] at honce
    exact honce.sublist ((List.drop_sublist _ _).map _).flatten
  · have := hwait.next
    omega

theorem inv_start {ps : List JsonObject} (h : ∀ p ∈ ps, json.RoundTrips p) :
    Inv json ps (start json ps) where
  texts := h
  file := by simp [start, appendAll_eq]
  boundary := ⟨[], ps, rfl, rfl⟩
  once := List.nodup_nil
  behind := by simp [start, offsets]
  reading := by simp [start]
  arrivals := by simp [start]
  fresh _ := rfl

theorem Inv.since_le {ps : List JsonObject} {s : State} (h : Inv json ps s) :
    s.since ≤ s.file.length := by
  obtain ⟨qs, rs, rfl, hsince⟩ := h.boundary
  rw [h.file, written_append, List.length_append]
  omega

/-! ## The three steps -/

theorem Waiting.append {ps : List JsonObject} {s t : State} {a : Nat × Nat}
    (h : Waiting json ps s a) (p : JsonObject) (hsince : t.since = s.since)
    (hreturned : t.returned = s.returned) (hreading : t.reading = s.reading) :
    Waiting json (ps ++ [p]) t a where
  logged := by
    rw [entries_append, List.map_append]
    exact List.mem_append_left _ h.logged
  ahead := by rw [hsince]; exact h.ahead
  next := by rw [hreturned]; exact h.next
  read := by rw [hreading]; exact h.read

theorem Inv.append {ps : List JsonObject} {s t : State} {p : JsonObject} (h : Inv json ps s)
    (hp : json.RoundTrips p) (hg : Undisturbed s (.append p))
    (hstep : step json s (.append p) = some t) : Inv json (ps ++ [p]) t := by
  simp only [step, appendRaw, Option.some.injEq] at hstep
  subst hstep
  have hlen : s.file.length ≤ (s.file ++ (encoded json p ++ [newline])).length := by simp
  refine ⟨?_, ?_, ?_, h.once, h.behind, ?_, ?_, ?_⟩
  · intro q hq
    rcases List.mem_append.mp hq with hq | hq
    · exact h.texts q hq
    · exact List.mem_singleton.mp hq ▸ hp
  · simp [h.file, written]
  · obtain ⟨qs, rs, rfl, hsince⟩ := h.boundary
    exact ⟨qs, rs ++ [p], List.append_assoc qs rs [p], hsince⟩
  · intro items hitems
    have hread := h.reading items hitems
    exact ⟨hread.dicts, hread.nodup, fun o ho =>
      ⟨(hread.bounds o ho).1, Nat.lt_of_lt_of_le (hread.bounds o ho).2 hlen⟩⟩
  · intro a ha
    cases hempty : s.returned.isEmpty with
    | true =>
      simp only [hempty, if_true] at ha
      exact (h.arrivals a ha).imp_right fun hw => hw.append p rfl rfl rfl
    | false =>
      simp only [hempty, Bool.false_eq_true, if_false] at ha
      rcases List.mem_append.mp ha with ha | ha
      · exact (h.arrivals a ha).imp_right fun hw => hw.append p rfl rfl rfl
      · -- no call is going on, so the next one to begin is the next one to complete
        have hidle : s.reading = none := by
          cases hr : s.reading with
          | none => rfl
          | some items => simpa [hempty] using hg (by rw [hr]; rfl)
        obtain rfl := List.mem_singleton.mp ha
        refine .inr ⟨?_, h.since_le, by simp [State.begun, hidle], by simp [hidle]⟩
        rw [entries_append, List.map_append, h.file]
        exact List.mem_append_right _ (by simp [entries])
  · intro hnil
    have hempty : s.returned.isEmpty = true := by simpa using hnil
    simpa [hempty] using h.fresh hnil

theorem map_fst_yielded (es : List (Nat × JsonObject)) :
    (yielded none es).map Prod.fst = es.map Prod.fst := by
  rw [yielded_none, List.map_map]
  rfl

/-- The call reads a part of what lies from the offset on, and the whole of it unless it is
capped. -/
theorem Inv.tailItems {ps : List JsonObject} {s : State} (h : Inv json ps s) (n : Int) :
    ∃ qs rs items, ps = qs ++ rs ∧ s.since = (written json qs).length ∧
      tailItems json s.file n s.since = .ok items ∧
      items.Sublist (yielded none (entries json s.since rs)) ∧
      (s.since ≠ 0 ∨ s.file = [] ∨ n = 0 ∨ (Lines.lines newline s.file).length ≤ n →
        items = yielded none (entries json s.since rs)) := by
  obtain ⟨qs, rs, rfl, hsince⟩ := h.boundary
  have hrs : ∀ p ∈ rs, json.RoundTrips p := fun p hp => h.texts p (List.mem_append_right qs hp)
  refine ⟨qs, rs, _, rfl, hsince, by rw [h.file, hsince, tailItems_boundary hrs], ?_, ?_⟩
  · rw [hsince]
    split
    · exact lastSlice_sublist _ n
    · exact List.Sublist.refl _
  · intro hcap
    rw [hsince]
    split
    · rename_i hzero
      have hqs := written_eq_nil hzero
      subst hqs
      refine lastSlice_eq_self ?_
      rcases hcap with hcap | hcap | hcap | hcap
      · exact absurd (hsince.trans hzero) hcap
      · have hfile : written json rs = [] := h.file.symm.trans hcap
        exact .inl (by rw [written_eq_nil (congrArg List.length hfile)]; rfl)
      · exact .inr (.inl hcap)
      · rw [h.file, length_lines_written h.texts] at hcap
        refine .inr (.inr ?_)
        rwa [yielded_none, List.length_map, length_entries]
    · rfl

theorem Inv.read {ps : List JsonObject} {s t : State} {n : Int} (h : Inv json ps s)
    (hg : Undisturbed s (.read n)) (hstep : step json s (.read n) = some t) : Inv json ps t := by
  obtain ⟨qs, rs, items, hps, hsince, hitems, hsub, hwhole⟩ := h.tailItems n
  have hbounds : ∀ e ∈ entries json s.since rs, s.since ≤ e.1 ∧ e.1 < s.file.length := by
    intro e he
    obtain ⟨hlow, hhigh⟩ := bounds_of_mem_entries he
    rw [h.file, hps, written_append, List.length_append, ← hsince]
    omega
  simp only [step] at hstep
  cases hr : s.reading with
  | some old => simp [hr] at hstep
  | none =>
    simp only [hr, hitems, Option.some.injEq] at hstep
    subst hstep
    refine ⟨h.texts, h.file, h.boundary, h.once, h.behind, ?_, ?_, h.fresh⟩
    · rintro _ ⟨⟩
      refine ⟨fun e he => ?_, ?_, fun o ho => ?_⟩
      · rw [yielded_none] at hsub
        obtain ⟨f, -, rfl⟩ := List.mem_map.mp (hsub.subset he)
        exact ⟨f.2, rfl⟩
      · have hnodup := hsub.map Prod.fst
        rw [map_fst_yielded] at hnodup
        refine List.Nodup.sublist hnodup ?_
        exact (List.pairwise_map.mpr (pairwise_entries s.since rs)).imp fun hlt => Nat.ne_of_lt hlt
      · have ho' := (hsub.map Prod.fst).subset ho
        rw [map_fst_yielded] at ho'
        obtain ⟨e, he, rfl⟩ := List.mem_map.mp ho'
        exact hbounds e he
    · intro a ha
      refine (h.arrivals a ha).imp_right fun hw => ⟨hw.logged, hw.ahead, hw.next, ?_⟩
      rintro _ ⟨⟩
      -- a record that waits means that a call has completed, so this one is not capped
      have hcalled : s.returned.isEmpty = false := by
        cases hret : s.returned with
        | nil => simp [h.fresh hret] at ha
        | cons c cs => rfl
      have hcap : s.since ≠ 0 ∨ s.file = [] ∨ n = 0 ∨ (Lines.lines newline s.file).length ≤ n := by
        rcases hg with hg | hg | hg
        · exact .inl hg
        · simp [hcalled] at hg
        · exact .inr hg
      rw [hwhole hcap, map_fst_yielded]
      have hlogged := hw.logged
      have hahead := hw.ahead
      obtain ⟨e, he, hea⟩ := List.mem_map.mp hlogged
      rw [← hea] at hahead ⊢
      refine List.mem_map_of_mem ?_
      rw [hsince, ← filter_entries_boundary qs rs, List.mem_filter, ← hps, ← hsince]
      exact ⟨he, by simpa using hahead⟩

theorem Inv.finish {ps : List JsonObject} {s t : State} (h : Inv json ps s)
    (hstep : step json s .finish = some t) : Inv json ps t := by
  simp only [step] at hstep
  cases hr : s.reading with
  | none => simp [hr] at hstep
  | some items =>
    have hread := h.reading items hr
    obtain ⟨events, hevents⟩ := mapM_tailEvent hread.dicts
    simp only [hr, hevents, Option.some.injEq] at hstep
    subst hstep
    have hoffsets : ∀ calls, offsets (calls ++ [items]) = offsets calls ++ items.map Prod.fst := by
      intro calls
      simp [offsets]
    refine ⟨h.texts, h.file, ⟨ps, [], (List.append_nil ps).symm, by rw [← h.file]; rfl⟩,
      ?_, ?_, by simp, ?_, by simp⟩
    · rw [hoffsets, List.nodup_append']
      refine ⟨h.once, hread.nodup, fun o hold hnew => ?_⟩
      have hlt := h.behind o hold
      have hle := (hread.bounds o hnew).1
      omega
    · intro o ho
      rw [hoffsets] at ho
      have hsize : s.since ≤ size s.file := h.since_le
      rcases List.mem_append.mp ho with ho | ho
      · exact Nat.lt_of_lt_of_le (h.behind o ho) hsize
      · exact (hread.bounds o ho).2
    · intro a ha
      refine .inl ?_
      rcases h.arrivals a ha with hfound | hwait
      · have hle : a.2 ≤ s.returned.length := by
          by_contra hgt
          rw [List.drop_eq_nil_of_le (by omega)] at hfound
          simp [offsets] at hfound
        rw [List.drop_append_of_le_length hle, hoffsets]
        exact List.mem_append_left _ hfound
      · rw [hwait.next, List.drop_left, ← List.nil_append [items], hoffsets]
        exact List.mem_append_right _ (hwait.read items hr)

/-- **A follower.** In every run in which each append comes between the calls (or during the
first), and a later call that passes 0 is not capped, nothing is returned twice and every
record appended after the first call is returned by exactly one later call. -/
theorem follows_of_undisturbed {payloads : List JsonObject} {labels : List Label}
    (hinit : ∀ p ∈ payloads, json.RoundTrips p)
    (happend : ∀ p, .append p ∈ labels → json.RoundTrips p)
    (hg : Runs.Meets (step json) Undisturbed (start json payloads) labels) :
    Runs.Always (step json) Follows (start json payloads) labels := by
  have htexts : Runs.Meets (step json)
      (fun _ a => ∀ p, a = .append p → json.RoundTrips p) (start json payloads) labels :=
    Runs.meets_of_mem (P := fun a : Label => ∀ p, a = .append p → json.RoundTrips p)
      (fun a ha p hp => happend p (hp ▸ ha)) _
  refine Runs.always_of_meets (I := fun s => ∃ ps, Inv json ps s) ?_ ?_
    ⟨payloads, inv_start hinit⟩ (hg.and htexts)
  · rintro s a t ⟨ps, h⟩ ⟨hundisturbed, htext⟩ hstep
    cases a with
    | append p => exact ⟨ps ++ [p], h.append (htext p rfl) hundisturbed hstep⟩
    | read n => exact ⟨ps, h.read hundisturbed hstep⟩
    | finish => exact ⟨ps, h.finish hstep⟩
  · rintro s ⟨ps, h⟩
    exact h.follows

/-- One record, a call, a second record, a second call. -/
def sampleRun : List Label :=
  [.read 20, .finish, .append [("kind", .str "feedback")], .read 20, .finish]

theorem sampleRun_follows :
    Runs.Always (step sampleJson) Follows (start sampleJson [[]]) sampleRun :=
  follows_of_undisturbed (by simp [sampleJson_empty])
    (by simp [sampleRun, sampleJson_feedback]) (by decide)

/-- On an empty log the first call hands back the offset 0, so the second one keeps the last
`n` records only. -/
def cappedRun : List Label :=
  [.read 1, .finish, .append [], .append [("kind", .str "feedback")], .read 1, .finish]

theorem cappedRun_drops :
    ¬ ∀ (json : Json) (payloads : List JsonObject) (labels : List Label),
      (∀ p ∈ payloads, json.RoundTrips p) → (∀ p, .append p ∈ labels → json.RoundTrips p) →
      Runs.Always (step json) Follows (start json payloads) labels := by
  intro h
  have halways := h sampleJson [] cappedRun (by simp)
    (by simp [cappedRun, sampleJson_empty, sampleJson_feedback])
  obtain ⟨t, ht⟩ : ∃ t, Runs.exec (step sampleJson) (start sampleJson []) cappedRun = some t :=
    Option.isSome_iff_exists.mp (by decide)
  have hfound := (halways.last ht).found (0, 1)
  rw [cappedRun] at ht
  obtain rfl := Option.some.inj ht
  exact absurd (hfound (by decide) (by decide)) (by decide)

end Trainfer.Follower
