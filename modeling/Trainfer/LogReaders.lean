import Trainfer.LogRoundTrip
import Trainfer.Schedulers

/-! Which files the log readers survive.

The readers skip a line that `json.loads` rejects with `JSONDecodeError` and nothing else. A
line that is not UTF-8, a JSON value that is not an object, a kind that cannot be hashed, a
timestamp that is not a number or a prompt that is not a text ends the scan, and the
background task of the scheduler that was scanning with it. -/

namespace Trainfer

open TrajectoryLog (scan linesFrom iterWithOffsets iterEvents)

section

open Classical

/-- The object on a line that is UTF-8 and parses as a JSON object. -/
noncomputable def objectOf (json : Json) (line : Bytes) : Option JsonObject :=
  let stripped := Lines.strip isSpace line
  if stripped = [] ∨ ¬ Utf8.Valid stripped then none
  else
    match json.loads stripped with
    | .ok (.dict record) => some record
    | _ => none

/-- The lines that are to be yielded: the objects that pass the filter. -/
noncomputable def wanted (json : Json) (kinds : Option (List String)) (ls : List (Nat × Bytes)) :
    List (Nat × Value) :=
  ls.filterMap fun l => (objectOf json l.2).bind fun record =>
    if hasKind kinds record then some (l.1, .dict record) else none

end

/-- A line that a filtered reader gets over: it is blank, `json.loads` rejects it as not JSON,
or it holds an object with a kind that can be looked up and, if it has one of the kinds,
with the property `Q`. -/
def LineOk (json : Json) (kinds : Option (List String)) (Q : Nat → Bytes → JsonObject → Prop)
    (l : Nat × Bytes) : Prop :=
  let stripped := Lines.strip isSpace l.2
  stripped = [] ∨ (∃ e, json.loads stripped = .error e ∧ e.cls = .decodeError) ∨
    ∃ record, json.loads stripped = .ok (.dict record) ∧ (kinds = none ∨ HashableKind record) ∧
      (hasKind kinds record = true → Q l.1 stripped record)

variable {json : Json} {kinds : Option (List String)}

theorem passes_ok {record : Value} {b : Bool} (h : passes kinds record = .ok b) :
    kinds = none ∧ b = true ∨
      ∃ o, record = .dict o ∧ HashableKind o ∧ b = hasKind kinds o := by
  cases kinds with
  | none =>
    cases h
    exact .inl ⟨rfl, rfl⟩
  | some ks =>
    simp only [passes, bind, Except.bind] at h
    cases record with
    | dict o =>
      simp only [Value.asDict] at h
      cases hk : (JsonObject.get o "kind").checkHashable with
      | error e => simp [hk] at h
      | ok u =>
        simp only [hk, pure, Except.pure, Except.ok.injEq] at h
        exact .inr ⟨o, rfl, hk, h.symm⟩
    | null | bool | num | str | list => cases h

/-! ## Inversion of one turn -/

/-- What a scan does with its first line. -/
inductive Turn (json : Json) (kinds : Option (List String)) (l : Nat × Bytes)
    (rest : List (Nat × Bytes)) : Prop
  | skipped (h : scan json kinds (l :: rest) = scan json kinds rest)
      (hok : ∀ Q, LineOk json kinds Q l)
      (hw : wanted json kinds (l :: rest) = wanted json kinds rest)
  | raised (h : ∃ e, scan json kinds (l :: rest) = .raise e) (hbad : ∀ Q, ¬ LineOk json kinds Q l)
  | yielded (record : JsonObject)
      (h : scan json kinds (l :: rest) = (scan json kinds rest).yield (l.1, .dict record))
      (hok : ∀ Q, LineOk json kinds Q l ↔ Q l.1 (Lines.strip isSpace l.2) record)
      (hw : wanted json kinds (l :: rest) = wanted json kinds rest ∧
          ¬ Utf8.Valid (Lines.strip isSpace l.2) ∨
        wanted json kinds (l :: rest) = (l.1, .dict record) :: wanted json kinds rest ∧
          Utf8.Valid (Lines.strip isSpace l.2))
  /-- Without a filter, a value that is not an object is yielded too. -/
  | other (v : Value) (h : scan json kinds (l :: rest) = (scan json kinds rest).yield (l.1, v))
      (hkinds : kinds = none) (hbad : ∀ Q, ¬ LineOk json kinds Q l)
      (hw : wanted json kinds (l :: rest) = wanted json kinds rest)

/-- An object that the scan yields is wanted if its line is UTF-8. -/
theorem Turn.of_dict {pos : Nat} {line : Bytes} {rest : List (Nat × Bytes)} {record : JsonObject}
    (hblank : Lines.strip isSpace line ≠ [])
    (hl : json.loads (Lines.strip isSpace line) = .ok (.dict record))
    (hk : kinds = none ∨ HashableKind record) (hkind : hasKind kinds record = true)
    (hs : scan json kinds ((pos, line) :: rest) =
      (scan json kinds rest).yield (pos, .dict record)) : Turn json kinds (pos, line) rest := by
  refine .yielded record hs (fun Q => ⟨fun hQ => ?_, fun hQ => ?_⟩) ?_
  · rcases hQ with hQ | ⟨e, he, _⟩ | ⟨o, ho, _, hQ⟩
    · exact absurd hQ hblank
    · rw [hl] at he
      cases he
    · rw [hl] at ho
      cases ho
      exact hQ hkind
  · exact .inr (.inr ⟨record, hl, hk, fun _ => hQ⟩)
  · by_cases hvalid : Utf8.Valid (Lines.strip isSpace line)
    · exact .inr ⟨by simp [wanted, objectOf, hblank, hvalid, hl, hkind], hvalid⟩
    · exact .inl ⟨by simp [wanted, objectOf, hvalid], hvalid⟩

theorem turn (l : Nat × Bytes) (rest : List (Nat × Bytes)) : Turn json kinds l rest := by
  obtain ⟨pos, line⟩ := l
  by_cases hblank : Lines.strip isSpace line = []
  · refine .skipped ?_ (fun Q => .inl hblank) ?_
    · simp [scan, hblank]
    · simp [wanted, objectOf, hblank]
  cases hl : json.loads (Lines.strip isSpace line) with
  | error e =>
    by_cases hdec : e.cls = .decodeError
    · refine .skipped ?_ (fun Q => .inr (.inl ⟨e, hl, hdec⟩)) ?_
      · simp [scan, hblank, hl, hdec]
      · simp [wanted, objectOf, hl]
    · refine .raised ⟨e, by simp [scan, hblank, hl, hdec]⟩ fun Q hQ => ?_
      rcases hQ with hQ | ⟨e', he', hdec'⟩ | ⟨record, hrecord, _⟩
      · exact hblank hQ
      · rw [hl] at he'
        cases he'
        exact hdec hdec'
      · rw [hl] at hrecord
        cases hrecord
  | ok v =>
    -- what is left of `LineOk` on a line that parses
    have hinv : ∀ Q, LineOk json kinds Q (pos, line) →
        ∃ o, v = .dict o ∧ (kinds = none ∨ HashableKind o) ∧
          (hasKind kinds o = true → Q pos (Lines.strip isSpace line) o) := by
      intro Q hQ
      rcases hQ with hQ | ⟨e, he, _⟩ | ⟨o, ho, hrest⟩
      · exact absurd hQ hblank
      · rw [hl] at he
        cases he
      · rw [hl] at ho
        exact ⟨o, Except.ok.inj ho, hrest⟩
    cases hp : passes kinds v with
    | error e =>
      refine .raised ⟨e, by simp [scan, hblank, hl, hp]⟩ fun Q hQ => ?_
      obtain ⟨o, rfl, hk, _⟩ := hinv Q hQ
      rw [TrajectoryLog.passes_dict hk] at hp
      cases hp
    | ok b =>
      rcases passes_ok hp with ⟨hnone, rfl⟩ | ⟨o, rfl, hk, rfl⟩
      · have hs : scan json kinds ((pos, line) :: rest) =
            (scan json kinds rest).yield (pos, v) := by simp [scan, hblank, hl, hp]
        by_cases hdict : ∃ o, v = .dict o
        · obtain ⟨o, rfl⟩ := hdict
          exact .of_dict hblank hl (.inl hnone) (by simp [hnone, hasKind]) hs
        · refine .other v hs hnone (fun Q hQ => ?_) ?_
          · obtain ⟨o, ho, _⟩ := hinv Q hQ
            exact hdict ⟨o, ho⟩
          · cases v with
            | dict o => exact absurd ⟨o, rfl⟩ hdict
            | null | bool | num | str | list => simp [wanted, objectOf, hl]
      · cases hkind : hasKind kinds o with
        | false =>
          refine .skipped ?_ (fun Q => .inr (.inr ⟨o, hl, .inr hk, by simp [hkind]⟩)) ?_
          · simp [scan, hblank, hl, hp, hkind]
          · simp [wanted, objectOf, hl, hkind]
        | true =>
          exact .of_dict hblank hl (.inr hk) hkind (by simp [scan, hblank, hl, hp, hkind])

/-! ## The readers -/

/-- A scan that does not raise yields at least what is wanted. -/
theorem length_wanted_le {ls : List (Nat × Bytes)} (h : (scan json kinds ls).error = none) :
    (wanted json kinds ls).length ≤ (scan json kinds ls).items.length := by
  induction ls with
  | nil => simp [wanted]
  | cons l ls ih =>
    cases @turn json kinds l ls with
    | skipped hs _ hw =>
      rw [hs] at h ⊢
      rw [hw]
      exact ih h
    | raised hs =>
      obtain ⟨e, he⟩ := hs
      rw [he] at h
      cases h
    | yielded record hs _ hw =>
      rw [hs] at h ⊢
      have hle := ih h
      rcases hw with ⟨hw, _⟩ | ⟨hw, _⟩
      · rw [hw]
        exact Nat.le_succ_of_le hle
      · rw [hw]
        exact Nat.succ_le_succ hle
    | other v hs _ _ hw =>
      rw [hs] at h ⊢
      rw [hw]
      exact Nat.le_succ_of_le (ih h)

/-- A line that the readers get over and that they yield only if it is UTF-8. -/
def Readable (json : Json) (kinds : Option (List String)) : Nat × Bytes → Prop :=
  LineOk json kinds fun _ line _ => Utf8.Valid line

theorem scan_eq_wanted {ls : List (Nat × Bytes)} (h : ∀ l ∈ ls, Readable json kinds l) :
    scan json kinds ls = ⟨wanted json kinds ls, none⟩ := by
  induction ls with
  | nil => simp [scan, wanted, Gen.empty]
  | cons l ls ih =>
    obtain ⟨hl, hls⟩ := List.forall_mem_cons.mp h
    cases @turn json kinds l ls with
    | skipped hs _ hw => rw [hs, hw, ih hls]
    | raised _ hbad => exact absurd hl (hbad _)
    | yielded record hs hok hw =>
      have hvalid := (hok _).mp hl
      rcases hw with ⟨_, hinvalid⟩ | ⟨hw, _⟩
      · exact absurd hvalid hinvalid
      · rw [hs, hw, ih hls]
        rfl
    | other v _ _ hbad => exact absurd hl (hbad _)

/-- A scan that ends well and yields no more than is wanted has met readable lines only. -/
theorem readable_of_length {ls : List (Nat × Bytes)} (herror : (scan json kinds ls).error = none)
    (hlen : (scan json kinds ls).items.length = (wanted json kinds ls).length) :
    ∀ l ∈ ls, Readable json kinds l := by
  induction ls with
  | nil => simp
  | cons l ls ih =>
    rw [List.forall_mem_cons]
    cases @turn json kinds l ls with
    | skipped hs hok hw =>
      rw [hs] at herror hlen
      rw [hw] at hlen
      exact ⟨hok _, ih herror hlen⟩
    | raised hs =>
      obtain ⟨e, he⟩ := hs
      rw [he] at herror
      cases herror
    | yielded record hs hok hw =>
      rw [hs] at herror hlen
      have hle := length_wanted_le herror
      simp only [Gen.yield, List.length_cons] at hlen
      rcases hw with ⟨hw, _⟩ | ⟨hw, hvalid⟩
      · rw [hw] at hlen
        omega
      · rw [hw, List.length_cons] at hlen
        exact ⟨(hok _).mpr hvalid, ih herror (by omega)⟩
    | other v hs _ _ hw =>
      rw [hs] at herror hlen
      have hle := length_wanted_le herror
      simp only [Gen.yield, List.length_cons] at hlen
      rw [hw] at hlen
      omega

theorem iterWithOffsets_iff (file : Bytes) (since : Nat) :
    iterWithOffsets json file since kinds = ⟨wanted json kinds (linesFrom file since), none⟩ ↔
      ∀ l ∈ linesFrom file since, Readable json kinds l := by
  refine ⟨fun h => readable_of_length (congrArg Gen.error h) ?_, scan_eq_wanted⟩
  exact congrArg (fun g => g.items.length) h

theorem iterEvents_iff (file : Bytes) (since : Nat) :
    iterEvents json file since =
        ⟨(wanted json none (linesFrom file since)).map Prod.snd, none⟩ ↔
      ∀ l ∈ linesFrom file since, Readable json none l := by
  rw [TrajectoryLog.iterEvents_eq]
  refine ⟨fun h => readable_of_length (congrArg Gen.error h) ?_, fun h => ?_⟩
  · simpa [iterWithOffsets] using congrArg (fun g => g.items.length) h
  · rw [iterWithOffsets, scan_eq_wanted h]

/-! ## The consumers -/

theorem consume_raise {α β : Type} (f : α → Except PyError (Option β)) (e : PyError) :
    (Gen.raise e).consume f = .error e := rfl

/-- A consumer goes on as long as neither it nor the generator raises. -/
theorem consume_yield_ok_iff {α β : Type} (f : α → Except PyError (Option β)) (a : α)
    (g : Gen α) :
    (∃ bs, (g.yield a).consume f = .ok bs) ↔
      (∃ b, f a = .ok b) ∧ ∃ bs, g.consume f = .ok bs := by
  simp only [Gen.consume, Gen.yield, List.mapM_cons, bind, Except.bind, pure, Except.pure]
  cases f a with
  | error e => simp
  | ok b =>
    cases g.items.mapM f with
    | error e => simp
    | ok kept => cases g.error <;> simp [throw, throwThe, MonadExceptOf.throw]

/-- The value that `f` adds, if it does not raise. -/
def keptBy {α β : Type} (f : α → Except PyError (Option β)) (x : α) : Option β :=
  match f x with
  | .ok o => o
  | .error _ => none

theorem mapM_ok {α β : Type} {f : α → Except PyError (Option β)} {xs : List α}
    {kept : List (Option β)} (h : xs.mapM f = .ok kept) :
    kept.filterMap id = xs.filterMap (keptBy f) := by
  have hall := forall₂_of_mapM h
  clear h
  induction hall with
  | nil => rfl
  | @cons x o _ _ hx _ ih =>
    have hkeep : keptBy f x = o := by rw [keptBy, hx]
    rw [List.filterMap_cons, List.filterMap_cons, hkeep, ih]
    rfl

theorem consume_ok {α β : Type} {f : α → Except PyError (Option β)} {g : Gen α} {found : List β}
    (h : g.consume f = .ok found) : g.error = none ∧ found = g.items.filterMap (keptBy f) := by
  simp only [Gen.consume, bind, Except.bind] at h
  cases hkept : g.items.mapM f with
  | error e => simp [hkept] at h
  | ok kept =>
    simp only [hkept] at h
    cases herror : g.error with
    | some e =>
      simp only [herror] at h
      cases h
    | none =>
      simp only [herror, pure, Except.pure, Except.ok.injEq] at h
      exact ⟨rfl, h.symm.trans (mapM_ok hkept)⟩

theorem consume_total {α β : Type} {f : α → Except PyError (Option β)} {g : Gen α}
    (herror : g.error = none) (h : ∀ a ∈ g.items, ∃ b, f a = .ok b) :
    ∃ found, g.consume f = .ok found := by
  obtain ⟨items, error⟩ := g
  obtain rfl : error = none := herror
  induction items with
  | nil => exact ⟨[], rfl⟩
  | cons a items ih =>
    obtain ⟨ha, hitems⟩ := List.forall_mem_cons.mp h
    exact (consume_yield_ok_iff f a ⟨items, none⟩).mpr ⟨ha, ih hitems⟩

/-- A filtered scan and its consumer get through exactly if every line lets them. -/
theorem consume_scan_ok_iff {β : Type} {ks : List String}
    (f : Nat × Value → Except PyError (Option β)) (ls : List (Nat × Bytes)) :
    (∃ bs, (scan json (some ks) ls).consume f = .ok bs) ↔
      ∀ l ∈ ls,
        LineOk json (some ks) (fun pos _ record => ∃ b, f (pos, .dict record) = .ok b) l := by
  induction ls with
  | nil => exact iff_of_true ⟨[], rfl⟩ (by simp)
  | cons l ls ih =>
    rw [List.forall_mem_cons, ← ih]
    cases @turn json (some ks) l ls with
    | skipped hs hok =>
      rw [hs]
      exact ⟨fun h => ⟨hok _, h⟩, And.right⟩
    | raised hs hbad =>
      obtain ⟨e, he⟩ := hs
      rw [he, consume_raise]
      exact iff_of_false (by simp) fun h => hbad _ h.1
    | yielded record hs hok =>
      rw [hs, hok]
      exact consume_yield_ok_iff f _ _
    | other _ _ hkinds => cases hkinds

/-! ## All readers of one file -/

variable {F : Type}

/-- Both readers yield the wanted lines and end without an exception, and the scans of both
schedulers get through. -/
structure Survives (json : Json) (clock : Clock F) (verifiers : Verifiers) (replay : IdleReplay)
    (ttrl : TTRLPicker) (file : Bytes) (since : Nat) (kinds : Option (List String)) : Prop where
  withOffsets : iterWithOffsets json file since kinds =
    ⟨wanted json kinds (linesFrom file since), none⟩
  events : iterEvents json file since =
    ⟨(wanted json none (linesFrom file since)).map Prod.snd, none⟩
  pickRecord : ∃ found, replay.candidates json clock file = .ok found
  pickPrompt : ∃ found, ttrl.candidates json verifiers file = .ok found

/-- The lines of a file that all readers survive. -/
structure ReadableLog (json : Json) (clock : Clock F) (verifiers : Verifiers)
    (replay : IdleReplay) (ttrl : TTRLPicker) (file : Bytes) (since : Nat)
    (kinds : Option (List String)) : Prop where
  fromOffset : ∀ l ∈ linesFrom file since, Readable json kinds l ∧ Readable json none l
  /-- A feedback record under its cap has a timestamp that `float` takes, if it has one. -/
  feedback : ∀ l ∈ linesFrom file 0,
    LineOk json (some ["feedback"]) (fun pos _ record => replay.replayed pos <
      replay.maxReplaysPerRecord → ∀ v, record.lookup "ts" = some v →
        ∃ ts, clock.toFloat v = .ok ts) l
  /-- The verifiers take the prompt of an inference record under its cap, if it has one. -/
  inference : ∀ l ∈ linesFrom file 0,
    LineOk json (some ["inference"]) (fun pos _ record => ttrl.seen pos < ttrl.maxPerPrompt →
      (JsonObject.get record "prompt").truthy = true →
        ∃ domain, selectVerifier (JsonObject.get record "prompt") verifiers = .ok domain) l

theorem IdleReplay.candidate_ok_iff (clock : Clock F) (sched : IdleReplay) (pos : Nat)
    (record : JsonObject) :
    (∃ b, sched.candidate clock (pos, .dict record) = .ok b) ↔
      (sched.replayed pos < sched.maxReplaysPerRecord → ∀ v, record.lookup "ts" = some v →
        ∃ ts, clock.toFloat v = .ok ts) := by
  unfold IdleReplay.candidate
  by_cases hcap : sched.maxReplaysPerRecord ≤ sched.replayed pos
  · exact iff_of_true ⟨none, by simp [hcap, pure, Except.pure]⟩ fun h => absurd hcap (not_le.mpr h)
  · simp only [hcap, if_false, Value.asDict, bind, Except.bind, pure, Except.pure]
    have hlt := not_le.mp hcap
    cases hts : record.lookup "ts" with
    | none =>
      refine iff_of_true ?_ (by simp)
      simp only
      split <;> exact ⟨_, rfl⟩
    | some v =>
      simp only [Option.some.injEq, forall_eq']
      cases hv : clock.toFloat v with
      | error e => exact iff_of_false (by simp) fun h => by simpa using h hlt
      | ok ts =>
        refine iff_of_true ?_ fun _ => ⟨ts, rfl⟩
        simp only
        split <;> exact ⟨_, rfl⟩

theorem TTRLPicker.candidate_ok_iff (verifiers : Verifiers) (picker : TTRLPicker) (pos : Nat)
    (record : JsonObject) :
    (∃ b, picker.candidate verifiers (pos, .dict record) = .ok b) ↔
      (picker.seen pos < picker.maxPerPrompt →
        (JsonObject.get record "prompt").truthy = true →
          ∃ domain, selectVerifier (JsonObject.get record "prompt") verifiers = .ok domain) := by
  unfold TTRLPicker.candidate
  by_cases hcap : picker.maxPerPrompt ≤ picker.seen pos
  · exact iff_of_true ⟨none, by simp [hcap, pure, Except.pure]⟩ fun h => absurd hcap (not_le.mpr h)
  · simp only [hcap, if_false, Value.asDict, bind, Except.bind, pure, Except.pure]
    have hlt := not_le.mp hcap
    cases htruthy : (JsonObject.get record "prompt").truthy with
    | false => exact iff_of_true ⟨none, by simp⟩ (by simp)
    | true =>
      cases hsel : selectVerifier (JsonObject.get record "prompt") verifiers with
      | error e => exact iff_of_false (by simp) fun h => by simpa using h hlt rfl
      | ok domain =>
        refine iff_of_true ?_ fun _ _ => ⟨domain, rfl⟩
        cases domain <;> exact ⟨_, rfl⟩

/-- A turn of the picker on a record with a timestamp. -/
theorem IdleReplay.candidate_eq {clock : Clock F} (sched : IdleReplay) (pos : Nat)
    {record : JsonObject} {v : Value} {ts : F} (hts : record.lookup "ts" = some v)
    (hfloat : clock.toFloat v = .ok ts) :
    sched.candidate clock (pos, .dict record) =
      .ok (if sched.replayed pos < sched.maxReplaysPerRecord ∧
          clock.positive (clock.weight ts) = true then
        some (pos, .dict record, clock.weight ts) else none) := by
  unfold IdleReplay.candidate
  by_cases hcap : sched.maxReplaysPerRecord ≤ sched.replayed pos
  · simp [hcap, not_lt.mpr hcap, pure, Except.pure]
  · simp only [hcap, if_false, Value.asDict, bind, Except.bind, pure, Except.pure, hts, hfloat,
      not_le.mp hcap, true_and]
    split <;> rfl

/-- With candidates, the choice among them is one of them; without, there is nothing to draw
from. -/
theorem IdleReplay.pickRecord_ok_iff {json : Json} {clock : Clock F} {choice : List F → Nat}
    {sched : IdleReplay} {file : Bytes} {found : List (Nat × Value × F)}
    (hchoice : ∀ weights, weights ≠ [] → choice weights < weights.length)
    (hfound : sched.candidates json clock file = .ok found) :
    (∃ picked, sched.pickRecord json clock choice file = .ok picked) ↔
      (sched.minFeedbackRecords ≤ 0 → found ≠ []) := by
  simp only [IdleReplay.pickRecord, hfound, bind, Except.bind, pure, Except.pure]
  by_cases hfew : (found.length : Int) < sched.minFeedbackRecords
  · refine iff_of_true ⟨none, by simp [hfew]⟩ fun hmin => ?_
    omega
  · simp only [hfew, if_false]
    by_cases hnil : found = []
    · subst hnil
      refine iff_of_false (by simp [throw, throwThe, MonadExceptOf.throw]) fun h => h ?_ rfl
      simpa using hfew
    · refine iff_of_true ?_ fun _ => hnil
      have hlt : choice (found.map fun c => c.2.2) < found.length := by
        simpa using hchoice (found.map fun c => c.2.2) (by simpa using hnil)
      simp [List.getElem?_eq_getElem hlt]

theorem IdleReplay.mem_of_pickRecord {json : Json} {clock : Clock F} {choice : List F → Nat}
    {sched : IdleReplay} {file : Bytes} {offset : Nat} {v : Value}
    (h : sched.pickRecord json clock choice file = .ok (some (offset, v))) :
    ∃ found w, sched.candidates json clock file = .ok found ∧ (offset, v, w) ∈ found := by
  simp only [IdleReplay.pickRecord, bind, Except.bind, pure, Except.pure] at h
  cases hfound : sched.candidates json clock file with
  | error e => simp [hfound] at h
  | ok found =>
    simp only [hfound] at h
    split at h
    · cases h
    · split at h
      · rename_i c hc
        simp only [Except.ok.injEq, Option.some.injEq, Prod.mk.injEq] at h
        obtain ⟨rfl, rfl⟩ := h
        exact ⟨found, c.2.2, rfl, List.mem_of_getElem? hc⟩
      · cases h

/-- **Log readers.** All readers survive a file exactly if they survive each of its lines. -/
theorem survives_iff (json : Json) (clock : Clock F) (verifiers : Verifiers)
    (replay : IdleReplay) (ttrl : TTRLPicker) (file : Bytes) (since : Nat)
    (kinds : Option (List String)) :
    Survives json clock verifiers replay ttrl file since kinds ↔
      ReadableLog json clock verifiers replay ttrl file since kinds := by
  have hreplay : (∃ found, replay.candidates json clock file = .ok found) ↔ _ :=
    consume_scan_ok_iff (replay.candidate clock) (linesFrom file 0)
  have httrl : (∃ found, ttrl.candidates json verifiers file = .ok found) ↔ _ :=
    consume_scan_ok_iff (ttrl.candidate verifiers) (linesFrom file 0)
  simp only [IdleReplay.candidate_ok_iff] at hreplay
  simp only [TTRLPicker.candidate_ok_iff] at httrl
  constructor
  · intro h
    exact ⟨fun l hl => ⟨(iterWithOffsets_iff file since).mp h.withOffsets l hl,
        (iterEvents_iff file since).mp h.events l hl⟩,
      hreplay.mp h.pickRecord, httrl.mp h.pickPrompt⟩
  · intro h
    exact ⟨(iterWithOffsets_iff file since).mpr fun l hl => (h.fromOffset l hl).1,
      (iterEvents_iff file since).mpr fun l hl => (h.fromOffset l hl).2,
      hreplay.mpr h.feedback, httrl.mpr h.inference⟩

/-- `sampleJson`, and a text that ends inside a two-byte character. -/
def tornJson : Json where
  dumps := TrajectoryLog.sampleJson.dumps
  loads bytes :=
    if bytes = [123, 34, 195] then
      .error ⟨.other "UnicodeDecodeError",
        "'utf-8' codec can't decode byte 0xc3 in position 2: unexpected end of data"⟩
    else TrajectoryLog.sampleJson.loads bytes

/-- A line torn inside a character ends the scan, although the record behind it is whole. -/
theorem torn_character_raises :
    ¬ ∀ (json : Json) (clock : Clock ℚ) (verifiers : Verifiers) (replay : IdleReplay)
      (ttrl : TTRLPicker) (file : Bytes) (since : Nat) (kinds : Option (List String)),
      since ≤ TrajectoryLog.size file →
      Survives json clock verifiers replay ttrl file since kinds := by
  intro h
  have herror := congrArg Gen.error (h tornJson ⟨fun _ => .ok 0, 0, id, fun _ => true⟩ []
    ⟨fun _ => 0, 3, 3⟩ ⟨fun _ => 0, 3, 3⟩ [123, 34, 195, 10, 123, 125, 10] 0 none
    (by decide)).withOffsets
  revert herror
  decide

end Trainfer
