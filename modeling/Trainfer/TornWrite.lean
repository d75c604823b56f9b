import Trainfer.LogRoundTrip

/-! A crash cuts the log at some byte, and a restarted writer appends to what is left.

The writer opens the file for append and does not look at its end. A tail without a newline
stays a line of its own only as long as nothing is appended; the first record after the
restart goes onto the torn line and is lost with it. A tail that ends inside a character ends
the scan with a `UnicodeDecodeError`, which the readers do not catch. -/

namespace Trainfer.TrajectoryLog

variable {json : Json}

/-- The file after a crash, a restart and the later appends, with their offsets. -/
def restarted (json : Json) (payloads : List JsonObject) (cut : Nat)
    (later : List JsonObject) : List Nat × Bytes :=
  appendAll json ((appendAll json [] payloads).2.take cut) later

/-- A scan of the whole file ends without an exception, and has yielded every record whose
text lies before the cut, and every record appended after the restart, each at its offset. -/
structure Recovers (json : Json) (payloads : List JsonObject) (cut : Nat)
    (later : List JsonObject) : Prop where
  completes : (iterWithOffsets json (restarted json payloads cut later).2 0 none).error = none
  before : ∀ e ∈ (appendAll json [] payloads).1.zip payloads,
    e.1 + (encoded json e.2).length ≤ cut →
      (e.1, .dict e.2) ∈ (iterWithOffsets json (restarted json payloads cut later).2 0 none).items
  after : ∀ e ∈ (restarted json payloads cut later).1.zip later,
    (e.1, .dict e.2) ∈ (iterWithOffsets json (restarted json payloads cut later).2 0 none).items

/-- The cut is at the start of a line, or at the end of the file. -/
def BetweenLines (json : Json) (payloads : List JsonObject) (cut : Nat) : Prop :=
  ∃ k, cut = size (appendAll json [] (payloads.take k)).2

/-! ## Where the cut falls -/

/-- Whole lines, and part of the next one without its newline. -/
theorem take_written {ps : List JsonObject} {cut : Nat} (h : cut ≤ (written json ps).length) :
    (∃ qs rs, ps = qs ++ rs ∧ (written json ps).take cut = written json qs) ∨
      ∃ qs p rs torn, ps = qs ++ p :: rs ∧ torn ≠ [] ∧ torn <+: encoded json p ∧
        (written json ps).take cut = written json qs ++ torn := by
  induction ps generalizing cut with
  | nil => exact .inl ⟨[], [], rfl, by simp [written]⟩
  | cons p ps ih =>
    have hfile : written json (p :: ps) =
        (encoded json p ++ [newline]) ++ written json ps := by simp [written]
    rcases Nat.eq_zero_or_pos cut with rfl | hpos
    · exact .inl ⟨[], p :: ps, rfl, by simp [written]⟩
    by_cases hline : cut ≤ (encoded json p).length
    · -- inside the first line, or right before its newline
      refine .inr ⟨[], p, ps, (encoded json p).take cut, rfl, ?_, List.take_prefix _ _, ?_⟩
      · intro hnil
        have hlen := congrArg List.length hnil
        rw [List.length_take, List.length_nil] at hlen
        omega
      · rw [hfile, List.append_assoc, List.take_append_of_le_length hline]
        simp [written]
    · have hlen : (encoded json p ++ [newline]).length = (encoded json p).length + 1 := by simp
      rw [hfile, List.length_append, hlen] at h
      have htake : (written json (p :: ps)).take cut = (encoded json p ++ [newline]) ++
          (written json ps).take (cut - ((encoded json p).length + 1)) := by
        rw [hfile, List.take_append, hlen, List.take_of_length_le (by omega)]
      have hone : ∀ qs, (encoded json p ++ [newline]) ++ written json qs =
          written json (p :: qs) := fun qs => by simp [written]
      have hrest : cut - ((encoded json p).length + 1) ≤ (written json ps).length := by omega
      rcases ih hrest with
        ⟨qs, rs, rfl, hqs⟩ | ⟨qs, r, rs, torn, rfl, hne, hpre, hqs⟩
      · exact .inl ⟨p :: qs, rs, rfl, by rw [htake, hqs, hone]⟩
      · exact .inr ⟨p :: qs, r, rs, torn, rfl, hne, hpre, by
          rw [htake, hqs, ← List.append_assoc, hone]⟩

theorem zip_appendAll (file : Bytes) (ps : List JsonObject) :
    (appendAll json file ps).1.zip ps = entries json file.length ps := by
  rw [appendAll_eq]
  exact (List.zip_of_prod rfl (map_snd_entries _ _)).symm

/-- What a scan yields starts where one of its lines starts. -/
theorem pos_of_mem_scan {kinds : Option (List String)} {ls : List (Nat × Bytes)} {pos : Nat}
    {record : Value} (h : (pos, record) ∈ (scan json kinds ls).items) :
    ∃ line, (pos, line) ∈ ls := by
  induction ls with
  | nil => simp [scan, Gen.empty] at h
  | cons l ls ih =>
    obtain ⟨start, line⟩ := l
    have hrest : (pos, record) ∈ (scan json kinds ls).items →
        ∃ line', (pos, line') ∈ (start, line) :: ls := by
      intro hmem
      obtain ⟨line', hline'⟩ := ih hmem
      exact ⟨line', List.mem_cons_of_mem _ hline'⟩
    simp only [scan] at h
    split at h
    · exact hrest h
    · split at h
      · split at h
        · exact hrest h
        · simp [Gen.raise] at h
      · split at h
        · simp [Gen.raise] at h
        · exact hrest h
        · rcases List.mem_cons.mp h with heq | hmem
          · obtain ⟨rfl, _⟩ := Prod.mk.inj heq
            exact ⟨line, List.mem_cons_self⟩
          · exact hrest hmem

theorem valid_encoded (p : JsonObject) : Utf8.Valid (encoded json p) := ⟨_, rfl⟩

/-- Whole lines are UTF-8, so a file is exactly if what follows them is. -/
theorem valid_written_append_iff (ps : List JsonObject) (torn : Bytes) :
    Utf8.Valid (written json ps ++ torn) ↔ Utf8.Valid torn := by
  induction ps with
  | nil => rfl
  | cons p ps ih =>
    have hfile : written json (p :: ps) ++ torn =
        encoded json p ++ newline :: (written json ps ++ torn) := by simp [written]
    rw [hfile, Utf8.valid_append_cons_iff (by decide), ih]
    exact and_iff_right (valid_encoded p)

/-- The scan of one line ends with an exception only if `loads` raises one that is not
caught. -/
theorem error_scan_line {pos : Nat} {line : Bytes} (hne : Lines.strip isSpace line ≠ []) :
    (scan json none [(pos, line)]).error = none ↔
      ¬ ∃ e, json.loads (Lines.strip isSpace line) = .error e ∧ e.cls ≠ .decodeError := by
  have hblank : (Lines.strip isSpace line).isEmpty = false := by simpa using hne
  cases hl : json.loads (Lines.strip isSpace line) with
  | error e =>
    by_cases hdec : e.cls = .decodeError <;>
      simp [scan, hblank, hl, hdec, Gen.raise, Gen.empty]
  | ok record => simp [scan, hblank, hl, passes, Gen.yield, Gen.empty]

/-- A torn line is got over exactly if the cut is not inside a character. -/
theorem error_scan_torn {p : JsonObject} {torn : Bytes} (hp : json.RoundTrips p)
    (hdec : json.DecodesFirst p) (hne : torn ≠ []) (hpre : torn <+: encoded json p) (pos : Nat) :
    (scan json none [(pos, torn)]).error = none ↔ Utf8.Valid torn := by
  have hhead : ∀ a, torn.head? = some a → isSpace a = false := by
    intro a ha
    obtain ⟨rest, hrest⟩ := hpre
    refine not_isSpace_of_head hp ?_
    rw [← hrest, List.head?_append_of_ne_nil _ hne]
    exact ha
  obtain ⟨spaces, hsplit, hspaces⟩ := Lines.strip_append_spaces hhead
  have hstripped := List.prefix_append (Lines.strip isSpace torn) spaces
  rw [hsplit] at hstripped
  have hvalid : Utf8.Valid torn ↔ Utf8.Valid (Lines.strip isSpace torn) := by
    conv_lhs => rw [← hsplit]
    exact Utf8.valid_append_iff_of_lt fun a ha => isSpace_lt (hspaces a ha)
  have hnotblank : Lines.strip isSpace torn ≠ [] := by
    intro hnil
    have hspace := Lines.strip_eq_nil_iff.mp hnil _ (List.head_mem hne)
    rw [hhead _ (List.head?_eq_some_head hne)] at hspace
    cases hspace
  rw [error_scan_line hnotblank, hdec _ (hstripped.trans hpre), not_not, hvalid]

/-! ## The three cases -/

/-- Between two lines: the log goes on as if the lost records had never been written. -/
theorem recovers_of_whole {qs rs later : List JsonObject} {cut : Nat}
    (hq : ∀ p ∈ qs ++ later, json.RoundTrips p)
    (hr : ∀ p ∈ rs, json.RoundTrips p) (hcut : cut ≤ (written json (qs ++ rs)).length)
    (htake : (written json (qs ++ rs)).take cut = written json qs) :
    Recovers json (qs ++ rs) cut later := by
  have hfile : restarted json (qs ++ rs) cut later =
      ((entries json (written json qs).length later).map Prod.fst, written json (qs ++ later)) := by
    rw [restarted, appendAll_eq, appendAll_eq, List.nil_append, htake, written_append]
  have hscan : iterWithOffsets json (written json (qs ++ later)) 0 none =
      ⟨yielded none (entries json 0 (qs ++ later)), none⟩ :=
    @iterWithOffsets_boundary json none [] _ hq (.inl rfl)
  have hlen : cut = (written json qs).length := by
    rw [← htake, List.length_take, Nat.min_eq_left hcut]
  rw [entries_append, Nat.zero_add, yielded_none] at hscan
  refine ⟨by rw [hfile, hscan], fun e he hbefore => ?_, fun e he => ?_⟩
  · rw [zip_appendAll, List.length_nil, entries_append, Nat.zero_add, List.mem_append] at he
    rw [hfile, hscan]
    rcases he with he | he
    · exact List.mem_map_of_mem (List.mem_append_left _ he)
    · -- a lost record starts at the cut or later
      have hstart := (bounds_of_mem_entries he).1
      have hmem : e.2 ∈ rs := by
        rw [← @map_snd_entries json (written json qs).length rs]
        exact List.mem_map_of_mem he
      have hpos := List.length_pos_iff.mpr (encoded_ne_nil (hr e.2 hmem))
      omega
  · rw [hfile, List.zip_of_prod rfl (map_snd_entries _ _) |>.symm] at he
    rw [hfile, hscan]
    exact List.mem_map_of_mem (List.mem_append_right _ he)

/-- A torn line at the end of the file is skipped, or read if only its newline is missing,
unless it ends inside a character. -/
theorem recovers_torn_iff {qs rs : List JsonObject} {p : JsonObject} {torn : Bytes} {cut : Nat}
    (h : ∀ r ∈ qs ++ p :: rs, json.RoundTrips r) (hdec : json.DecodesFirst p)
    (hcut : cut ≤ (written json (qs ++ p :: rs)).length) (hne : torn ≠ [])
    (hpre : torn <+: encoded json p)
    (htake : (written json (qs ++ p :: rs)).take cut = written json qs ++ torn) :
    Recovers json (qs ++ p :: rs) cut [] ↔ Utf8.Valid torn := by
  have hp : json.RoundTrips p := h p (by simp)
  have hlen : cut = (written json qs).length + torn.length := by
    rw [← List.length_append, ← htake, List.length_take, Nat.min_eq_left hcut]
  have hfile : (restarted json (qs ++ p :: rs) cut []).2 = written json qs ++ torn := by
    rw [restarted, appendAll_eq, appendAll_eq, List.nil_append, htake]
    simp [written]
  have hnl : newline ∉ torn := fun hmem =>
    newline_notMem_encoded hp (hpre.subset hmem)
  have hwhole := @scan_written json none qs (fun r hr => h r (List.mem_append_left _ hr))
    (.inl rfl) 0
  have hscan : iterWithOffsets json (written json qs ++ torn) 0 none =
      ⟨yielded none (entries json 0 qs) ++
          (scan json none [((written json qs).length, torn)]).items,
        (scan json none [((written json qs).length, torn)]).error⟩ := by
    rw [iterWithOffsets, linesFrom, List.drop_zero, Lines.lines_append (terminated_written qs),
      Lines.lines_line hnl hne, Lines.starts_append, Lines.flatten_lines, Nat.zero_add,
      scan_append _ _ (by rw [hwhole]), hwhole]
    rfl
  have hend : (iterWithOffsets json (restarted json (qs ++ p :: rs) cut []).2 0 none).error =
      none ↔ Utf8.Valid torn := by
    rw [hfile, hscan]
    exact error_scan_torn hp hdec hne hpre _
  refine ⟨fun hrec => hend.mp hrec.completes, fun hvalid => ⟨hend.mpr hvalid,
    fun e he hbefore => ?_, fun e he => by simp at he⟩⟩
  rw [hfile, hscan, yielded_none, List.mem_append]
  rw [zip_appendAll, List.length_nil, entries_append, Nat.zero_add, List.mem_append] at he
  rcases he with he | he
  · exact .inl (List.mem_map_of_mem he)
  · rcases List.mem_cons.mp he with rfl | he
    · -- the cut is right before the newline
      have hfull : torn = encoded json p :=
        hpre.eq_of_length_le (by simp only at hbefore; omega)
      refine .inr ?_
      rw [scan_line hp (.inl rfl) (by rw [hfull]; exact (strip_encoded hp).2)]
      simp [hasKind, Gen.yield]
    · have hstart := (bounds_of_mem_entries he).1
      have hshort := hpre.length_le
      omega

/-- The first record after the restart goes onto the torn line. -/
theorem not_recovers_of_joined {qs rs later : List JsonObject} {p q : JsonObject} {torn : Bytes}
    {cut : Nat} (hq : json.RoundTrips q) (hp : json.RoundTrips p) (hne : torn ≠ [])
    (hpre : torn <+: encoded json p)
    (htake : (written json (qs ++ p :: rs)).take cut = written json qs ++ torn) :
    ¬ Recovers json (qs ++ p :: rs) cut (q :: later) := by
  intro hrec
  have hfile : restarted json (qs ++ p :: rs) cut (q :: later) =
      ((entries json ((written json qs).length + torn.length) (q :: later)).map Prod.fst,
        written json qs ++ ((torn ++ encoded json q) ++ newline :: written json later)) := by
    rw [restarted, appendAll_eq, appendAll_eq, List.nil_append, htake, List.length_append]
    simp [written]
  have hafter := hrec.after
  rw [hfile, ← List.zip_of_prod rfl (map_snd_entries _ _)] at hafter
  have hitem := hafter ((written json qs).length + torn.length, q) List.mem_cons_self
  obtain ⟨line, hline⟩ := pos_of_mem_scan hitem
  have hnl : newline ∉ torn ++ encoded json q := by
    rw [List.mem_append]
    rintro (hmem | hmem)
    · exact newline_notMem_encoded hp (hpre.subset hmem)
    · exact newline_notMem_encoded hq hmem
  rw [linesFrom, List.drop_zero, Lines.lines_append (terminated_written qs),
    Lines.lines_append_line hnl, Lines.starts_append, Lines.flatten_lines, Nat.zero_add,
    Lines.starts, List.mem_append, List.mem_cons] at hline
  -- the new record starts strictly inside the joined line
  have htorn := List.length_pos_iff.mpr hne
  rcases hline with hline | hline | hline
  · obtain ⟨hmem, _, hend⟩ := Lines.bounds_of_mem_starts hline
    have hpos := List.length_pos_iff.mpr (Lines.ne_nil_of_mem_lines hmem)
    rw [Lines.flatten_lines] at hend
    omega
  · have hpos := (Prod.mk.inj hline).1
    omega
  · have hstart := (Lines.bounds_of_mem_starts hline).2.1
    simp only [List.length_append, List.length_singleton] at hstart
    omega

/-- **Torn writes.** Every record is recovered exactly if the cut is between two lines, or
nothing is appended after the restart and the cut is not inside a character. -/
theorem recovers_iff {payloads later : List JsonObject} {cut : Nat}
    (h : ∀ p ∈ payloads ++ later, json.RoundTrips p) (hdec : ∀ p ∈ payloads, json.DecodesFirst p)
    (hcut : cut ≤ size (appendAll json [] payloads).2) :
    Recovers json payloads cut later ↔ BetweenLines json payloads cut ∨
      (later = [] ∧ Utf8.Valid ((appendAll json [] payloads).2.take cut)) := by
  rw [size, appendAll_eq, List.nil_append] at hcut
  have hbetween : BetweenLines json payloads cut ↔
      ∃ k, cut = (written json (payloads.take k)).length := by
    simp [BetweenLines, size, appendAll_eq]
  rcases take_written hcut with ⟨qs, rs, rfl, htake⟩ | ⟨qs, p, rs, torn, rfl, hne, hpre, htake⟩
  · refine iff_of_true ?_ (.inl (hbetween.mpr ⟨qs.length, ?_⟩))
    · refine recovers_of_whole (fun p hp => h p ?_) (fun p hp => h p ?_) hcut htake
      · simp only [List.mem_append] at hp ⊢
        tauto
      · simp [hp]
    · rw [List.take_left, ← htake, List.length_take, Nat.min_eq_left hcut]
  · have hpayloads : ∀ r ∈ qs ++ p :: rs, json.RoundTrips r :=
      fun r hr => h r (List.mem_append_left _ hr)
    have htorn := recovers_torn_iff hpayloads (hdec p (by simp)) hcut hne hpre htake
    rw [appendAll_eq, List.nil_append, htake, valid_written_append_iff, ← htorn]
    constructor
    · intro hrec
      cases later with
      | nil => exact .inr ⟨rfl, hrec⟩
      | cons q later =>
        refine absurd hrec (not_recovers_of_joined (h q (by simp)) (hpayloads p (by simp)) hne
          hpre htake)
    · rintro (hk | ⟨rfl, hrec⟩)
      · -- a cut inside a line is not between two lines
        obtain ⟨k, hk⟩ := hbetween.mp hk
        have hsame : written json qs ++ torn = written json ((qs ++ p :: rs).take k) := by
          have hsplit : written json (qs ++ p :: rs) =
              written json ((qs ++ p :: rs).take k) ++ written json ((qs ++ p :: rs).drop k) := by
            rw [← written_append, List.take_append_drop]
          rw [← htake, hk]
          conv_lhs => rw [hsplit]
          exact List.take_left
        have hlast := @terminated_written json ((qs ++ p :: rs).take k)
        rw [← hsame] at hlast
        obtain ⟨b, hb⟩ := Option.isSome_iff_exists.mp (List.getLast?_isSome.mpr hne)
        have hnewline := hlast b (by rw [List.getLast?_append, hb]; rfl)
        exact absurd (hpre.subset (hnewline ▸ List.mem_of_getLast? hb))
          (newline_notMem_encoded (hpayloads p (by simp)))
      · exact hrec

/-- `sampleJson` raises nothing but `JSONDecodeError`, so it is right about texts without
multi-byte characters. -/
theorem sampleJson_decodesFirst {p : JsonObject}
    (h : ∀ b ∈ Utf8.encode (sampleJson.dumps p), b.toNat < 128) : sampleJson.DecodesFirst p := by
  intro torn hpre
  refine iff_of_false ?_ (not_not.mpr (Utf8.valid_of_lt fun b hb => h b (hpre.subset hb)))
  rintro ⟨e, he, hcls⟩
  simp only [sampleJson] at he
  split at he
  · cases he
  · split at he
    · cases he
    · split at he
      · cases he
      · obtain rfl := Except.error.inj he
        exact hcls rfl

/-- A cut between two records, and one more record after the restart. -/
theorem cutBetween_recovers :
    Recovers sampleJson [[], [("kind", .str "feedback")]] 3 [[]] :=
  (recovers_iff (by simp [sampleJson_empty, sampleJson_feedback])
    (fun p hp => sampleJson_decodesFirst (by fin_cases hp <;> decide +kernel)) (by decide)).mpr
    (.inl ⟨1, rfl⟩)

/-- A crash after one byte of a record: the next record is not read. -/
theorem torn_tail_swallows :
    ¬ ∀ (json : Json) (payloads later : List JsonObject) (cut : Nat),
      (∀ p ∈ payloads ++ later, json.RoundTrips p) → (∀ p ∈ payloads, json.DecodesFirst p) →
      cut ≤ size (appendAll json [] payloads).2 → Recovers json payloads cut later := by
  intro h
  have hrec := h sampleJson [[]] [[("kind", .str "feedback")]] 1
    (by simp [sampleJson_empty, sampleJson_feedback])
    (fun p hp => sampleJson_decodesFirst (by fin_cases hp; decide +kernel)) (by decide)
  have hitem := hrec.after (1, [("kind", .str "feedback")]) List.mem_cons_self
  have hnone : (iterWithOffsets sampleJson
      (restarted sampleJson [[]] 1 [[("kind", .str "feedback")]]).2 0 none).items = [] := rfl
  rw [hnone] at hitem
  exact absurd hitem List.not_mem_nil

end Trainfer.TrajectoryLog
