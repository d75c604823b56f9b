import Trainfer.TrajectoryLog
import Mathlib

/-! Appending to the trajectory log and scanning it.

The offset that a writer reports, the position at which a reader finds the line and the
size from which a poller resumes are the same line boundaries. `scan_written` is the one
fact about the byte layout: a file of whole lines is read as the list of its records. -/

namespace Trainfer

/-- The whitespace of `isSpace`, as characters. -/
def isSpaceChar (c : Char) : Bool := decide (9 ≤ c.toNat ∧ c.toNat ≤ 13) || c.toNat == 32

/-- What is assumed of `json` on one payload: its text is one line that `strip` leaves alone,
and `loads` reads it back. -/
structure Json.RoundTrips (json : Json) (payload : JsonObject) : Prop where
  nonempty : json.dumps payload ≠ ""
  noNewline : '\n' ∉ (json.dumps payload).toList
  leading : ∀ c, (json.dumps payload).toList.head? = some c → isSpaceChar c = false
  trailing : ∀ c, (json.dumps payload).toList.getLast? = some c → isSpaceChar c = false
  loads_dumps : json.loads (Utf8.encode (json.dumps payload)) = .ok (.dict payload)

/-- What is assumed of `json.loads` on a payload's text that has been cut: bytes are decoded
before they are parsed, so a cut inside a character is a `UnicodeDecodeError`, and any other cut
raises nothing but `JSONDecodeError`. -/
def Json.DecodesFirst (json : Json) (payload : JsonObject) : Prop :=
  ∀ torn, torn <+: Utf8.encode (json.dumps payload) →
    ((∃ e, json.loads torn = .error e ∧ e.cls ≠ .decodeError) ↔ ¬ Utf8.Valid torn)

/-- The `kind` of a record can be looked up in a set. -/
def HashableKind (payload : JsonObject) : Prop :=
  (JsonObject.get payload "kind").checkHashable = .ok ()

/-- The record has one of the listed kinds. -/
def hasKind (kinds : Option (List String)) (payload : JsonObject) : Bool :=
  match kinds with
  | none => true
  | some kinds => kinds.any fun k => (JsonObject.get payload "kind").isStr k

namespace TrajectoryLog

variable {json : Json} {kinds : Option (List String)}

/-- The file after the payloads are appended to an empty one. -/
def written (json : Json) (payloads : List JsonObject) : Bytes :=
  payloads.flatMap fun p => encoded json p ++ [newline]

/-- The payloads with the offsets of their lines, the first of which starts at `pos`. -/
def entries (json : Json) (pos : Nat) : List JsonObject → List (Nat × JsonObject)
  | [] => []
  | p :: ps => (pos, p) :: entries json (pos + (encoded json p).length + 1) ps

/-- The payloads are appended one after another: the offsets returned, and the file. -/
def appendAll (json : Json) (file : Bytes) : List JsonObject → List Nat × Bytes
  | [] => ([], file)
  | p :: ps =>
    let (offset, file) := appendRaw json file p
    let (offsets, file) := appendAll json file ps
    (offset :: offsets, file)

/-! ## One line -/

theorem isSpace_lt {b : UInt8} (h : isSpace b = true) : b.toNat < 128 := by
  simp only [isSpace, Bool.or_eq_true, decide_eq_true_eq, beq_iff_eq] at h
  omega

theorem newline_notMem_encoded {p : JsonObject} (h : json.RoundTrips p) :
    newline ∉ encoded json p := by
  intro hmem
  obtain ⟨c, hc, hcode⟩ := Utf8.mem_of_mem_encode hmem (by decide)
  have hnl : c = '\n' := Char.toNat_inj.mp hcode
  exact h.noNewline (hnl ▸ hc)

theorem encoded_ne_nil {p : JsonObject} (h : json.RoundTrips p) : encoded json p ≠ [] :=
  Utf8.encode_ne_nil h.nonempty

theorem not_isSpace_of_head {p : JsonObject} (h : json.RoundTrips p) {b : UInt8}
    (hb : (encoded json p).head? = some b) : isSpace b = false := by
  by_contra hspace
  have hspace : isSpace b = true := by simpa using hspace
  obtain ⟨c, hc, hcode⟩ := Utf8.head_of_head_encode hb (isSpace_lt hspace)
  have hchar := h.leading c hc
  rw [isSpaceChar, hcode] at hchar
  exact absurd hspace (by simpa [isSpace] using hchar)

theorem strip_encoded {p : JsonObject} (h : json.RoundTrips p) :
    Lines.strip isSpace (encoded json p ++ [newline]) = encoded json p ∧
      Lines.strip isSpace (encoded json p) = encoded json p := by
  refine Lines.strip_line rfl (fun b hb => not_isSpace_of_head h hb) fun b hb => ?_
  by_contra hspace
  have hspace : isSpace b = true := by simpa using hspace
  obtain ⟨c, hc, hcode⟩ := Utf8.last_of_last_encode hb (isSpace_lt hspace)
  have hchar := h.trailing c hc
  rw [isSpaceChar, hcode] at hchar
  exact absurd hspace (by simpa [isSpace] using hchar)

theorem passes_dict {p : JsonObject} (h : kinds = none ∨ HashableKind p) :
    passes kinds (.dict p) = .ok (hasKind kinds p) := by
  cases kinds with
  | none => rfl
  | some ks =>
    have hk : HashableKind p := h.resolve_left (by simp)
    simp only [passes, Value.asDict, bind, Except.bind, pure, Except.pure]
    rw [hk]
    rfl

/-- A written line is read as its record, if the filter lets it through. -/
theorem scan_line {p : JsonObject} (h : json.RoundTrips p) (hk : kinds = none ∨ HashableKind p)
    {line : Bytes} (hline : Lines.strip isSpace line = encoded json p) (pos : Nat)
    (rest : List (Nat × Bytes)) :
    scan json kinds ((pos, line) :: rest) =
      if hasKind kinds p then (scan json kinds rest).yield (pos, .dict p)
      else scan json kinds rest := by
  have hne : (encoded json p).isEmpty = false := by simpa using encoded_ne_nil h
  have hloads : json.loads (encoded json p) = .ok (.dict p) := h.loads_dumps
  simp only [scan, hline, hne, hloads, passes_dict hk, Bool.false_eq_true, if_false]
  cases hasKind kinds p <;> rfl

/-! ## A file of whole lines -/

theorem written_append (ps qs : List JsonObject) :
    written json (ps ++ qs) = written json ps ++ written json qs := by
  simp [written]

theorem terminated_written (ps : List JsonObject) :
    Lines.Terminated newline (written json ps) := by
  rcases List.eq_nil_or_concat ps with rfl | ⟨qs, q, rfl⟩
  · exact Lines.terminated_nil
  · rw [List.concat_eq_append, written_append]
    simpa [written] using Lines.terminated_append_line (written json qs) (encoded json q)

/-- What `iter_with_offsets` makes of records at their offsets. -/
def yielded (kinds : Option (List String)) (es : List (Nat × JsonObject)) : List (Nat × Value) :=
  (es.filter fun e => hasKind kinds e.2).map fun e => (e.1, .dict e.2)

theorem yielded_none (es : List (Nat × JsonObject)) :
    yielded none es = es.map fun e => (e.1, .dict e.2) := by
  have hall : es.filter (fun e => hasKind none e.2) = es := List.filter_eq_self.mpr fun _ _ => rfl
  rw [yielded, hall]

/-- A file of whole lines is read as the list of its records. -/
theorem scan_written {ps : List JsonObject} (h : ∀ p ∈ ps, json.RoundTrips p)
    (hk : kinds = none ∨ ∀ p ∈ ps, HashableKind p) (pos : Nat) :
    scan json kinds (Lines.starts pos (Lines.lines newline (written json ps))) =
      ⟨yielded kinds (entries json pos ps), none⟩ := by
  induction ps generalizing pos with
  | nil => rfl
  | cons p ps ih =>
    have hp := h p List.mem_cons_self
    have hfile : written json (p :: ps) = encoded json p ++ newline :: written json ps := by
      simp [written]
    have hrest := ih (fun q hq => h q (List.mem_cons_of_mem p hq))
      (hk.imp_right fun hk q hq => hk q (List.mem_cons_of_mem p hq))
      (pos + (encoded json p).length + 1)
    rw [hfile, Lines.lines_append_line (newline_notMem_encoded hp), Lines.starts,
      List.length_append, List.length_singleton, ← Nat.add_assoc,
      scan_line hp (hk.imp_right fun hk => hk p List.mem_cons_self) (strip_encoded hp).1, hrest]
    cases hkind : hasKind kinds p <;> simp [entries, yielded, Gen.yield, hkind]

/-! ## Offsets -/

theorem entries_append (pos : Nat) (ps qs : List JsonObject) :
    entries json pos (ps ++ qs) =
      entries json pos ps ++ entries json (pos + (written json ps).length) qs := by
  induction ps generalizing pos with
  | nil => simp [entries, written]
  | cons p ps ih =>
    simp only [List.cons_append, entries, ih, written, List.flatMap_cons, List.length_append,
      List.length_singleton]
    congr 3
    omega

theorem map_snd_entries (pos : Nat) (ps : List JsonObject) :
    (entries json pos ps).map Prod.snd = ps := by
  induction ps generalizing pos with
  | nil => rfl
  | cons p ps ih => simp [entries, ih]

/-- A record starts before the end of the file it is in. -/
theorem bounds_of_mem_entries {pos : Nat} {ps : List JsonObject} {e : Nat × JsonObject}
    (h : e ∈ entries json pos ps) :
    pos ≤ e.1 ∧ e.1 + (encoded json e.2).length + 1 ≤ pos + (written json ps).length := by
  induction ps generalizing pos with
  | nil => simp [entries] at h
  | cons p ps ih =>
    simp only [written, List.flatMap_cons, List.length_append, List.length_singleton] at ih ⊢
    rcases List.mem_cons.mp h with rfl | h
    · exact ⟨le_refl _, by simp only; omega⟩
    · obtain ⟨hlow, hhigh⟩ := ih h
      exact ⟨by omega, by omega⟩

theorem pairwise_entries (pos : Nat) (ps : List JsonObject) :
    (entries json pos ps).Pairwise fun e f => e.1 < f.1 := by
  induction ps generalizing pos with
  | nil => exact .nil
  | cons p ps ih =>
    refine List.pairwise_cons.mpr ⟨fun e he => ?_, ih _⟩
    have hlow := (bounds_of_mem_entries he).1
    simp only
    omega

theorem appendAll_eq (file : Bytes) (ps : List JsonObject) :
    appendAll json file ps =
      ((entries json file.length ps).map Prod.fst, file ++ written json ps) := by
  induction ps generalizing file with
  | nil => simp [appendAll, entries, written]
  | cons p ps ih =>
    simp only [appendAll, appendRaw, ih]
    refine Prod.ext ?_ ?_
    · simp [entries, Nat.add_assoc]
    · simp [written]

/-- The records of a file from one of its line boundaries on. -/
theorem iterWithOffsets_boundary {ps qs : List JsonObject} (h : ∀ p ∈ qs, json.RoundTrips p)
    (hk : kinds = none ∨ ∀ p ∈ qs, HashableKind p) :
    iterWithOffsets json (written json (ps ++ qs)) (written json ps).length kinds =
      ⟨yielded kinds (entries json (written json ps).length qs), none⟩ := by
  rw [iterWithOffsets, linesFrom, written_append, List.drop_left, scan_written h hk]

/-- The entries at or after a boundary are those of the payloads behind it. -/
theorem filter_entries_boundary (ps qs : List JsonObject) :
    (entries json 0 (ps ++ qs)).filter (fun e => decide ((written json ps).length ≤ e.1)) =
      entries json (written json ps).length qs := by
  rw [entries_append, Nat.zero_add, List.filter_append]
  have hbefore : (entries json 0 ps).filter
      (fun e => decide ((written json ps).length ≤ e.1)) = [] := by
    refine List.filter_eq_nil_iff.mpr fun e he => ?_
    have := (bounds_of_mem_entries he).2
    simp only [decide_eq_true_eq]
    omega
  have hafter : (entries json (written json ps).length qs).filter
      (fun e => decide ((written json ps).length ≤ e.1)) =
        entries json (written json ps).length qs :=
    List.filter_eq_self.mpr fun e he => by simpa using (bounds_of_mem_entries he).1
  rw [hbefore, hafter, List.nil_append]

/-- A place to resume from: an offset that was returned, or the size between two appends. -/
def ResumePoint (json : Json) (payloads : List JsonObject) (since : Nat) : Prop :=
  since ∈ (appendAll json [] payloads).1 ∨
    ∃ k, since = size (appendAll json [] (payloads.take k)).2

/-- Every returned offset is the size of the file before an append. -/
theorem ResumePoint.boundary {ps : List JsonObject} {since : Nat}
    (h : ResumePoint json ps since) :
    ∃ qs rs, ps = qs ++ rs ∧ since = (written json qs).length := by
  rcases h with h | ⟨k, rfl⟩
  · rw [appendAll_eq] at h
    obtain ⟨e, he, rfl⟩ := List.mem_map.mp h
    obtain ⟨es, fs, hsplit⟩ := List.append_of_mem he
    have hmap := congrArg (List.map Prod.snd) hsplit
    rw [map_snd_entries, List.map_append, List.map_cons] at hmap
    refine ⟨es.map Prod.snd, e.2 :: fs.map Prod.snd, hmap, ?_⟩
    -- the entry in that position of the split log starts where the first part ends
    rw [hmap, entries_append, entries] at hsplit
    have hlen : (entries json ([] : Bytes).length (es.map Prod.snd)).length = es.length := by
      rw [← List.length_map (f := Prod.snd), map_snd_entries, List.length_map]
    have hhead := (List.append_inj hsplit hlen).2
    simpa using (congrArg Prod.fst (List.cons.inj hhead).1).symm
  · refine ⟨ps.take k, ps.drop k, (List.take_append_drop k ps).symm, ?_⟩
    rw [size, appendAll_eq, List.nil_append]

/-- **Round trip.** Appends to an empty log return increasing offsets, and a scan from any
resume point yields the records from there on, each at the offset that its append returned, as
long as no kind that a filter has to look up is a list or an object. -/
theorem appendAll_roundTrip {payloads : List JsonObject} (h : ∀ p ∈ payloads, json.RoundTrips p) :
    (appendAll json [] payloads).1.Pairwise (· < ·) ∧
      ∀ since, ResumePoint json payloads since → ∀ kinds : Option (List String),
        (kinds = none ∨ ∀ e ∈ (appendAll json [] payloads).1.zip payloads, since ≤ e.1 →
          HashableKind e.2) →
        iterWithOffsets json (appendAll json [] payloads).2 since kinds =
          ⟨(((appendAll json [] payloads).1.zip payloads).filter
            (fun e => decide (since ≤ e.1) && hasKind kinds e.2)).map
              (fun e => (e.1, .dict e.2)), none⟩ := by
  have hzip : ((entries json 0 payloads).map Prod.fst).zip payloads = entries json 0 payloads :=
    (List.zip_of_prod rfl (map_snd_entries 0 payloads)).symm
  simp only [appendAll_eq, List.length_nil, List.nil_append, hzip]
  refine ⟨List.pairwise_map.mpr (pairwise_entries 0 payloads), fun since hsince kinds hk => ?_⟩
  obtain ⟨qs, rs, rfl, rfl⟩ := hsince.boundary
  have hfilter := @filter_entries_boundary json qs rs
  have hk' : kinds = none ∨ ∀ p ∈ rs, HashableKind p := by
    refine hk.imp_right fun hk p hp => ?_
    rw [← @map_snd_entries json (written json qs).length rs] at hp
    obtain ⟨e, he, rfl⟩ := List.mem_map.mp hp
    rw [← hfilter, List.mem_filter] at he
    exact hk e he.1 (by simpa using he.2)
  rw [iterWithOffsets_boundary (fun p hp => h p (List.mem_append_right qs hp)) hk', yielded,
    ← hfilter, List.filter_filter]
  simp only [Bool.and_comm]

/-- A record with one text, one with an empty list and one with nothing: their texts, and how
those texts are read. -/
def sampleJson : Json where
  dumps
    | [(key, .str s)] => "\x7b\"" ++ key ++ "\":\"" ++ s ++ "\"\x7d"
    | [(key, .list [])] => "\x7b\"" ++ key ++ "\":[]\x7d"
    | _ => "\x7b\x7d"
  loads bytes :=
    if bytes = Utf8.encode "\x7b\"kind\":\"feedback\"\x7d" then
      .ok (.dict [("kind", .str "feedback")])
    else if bytes = Utf8.encode "\x7b\"kind\":[]\x7d" then .ok (.dict [("kind", .list [])])
    else if bytes = Utf8.encode "\x7b\x7d" then .ok (.dict [])
    else .error ⟨.decodeError, "Expecting value: line 1 column 1 (char 0)"⟩

theorem sampleJson_feedback : sampleJson.RoundTrips [("kind", .str "feedback")] :=
  ⟨by decide, by decide, by rintro _ ⟨⟩; rfl, by rintro _ ⟨⟩; rfl, rfl⟩

theorem sampleJson_listKind : sampleJson.RoundTrips [("kind", .list [])] :=
  ⟨by decide, by decide, by rintro _ ⟨⟩; rfl, by rintro _ ⟨⟩; rfl, rfl⟩

theorem sampleJson_empty : sampleJson.RoundTrips [] :=
  ⟨by decide, by decide, by rintro _ ⟨⟩; rfl, by rintro _ ⟨⟩; rfl, rfl⟩

/-- The second of two records, from its own offset on. -/
theorem secondRecord_scanned :
    iterWithOffsets sampleJson
      (appendAll sampleJson [] [[], [("kind", .str "feedback")]]).2 3 (some ["feedback"]) =
        ⟨[(3, .dict [("kind", .str "feedback")])], none⟩ := by
  have hjson : ∀ p ∈ [[], [("kind", .str "feedback")]], sampleJson.RoundTrips p := by
    simp [sampleJson_empty, sampleJson_feedback]
  refine ((appendAll_roundTrip hjson).2 3 (.inl (by decide)) (some ["feedback"])
    (.inr ?_)).trans rfl
  intro e he _
  fin_cases he <;> rfl

/-- A filtered scan raises at a record whose kind is a list. -/
theorem list_kind_raises :
    ¬ ∀ (json : Json) (payloads : List JsonObject), (∀ p ∈ payloads, json.RoundTrips p) →
      ∀ since, ResumePoint json payloads since → ∀ kinds : Option (List String),
        iterWithOffsets json (appendAll json [] payloads).2 since kinds =
          ⟨(((appendAll json [] payloads).1.zip payloads).filter
            (fun e => decide (since ≤ e.1) && hasKind kinds e.2)).map
              (fun e => (e.1, .dict e.2)), none⟩ := by
  intro h
  have hscan := h sampleJson [[("kind", .list [])]] (by simp [sampleJson_listKind]) 0
    (.inr ⟨0, rfl⟩) (some ["feedback"])
  have herror := congrArg Gen.error hscan
  revert herror
  decide

end TrajectoryLog

end Trainfer
