import Trainfer.Objective
import Trainfer.Lib.Lines
import Trainfer.Lib.Utf8

/-! The trajectory log: one JSON object a line, appended as bytes and read back line by
line with the offset at which each line starts.

The content of the file is a list of bytes. The readers are generators, so what they yield
before they raise has been yielded; a scan therefore has both items and an exception. -/

namespace Trainfer

abbrev Bytes := List UInt8

def newline : UInt8 := 10

/-- The bytes that `bytes.strip()` takes off: tab, newline, vertical tab, form feed, carriage
return and space. -/
def isSpace (b : UInt8) : Bool := decide (9 ≤ b.toNat ∧ b.toNat ≤ 13) || b.toNat == 32

/-- `json`: `dumps` of an object with string keys, without a raw character escaped and without
spaces after separators, and `loads` of bytes. -/
structure Json where
  dumps : JsonObject → String
  loads : Bytes → Except PyError Value

/-- What a generator has yielded, and the exception that ended it. -/
structure Gen (α : Type) where
  items : List α
  error : Option PyError

namespace Gen

variable {α β : Type}

def empty : Gen α := ⟨[], none⟩

def raise (e : PyError) : Gen α := ⟨[], some e⟩

def yield (a : α) (g : Gen α) : Gen α := ⟨a :: g.items, g.error⟩

/-- `list(gen)`. -/
def toList (g : Gen α) : Except PyError (List α) :=
  match g.error with
  | none => .ok g.items
  | some e => .error e

end Gen

namespace JsonObject

/-- `d.get(key)`. -/
def get (d : JsonObject) (key : String) : Value := (d.lookup key).getD .null

def has (d : JsonObject) (key : String) : Bool := (d.lookup key).isSome

/-- `{**d, **e}`: a key keeps its place and takes its last value. -/
def update (d e : JsonObject) : JsonObject :=
  d.map (fun entry => (entry.1, (e.lookup entry.1).getD entry.2)) ++
    e.filter fun entry => !has d entry.1

end JsonObject

/-- `record.get("kind") in kinds`, where `None` stands for every kind. -/
def passes (kinds : Option (List String)) (record : Value) : Except PyError Bool :=
  match kinds with
  | none => .ok true
  | some kinds => do
    let kind := JsonObject.get (← record.asDict) "kind"
    kind.checkHashable
    return kinds.any fun k => kind.isStr k

namespace TrajectoryLog

/-! ## Writers -/

/-- The encoded text of a payload, without its newline. -/
def encoded (json : Json) (payload : JsonObject) : Bytes := Utf8.encode (json.dumps payload)

/-- The offset that is returned, and the file afterwards. -/
def appendRaw (json : Json) (file : Bytes) (payload : JsonObject) : Nat × Bytes :=
  (file.length, file ++ (encoded json payload ++ [newline]))

/-- The payload of `log_event`: `{"kind": kind, "ts": time.time(), **data}`, and the id of the
request, if one is bound and the data has none. -/
def eventPayload (kind : String) (ts : ℚ) (requestId : Option String) (data : JsonObject) :
    JsonObject :=
  let payload := JsonObject.update [("kind", .str kind), ("ts", .num ts)] data
  match requestId with
  | none => payload
  | some rid =>
    if JsonObject.has payload "request_id" then payload
    else payload ++ [("request_id", .str rid)]

def logEvent (json : Json) (file : Bytes) (kind : String) (ts : ℚ) (requestId : Option String)
    (data : JsonObject) : Nat × Bytes :=
  appendRaw json file (eventPayload kind ts requestId data)

def size (file : Bytes) : Nat := file.length

/-! ## Readers -/

/-- The loop of `iter_with_offsets` over the lines and where they start. -/
def scan (json : Json) (kinds : Option (List String)) : List (Nat × Bytes) → Gen (Nat × Value)
  | [] => .empty
  | (pos, line) :: rest =>
    let stripped := Lines.strip isSpace line
    if stripped.isEmpty then scan json kinds rest
    else
      match json.loads stripped with
      | .error e =>
        -- `except json.JSONDecodeError` is the only handler
        if e.cls = .decodeError then scan json kinds rest else .raise e
      | .ok record =>
        match passes kinds record with
        | .error e => .raise e
        | .ok false => scan json kinds rest
        | .ok true => (scan json kinds rest).yield (pos, record)

/-- The lines of the file from `since_offset` on, which may be inside a line. -/
def linesFrom (file : Bytes) (since : Nat) : List (Nat × Bytes) :=
  Lines.starts since (Lines.lines newline (file.drop since))

def iterWithOffsets (json : Json) (file : Bytes) (since : Nat) (kinds : Option (List String)) :
    Gen (Nat × Value) :=
  scan json kinds (linesFrom file since)

/-- The loop of `iter_events`. -/
def events (json : Json) : List Bytes → Gen Value
  | [] => .empty
  | line :: rest =>
    let stripped := Lines.strip isSpace line
    if stripped.isEmpty then events json rest
    else
      match json.loads stripped with
      | .error e => if e.cls = .decodeError then events json rest else .raise e
      | .ok record => (events json rest).yield record

def iterEvents (json : Json) (file : Bytes) (since : Nat) : Gen Value :=
  events json (Lines.lines newline (file.drop since))

/-- `xs[-n:]`. -/
def lastSlice {α : Type} (xs : List α) (n : Int) : List α :=
  if 0 < n then xs.drop (xs.length - n.toNat) else xs.drop (-n).toNat

/-- The events that `tail_structured` reads. -/
def tailItems (json : Json) (file : Bytes) (n : Int) (since : Nat) :
    Except PyError (List (Nat × Value)) := do
  let items ← (iterWithOffsets json file since none).toList
  return if since = 0 then lastSlice items n else items

/-- `{"offset": offset, **record}`. -/
def tailEvent : Nat × Value → Except PyError JsonObject
  | (offset, .dict record) => .ok (JsonObject.update [("offset", .num offset)] record)
  | (_, record) => .error ⟨.typeError, "'" ++ record.typeName ++ "' object is not a mapping"⟩

structure TailResponse where
  events : List JsonObject
  nextOffset : Nat
  totalSize : Nat

/-- `tail_structured`, on a file that does not grow in the meantime. -/
def tailStructured (json : Json) (file : Bytes) (n : Int) (since : Nat) :
    Except PyError TailResponse := do
  let items ← tailItems json file n since
  let events ← items.mapM tailEvent
  return ⟨events, size file, size file⟩

/-! ## What the readers need of a line -/

variable {json : Json} {kinds : Option (List String)}

theorem scan_append (ls ms : List (Nat × Bytes)) (h : (scan json kinds ls).error = none) :
    scan json kinds (ls ++ ms) =
      ⟨(scan json kinds ls).items ++ (scan json kinds ms).items, (scan json kinds ms).error⟩ := by
  induction ls with
  | nil => rfl
  | cons l ls ih =>
    obtain ⟨pos, line⟩ := l
    rw [List.cons_append]
    simp only [scan] at h ⊢
    split
    · rename_i hblank
      exact ih (by simpa [hblank] using h)
    · rename_i hblank
      simp only [hblank, Bool.false_eq_true, if_false] at h
      cases hl : json.loads (Lines.strip isSpace line) with
      | error e =>
        simp only [hl] at h ⊢
        split
        · rename_i hdec
          exact ih (by simpa [hdec] using h)
        · rename_i hdec
          simp [hdec, Gen.raise] at h
      | ok record =>
        simp only [hl] at h ⊢
        cases hp : passes kinds record with
        | error e => simp [hp, Gen.raise] at h
        | ok b =>
          simp only [hp] at h ⊢
          cases b with
          | false => exact ih h
          | true =>
            have hrest := ih (by simpa [Gen.yield] using h)
            simp [hrest, Gen.yield]

/-- `iter_events` is `iter_with_offsets` without a filter and without the offsets. -/
theorem events_eq_scan (pos : Nat) (ls : List Bytes) :
    events json ls =
      ⟨(scan json none (Lines.starts pos ls)).items.map Prod.snd,
        (scan json none (Lines.starts pos ls)).error⟩ := by
  induction ls generalizing pos with
  | nil => rfl
  | cons line ls ih =>
    simp only [events, Lines.starts, scan, passes]
    split
    · exact ih (pos + line.length)
    · cases json.loads (Lines.strip isSpace line) with
      | error e =>
        simp only
        split
        · exact ih (pos + line.length)
        · rfl
      | ok record => simp [ih (pos + line.length), Gen.yield]

theorem iterEvents_eq (file : Bytes) (since : Nat) :
    iterEvents json file since =
      ⟨(iterWithOffsets json file since none).items.map Prod.snd,
        (iterWithOffsets json file since none).error⟩ :=
  events_eq_scan since _

end TrajectoryLog

end Trainfer
