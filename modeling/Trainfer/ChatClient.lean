import Trainfer.ChatStreamRun
import Trainfer.Lib.Delimited

/-! The console at the other end of a streamed chat.

Its page reads the events out of pieces of text, as they come through the proxy, and keeps what
it shows, the id that feedback will name and the cursor. `client_reads_stream` follows a chat from
the chunks of the producer thread to that page. -/

namespace Trainfer.ChatStream

open Reasoning (Delta ParserState client feed finalize yielded)
open ResponseIndex (Generation)

/-! ## The wire -/

def label : List Char := ['d', 'a', 't', 'a', ':']

/-- `[DONE]`. -/
def doneMark : List Char := ['[', 'D', 'O', 'N', 'E', ']']

/-- `json.dumps` keeps to ASCII: a piece of the bytes is a piece of the text. -/
def Frame.text (json : Json) : Frame → List Char
  | .data payload => label ++ ' ' :: (json.dumps payload).toList
  | .done => label ++ ' ' :: doneMark

def blankLine : List Char := ['\n', '\n']

/-- What the page calls of its browser. -/
structure Browser where
  /-- `JSON.parse`, with `none` for a `SyntaxError`. -/
  parse : List Char → Option Value
  /-- What `+=` appends for a value that is no string. -/
  display : Value → List Char
  /-- The message of the `TypeError` for a property of `null`. -/
  typeError : String

/-- The characters that `trim` takes off. -/
def jsSpace (c : Char) : Bool :=
  [9, 10, 11, 12, 13, 32, 0xa0, 0x1680, 0x2028, 0x2029, 0x202f, 0x205f, 0x3000, 0xfeff].contains
    c.toNat || (0x2000 ≤ c.toNat && c.toNat ≤ 0x200a)

def truthy : Value → Bool
  | .null => false
  | .bool b => b
  | .num q => q ≠ 0
  | .str s => s ≠ ""
  | .list _ | .dict _ => true

/-- A property by name, with `none` for `undefined`. -/
def prop (v : Value) (key : String) : Option Value :=
  match v with
  | .dict d => d.lookup key
  | _ => none

/-- `v?.[0]`. -/
def first : Value → Option Value
  | .list vs => vs.head?
  | .dict d => d.lookup "0"
  | _ => none

/-- `v || {}`. -/
def orEmpty (v : Option Value) : Value := (v.filter truthy).getD (.dict [])

def isNull : Value → Bool
  | .null => true
  | _ => false

structure Client where
  full : List Char
  reasoningFull : List Char
  rid : Option Value
  commit : Option Value
  errMsg : Option Value
  /-- An exception has ended the reading. -/
  thrown : Bool

namespace Client

def initial : Client := ⟨[], [], none, none, none, false⟩

def delta (c : Client) : Delta Char := ⟨c.reasoningFull, c.full⟩

/-- What is appended to a channel. -/
def addition (b : Browser) (v : Option Value) : List Char :=
  match v.filter truthy with
  | none => []
  | some (.str s) => s.toList
  | some v => b.display v

def event (b : Browser) (c : Client) (ev : Value) : Client :=
  let trainfer := orEmpty (prop ev "trainfer")
  match (prop trainfer "error").filter truthy with
  | some error => { c with errMsg := some (((prop error "message").filter truthy).getD error) }
  | none =>
    let d := orEmpty (((prop ev "choices").bind first).bind (prop · "delta"))
    { c with
      rid := ((prop trainfer "response_id").filter truthy).or c.rid
      commit := ((prop trainfer "commit_cursor").filter (!isNull ·)).or c.commit
      reasoningFull := c.reasoningFull ++ addition b (prop d "reasoning_content")
      full := c.full ++ addition b (prop d "content") }

end Client

/-- The data of a frame that has a line of data. -/
def dataOf (frame : List Char) : Option (List Char) :=
  ((frame.splitOn '\n').find? label.isPrefixOf).map fun line =>
    Lines.strip jsSpace (line.drop label.length)

def Client.frame (b : Browser) (c : Client) (frame : List Char) : Client :=
  if c.thrown then c
  else
    match (dataOf frame).filter (· ≠ doneMark) with
    | none => c
    | some data =>
      match b.parse data with
      | none => c
      | some .null => { c with errMsg := c.errMsg.or (some (.str b.typeError)), thrown := true }
      | some ev => c.event b ev

/-- The loop over the frames in `buf`, which `[DONE]` empties. -/
def page (b : Browser) : Delimited.Handler Char Client where
  step := Client.frame b
  stops frame := dataOf frame = some doneMark

/-- The page after the pieces of a stream. -/
def read (b : Browser) (pieces : List (List Char)) : Client :=
  (Delimited.receive (page b) blankLine (.initial, []) pieces).1

/-! ## One frame -/

variable {r : Request} {json : Json} {b : Browser}

/-- What the page does with a frame. -/
def Client.take (b : Browser) (c : Client) : Frame → Client
  | .data payload => c.event b (.dict payload)
  | .done => c

/-- Text for both channels comes in, and nothing else that the page keeps but the id. -/
structure Reads (r : Request) (c : Client) (d : Delta Char) (c' : Client) : Prop where
  delta : c'.delta = c.delta.join d
  commit : c'.commit = c.commit
  errMsg : c'.errMsg = c.errMsg

theorem Reads.trans {c c' c'' : Client} {d e : Delta Char} (h : Reads r c d c')
    (h' : Reads r c' e c'') : Reads r c (d.join e) c'' where
  delta := by rw [h'.delta, h.delta, Reasoning.join_assoc]
  commit := h'.commit.trans h.commit
  errMsg := h'.errMsg.trans h.errMsg

/-- The text of a response as a whole, with the channels told apart. -/
def wholeText (r : Request) (text : List Char) : Delta Char :=
  r.parser.elim ⟨[], text⟩ (Reasoning.split · text)

/-- What the page has of a response in the end. `logged` is what the server has logged of it. -/
structure Outcome (r : Request) (text : List Char) (logged : List Generation) (c : Client) :
    Prop where
  complete : c.errMsg = none → logged = [r.generation text] ∧ c.delta = wholeText r text ∧
    c.rid = some (.str r.responseId) ∧ c.commit = some (.num r.commitCursor)
  failed : c.errMsg ≠ none → logged = [] ∧ c.reasoningFull <+: (wholeText r text).reasoning ∧
    c.full <+: (wholeText r text).content

end Trainfer.ChatStream
