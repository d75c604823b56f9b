import Trainfer.Lib.Find
import Trainfer.Lib.Slices

/-! The reasoning parser, which splits the text of a reply that arrives in deltas into a
reasoning channel and a content channel.

`stream_eq_split` says that the cut points between the deltas do not matter: what `feed` and
`finalize` return, put together, is the split of the whole text at the first end tag, after
the first start tag if the model writes it itself. Characters are those of any alphabet. -/

namespace Trainfer.Reasoning

open Find (cut find)

universe u
variable {α : Type u}

structure ReasoningParser (α : Type u) where
  startToken : List α
  endToken : List α
  startInPrompt : Bool

inductive Mode where
  | pendingStart
  | reasoning
  | content
  deriving DecidableEq, Repr

structure ParserState (α : Type u) where
  mode : Mode
  buf : List α

/-- What a call returns: a piece of reasoning and a piece of content. -/
@[ext]
structure Delta (α : Type u) where
  reasoning : List α
  content : List α
  deriving DecidableEq

/-- The deltas of two calls, joined on each channel. -/
def Delta.join (d e : Delta α) : Delta α := ⟨d.reasoning ++ e.reasoning, d.content ++ e.content⟩

def makeState (p : ReasoningParser α) : ParserState α :=
  ⟨if p.startInPrompt then .reasoning else .pendingStart, []⟩

/-! ## `feed` -/

/-- What is released of a buffer without the tag, and what is kept. With a tag of one character
`buf[:-0]` is empty and `buf[-0:]` is the whole buffer. -/
def holdBack (tag buf : List α) : List α × List α :=
  let hold : Int := tag.length - 1
  if hold < buf.length then (Slices.sliceTo buf (-hold), Slices.sliceFrom buf (-hold))
  else ([], buf)

theorem holdBack_append (tag buf : List α) :
    (holdBack tag buf).1 ++ (holdBack tag buf).2 = buf := by
  unfold holdBack
  simp only
  split
  · exact Slices.sliceTo_append_sliceFrom buf _
  · rfl

/-- Enough is kept to recognize a tag that has begun. -/
theorem holdBack_kept {tag : List α} (hne : tag ≠ []) (buf : List α) :
    (holdBack tag buf).1 = [] ∨ tag.length ≤ (holdBack tag buf).2.length + 1 := by
  have hpos : 0 < tag.length := List.length_pos_iff.mpr hne
  unfold holdBack
  simp only
  split
  · rename_i hlt
    obtain ⟨n, hn⟩ : ∃ n, tag.length = n + 1 := ⟨tag.length - 1, by omega⟩
    have hhold : (tag.length : Int) - 1 = n := by omega
    rw [hhold] at hlt ⊢
    cases n with
    | zero => exact .inl (by simp [Slices.sliceTo])
    | succ n =>
      right
      have hlen : (Slices.sliceFrom buf (-((n + 1 : Nat) : Int))).length = n + 1 :=
        Slices.length_sliceFrom_neg (by omega) (by omega)
      simp only [hlen]
      omega
  · exact .inl rfl

theorem holdBack_append_rest (tag buf rest : List α) :
    (holdBack tag buf).1 ++ ((holdBack tag buf).2 ++ rest) = buf ++ rest := by
  rw [← List.append_assoc, holdBack_append]

variable [DecidableEq α]

/-- The body of the loop in the mode `content`. The modes only go forward, so the loop is one
definition a mode, and its `continue` is a call of the next one. -/
def feedContent (rOut cOut buf : List α) : Delta α × ParserState α :=
  (⟨rOut, cOut ++ buf⟩, ⟨.content, []⟩)

def feedReasoning (p : ReasoningParser α) (rOut cOut buf : List α) : Delta α × ParserState α :=
  let tag := p.endToken
  match find tag buf with
  | some idx => feedContent (rOut ++ buf.take idx) cOut (buf.drop (idx + tag.length))
  | none =>
    let (out, kept) := holdBack tag buf
    (⟨rOut ++ out, cOut⟩, ⟨.reasoning, kept⟩)

def feedPendingStart (p : ReasoningParser α) (rOut cOut buf : List α) :
    Delta α × ParserState α :=
  let tag := p.startToken
  match find tag buf with
  | some idx => feedReasoning p rOut (cOut ++ buf.take idx) (buf.drop (idx + tag.length))
  | none =>
    let (out, kept) := holdBack tag buf
    (⟨rOut, cOut ++ out⟩, ⟨.pendingStart, kept⟩)

def feed (p : ReasoningParser α) (s : ParserState α) (delta : List α) :
    Delta α × ParserState α :=
  let buf := s.buf ++ delta
  match s.mode with
  | .pendingStart => feedPendingStart p [] [] buf
  | .reasoning => feedReasoning p [] [] buf
  | .content => feedContent [] [] buf

def finalize (s : ParserState α) : Delta α :=
  match s.mode with
  | .reasoning => ⟨s.buf, []⟩
  | _ => ⟨[], s.buf⟩

/-- The deltas in turn, and `finalize` at the end. -/
def streamFrom (p : ReasoningParser α) (s : ParserState α) : List (List α) → Delta α
  | [] => finalize s
  | delta :: deltas =>
    let (out, s) := feed p s delta
    out.join (streamFrom p s deltas)

def stream (p : ReasoningParser α) (deltas : List (List α)) : Delta α :=
  streamFrom p (makeState p) deltas

/-! ## The specification -/

/-- Reasoning up to the first end tag, content after it. -/
def splitReasoning (p : ReasoningParser α) (text : List α) : Delta α :=
  match cut p.endToken text with
  | none => ⟨text, []⟩
  | some (before, after) => ⟨before, after⟩

/-- Content up to the first start tag, and then the rule for reasoning. -/
def splitPending (p : ReasoningParser α) (text : List α) : Delta α :=
  match cut p.startToken text with
  | none => ⟨[], text⟩
  | some (before, after) => Delta.join ⟨[], before⟩ (splitReasoning p after)

def split (p : ReasoningParser α) (text : List α) : Delta α :=
  if p.startInPrompt then splitReasoning p text else splitPending p text

/-- The channels make up the text, except for at most one occurrence of each tag. -/
def Rejoins (p : ReasoningParser α) (text : List α) (d : Delta α) : Prop :=
  ∃ before start stop after, text = before ++ start ++ d.reasoning ++ stop ++ after ∧
    d.content = before ++ after ∧ (start = [] ∨ start = p.startToken) ∧
      (stop = [] ∨ stop = p.endToken)

theorem rejoins_reasoning (p : ReasoningParser α) (text : List α) :
    ∃ stop, text = (splitReasoning p text).reasoning ++ stop ++ (splitReasoning p text).content ∧
      (stop = [] ∨ stop = p.endToken) := by
  unfold splitReasoning
  split
  · exact ⟨[], by simp, .inl rfl⟩
  · rename_i before after h
    exact ⟨p.endToken, Find.cut_eq_some h, .inr rfl⟩

theorem rejoins_split (p : ReasoningParser α) (text : List α) :
    Rejoins p text (split p text) := by
  unfold split
  split
  · obtain ⟨stop, htext, hstop⟩ := rejoins_reasoning p text
    exact ⟨[], [], stop, _, by simpa using htext, rfl, .inl rfl, hstop⟩
  · unfold splitPending
    split
    · exact ⟨text, [], [], [], by simp, by simp, .inl rfl, .inl rfl⟩
    · rename_i before after h
      obtain ⟨stop, hafter, hstop⟩ := rejoins_reasoning p after
      refine ⟨before, p.startToken, stop, _, ?_, rfl, .inr rfl, hstop⟩
      calc text = before ++ p.startToken ++ after := Find.cut_eq_some h
        _ = _ := by
          conv_lhs => rw [hafter]
          simp [Delta.join]

/-! ## Every way of cutting -/

/-- The split of what is still to come, from a mode on. -/
def splitFrom (p : ReasoningParser α) : Mode → List α → Delta α
  | .pendingStart, text => splitPending p text
  | .reasoning, text => splitReasoning p text
  | .content, text => ⟨[], text⟩

/-- No tag that the parser waits for is in its buffer. -/
def Settled (p : ReasoningParser α) (s : ParserState α) : Prop :=
  splitFrom p s.mode s.buf = finalize s

/-- What a call has returned goes before the split of its buffer and the rest of the text. -/
structure Fed (p : ReasoningParser α) (mode : Mode) (buf rOut cOut : List α)
    (r : Delta α × ParserState α) : Prop where
  settled : Settled p r.2
  split : ∀ rest, Delta.join ⟨rOut, cOut⟩ (splitFrom p mode (buf ++ rest)) =
    r.1.join (splitFrom p r.2.mode (r.2.buf ++ rest))

variable {p : ReasoningParser α}

theorem ne_nil_of_find {tag buf : List α} (h : find tag buf = none) : tag ≠ [] := by
  rintro rfl
  exact Find.find_eq_none_iff.mp h (List.nil_infix)

/-- A buffer without the tag, cut by `holdBack`. -/
theorem cut_holdBack {tag buf : List α} (h : find tag buf = none) (rest : List α) :
    cut tag (buf ++ rest) =
      (cut tag ((holdBack tag buf).2 ++ rest)).map fun c => ((holdBack tag buf).1 ++ c.1, c.2) := by
  have hbuf := holdBack_append tag buf
  have hkept := holdBack_kept (ne_nil_of_find h) buf
  conv_lhs => rw [← hbuf]
  exact Find.cut_append_held (by rw [hbuf]; exact h) hkept rest

theorem find_holdBack {tag buf : List α} (h : find tag buf = none) :
    find tag (holdBack tag buf).2 = none := by
  refine Find.find_kept (holdBack tag buf).1 ?_
  rw [holdBack_append]
  exact h

theorem fed_content (rOut cOut buf : List α) :
    Fed p .content buf rOut cOut (feedContent rOut cOut buf) where
  settled := rfl
  split := fun rest => by simp [feedContent, splitFrom, Delta.join]

theorem fed_reasoning (rOut cOut buf : List α) :
    Fed p .reasoning buf rOut cOut (feedReasoning p rOut cOut buf) := by
  unfold feedReasoning
  simp only
  split
  · rename_i idx hfind
    have h := fed_content (p := p) (rOut ++ buf.take idx) cOut (buf.drop (idx + p.endToken.length))
    refine ⟨h.settled, fun rest => ?_⟩
    have hcut : cut p.endToken (buf ++ rest) =
        some (buf.take idx, buf.drop (idx + p.endToken.length) ++ rest) :=
      Find.cut_append (by rw [cut, hfind]; rfl) rest
    rw [← h.split rest]
    simp [splitFrom, splitReasoning, hcut, Delta.join]
  · rename_i hfind
    have hnone : cut p.endToken (holdBack p.endToken buf).2 = none :=
      Find.cut_eq_none.mpr (find_holdBack hfind)
    refine ⟨?_, fun rest => ?_⟩
    · simp [Settled, splitFrom, splitReasoning, finalize, hnone]
    · simp only [splitFrom, splitReasoning, cut_holdBack hfind rest]
      cases cut p.endToken ((holdBack p.endToken buf).2 ++ rest) with
      | none => simp [Delta.join, holdBack_append_rest]
      | some c => simp [Delta.join]

theorem fed_pendingStart (rOut cOut buf : List α) :
    Fed p .pendingStart buf rOut cOut (feedPendingStart p rOut cOut buf) := by
  unfold feedPendingStart
  simp only
  split
  · rename_i idx hfind
    have h := fed_reasoning (p := p) rOut (cOut ++ buf.take idx)
      (buf.drop (idx + p.startToken.length))
    refine ⟨h.settled, fun rest => ?_⟩
    have hcut : cut p.startToken (buf ++ rest) =
        some (buf.take idx, buf.drop (idx + p.startToken.length) ++ rest) :=
      Find.cut_append (by rw [cut, hfind]; rfl) rest
    rw [← h.split rest]
    simp [splitFrom, splitPending, hcut, Delta.join]
  · rename_i hfind
    have hnone : cut p.startToken (holdBack p.startToken buf).2 = none :=
      Find.cut_eq_none.mpr (find_holdBack hfind)
    refine ⟨?_, fun rest => ?_⟩
    · simp [Settled, splitFrom, splitPending, finalize, hnone]
    · simp only [splitFrom, splitPending, cut_holdBack hfind rest]
      cases cut p.startToken ((holdBack p.startToken buf).2 ++ rest) with
      | none => simp [Delta.join, holdBack_append_rest]
      | some c => simp [Delta.join]

theorem fed_feed (s : ParserState α) (delta : List α) :
    Fed p s.mode (s.buf ++ delta) [] [] (feed p s delta) := by
  unfold feed
  simp only
  split
  · rename_i hmode
    exact hmode ▸ fed_pendingStart [] [] _
  · rename_i hmode
    exact hmode ▸ fed_reasoning [] [] _
  · rename_i hmode
    exact hmode ▸ fed_content [] [] _

theorem settled_makeState (p : ReasoningParser α) : Settled p (makeState p) := by
  have hcut : ∀ tag : List α, cut tag [] = none ∨ cut tag [] = some ([], []) := fun tag => by
    by_cases htag : tag = []
    · exact .inr (by simp [cut, find, htag])
    · exact .inl (by simp [cut, find, htag])
  unfold Settled makeState
  cases p.startInPrompt with
  | true => rcases hcut p.endToken with h | h <;> simp [splitFrom, splitReasoning, finalize, h]
  | false =>
    rcases hcut p.startToken with h | h
    · simp [splitFrom, splitPending, finalize, h]
    · rcases hcut p.endToken with h' | h' <;>
        simp [splitFrom, splitPending, splitReasoning, finalize, Delta.join, h, h']

theorem streamFrom_eq_splitFrom {s : ParserState α} (hs : Settled p s) (deltas : List (List α)) :
    streamFrom p s deltas = splitFrom p s.mode (s.buf ++ deltas.flatten) := by
  induction deltas generalizing s with
  | nil =>
    rw [List.flatten_nil, List.append_nil]
    exact hs.symm
  | cons delta deltas ih =>
    have h := fed_feed (p := p) s delta
    have hsplit := h.split deltas.flatten
    rw [List.flatten_cons, ← List.append_assoc]
    refine Eq.trans ?_ hsplit.symm
    rw [← ih h.settled]
    rfl

/-- **Streaming.** However a text is cut into deltas, the parser returns its split, and nothing
but the matched tags is missing from the channels. -/
theorem stream_eq_split (p : ReasoningParser α) (deltas : List (List α)) :
    stream p deltas = split p deltas.flatten ∧
      Rejoins p deltas.flatten (stream p deltas) := by
  have heq : stream p deltas = split p deltas.flatten := by
    rw [stream, streamFrom_eq_splitFrom (settled_makeState p)]
    unfold split makeState
    cases p.startInPrompt <;> rfl
  exact ⟨heq, heq ▸ rejoins_split p deltas.flatten⟩

end Trainfer.Reasoning
