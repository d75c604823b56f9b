import Trainfer.SupervisionGeometry

/-! Which tokens a `span_prefix` masks.

The search of `build_chat_inputs` stops at the first token boundary behind the prompt at which the
decoded text ends with the prefix. `masksSpan_iff` says when that is the right place: text that
the chat template has put in front of the response can end in the same way. -/

namespace Trainfer

variable {tok : ChatTokenizer} {str : ℤ → List Char} {ids : List ℤ} {sp : List Char} {E i j k : ℕ}

/-- Decoding puts the texts of the tokens one after the other, and none is empty. -/
structure Decodes (tok : ChatTokenizer) (str : ℤ → List Char) : Prop where
  decode : ∀ ids, (tok.decode ids).toList = ids.flatMap str
  nonempty : ∀ id, str id ≠ []

/-! ## Token boundaries -/

/-- The length of the text of the first `j` tokens. -/
def place (str : ℤ → List Char) (ids : List ℤ) (j : ℕ) : ℕ := ((ids.take j).flatMap str).length

theorem place_succ (h : j < ids.length) :
    place str ids (j + 1) = place str ids j + (str ids[j]).length := by
  rw [place, place, List.take_succ_eq_append_getElem h, List.flatMap_append, List.length_append]
  simp

theorem place_mono (h : i ≤ j) : place str ids i ≤ place str ids j := by
  have hprefix : ids.take i <+: ids.take j := List.take_prefix_take_left h
  obtain ⟨rest, hrest⟩ := hprefix
  rw [place, place, ← hrest, List.flatMap_append, List.length_append]
  exact Nat.le_add_right _ _

theorem place_lt (hstr : ∀ id, str id ≠ []) (h : i < j) (hj : j ≤ ids.length) :
    place str ids i < place str ids j := by
  have hi : i < ids.length := by omega
  have hpos := List.length_pos_iff.mpr (hstr ids[i])
  have hsucc : place str ids (i + 1) = place str ids i + (str ids[i]).length := place_succ hi
  have hle : place str ids (i + 1) ≤ place str ids j := place_mono h
  omega

/-- The text up to a boundary ends with `sp`. -/
def EndsAt (str : ℤ → List Char) (ids : List ℤ) (sp : List Char) (j : ℕ) : Prop :=
  sp <:+ (ids.take j).flatMap str

/-- Where the search stops: at the first boundary that ends with `sp`, and otherwise where it has
started. -/
def StopsAt (str : ℤ → List Char) (ids : List ℤ) (sp : List Char) (k : ℕ) : Prop :=
  (k ≤ ids.length ∧ EndsAt str ids sp k ∧ ∀ j < k, ¬ EndsAt str ids sp j) ∨
    k = 0 ∧ ∀ j ≤ ids.length, ¬ EndsAt str ids sp j

theorem StopsAt.le (h : StopsAt str ids sp k) : k ≤ ids.length := by
  rcases h with ⟨hle, -, -⟩ | ⟨rfl, -⟩
  · exact hle
  · exact Nat.zero_le _

theorem StopsAt.unique (h : StopsAt str ids sp k) (h' : StopsAt str ids sp j) : k = j := by
  rcases h with ⟨hle, hends, hfirst⟩ | ⟨rfl, hnone⟩
  · rcases h' with ⟨-, hends', hfirst'⟩ | ⟨-, hnone'⟩
    · rcases lt_trichotomy k j with hlt | heq | hgt
      · exact absurd hends (hfirst' k hlt)
      · exact heq
      · exact absurd hends' (hfirst j hgt)
    · exact absurd hends (hnone' k hle)
  · rcases h' with ⟨hle', hends', -⟩ | ⟨rfl, -⟩
    · exact absurd hends' (hnone j hle')
    · rfl

/-- The first boundary that ends with `sp` is one of these; if there is none, where the prompt ends
is one. -/
def EndsFirst (str : ℤ → List Char) (ids : List ℤ) (sp : List Char) (here : ℕ → Prop) : Prop :=
  (∃ k ≤ ids.length, here k ∧ EndsAt str ids sp k ∧ ∀ j < k, ¬ EndsAt str ids sp j) ∨
    here 0 ∧ ∀ j ≤ ids.length, ¬ EndsAt str ids sp j

theorem StopsAt.endsFirst_iff (hk : StopsAt str ids sp k) (here : ℕ → Prop) :
    EndsFirst str ids sp here ↔ here k := by
  constructor
  · rintro (⟨j, hle, hj, hends, hfirst⟩ | ⟨hzero, hnone⟩)
    · rw [hk.unique (.inl ⟨hle, hends, hfirst⟩)]
      exact hj
    · rw [hk.unique (.inr ⟨rfl, hnone⟩)]
      exact hzero
  · intro hhere
    rcases hk with ⟨hle, hends, hfirst⟩ | ⟨rfl, hnone⟩
    · exact .inl ⟨k, hle, hhere, hends, hfirst⟩
    · exact .inr ⟨hhere, hnone⟩

/-- The search of `build_chat_inputs` behind the prompt. -/
theorem prefixLen_stopsAt (hdec : Decodes tok str) (promptIds : List ℤ) (spanPrefix : String) :
    ∃ k, StopsAt str ids spanPrefix.toList k ∧
      tok.prefixLen (promptIds ++ ids) promptIds.length (some spanPrefix) =
        promptIds.length + k := by
  have hslice : ∀ j, (((promptIds ++ ids).take (promptIds.length + j)).drop promptIds.length) =
      ids.take j := by
    intro j
    rw [List.take_append, List.take_of_length_le (by omega), Nat.add_sub_cancel_left,
      List.drop_left]
  have hends : ∀ j, spanPrefix.toList.isSuffixOf (tok.decode
      (((promptIds ++ ids).take (promptIds.length + j)).drop promptIds.length)).toList = true ↔
        EndsAt str ids spanPrefix.toList j := by
    intro j
    rw [hslice, hdec.decode, List.isSuffixOf_iff_suffix, EndsAt]
  have hcount : (promptIds ++ ids).length + 1 - promptIds.length = ids.length + 1 := by
    rw [List.length_append]
    omega
  simp only [ChatTokenizer.prefixLen]
  split
  · rename_i hempty
    refine ⟨0, .inl ⟨Nat.zero_le _, ?_, by simp⟩, rfl⟩
    have hnil : spanPrefix.toList = [] := by simpa using hempty
    rw [EndsAt, hnil]
    exact List.nil_suffix
  · cases hfound : tok.resolveSpan (promptIds ++ ids) promptIds.length spanPrefix with
    | none =>
      refine ⟨0, .inr ⟨rfl, fun j hj hend => ?_⟩, rfl⟩
      rw [ChatTokenizer.resolveSpan, hcount, List.find?_eq_none] at hfound
      exact hfound (promptIds.length + j) (List.mem_range'_1.mpr (by omega)) ((hends j).mpr hend)
    | some pl =>
      rw [ChatTokenizer.resolveSpan, hcount, List.find?_range'_eq_some] at hfound
      obtain ⟨hend, hmem, hfirst⟩ := hfound
      obtain ⟨k, rfl⟩ : ∃ k, pl = promptIds.length + k :=
        ⟨pl - promptIds.length, by have := (List.mem_range'_1.mp hmem).1; omega⟩
      have hlt := (List.mem_range'_1.mp hmem).2
      refine ⟨k, .inl ⟨by omega, (hends k).mp hend, fun j hj hendj => ?_⟩, rfl⟩
      have hnot := hfirst (promptIds.length + j) (by omega) (by omega)
      rw [(hends j).mpr hendj] at hnot
      cases hnot

/-! ## Masks -/

/-- The labels of a sample whose prompt has `n` tokens: the prompt and the tokens `inside` are
masked, and those that start at `E` or after it have their own id. -/
structure MasksSpan (str : ℤ → List Char) (ids labels : List ℤ) (n E : ℕ)
    (inside : ℕ → Prop) : Prop where
  prompt : ∀ i < n, labels[i]? = some (-100)
  masked : ∀ j < ids.length, inside j → labels[n + j]? = some (-100)
  supervised : ∀ j < ids.length, E ≤ place str ids j → labels[n + j]? = ids[j]?

/-- Token `j` ends at `E` or before it. -/
def EndsBy (str : ℤ → List Char) (ids : List ℤ) (E j : ℕ) : Prop := place str ids (j + 1) ≤ E

/-- Token `j` lies within the first `I` characters, or between there and `E`. -/
def WithinPart (str : ℤ → List Char) (ids : List ℤ) (I E j : ℕ) : Prop :=
  place str ids (j + 1) ≤ I ∨ (I ≤ place str ids j ∧ place str ids (j + 1) ≤ E)

theorem masksSpan_cut {promptIds : List ℤ} (hids : ∀ id ∈ ids, 0 ≤ id) (hk : k ≤ ids.length)
    (inside : ℕ → Prop) :
    MasksSpan str ids (labelsFrom (promptIds ++ ids) (promptIds.length + k)) promptIds.length E
        inside ↔
      (∀ j < ids.length, inside j → j < k) ∧
        ∀ j < ids.length, E ≤ place str ids j → k ≤ j := by
  have hlabel : ∀ j < ids.length, (labelsFrom (promptIds ++ ids)
      (promptIds.length + k))[promptIds.length + j]? = if j < k then some (-100) else ids[j]? := by
    intro j hj
    rw [getElem?_labelsFrom, List.length_append, List.getElem?_append_right (by omega),
      Nat.add_sub_cancel_left]
    by_cases hjk : j < k
    · rw [if_pos (by omega), if_pos (by omega), if_pos hjk]
    · rw [if_neg (by omega), if_neg hjk]
  have hown : ∀ j < ids.length, ids[j]? ≠ some (-100) := by
    intro j hj hget
    have hnonneg := hids _ (List.mem_of_getElem? hget)
    omega
  constructor
  · intro h
    refine ⟨fun j hj hinside => ?_, fun j hj hE => ?_⟩
    · by_contra hge
      have hmasked := h.masked j hj hinside
      rw [hlabel j hj, if_neg hge] at hmasked
      exact hown j hj hmasked
    · by_contra hlt
      have hsupervised := h.supervised j hj hE
      rw [hlabel j hj, if_pos (not_le.mp hlt)] at hsupervised
      exact hown j hj hsupervised.symm
  · rintro ⟨hinside, hafter⟩
    refine ⟨fun i hi => ?_, fun j hj hin => ?_, fun j hj hE => ?_⟩
    · rw [getElem?_labelsFrom, List.length_append, if_pos (by omega), if_pos (by omega)]
    · rw [hlabel j hj, if_pos (hinside j hj hin)]
    · rw [hlabel j hj, if_neg (not_lt.mpr (hafter j hj hE))]

/-- The boundary `k` is the last one up to `E`, or the first one from `E` on. -/
def NextTo (str : ℤ → List Char) (ids : List ℤ) (E k : ℕ) : Prop :=
  (place str ids k ≤ E ∧ ∀ j ≤ ids.length, place str ids j ≤ E → j ≤ k) ∨
    (E ≤ place str ids k ∧ ∀ j ≤ ids.length, E ≤ place str ids j → k ≤ j)

/-- Nothing that starts at `E` or after it stands before `k`. -/
theorem after_iff (hk : k ≤ ids.length) :
    (∀ j < ids.length, E ≤ place str ids j → k ≤ j) ↔ k = 0 ∨ place str ids (k - 1) < E := by
  constructor
  · intro h
    by_contra hnot
    rw [not_or, not_lt] at hnot
    have hle := h (k - 1) (by omega) hnot.2
    omega
  · rintro (rfl | hlt) j hj hE
    · exact Nat.zero_le j
    · by_contra hjk
      have hle : place str ids j ≤ place str ids (k - 1) := place_mono (by omega)
      omega

theorem endsBy_iff (hk : k ≤ ids.length) :
    (∀ j < ids.length, EndsBy str ids E j → j < k) ↔
      k = ids.length ∨ E < place str ids (k + 1) := by
  constructor
  · intro h
    by_contra hnot
    rw [not_or, not_lt] at hnot
    have hlt := h k (by omega) hnot.2
    omega
  · rintro (rfl | hlt) j hj hends
    · exact hj
    · by_contra hjk
      have hle : place str ids (k + 1) ≤ place str ids (j + 1) := place_mono (by omega)
      rw [EndsBy] at hends
      omega

theorem nextTo_iff (hstr : ∀ id, str id ≠ []) (hk : k ≤ ids.length) :
    ((∀ j < ids.length, EndsBy str ids E j → j < k) ∧
      ∀ j < ids.length, E ≤ place str ids j → k ≤ j) ↔ NextTo str ids E k := by
  rw [endsBy_iff hk, after_iff hk]
  constructor
  · rintro ⟨hnext, hprev⟩
    by_cases hE : place str ids k ≤ E
    · refine .inl ⟨hE, fun j hj hle => ?_⟩
      by_contra hjk
      have hmono : place str ids (k + 1) ≤ place str ids j := place_mono (by omega)
      omega
    · refine .inr ⟨by omega, fun j hj hle => ?_⟩
      by_contra hjk
      have hmono : place str ids j ≤ place str ids (k - 1) := place_mono (by omega)
      omega
  · rintro (⟨hE, hlast⟩ | ⟨hE, hfirst⟩)
    · constructor
      · by_contra hnot
        rw [not_or, not_lt] at hnot
        have hle := hlast (k + 1) (by omega) hnot.2
        omega
      · by_cases hzero : k = 0
        · exact .inl hzero
        · have hlt : place str ids (k - 1) < place str ids k :=
            place_lt hstr (by omega) hk
          exact .inr (by omega)
    · constructor
      · by_cases hend : k = ids.length
        · exact .inl hend
        · have hlt : place str ids k < place str ids (k + 1) :=
            place_lt hstr (by omega) (by omega)
          exact .inr (by omega)
      · by_contra hnot
        rw [not_or, not_lt] at hnot
        have hle := hfirst (k - 1) (by omega) hnot.2
        omega

/-- Token `k` covers the border at `I`, and is the last one that ends by `E`. -/
def Covers (str : ℤ → List Char) (ids : List ℤ) (I E k : ℕ) : Prop :=
  place str ids k < I ∧ I < place str ids (k + 1) ∧ place str ids (k + 1) ≤ E ∧
    k < ids.length ∧ ∀ j ≤ ids.length, place str ids j ≤ E → j ≤ k + 1

theorem withinPart_iff (hstr : ∀ id, str id ≠ []) (hk : k ≤ ids.length) {I : ℕ} (hI : I ≤ E) :
    ((∀ j < ids.length, WithinPart str ids I E j → j < k) ∧
      ∀ j < ids.length, E ≤ place str ids j → k ≤ j) ↔
    NextTo str ids E k ∨ Covers str ids I E k := by
  rw [← nextTo_iff hstr hk]
  constructor
  · rintro ⟨hinside, hafter⟩
    by_cases hends : ∀ j < ids.length, EndsBy str ids E j → j < k
    · exact .inl ⟨hends, hafter⟩
    · rw [endsBy_iff hk, not_or, not_lt] at hends
      obtain ⟨hne, hE⟩ := hends
      have hklt : k < ids.length := by omega
      have hnot : ¬ WithinPart str ids I E k := fun h => absurd (hinside k hklt h) (lt_irrefl k)
      rw [WithinPart, not_or, not_and_or, not_le, not_le, not_le] at hnot
      refine .inr ⟨hnot.2.resolve_right (by omega), hnot.1, hE, hklt, fun j hj hle => ?_⟩
      by_contra hjk
      have hmono : place str ids (k + 2) ≤ place str ids j := place_mono (by omega)
      have hlt := hinside (k + 1) (by omega) (.inr ⟨hnot.1.le, by
        show place str ids (k + 2) ≤ E
        omega⟩)
      omega
  · rintro (⟨hends, hafter⟩ | ⟨hbefore, hborder, hE, hklt, hlast⟩)
    · refine ⟨fun j hj hin => hends j hj ?_, hafter⟩
      rw [EndsBy]
      rcases hin with hin | ⟨-, hin⟩
      · omega
      · exact hin
    · constructor
      · intro j hj hin
        by_contra hjk
        have hle : place str ids (j + 1) ≤ E := by
          rcases hin with hin | ⟨-, hin⟩
          · omega
          · exact hin
        have hj' := hlast (j + 1) (by omega) hle
        obtain rfl : j = k := by omega
        rw [WithinPart] at hin
        omega
      · refine (after_iff hk).mpr ?_
        by_cases hzero : k = 0
        · exact .inl hzero
        · have hmono : place str ids (k - 1) ≤ place str ids k := place_mono (by omega)
          exact .inr (by omega)

/-- The text up to the boundary at the end of `sp` ends with it. -/
theorem endsAt_of_text {ins rest : List Char} (htext : ids.flatMap str = ins ++ sp ++ rest)
    {e : ℕ} (he : place str ids e = ins.length + sp.length) : EndsAt str ids sp e := by
  have hsplit : ids.flatMap str = (ids.take e).flatMap str ++ (ids.drop e).flatMap str := by
    rw [← List.flatMap_append, List.take_append_drop]
  rw [hsplit] at htext
  have hlength : ((ids.take e).flatMap str).length = (ins ++ sp).length := by
    rw [List.length_append]
    exact he
  rw [EndsAt, (List.append_inj htext hlength).1]
  exact List.suffix_append _ _

/-- If the end of `sp` is a boundary, the search is right iff no earlier one ends with `sp`. -/
theorem nextTo_iff_first {ins rest : List Char} (hstr : ∀ id, str id ≠ [])
    (htext : ids.flatMap str = ins ++ sp ++ rest) {e : ℕ} (hle : e ≤ ids.length)
    (he : place str ids e = ins.length + sp.length) (hk : StopsAt str ids sp k) :
    NextTo str ids (ins.length + sp.length) k ↔
      ∀ j ≤ ids.length, place str ids j < ins.length + sp.length → ¬ EndsAt str ids sp j := by
  have hend := endsAt_of_text htext he
  have hstops : k ≤ e ∧ EndsAt str ids sp k ∧ ∀ j < k, ¬ EndsAt str ids sp j := by
    rcases hk with ⟨-, hends, hfirst⟩ | ⟨-, hnone⟩
    · exact ⟨not_lt.mp fun hlt => hfirst e hlt hend, hends, hfirst⟩
    · exact absurd hend (hnone e hle)
  obtain ⟨hke, hends, hfirst⟩ := hstops
  rw [← he]
  constructor
  · intro hnext
    have heq : k = e := by
      rcases hnext with ⟨-, hlast⟩ | ⟨hE, -⟩
      · exact le_antisymm hke (hlast e hle le_rfl)
      · by_contra hne
        have hlt : place str ids k < place str ids e := place_lt hstr (by omega) hle
        omega
    intro j hj hlt
    refine hfirst j ?_
    by_contra hjk
    have hmono : place str ids e ≤ place str ids j := place_mono (by omega)
    omega
  · intro hnone
    have heq : k = e := by
      by_contra hne
      exact hnone k (by omega) (place_lt hstr (by omega) hle) hends
    refine .inl ⟨by rw [heq], fun j hj hplace => ?_⟩
    by_contra hjk
    have hlt : place str ids e < place str ids j := place_lt hstr (by omega) hj
    omega

/-- A sample whose text behind the prompt is `ins`, the prefix and the rest, uncut. -/
structure SpanInput (tok : ChatTokenizer) (str : ℤ → List Char) (s : ChatSample)
    (spanPrefix : String) (maxLen : ℤ) (promptIds ids : List ℤ) (ins rest : List Char) :
    Prop where
  decodes : Decodes tok str
  span : s.spanPrefix = some spanPrefix
  pair : tok.encodePair s.prompt s.response = .ok (promptIds, promptIds ++ ids)
  whole : Slices.sliceTo (promptIds ++ ids) maxLen = promptIds ++ ids
  nonneg : ∀ id ∈ ids, 0 ≤ id
  text : ids.flatMap str = ins ++ spanPrefix.toList ++ rest

theorem SpanInput.labels {s : ChatSample} {spanPrefix : String} {maxLen : ℤ}
    {promptIds : List ℤ} {ins rest : List Char}
    (h : SpanInput tok str s spanPrefix maxLen promptIds ids ins rest) :
    ∃ row k, buildChatInputs tok s maxLen = .ok row ∧ StopsAt str ids spanPrefix.toList k ∧
      row.labels = some (labelsFrom (promptIds ++ ids) (promptIds.length + k)) := by
  obtain ⟨k, hk, hprefix⟩ : ∃ k, StopsAt str ids spanPrefix.toList k ∧
      tok.prefixLen (promptIds ++ ids) promptIds.length (some spanPrefix) =
        promptIds.length + k := prefixLen_stopsAt h.decodes promptIds spanPrefix
  obtain ⟨row, hrow⟩ : ∃ row, buildChatInputs tok s maxLen = .ok row :=
    ⟨_, by rw [buildChatInputs, h.pair]; rfl⟩
  obtain ⟨hids, hlabels, -⟩ := build_eq hrow h.pair
  refine ⟨row, k, hrow, hk, ?_⟩
  have hmin : min promptIds.length (promptIds ++ ids).length = promptIds.length := by
    rw [List.length_append]
    omega
  rw [hlabels, hids, h.whole, hmin, h.span, hprefix]

/-- **The mask of a span prefix.** Let the text end its prefix at `E`. No token up to `E` is
supervised and every one from `E` on is, iff the first boundary behind the prompt at which the
text ends with the prefix (the end of the prompt, if there is none) is next to `E`: the last one
up to `E` or the first one from `E` on. If a token that covers the border of `ins` may be
supervised, it may also stand between the two. If `E` is a boundary, no earlier one may end with
the prefix. -/
theorem masksSpan_iff {s : ChatSample} {spanPrefix : String} {maxLen : ℤ} {promptIds : List ℤ}
    {ins rest : List Char} (h : SpanInput tok str s spanPrefix maxLen promptIds ids ins rest)
    (hE : E = ins.length + spanPrefix.toList.length) :
    ∃ row labels, buildChatInputs tok s maxLen = .ok row ∧ row.labels = some labels ∧
      (MasksSpan str ids labels promptIds.length E (EndsBy str ids E) ↔
        EndsFirst str ids spanPrefix.toList (NextTo str ids E)) ∧
      (MasksSpan str ids labels promptIds.length E (WithinPart str ids ins.length E) ↔
        EndsFirst str ids spanPrefix.toList fun k =>
          NextTo str ids E k ∨ Covers str ids ins.length E k) ∧
      ((∃ e ≤ ids.length, place str ids e = E) →
        (MasksSpan str ids labels promptIds.length E (EndsBy str ids E) ↔
          ∀ j ≤ ids.length, place str ids j < E → ¬ EndsAt str ids spanPrefix.toList j)) := by
  subst hE
  obtain ⟨row, k, hrow, hk, hlabels⟩ := h.labels
  have hstr := h.decodes.nonempty
  refine ⟨row, _, hrow, hlabels, ?_, ?_, ?_⟩
  · rw [masksSpan_cut h.nonneg hk.le, nextTo_iff hstr hk.le, hk.endsFirst_iff]
  · rw [masksSpan_cut h.nonneg hk.le, withinPart_iff hstr hk.le (Nat.le_add_right _ _),
      hk.endsFirst_iff]
  · rintro ⟨e, hle, he⟩
    rw [masksSpan_cut h.nonneg hk.le, nextTo_iff hstr hk.le]
    exact nextTo_iff_first hstr h.text hle he hk

/-! ## A template with an empty thought -/

def codesOf (text : String) : List ℤ := text.toList.map fun c => (c.toNat : ℤ)

/-- The text of a token, for tokens that are characters. -/
def charText (id : ℤ) : List Char := [Char.ofNat id.toNat]

def renderMessage (message : Value) : String :=
  match message with
  | .dict [("role", .str "user"), ("content", .str text)] => "<u>" ++ text
  | .dict [("role", .str "assistant"), ("content", .str text)] =>
    "<a><think>\n\n</think>\n\n" ++ text ++ "<e>"
  | _ => ""

/-- A token for each character, and a template that opens an answer with an empty thought. -/
def thinkTokenizer : ChatTokenizer where
  padTokenId := some 0
  eosTokenId := none
  chatTemplate := true
  isProcessor := false
  applyChatTemplate messages addGenerationPrompt := .ok
    (messages.flatMap (fun m => codesOf (renderMessage m)) ++
      if addGenerationPrompt then codesOf "<a>" else [])
  encode text := .ok (codesOf text)
  decode ids := String.ofList (ids.flatMap charText)

theorem thinkTokenizer_decodes : Decodes thinkTokenizer charText where
  decode ids := String.toList_ofList
  nonempty id := by simp [charText]

def oneLine : ChatSample := ⟨"Hi", "OK 1", some "OK"⟩

theorem oneLine_input : SpanInput thinkTokenizer charText oneLine "OK" 2048
    (codesOf "<u>Hi<a>") (codesOf "<think>\n\n</think>\n\nOK 1<e>")
    "<think>\n\n</think>\n\n".toList " 1<e>".toList where
  decodes := thinkTokenizer_decodes
  span := rfl
  pair := by rfl
  whole := by decide
  nonneg := by decide
  text := by decide

theorem oneLine_masked : ∃ row labels, buildChatInputs thinkTokenizer oneLine 2048 = .ok row ∧
    row.labels = some labels ∧
    (MasksSpan charText (codesOf "<think>\n\n</think>\n\nOK 1<e>") labels 8 21
        (EndsBy charText (codesOf "<think>\n\n</think>\n\nOK 1<e>") 21) ↔
      EndsFirst charText (codesOf "<think>\n\n</think>\n\nOK 1<e>") "OK".toList
        (NextTo charText (codesOf "<think>\n\n</think>\n\nOK 1<e>") 21)) := by
  obtain ⟨row, labels, hrow, hlabels, hmask, -⟩ := masksSpan_iff oneLine_input rfl
  exact ⟨row, labels, hrow, hlabels, hmask⟩

def newLine : ChatSample := ⟨"Hi", "\nOK", some "\n"⟩

def newLineIds : List ℤ := codesOf "<think>\n\n</think>\n\n\nOK<e>"

/-- The search stops within the empty thought, and the newline that was to be masked is
supervised. -/
theorem newLine_supervised :
    SpanInput thinkTokenizer charText newLine "\n" 2048 (codesOf "<u>Hi<a>") newLineIds
      "<think>\n\n</think>\n\n".toList "OK<e>".toList ∧
    ∃ row labels, buildChatInputs thinkTokenizer newLine 2048 = .ok row ∧
      row.labels = some labels ∧
      ¬ MasksSpan charText newLineIds labels 8 20 (EndsBy charText newLineIds 20) ∧
      ¬ MasksSpan charText newLineIds labels 8 20 (WithinPart charText newLineIds 19 20) := by
  have hsupervised : (labelsFrom (codesOf "<u>Hi<a>" ++ newLineIds) 16)[8 + 19]? = some 10 := by
    decide
  have hplace : place charText newLineIds 19 = 19 ∧ place charText newLineIds (19 + 1) = 20 := by
    decide
  refine ⟨⟨thinkTokenizer_decodes, rfl, by rfl, by decide, by decide, by decide⟩, _,
    labelsFrom (codesOf "<u>Hi<a>" ++ newLineIds) 16, rfl, ?_, fun h => ?_, fun h => ?_⟩
  · decide +kernel
  · have hmasked := h.masked 19 (by decide) hplace.2.le
    rw [hsupervised] at hmasked
    cases hmasked
  · have hmasked := h.masked 19 (by decide) (.inr ⟨hplace.1.ge, hplace.2.le⟩)
    rw [hsupervised] at hmasked
    cases hmasked

end Trainfer
