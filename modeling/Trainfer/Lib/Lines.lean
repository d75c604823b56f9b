import Mathlib.Data.List.DropRight

/-! Files read line by line. A line runs up to and including the next separator; the last
one may lack it. `Terminated` says that it does not, which is what it takes for the lines of
a file to stay its lines when something is appended. -/

namespace Lines

universe u
variable {α : Type u} [DecidableEq α]

/-- One call of `readline`: the line, and what is left to read. -/
def readline (sep : α) : List α → List α × List α
  | [] => ([], [])
  | a :: as =>
    if a = sep then ([a], as)
    else (a :: (readline sep as).1, (readline sep as).2)

/-- The lines that `readline` returns before it returns an empty one. -/
def lines (sep : α) : List α → List (List α)
  | [] => []
  | a :: as =>
    if a = sep then [a] :: lines sep as
    else match lines sep as with
      | [] => [[a]]
      | l :: ls => (a :: l) :: ls

/-- Each line with the position it starts at. -/
def starts (pos : Nat) : List (List α) → List (Nat × List α)
  | [] => []
  | l :: ls => (pos, l) :: starts (pos + l.length) ls

/-- Every line of the file has its separator. -/
def Terminated (sep : α) (as : List α) : Prop := ∀ a, as.getLast? = some a → a = sep

variable {sep : α}

/-- The definition of `lines` by recursion on the file is the loop of `readline`. -/
theorem lines_eq_readline {as : List α} (h : as ≠ []) :
    lines sep as = (readline sep as).1 :: lines sep (readline sep as).2 := by
  induction as with
  | nil => exact absurd rfl h
  | cons a as ih =>
    by_cases ha : a = sep
    · simp [lines, readline, ha]
    · cases as with
      | nil => simp [lines, readline, ha]
      | cons b bs => rw [lines, readline, if_neg ha, if_neg ha, ih (List.cons_ne_nil b bs)]

theorem flatten_lines (as : List α) : (lines sep as).flatten = as := by
  induction as with
  | nil => rfl
  | cons a as ih =>
    rw [lines]
    split
    · simp [ih]
    · split
      · rename_i hnil
        rw [hnil] at ih
        simp [← ih]
      · rename_i hcons
        rw [hcons] at ih
        simpa using ih

theorem ne_nil_of_mem_lines {as l : List α} (h : l ∈ lines sep as) : l ≠ [] := by
  induction as generalizing l with
  | nil => simp [lines] at h
  | cons a as ih =>
    rw [lines] at h
    split at h
    · rcases List.mem_cons.mp h with rfl | h
      · simp
      · exact ih h
    · split at h
      · simp_all
      · rename_i hcons
        rcases List.mem_cons.mp h with rfl | h
        · simp
        · exact ih (hcons ▸ List.mem_cons_of_mem _ h)

/-- A line with its separator is read on its own. -/
theorem lines_append_line {l : List α} (h : sep ∉ l) (as : List α) :
    lines sep (l ++ sep :: as) = (l ++ [sep]) :: lines sep as := by
  induction l with
  | nil => simp [lines]
  | cons a l ih =>
    simp only [List.mem_cons, not_or] at h
    obtain ⟨ha, hl⟩ := h
    rw [List.cons_append, lines, if_neg (Ne.symm ha), ih hl]
    rfl

theorem lines_line {l : List α} (h : sep ∉ l) (hne : l ≠ []) : lines sep l = [l] := by
  induction l with
  | nil => exact absurd rfl hne
  | cons a l ih =>
    simp only [List.mem_cons, not_or] at h
    obtain ⟨ha, hl⟩ := h
    rw [lines, if_neg (Ne.symm ha)]
    cases l with
    | nil => rfl
    | cons b l => rw [ih hl (List.cons_ne_nil b l)]

omit [DecidableEq α] in
theorem terminated_nil : Terminated sep [] := by simp [Terminated]

omit [DecidableEq α] in
theorem terminated_append_line (as l : List α) : Terminated sep (as ++ (l ++ [sep])) := by
  intro a ha
  rw [← List.append_assoc, List.getLast?_concat] at ha
  exact (Option.some.inj ha).symm

/-- What is appended to a terminated file is read as a file of its own. -/
theorem lines_append {as : List α} (h : Terminated sep as) (bs : List α) :
    lines sep (as ++ bs) = lines sep as ++ lines sep bs := by
  induction as with
  | nil => rfl
  | cons a as ih =>
    rw [List.cons_append, lines, lines]
    have htail : as ≠ [] → Terminated sep as := by
      intro hne b hb
      exact h b (by rw [List.getLast?_cons, hb]; rfl)
    by_cases ha : a = sep
    · rw [if_pos ha, if_pos ha]
      cases as with
      | nil => rfl
      | cons b cs => rw [ih (htail (List.cons_ne_nil b cs)), List.cons_append]
    · rw [if_neg ha, if_neg ha]
      cases as with
      | nil => exact absurd (h a rfl) ha
      | cons b cs =>
        rw [ih (htail (List.cons_ne_nil b cs))]
        cases hl : lines sep (b :: cs) with
        | nil =>
          have hflat := @flatten_lines α _ sep (b :: cs)
          simp [hl] at hflat
        | cons l ls => rfl

/-! ## Positions -/

omit [DecidableEq α] in
theorem starts_append (pos : Nat) (ls ms : List (List α)) :
    starts pos (ls ++ ms) = starts pos ls ++ starts (pos + ls.flatten.length) ms := by
  induction ls generalizing pos with
  | nil => simp [starts]
  | cons l ls ih => simp [starts, ih, Nat.add_assoc]

omit [DecidableEq α] in
/-- A line lies between the start of the file and its end. -/
theorem bounds_of_mem_starts {pos p : Nat} {l : List α} {ls : List (List α)}
    (h : (p, l) ∈ starts pos ls) : l ∈ ls ∧ pos ≤ p ∧ p + l.length ≤ pos + ls.flatten.length := by
  induction ls generalizing pos with
  | nil => simp [starts] at h
  | cons m ms ih =>
    simp only [starts, List.mem_cons, Prod.mk.injEq] at h
    simp only [List.flatten_cons, List.length_append]
    rcases h with ⟨rfl, rfl⟩ | h
    · exact ⟨List.mem_cons_self, le_refl _, by omega⟩
    · obtain ⟨hm, hlow, hhigh⟩ := ih h
      exact ⟨List.mem_cons_of_mem m hm, by omega, by omega⟩

/-! ## Whitespace at both ends -/

/-- `strip()`, for what counts as whitespace. -/
def strip (p : α → Bool) (l : List α) : List α := (l.dropWhile p).rdropWhile p

omit [DecidableEq α] in
/-- Stripping takes a separator that is whitespace off a line that has none at its ends. -/
theorem strip_line {p : α → Bool} (hsep : p sep = true) {l : List α}
    (hhead : ∀ a, l.head? = some a → p a = false) (hlast : ∀ a, l.getLast? = some a → p a = false) :
    strip p (l ++ [sep]) = l ∧ strip p l = l := by
  have hdrop : ∀ m, l ≠ [] → (l ++ m).dropWhile p = l ++ m := by
    intro m hne
    cases l with
    | nil => exact absurd rfl hne
    | cons a l => simp [hhead a rfl]
  have hrdrop : l.rdropWhile p = l := by
    rw [List.rdropWhile_eq_self_iff]
    intro hne
    simp [hlast _ (List.getLast?_eq_some_getLast hne)]
  cases l with
  | nil => simp [strip, hsep]
  | cons a l =>
    have hne := List.cons_ne_nil a l
    refine ⟨?_, ?_⟩
    · rw [strip, hdrop _ hne, List.rdropWhile_concat_pos _ _ _ hsep, hrdrop]
    · have hself := hdrop [] hne
      rw [List.append_nil] at hself
      rw [strip, hself, hrdrop]

omit [DecidableEq α] in
/-- A text that does not start with whitespace loses whitespace at its end only. -/
theorem strip_append_spaces {p : α → Bool} {l : List α}
    (hhead : ∀ a, l.head? = some a → p a = false) :
    ∃ spaces, strip p l ++ spaces = l ∧ ∀ a ∈ spaces, p a = true := by
  have hdrop : l.dropWhile p = l := by
    cases l with
    | nil => rfl
    | cons a l => simp [hhead a rfl]
  refine ⟨l.rtakeWhile p, ?_, fun a ha => List.mem_rtakeWhile_imp ha⟩
  rw [strip, hdrop, List.rdropWhile_append_rtakeWhile]

omit [DecidableEq α] in
/-- Stripping takes whitespace only. -/
theorem filter_strip (p : α → Bool) (l : List α) :
    (strip p l).filter (fun a => !p a) = l.filter (fun a => !p a) := by
  have hdrop : (l.dropWhile p).filter (fun a => !p a) = l.filter (fun a => !p a) := by
    have htake : (l.takeWhile p).filter (fun a => !p a) = [] := by
      rw [List.filter_eq_nil_iff]
      intro a ha
      simp [List.mem_takeWhile_imp ha]
    conv_rhs => rw [← List.takeWhile_append_dropWhile (p := p) (l := l)]
    rw [List.filter_append, htake, List.nil_append]
  have htail : ((l.dropWhile p).rtakeWhile p).filter (fun a => !p a) = [] := by
    rw [List.filter_eq_nil_iff]
    intro a ha
    simp [List.mem_rtakeWhile_imp ha]
  rw [← hdrop]
  conv_rhs => rw [← List.rdropWhile_append_rtakeWhile (p := p) (l := l.dropWhile p)]
  rw [List.filter_append, htail, List.append_nil]
  rfl

omit [DecidableEq α] in
theorem strip_eq_nil_iff {p : α → Bool} {l : List α} :
    strip p l = [] ↔ ∀ a ∈ l, p a = true := by
  constructor
  · intro h a ha
    by_contra hp
    have hmem : a ∈ l.filter (fun a => !p a) := List.mem_filter.mpr ⟨ha, by simp [hp]⟩
    rw [← filter_strip, h] at hmem
    cases hmem
  · intro h
    have hdrop : l.dropWhile p = [] := List.dropWhile_eq_nil_iff.mpr h
    rw [strip, hdrop, List.rdropWhile_nil]

omit [DecidableEq α] in
/-- A text in front leaves no trace after stripping just if it is whitespace. -/
theorem strip_append_iff {p : α → Bool} {l m : List α} :
    strip p (l ++ m) = strip p m ↔ ∀ a ∈ l, p a = true := by
  constructor
  · intro h
    have hfilter : (l ++ m).filter (fun a => !p a) = m.filter (fun a => !p a) := by
      rw [← filter_strip p (l ++ m), h, filter_strip]
    rw [List.filter_append, List.append_left_eq_self, List.filter_eq_nil_iff] at hfilter
    intro a ha
    simpa using hfilter a ha
  · intro h
    rw [strip, List.dropWhile_append_of_pos h, strip]

end Lines
