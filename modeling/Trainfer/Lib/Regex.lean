import Mathlib.Computability.Language

/-! Backtracking regular expressions with one capturing group.

An expression is run at a place of a text and gives its matches in the order in which a
backtracking matcher finds them; a search takes the first one. What a match consumes is in the
language of the expression (`consumed_mem_lang`), and what it captures in that of a group
(`captures_run`). Assertions are not part of the language. -/

inductive Regex (α : Type) where
  | eps
  | char (p : α → Bool)
  | seq (r s : Regex α)
  | alt (r s : Regex α)
  /-- As often as possible first, or as rarely as possible. -/
  | star (lazy : Bool) (r : Regex α)
  | group (r : Regex α)
  /-- A condition on the elements before and after a place. -/
  | look (p : Option α → Option α → Bool)

namespace Regex

open Computability

variable {α : Type}

/-- `r?`. -/
def opt (r : Regex α) : Regex α := alt r eps

/-- `r*`. -/
def many (r : Regex α) : Regex α := star false r

/-- `r+`. -/
def plus (r : Regex α) : Regex α := seq r (many r)

def seqs (rs : List (Regex α)) : Regex α := rs.foldr seq eps

def alts (rs : List (Regex α)) : Regex α := rs.foldr alt (char fun _ => false)

/-- A place in a text, with what has been captured on the way; `before` is read backwards. -/
structure Cursor (α : Type) where
  before : List α
  after : List α
  captured : Option (List α) := none
  deriving DecidableEq

/-- What lies between two places. -/
def consumed (c d : Cursor α) : List α := c.after.take (c.after.length - d.after.length)

/-- The rounds of a loop. A round that consumes nothing ends it. -/
def rounds (lazy : Bool) (step : Cursor α → List (Cursor α)) : ℕ → Cursor α → List (Cursor α)
  | 0, c => [c]
  | n + 1, c =>
    let more :=
      ((step c).filter fun d => d.after.length < c.after.length).flatMap (rounds lazy step n)
    if lazy then c :: more else more ++ [c]

/-- The places where a match can end, the preferred one first. -/
def run : Regex α → Cursor α → List (Cursor α)
  | eps, c => [c]
  | char p, c =>
    match c.after with
    | [] => []
    | a :: as => if p a then [⟨a :: c.before, as, c.captured⟩] else []
  | seq r s, c => (run r c).flatMap (run s)
  | alt r s, c => run r c ++ run s c
  | star lazy r, c => rounds lazy (run r) c.after.length c
  | group r, c => (run r c).map fun d => { d with captured := some (consumed c d) }
  | look p, c => if p c.before.head? c.after.head? then [c] else []

/-- The end of the first match that starts at a place or after it. -/
def searchFrom (r : Regex α) (before : List α) : List α → Option (Cursor α)
  | [] => (run r ⟨before, [], none⟩).head?
  | a :: as => (run r ⟨before, a :: as, none⟩).head?.or (searchFrom r (a :: before) as)

def search (r : Regex α) (text : List α) : Option (Cursor α) := searchFrom r [] text

/-- All matches from a place on that do not overlap. After an empty match, `advance` asks for
one that is not empty. -/
def findallFrom (r : Regex α) : ℕ → Bool → Cursor α → List (List α)
  | 0, _, _ => []
  | n + 1, advance, c =>
    match (run r c).find? fun d => !advance || d.after.length < c.after.length with
    | some d =>
      consumed c d ::
        findallFrom r n (d.after.length == c.after.length) ⟨d.before, d.after, none⟩
    | none =>
      match c.after with
      | [] => []
      | a :: as => findallFrom r n false ⟨a :: c.before, as, none⟩

/-- `findall`, for an expression without a group. A place is visited at most twice. -/
def findall (r : Regex α) (text : List α) : List (List α) :=
  findallFrom r (2 * text.length + 2) false ⟨[], text, none⟩

/-- The text from a place on, with the matches that `findallFrom` finds replaced. -/
def subFrom (r : Regex α) (repl : List α) : ℕ → Bool → Cursor α → List α
  | 0, _, c => c.after
  | n + 1, advance, c =>
    match (run r c).find? fun d => !advance || d.after.length < c.after.length with
    | some d =>
      repl ++ subFrom r repl n (d.after.length == c.after.length) ⟨d.before, d.after, none⟩
    | none =>
      match c.after with
      | [] => []
      | a :: as => a :: subFrom r repl n false ⟨a :: c.before, as, none⟩

/-- `sub`, for a replacement without references. -/
def sub (r : Regex α) (repl text : List α) : List α :=
  subFrom r repl (2 * text.length + 2) false ⟨[], text, none⟩

theorem mem_rounds_succ {lazy : Bool} {step : Cursor α → List (Cursor α)} {n : ℕ}
    {c d : Cursor α} : d ∈ rounds lazy step (n + 1) c ↔
      d = c ∨ ∃ e ∈ step c, e.after.length < c.after.length ∧ d ∈ rounds lazy step n e := by
  cases lazy with
  | true => simp [rounds, and_assoc]
  | false => simp [rounds, and_assoc, or_comm]

/-! ## The language -/

def lang : Regex α → Language α
  | eps => 1
  | char p => {t | ∃ a, p a ∧ t = [a]}
  | seq r s => lang r * lang s
  | alt r s => lang r + lang s
  | star _ r => (lang r)∗
  | group r => lang r
  | look _ => 1

theorem mem_lang_seq {r s : Regex α} {t : List α} :
    t ∈ (seq r s).lang ↔ ∃ a ∈ r.lang, ∃ b ∈ s.lang, a ++ b = t :=
  Language.mem_mul

theorem mem_lang_opt {r : Regex α} {t : List α} : t ∈ (opt r).lang ↔ t ∈ r.lang ∨ t = [] :=
  Iff.rfl

theorem mem_lang_many_char {p : α → Bool} {t : List α} :
    t ∈ (many (char p)).lang ↔ ∀ a ∈ t, p a := by
  have hstar : t ∈ (many (char p)).lang ↔ 
      ∃ ts : List (List α), t = ts.flatten ∧ ∀ s ∈ ts, s ∈ (char p).lang :=
    Language.mem_kstar
  rw [hstar]
  constructor
  · rintro ⟨ts, rfl, hts⟩ a ha
    obtain ⟨s, hs, ha⟩ := List.mem_flatten.mp ha
    obtain ⟨b, hb, rfl⟩ := hts s hs
    rwa [List.mem_singleton.mp ha]
  · intro h
    have hflatten : t = (t.map fun a => [a]).flatten := by
      rw [← List.flatMap_def, List.flatMap_singleton']
    refine ⟨t.map fun a => [a], hflatten, fun s hs => ?_⟩
    obtain ⟨a, ha, rfl⟩ := List.mem_map.mp hs
    exact ⟨a, h a ha, rfl⟩

/-- From `c` to `d`, a text of the language is consumed. -/
def Consumes (l : Language α) (c d : Cursor α) : Prop := ∃ t ∈ l, c.after = t ++ d.after

theorem Consumes.trans {l m : Language α} {c d e : Cursor α} (h : Consumes l c d)
    (h' : Consumes m d e) : Consumes (l * m) c e := by
  obtain ⟨t, ht, htext⟩ := h
  obtain ⟨u, hu, htext'⟩ := h'
  exact ⟨t ++ u, Language.append_mem_mul ht hu, by rw [htext, htext', List.append_assoc]⟩

theorem consumes_rounds {l : Language α} {lazy : Bool} {step : Cursor α → List (Cursor α)}
    (h : ∀ c, ∀ d ∈ step c, Consumes l c d) (n : ℕ) (c d : Cursor α)
    (hd : d ∈ rounds lazy step n c) : Consumes l∗ c d := by
  have hstop : Consumes l∗ d d := ⟨[], Language.nil_mem_kstar l, rfl⟩
  induction n generalizing c with
  | zero =>
    rw [rounds, List.mem_singleton] at hd
    exact hd ▸ hstop
  | succ n ih =>
    rcases mem_rounds_succ.mp hd with rfl | ⟨e, he, -, hd⟩
    · exact hstop
    · obtain ⟨t, ht, htext⟩ := (h c e he).trans (ih e hd)
      refine ⟨t, ?_, htext⟩
      rw [← Language.one_add_self_mul_kstar_eq_kstar]
      exact Or.inr ht

/-- A match consumes a text of the language. -/
theorem consumes_run (r : Regex α) (c d : Cursor α) (hd : d ∈ run r c) :
    Consumes r.lang c d := by
  induction r generalizing c d with
  | eps =>
    rw [run, List.mem_singleton] at hd
    exact ⟨[], Language.nil_mem_one, by rw [hd]; rfl⟩
  | char p =>
    rw [run] at hd
    split at hd
    · cases hd
    · rename_i a as hafter
      split at hd
      · rename_i hp
        rw [List.mem_singleton.mp hd]
        exact ⟨[a], ⟨a, hp, rfl⟩, hafter⟩
      · cases hd
  | seq r s ihr ihs =>
    obtain ⟨e, he, hd⟩ := List.mem_flatMap.mp hd
    exact (ihr c e he).trans (ihs e d hd)
  | alt r s ihr ihs =>
    rcases List.mem_append.mp hd with hd | hd
    · obtain ⟨t, ht, htext⟩ := ihr c d hd
      exact ⟨t, Or.inl ht, htext⟩
    · obtain ⟨t, ht, htext⟩ := ihs c d hd
      exact ⟨t, Or.inr ht, htext⟩
  | star lazy r ih => exact consumes_rounds ih _ c d hd
  | group r ih =>
    obtain ⟨e, he, rfl⟩ := List.mem_map.mp hd
    exact ih c e he
  | look p =>
    rw [run] at hd
    split at hd
    · rw [List.mem_singleton.mp hd]
      exact ⟨[], Language.nil_mem_one, rfl⟩
    · cases hd

theorem consumed_mem_lang {r : Regex α} {c d : Cursor α} (hd : d ∈ run r c) :
    consumed c d ∈ r.lang := by
  obtain ⟨t, ht, htext⟩ := consumes_run r c d hd
  simpa [consumed, htext] using ht

theorem mem_findallFrom {r : Regex α} {n : ℕ} {advance : Bool} {c : Cursor α} {t : List α}
    (h : t ∈ findallFrom r n advance c) : t ∈ r.lang := by
  induction n generalizing advance c with
  | zero => cases h
  | succ n ih =>
    rw [findallFrom] at h
    split at h
    · rename_i d hd
      rcases List.mem_cons.mp h with rfl | h
      · exact consumed_mem_lang (List.mem_of_find?_eq_some hd)
      · exact ih h
    · split at h
      · cases h
      · exact ih h

theorem mem_findall {r : Regex α} {text t : List α} (h : t ∈ findall r text) : t ∈ r.lang :=
  mem_findallFrom h

/-! ## Groups -/

def groups : Regex α → List (Regex α)
  | seq r s => groups r ++ groups s
  | alt r s => groups r ++ groups s
  | star _ r => groups r
  | group r => r :: groups r
  | _ => []

theorem mem_groups_seqs {rs : List (Regex α)} {g : Regex α} :
    g ∈ (seqs rs).groups ↔ ∃ r ∈ rs, g ∈ r.groups := by
  induction rs with
  | nil => simp [seqs, groups]
  | cons r rs ih =>
    have hcons : (seqs (r :: rs)).groups = r.groups ++ (seqs rs).groups := rfl
    rw [hcons, List.mem_append, ih]
    simp

/-- What has been captured at `d` was captured at `c` before, or is a text of one of the
groups. -/
def Captures (gs : List (Regex α)) (c d : Cursor α) : Prop :=
  d.captured = c.captured ∨ ∃ g ∈ gs, ∃ t ∈ g.lang, d.captured = some t

theorem Captures.trans {gs gs' : List (Regex α)} {c d e : Cursor α} (h : Captures gs c d)
    (h' : Captures gs' d e) : Captures (gs ++ gs') c e := by
  rcases h' with h' | ⟨g, hg, t, ht, hcaptured⟩
  · rcases h with h | ⟨g, hg, t, ht, hcaptured⟩
    · exact .inl (h'.trans h)
    · exact .inr ⟨g, List.mem_append_left _ hg, t, ht, h'.trans hcaptured⟩
  · exact .inr ⟨g, List.mem_append_right _ hg, t, ht, hcaptured⟩

theorem Captures.mono {gs gs' : List (Regex α)} {c d : Cursor α} (h : Captures gs c d)
    (hsub : gs ⊆ gs') : Captures gs' c d :=
  h.imp_right fun ⟨g, hg, ht⟩ => ⟨g, hsub hg, ht⟩

theorem captures_rounds {gs : List (Regex α)} {lazy : Bool} {step : Cursor α → List (Cursor α)}
    (h : ∀ c, ∀ d ∈ step c, Captures gs c d) (n : ℕ) (c d : Cursor α)
    (hd : d ∈ rounds lazy step n c) : Captures gs c d := by
  induction n generalizing c with
  | zero =>
    rw [rounds, List.mem_singleton] at hd
    exact .inl (by rw [hd])
  | succ n ih =>
    rcases mem_rounds_succ.mp hd with rfl | ⟨e, he, -, hd⟩
    · exact .inl rfl
    · refine ((h c e he).trans (ih e hd)).mono ?_
      simp

theorem captures_run (r : Regex α) (c d : Cursor α) (hd : d ∈ run r c) :
    Captures r.groups c d := by
  induction r generalizing c d with
  | eps =>
    rw [run, List.mem_singleton] at hd
    exact .inl (by rw [hd])
  | char p =>
    rw [run] at hd
    split at hd
    · cases hd
    · split at hd
      · rw [List.mem_singleton.mp hd]
        exact .inl rfl
      · cases hd
  | seq r s ihr ihs =>
    obtain ⟨e, he, hd⟩ := List.mem_flatMap.mp hd
    exact (ihr c e he).trans (ihs e d hd)
  | alt r s ihr ihs =>
    rcases List.mem_append.mp hd with hd | hd
    · exact (ihr c d hd).mono (List.subset_append_left _ _)
    · exact (ihs c d hd).mono (List.subset_append_right _ _)
  | star lazy r ih => exact captures_rounds ih _ c d hd
  | group r ih =>
    obtain ⟨e, he, rfl⟩ := List.mem_map.mp hd
    exact .inr ⟨r, List.mem_cons_self, _, consumed_mem_lang he, rfl⟩
  | look p =>
    rw [run] at hd
    split at hd
    · rw [List.mem_singleton.mp hd]
      exact .inl rfl
    · cases hd

theorem searchFrom_mem_run {r : Regex α} {before after : List α} {d : Cursor α}
    (h : searchFrom r before after = some d) :
    ∃ before after, d ∈ run r ⟨before, after, none⟩ := by
  induction after generalizing before with
  | nil => exact ⟨before, [], List.mem_of_head? h⟩
  | cons a as ih =>
    rw [searchFrom, Option.or_eq_some_iff] at h
    rcases h with h | ⟨-, h⟩
    · exact ⟨before, a :: as, List.mem_of_head? h⟩
    · exact ih h

/-- What a search captures is a text of one of the groups. -/
theorem search_captured {r : Regex α} {text t : List α} {d : Cursor α}
    (h : search r text = some d) (ht : d.captured = some t) : ∃ g ∈ r.groups, t ∈ g.lang := by
  obtain ⟨before, after, hd⟩ := searchFrom_mem_run h
  rcases captures_run r _ d hd with hcaptured | ⟨g, hg, u, hu, hcaptured⟩
  · rw [hcaptured] at ht
    cases ht
  · obtain rfl := Option.some.inj (ht.symm.trans hcaptured)
    exact ⟨g, hg, hu⟩

end Regex
