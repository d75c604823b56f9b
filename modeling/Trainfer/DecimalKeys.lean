import Trainfer.MajorityVote
import Trainfer.Lib.Positional

/-! The keys of decimal answers.

`normalizeDecimal_eq_iff` says which numerals have the same key, and `sameKey_iff_sameValue` when
that is what it means for them to denote the same number: zeros in front, a minus before zero and
digits of another script keep equal numbers apart. -/

namespace Trainfer

open Regex TTRL

variable {u : Unicode}

/-! ## Numerals -/

theorem isDigit_ascii (u : Unicode) {c : Char} (hc : c.toNat < 128) : u.isDigit c = c.isDigit := by
  rw [Unicode.isDigit, u.decimal_ascii c hc]
  cases c.isDigit with
  | true => rfl
  | false => rfl

theorem ne_of_isDigit {c d : Char} (hc : u.isDigit c = true) (hd : d.toNat < 128)
    (h : d.isDigit = false) : c ≠ d := by
  rintro rfl
  rw [isDigit_ascii u hd, h] at hc
  cases hc

/-- What the decimal patterns capture. An empty `frac` has no point before it. -/
structure Numeral (u : Unicode) where
  neg : Bool
  head : Char
  tail : List Char
  frac : List Char
  head_isDigit : u.isDigit head = true
  tail_isDigit : ∀ c ∈ tail, u.isDigit c = true ∨ c = ','
  frac_isDigit : ∀ c ∈ frac, u.isDigit c = true

namespace Numeral

def sign (n : Numeral u) : List Char := if n.neg then ['-'] else []

def text (n : Numeral u) : List Char :=
  n.sign ++ n.head :: n.tail ++ if n.frac = [] then [] else '.' :: n.frac

/-- The digits before the point. -/
def int (n : Numeral u) : List Char := (n.head :: n.tail).filter (· != ',')

def digitValue (u : Unicode) (c : Char) : ℕ := (u.decimal c).getD 0

/-- The number that is denoted, commas ignored. -/
def value (n : Numeral u) : ℚ :=
  (if n.neg then -1 else 1) *
    Positional.value 10 (n.int.map (digitValue u)) (n.frac.map (digitValue u))

/-- The character at a place, counted from the first digit, with `0` after the last one. -/
def place (n : Numeral u) (k : ℕ) : Char := (n.int ++ n.frac).getD k '0'

end Numeral

theorem mem_lang_word {s : String} {t : List Char} : t ∈ (word s).lang ↔ t = s.toList := by
  rw [word]
  generalize s.toList = cs
  induction cs generalizing t with
  | nil => exact Language.mem_one t
  | cons c cs ih =>
    show t ∈ (seq (char (· == c)) (seqs (cs.map fun p => char (· == p)))).lang ↔ t = c :: cs
    rw [mem_lang_seq]
    constructor
    · rintro ⟨a, ⟨c', hc, rfl⟩, b, hb, rfl⟩
      rw [ih.mp hb, eq_of_beq hc]
      rfl
    · rintro rfl
      exact ⟨[c], ⟨c, by simp, rfl⟩, cs, ih.mpr rfl, rfl⟩

theorem groups_word (s : String) : (word s).groups = [] := by
  rw [word]
  induction s.toList with
  | nil => rfl
  | cons c cs ih => exact ih

theorem groups_letters (s : String) : (letters u s).groups = [] := by
  rw [letters]
  induction s.toList with
  | nil => rfl
  | cons c cs ih => exact ih

theorem mem_lang_fraction {t : List Char} :
    t ∈ (seq (word ".") (plus (digit u))).lang ↔
      ∃ frac, frac ≠ [] ∧ (∀ c ∈ frac, u.isDigit c = true) ∧ t = '.' :: frac := by
  constructor
  · rintro ⟨a, ha, b, ⟨x, ⟨d, hd, rfl⟩, y, hy, rfl⟩, rfl⟩
    rw [mem_lang_word.mp ha]
    exact ⟨d :: y, by simp, List.forall_mem_cons.mpr ⟨hd, mem_lang_many_char.mp hy⟩, rfl⟩
  · rintro ⟨frac, hne, hfrac, rfl⟩
    cases frac with
    | nil => exact absurd rfl hne
    | cons d y =>
      obtain ⟨hd, hy⟩ := List.forall_mem_cons.mp hfrac
      exact ⟨['.'], mem_lang_word.mpr rfl, d :: y,
        ⟨[d], ⟨d, hd, rfl⟩, y, mem_lang_many_char.mpr hy, rfl⟩, rfl⟩

/-- The numerals are the texts of the pattern. -/
theorem mem_lang_numberPattern {t : List Char} :
    t ∈ (numberPattern u).lang ↔ ∃ n : Numeral u, n.text = t := by
  simp only [numberPattern, seqs, List.foldr_cons, List.foldr_nil, digit]
  constructor
  · rintro ⟨a, ha, b, ⟨x, ⟨d, hd, rfl⟩, c, ⟨y, hy, e, ⟨z, hz, w, hw, rfl⟩, rfl⟩, rfl⟩, rfl⟩
    rw [(Language.mem_one w).mp hw]
    have htail : ∀ c ∈ y, u.isDigit c = true ∨ c = ',' := by
      intro c hc
      simpa using mem_lang_many_char.mp hy c hc
    have hsign : ∃ neg : Bool, (if neg then ['-'] else []) = a := by
      rcases mem_lang_opt.mp ha with ha | rfl
      · exact ⟨true, (mem_lang_word.mp ha).symm⟩
      · exact ⟨false, rfl⟩
    obtain ⟨neg, rfl⟩ := hsign
    rcases mem_lang_opt.mp hz with hz | rfl
    · obtain ⟨frac, hne, hfrac, rfl⟩ := mem_lang_fraction.mp hz
      exact ⟨⟨neg, d, y, frac, hd, htail, hfrac⟩, by simp [Numeral.text, Numeral.sign, hne]⟩
    · exact ⟨⟨neg, d, y, [], hd, htail, by simp⟩, by simp [Numeral.text, Numeral.sign]⟩
  · rintro ⟨n, rfl⟩
    refine ⟨n.sign, ?_, _, ⟨[n.head], ⟨n.head, n.head_isDigit, rfl⟩, _,
      ⟨n.tail, mem_lang_many_char.mpr fun c hc => by simpa using n.tail_isDigit c hc, _,
        ⟨if n.frac = [] then [] else '.' :: n.frac, ?_, [], Language.nil_mem_one, rfl⟩, rfl⟩,
      rfl⟩, ?_⟩
    · unfold Numeral.sign
      split
      · exact mem_lang_opt.mpr (.inl (mem_lang_word.mpr rfl))
      · exact mem_lang_opt.mpr (.inr rfl)
    · split
      · exact mem_lang_opt.mpr (.inr rfl)
      · rename_i hne
        exact mem_lang_opt.mpr (.inl (mem_lang_fraction.mpr ⟨_, hne, n.frac_isDigit, rfl⟩))
    · simp [Numeral.text]

theorem groups_anchored {answer pattern g : Regex Char} (hpattern : pattern ∈ anchored u answer)
    (hg : g ∈ pattern.groups) (hanswer : answer.groups = []) : g = answer := by
  simp only [anchored, List.mem_cons, List.not_mem_nil, or_false] at hpattern
  rcases hpattern with rfl | rfl | rfl
  · simpa [mem_groups_seqs, groups_word, groups, many, space, hanswer] using hg
  · simpa [mem_groups_seqs, groups_word, groups, many, space, hanswer] using hg
  · simpa [mem_groups_seqs, groups_letters, groups, many, space, hanswer, boundary, opt, plus]
      using hg

theorem groups_numberPattern (u : Unicode) : (numberPattern u).groups = [] := by
  refine List.eq_nil_iff_forall_not_mem.mpr fun g hg => ?_
  simp [numberPattern, mem_groups_seqs, groups_word, groups, opt, many, plus, digit] at hg

/-- What is captured where no fraction is asked for is a numeral. -/
theorem numeral_of_firstGroup {t text : List Char}
    (h : firstGroup (answerPatterns u) text = some t) : ∃ n : Numeral u, n.text = t := by
  obtain ⟨pattern, hpattern, h⟩ := List.exists_of_findSome?_eq_some h
  obtain ⟨d, hd, hcaptured⟩ := Option.bind_eq_some_iff.mp h
  obtain ⟨g, hg, ht⟩ := search_captured hd hcaptured
  rw [groups_anchored hpattern hg (groups_numberPattern u)] at ht
  exact mem_lang_numberPattern.mp ht

theorem numeral_of_extractAnswer {text key : String}
    (h : extractAnswer u text none = some key) :
    ∃ n : Numeral u, String.ofList (normalizeDecimal n.text) = key := by
  have hnone : isFractionPrompt u none = false := rfl
  simp only [extractAnswer, hnone, Bool.false_eq_true, if_false, Option.map_eq_map,
    Option.map_eq_some_iff, Option.or_eq_some_iff] at h
  obtain ⟨s, (⟨t, ht, rfl⟩ | ⟨-, t, ht, rfl⟩), rfl⟩ := h
  · obtain ⟨n, rfl⟩ := numeral_of_firstGroup ht
    exact ⟨n, rfl⟩
  · obtain ⟨n, rfl⟩ := mem_lang_numberPattern.mp (mem_findall (List.mem_of_getLast? ht))
    exact ⟨n, rfl⟩

/-! ## Keys -/

namespace Numeral

variable (n : Numeral u)

theorem int_isDigit {c : Char} (hc : c ∈ n.int) : u.isDigit c = true := by
  obtain ⟨hmem, hne⟩ := List.mem_filter.mp hc
  rcases List.mem_cons.mp hmem with rfl | hmem
  · exact n.head_isDigit
  · exact (n.tail_isDigit c hmem).resolve_right (by simpa using hne)

theorem int_eq : n.int = n.head :: n.tail.filter (· != ',') := by
  have hne : n.head ≠ ',' := ne_of_isDigit n.head_isDigit (by decide) rfl
  simp [int, hne]

/-- The digits after the point, without zeros at the end. -/
def stripped : List Char := n.frac.rdropWhile (· == '0')

/-- The numeral without commas and without zeros at the end. -/
def normal : Numeral u where
  neg := n.neg
  head := n.head
  tail := n.tail.filter (· != ',')
  frac := n.stripped
  head_isDigit := n.head_isDigit
  tail_isDigit c hc := n.tail_isDigit c (List.mem_of_mem_filter hc)
  frac_isDigit c hc := n.frac_isDigit c ((List.rdropWhile_prefix _ _).subset hc)

theorem normal_text :
    n.normal.text = n.sign ++ n.int ++ if n.stripped = [] then [] else '.' :: n.stripped := by
  rw [int_eq]
  rfl

theorem normal_int : n.normal.int = n.int := by
  rw [int_eq n.normal, int_eq]
  simp [normal]

theorem normal_stripped : n.normal.stripped = n.stripped := List.rdropWhile_idempotent _ _

theorem point_notMem : '.' ∉ n.sign ++ n.int := by
  rw [List.mem_append, not_or]
  constructor
  · unfold sign
    split
    · decide
    · simp
  · exact fun h => ne_of_isDigit (n.int_isDigit h) (by decide) rfl rfl

/-- The part before the point does not end in a point. -/
theorem rdropWhile_point :
    (n.sign ++ n.int).rdropWhile (· == '.') = n.sign ++ n.int := by
  rw [List.rdropWhile_eq_self_iff]
  intro hne h
  have hmem := List.getLast_mem hne
  rw [eq_of_beq h] at hmem
  exact n.point_notMem hmem

theorem filter_text : n.text.filter (· != ',') =
    n.sign ++ n.int ++ if n.frac = [] then [] else '.' :: n.frac := by
  have hsign : n.sign.filter (· != ',') = n.sign := by
    unfold sign
    split
    · rfl
    · rfl
  have hfrac : n.frac.filter (· != ',') = n.frac := by
    refine List.filter_eq_self.mpr fun c hc => ?_
    simpa using ne_of_isDigit (d := ',') (n.frac_isDigit c hc) (by decide) rfl
  rw [text, List.filter_append, List.filter_append, hsign, ← int]
  split
  · rfl
  · rw [List.filter_cons_of_pos (by decide), hfrac]

/-- The key of a numeral is the text of its normal form. -/
theorem normalizeDecimal_text : normalizeDecimal n.text = n.normal.text := by
  have hnonempty : (n.normal.text).isEmpty = false := by
    rw [normal_text, int_eq]
    simp
  have hkey : (if '.' ∈ n.text.filter (· != ',') then
      ((n.text.filter (· != ',')).rdropWhile (· == '0')).rdropWhile (· == '.')
      else n.text.filter (· != ',')) = n.normal.text := by
    rw [filter_text, normal_text]
    by_cases hfrac : n.frac = []
    · have hstripped : n.stripped = [] := by simp [stripped, hfrac]
      rw [if_pos hfrac, if_pos hstripped, List.append_nil, if_neg n.point_notMem]
    · have hzeros : ('.' :: n.frac).rdropWhile (· == '0') = '.' :: n.stripped := by
        rw [← List.singleton_append, Positional.rdropWhile_append, stripped]
        split
        · rename_i hnil
          rw [hnil]
          rfl
        · rfl
      rw [if_neg hfrac, if_pos (by simp), Positional.rdropWhile_append, hzeros,
        if_neg (List.cons_ne_nil _ _)]
      split
      · rename_i hnil
        rw [hnil, List.rdropWhile_concat_pos _ _ _ (by decide), rdropWhile_point, List.append_nil]
      · rename_i hne
        rw [List.rdropWhile_eq_self_iff]
        intro _ hlast
        rw [List.getLast_append_of_ne_nil _ (List.cons_ne_nil _ _), List.getLast_cons hne] at hlast
        have hmem := (List.rdropWhile_prefix (· == '0') _).subset (List.getLast_mem hne)
        exact ne_of_isDigit (d := '.') (n.frac_isDigit _ hmem) (by decide) rfl (eq_of_beq hlast)
  rw [normalizeDecimal]
  simp only [hkey, hnonempty, Bool.false_eq_true, if_false]

theorem normalizeDecimal_idempotent :
    normalizeDecimal (normalizeDecimal n.text) = normalizeDecimal n.text := by
  rw [normalizeDecimal_text, normalizeDecimal_text, normal_text, normal_text, normal_int,
    normal_stripped]
  rfl

/-- Sign, digits before the point and digits after it can be read off a normal form. -/
theorem normal_text_inj {n n' : Numeral u} : n.normal.text = n'.normal.text ↔
    n.neg = n'.neg ∧ n.int = n'.int ∧ n.stripped = n'.stripped := by
  constructor
  · intro h
    rw [normal_text, normal_text] at h
    have hbefore : n.sign ++ n.int = n'.sign ++ n'.int := by
      have htake := congrArg (List.takeWhile (· != '.')) h
      have hall : ∀ n : Numeral u, ∀ rest : List Char,
          (n.sign ++ n.int ++ if rest = [] then [] else '.' :: rest).takeWhile (· != '.') =
            n.sign ++ n.int := by
        intro n rest
        rw [List.takeWhile_append_of_pos]
        · split
          · simp
          · simp
        · intro c hc
          have hne : c ≠ '.' := fun heq => n.point_notMem (heq ▸ hc)
          simpa using hne
      rwa [hall, hall] at htake
    have hafter : n.stripped = n'.stripped := by
      rw [hbefore, List.append_cancel_left_eq] at h
      split at h
      · split at h
        · simp [*]
        · cases h
      · split at h
        · cases h
        · exact (List.cons.inj h).2
    have hhead : ∀ n : Numeral u, (n.sign ++ n.int).head? = some '-' ↔ n.neg = true := by
      intro n
      have hne : n.head ≠ '-' := ne_of_isDigit n.head_isDigit (by decide) rfl
      rw [int_eq, sign]
      cases n.neg with
      | true => simp
      | false => simpa using hne
    have hneg : n.neg = n'.neg := by
      rw [Bool.eq_iff_iff, ← hhead, hbefore, hhead]
    refine ⟨hneg, ?_, hafter⟩
    have hsign : n.sign = n'.sign := by rw [sign, hneg, sign]
    rwa [hsign, List.append_cancel_left_eq] at hbefore
  · rintro ⟨hneg, hint, hstripped⟩
    rw [normal_text, normal_text, sign, hneg, hint, hstripped, sign]

/-! ## Values -/

theorem digitValue_lt (u : Unicode) (c : Char) : digitValue u c < 10 := by
  rw [digitValue]
  cases h : u.decimal c with
  | none => decide
  | some n => exact u.decimal_lt c n h

theorem decimal_eq_of_digitValue_eq {c d : Char} (hc : u.isDigit c = true)
    (hd : u.isDigit d = true) (h : digitValue u c = digitValue u d) :
    u.decimal c = u.decimal d := by
  rw [Unicode.isDigit, Option.isSome_iff_exists] at hc hd
  obtain ⟨m, hm⟩ := hc
  obtain ⟨n, hn⟩ := hd
  rw [digitValue, digitValue, hm, hn] at h
  rw [hm, hn]
  exact congrArg some h

theorem digitValue_zero (u : Unicode) : digitValue u '0' = 0 := by
  rw [digitValue, u.decimal_ascii '0' (by decide)]
  rfl

theorem place_mem (k : ℕ) : n.place k ∈ n.int ++ n.frac ∨ n.place k = '0' := by
  rw [place]
  by_cases hk : k < (n.int ++ n.frac).length
  · rw [List.getD_eq_getElem _ _ hk]
    exact .inl (List.getElem_mem hk)
  · exact .inr (List.getD_eq_default _ _ (not_lt.mp hk))

theorem place_isDigit (k : ℕ) : u.isDigit (n.place k) = true := by
  rcases n.place_mem k with h | h
  · rcases List.mem_append.mp h with h | h
    · exact n.int_isDigit h
    · exact n.frac_isDigit _ h
  · rw [h, isDigit_ascii u (by decide)]
    rfl

variable {n} {n' : Numeral u}

/-- With one sign and equally many digits before the point, values are compared digit by digit. -/
theorem value_eq_iff (hneg : n.neg = n'.neg) (hlength : n.int.length = n'.int.length) :
    n.value = n'.value ↔ ∀ k, digitValue u (n.place k) = digitValue u (n'.place k) := by
  have hsign : (if n'.neg = true then (-1 : ℚ) else 1) ≠ 0 := by
    split
    · norm_num
    · norm_num
  have hlt : ∀ m : Numeral u,
      ∀ d ∈ m.int.map (digitValue u) ++ m.frac.map (digitValue u), d < 10 := by
    intro m d hd
    rw [← List.map_append] at hd
    obtain ⟨c, -, rfl⟩ := List.mem_map.mp hd
    exact digitValue_lt u c
  have hplace : ∀ (m : Numeral u) k,
      (m.int.map (digitValue u) ++ m.frac.map (digitValue u)).getD k 0 =
        digitValue u (m.place k) := by
    intro m k
    rw [← List.map_append, ← digitValue_zero u, List.getD_map, place]
  rw [value, value, hneg, mul_right_inj' hsign,
    Positional.value_eq_iff (by norm_num) (by simpa using hlength) (hlt n) (hlt n')]
  simp only [hplace]

theorem normal_text_eq_iff : n.normal.text = n'.normal.text ↔
    n.neg = n'.neg ∧ n.int.length = n'.int.length ∧ ∀ k, n.place k = n'.place k := by
  rw [normal_text_inj, stripped, stripped, Positional.rdropWhile_eq_iff]
  constructor
  · rintro ⟨hneg, hint, hfrac⟩
    have hlength := congrArg List.length hint
    exact ⟨hneg, hlength, (Positional.eq_append_iff hlength).mpr ⟨hint, hfrac⟩⟩
  · rintro ⟨hneg, hlength, hplace⟩
    exact ⟨hneg, (Positional.eq_append_iff hlength).mp hplace⟩

/-- Equal keys are for equal numbers. -/
theorem value_eq_of_key_eq (h : normalizeDecimal n.text = normalizeDecimal n'.text) :
    n.value = n'.value := by
  rw [normalizeDecimal_text, normalizeDecimal_text, normal_text_eq_iff] at h
  obtain ⟨hneg, hlength, hplace⟩ := h
  exact (value_eq_iff hneg hlength).mpr fun k => by rw [hplace]

/-- Two numerals are spelled the same way: one sign, as many digits before the point, and no
digit in another script. -/
structure SameSpelling (n n' : Numeral u) : Prop where
  sign : n.neg = n'.neg
  length : n.int.length = n'.int.length
  script : ∀ k, u.decimal (n.place k) = u.decimal (n'.place k) → n.place k = n'.place k

theorem key_eq_iff : normalizeDecimal n.text = normalizeDecimal n'.text ↔
    n.value = n'.value ∧ SameSpelling n n' := by
  constructor
  · intro h
    have hvalue := value_eq_of_key_eq h
    rw [normalizeDecimal_text, normalizeDecimal_text, normal_text_eq_iff] at h
    obtain ⟨hneg, hlength, hplace⟩ := h
    exact ⟨hvalue, hneg, hlength, fun k _ => hplace k⟩
  · rintro ⟨hvalue, hneg, hlength, hscript⟩
    rw [normalizeDecimal_text, normalizeDecimal_text, normal_text_eq_iff]
    refine ⟨hneg, hlength, fun k => hscript k ?_⟩
    exact decimal_eq_of_digitValue_eq (n.place_isDigit k) (n'.place_isDigit k)
      ((value_eq_iff hneg hlength).mp hvalue k)

/-- ASCII digits are of one script. -/
theorem script_of_ascii (h : ∀ c ∈ n.int ++ n.frac, c.toNat < 128)
    (h' : ∀ c ∈ n'.int ++ n'.frac, c.toNat < 128) (k : ℕ)
    (hdecimal : u.decimal (n.place k) = u.decimal (n'.place k)) : n.place k = n'.place k := by
  have hascii : ∀ m : Numeral u, (∀ c ∈ m.int ++ m.frac, c.toNat < 128) →
      (m.place k).toNat < 128 := by
    intro m hm
    rcases m.place_mem k with hplace | hplace
    · exact hm _ hplace
    · rw [hplace]
      decide
  have hdigit : ∀ m : Numeral u, (∀ c ∈ m.int ++ m.frac, c.toNat < 128) →
      (m.place k).isDigit = true := by
    intro m hm
    rw [← isDigit_ascii u (hascii m hm)]
    exact m.place_isDigit k
  have hfloor : ∀ c : Char, c.isDigit = true → '0'.toNat ≤ c.toNat := by
    intro c hc
    simp only [Char.isDigit, Bool.and_eq_true, decide_eq_true_eq] at hc
    exact hc.1
  rw [u.decimal_ascii _ (hascii n h), u.decimal_ascii _ (hascii n' h'), hdigit n h,
    hdigit n' h', if_pos rfl, if_pos rfl, Option.some.injEq] at hdecimal
  have hge := hfloor _ (hdigit n h)
  have hge' := hfloor _ (hdigit n' h')
  exact Char.ext (UInt32.toNat_inj.mp (by
    show (n.place k).toNat = (n'.place k).toNat
    omega))

/-- The votes for a numeral, by key and by value. -/
theorem count_eq_countP_iff (ns : List (Numeral u)) (n : Numeral u) :
    (ns.map fun m => some (String.ofList (normalizeDecimal m.text))).count
        (some (String.ofList (normalizeDecimal n.text))) =
      ns.countP (fun m => m.value = n.value) ↔
    ∀ m ∈ ns, m.value = n.value → SameSpelling m n := by
  have hle : ∀ ns : List (Numeral u),
      (ns.map fun m => some (String.ofList (normalizeDecimal m.text))).count
        (some (String.ofList (normalizeDecimal n.text))) ≤
      ns.countP fun m => m.value = n.value := by
    intro ns
    rw [List.count, List.countP_map]
    refine List.countP_mono_left fun m _ hm => ?_
    have hkey := String.ofList_injective (Option.some.inj (eq_of_beq hm))
    simpa using value_eq_of_key_eq hkey
  induction ns with
  | nil => simp
  | cons m ns ih =>
    have hrest := hle ns
    rw [List.map_cons, List.count_cons, List.countP_cons, List.forall_mem_cons, ← propext ih]
    by_cases hvalue : m.value = n.value
    · by_cases hspelling : SameSpelling m n
      · have hkey := key_eq_iff.mpr ⟨hvalue, hspelling⟩
        simp [hvalue, hspelling, hkey]
      · have hkey : normalizeDecimal m.text ≠ normalizeDecimal n.text :=
          fun h => hspelling (key_eq_iff.mp h).2
        have hkey' : String.ofList (normalizeDecimal m.text) ≠
            String.ofList (normalizeDecimal n.text) := fun h => hkey (String.ofList_injective h)
        simp only [hvalue, hspelling, Option.some.injEq, beq_iff_eq, hkey', if_false, decide_true,
          if_true, true_implies, false_and, iff_false]
        omega
    · have hkey : normalizeDecimal m.text ≠ normalizeDecimal n.text :=
        fun h => hvalue (value_eq_of_key_eq h)
      have hkey' : String.ofList (normalizeDecimal m.text) ≠
          String.ofList (normalizeDecimal n.text) := fun h => hkey (String.ofList_injective h)
      simp [hvalue, hkey']

end Numeral

open Numeral

/-- **Keys of decimal answers.** What is voted on are normalized numerals, normalizing is
idempotent, and equal keys are for equal numbers. Two numerals have equal keys iff they denote the
same number, exactly if they do not denote it in two spellings: with different signs, with zeros
in front, or with digits of another script. So the votes for a numeral are those for its number
iff no other spelling of it is in the list. -/
theorem sameKey_iff_sameValue (u : Unicode) :
    (∀ t, t ∈ (numberPattern u).lang ↔ ∃ n : Numeral u, n.text = t) ∧
    (∀ text key, extractAnswer u text none = some key →
      ∃ n : Numeral u, String.ofList (normalizeDecimal n.text) = key) ∧
    (∀ n : Numeral u,
      normalizeDecimal (normalizeDecimal n.text) = normalizeDecimal n.text) ∧
    (∀ a b : Numeral u, normalizeDecimal a.text = normalizeDecimal b.text → a.value = b.value) ∧
    (∀ a b : Numeral u,
      ((normalizeDecimal a.text = normalizeDecimal b.text ↔ a.value = b.value) ↔
        (a.value = b.value → SameSpelling a b)) ∧
      ((∀ c ∈ a.int ++ a.frac, c.toNat < 128) → (∀ c ∈ b.int ++ b.frac, c.toNat < 128) →
        (SameSpelling a b ↔ a.neg = b.neg ∧ a.int.length = b.int.length))) ∧
    ∀ (ns : List (Numeral u)) (n : Numeral u),
      (ns.map fun m => some (String.ofList (normalizeDecimal m.text))).count
          (some (String.ofList (normalizeDecimal n.text))) =
        ns.countP (fun m => m.value = n.value) ↔
      ∀ m ∈ ns, m.value = n.value → SameSpelling m n := by
  refine ⟨fun t => mem_lang_numberPattern, fun text key => numeral_of_extractAnswer,
    normalizeDecimal_idempotent, fun a b => value_eq_of_key_eq, fun a b => ⟨?_, ?_⟩,
    count_eq_countP_iff⟩
  · rw [key_eq_iff]
    constructor
    · exact fun h hvalue => (h.mpr hvalue).2
    · exact fun h => ⟨fun hkey => hkey.1, fun hvalue => ⟨hvalue, h hvalue⟩⟩
  · intro ha hb
    constructor
    · exact fun h => ⟨h.sign, h.length⟩
    · exact fun h => ⟨h.1, h.2, script_of_ascii ha hb⟩

def zeroZeroSeven : Numeral .ascii :=
  ⟨false, '0', ['0', '7'], [], by decide, fun c hc => by
    simp only [List.mem_cons, List.not_mem_nil, or_false] at hc
    rcases hc with rfl | rfl
    · exact .inl (by decide)
    · exact .inl (by decide), by simp⟩

def seven : Numeral .ascii := ⟨false, '7', [], [], by decide, by simp, by simp⟩

/-- `007` and `7` have different keys. -/
theorem zeroZeroSeven_apart :
    zeroZeroSeven.text = "007".toList ∧ seven.text = "7".toList ∧
      zeroZeroSeven.value = seven.value ∧
      normalizeDecimal zeroZeroSeven.text ≠ normalizeDecimal seven.text :=
  ⟨by decide, by decide, by decide +kernel, by decide⟩

end Trainfer
