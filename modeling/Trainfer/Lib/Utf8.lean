import Mathlib.Data.List.Basic

/-! UTF-8 of whole texts. A byte below 128 in an encoding is a character of its own, so a
separator or a whitespace byte is only there where the text has that character, and bytes can
be split there without splitting a character. -/

namespace Utf8

def encode (s : String) : List UInt8 := s.toList.flatMap String.utf8EncodeChar

/-- The bytes decode as UTF-8. -/
def Valid (bs : List UInt8) : Prop := ∃ s, encode s = bs

theorem toNat_of_mem_utf8EncodeChar {c : Char} {b : UInt8} (h : b ∈ String.utf8EncodeChar c)
    (hb : b.toNat < 128) : c.toNat = b.toNat := by
  have hlow : ∀ n : Nat, 128 ≤ n → n < 256 → b = UInt8.ofNat n → False := by
    intro n hn hn' he
    rw [he, UInt8.toNat_ofNat', Nat.mod_eq_of_lt hn'] at hb
    omega
  unfold String.utf8EncodeChar at h
  simp only at h
  split at h
  · -- the one-byte case; every byte of the others has its top bit set
    rename_i hv
    obtain rfl := List.mem_singleton.mp h
    rw [UInt8.toNat_ofNat']
    change c.val.toNat = c.val.toNat % 2 ^ 8
    omega
  · split at h
    · simp only [List.mem_cons, List.not_mem_nil, or_false] at h
      rcases h with h | h
      · exact (hlow _ (by omega) (by omega) h).elim
      · exact (hlow _ (by omega) (by omega) h).elim
    · split at h
      · simp only [List.mem_cons, List.not_mem_nil, or_false] at h
        rcases h with h | h | h
        · exact (hlow _ (by omega) (by omega) h).elim
        · exact (hlow _ (by omega) (by omega) h).elim
        · exact (hlow _ (by omega) (by omega) h).elim
      · simp only [List.mem_cons, List.not_mem_nil, or_false] at h
        rcases h with h | h | h | h
        · exact (hlow _ (by omega) (by omega) h).elim
        · exact (hlow _ (by omega) (by omega) h).elim
        · exact (hlow _ (by omega) (by omega) h).elim
        · exact (hlow _ (by omega) (by omega) h).elim

theorem mem_of_mem_encode {s : String} {b : UInt8} (h : b ∈ encode s) (hb : b.toNat < 128) :
    ∃ c ∈ s.toList, c.toNat = b.toNat := by
  obtain ⟨c, hc, hbc⟩ := List.mem_flatMap.mp h
  exact ⟨c, hc, toNat_of_mem_utf8EncodeChar hbc hb⟩

theorem head_of_head_encode {s : String} {b : UInt8} (h : (encode s).head? = some b)
    (hb : b.toNat < 128) : ∃ c, s.toList.head? = some c ∧ c.toNat = b.toNat := by
  unfold encode at h
  cases hs : s.toList with
  | nil => simp [hs] at h
  | cons c cs =>
    rw [hs, List.flatMap_cons, List.head?_append_of_ne_nil _ String.utf8EncodeChar_ne_nil] at h
    exact ⟨c, rfl, toNat_of_mem_utf8EncodeChar (List.mem_of_head? h) hb⟩

theorem last_of_last_encode {s : String} {b : UInt8} (h : (encode s).getLast? = some b)
    (hb : b.toNat < 128) : ∃ c, s.toList.getLast? = some c ∧ c.toNat = b.toNat := by
  unfold encode at h
  rcases List.eq_nil_or_concat s.toList with hs | ⟨cs, c, hs⟩
  · simp [hs] at h
  · rw [hs, List.concat_eq_append, List.flatMap_append, List.flatMap_singleton,
      List.getLast?_append_of_ne_nil _ String.utf8EncodeChar_ne_nil] at h
    exact ⟨c, by simp [hs], toNat_of_mem_utf8EncodeChar (List.mem_of_getLast? h) hb⟩

theorem encode_ne_nil {s : String} (h : s ≠ "") : encode s ≠ [] := by
  unfold encode
  cases hs : s.toList with
  | nil => exact absurd (String.toList_eq_nil_iff.mp hs) h
  | cons c cs => simp [String.utf8EncodeChar_ne_nil]

/-! ## Splitting at a byte below 128 -/

theorem utf8EncodeChar_of_lt {c : Char} (h : c.toNat < 128) :
    String.utf8EncodeChar c = [UInt8.ofNat c.toNat] := by
  have hv : c.val.toNat ≤ 127 := Nat.le_of_lt_succ h
  unfold String.utf8EncodeChar
  exact if_pos hv

theorem valid_nil : Valid [] := ⟨"", rfl⟩

theorem Valid.append {as bs : List UInt8} (ha : Valid as) (hb : Valid bs) : Valid (as ++ bs) := by
  obtain ⟨s, rfl⟩ := ha
  obtain ⟨t, rfl⟩ := hb
  exact ⟨s ++ t, by simp [encode]⟩

theorem valid_singleton {b : UInt8} (h : b.toNat < 128) : Valid [b] := by
  have hc : (Char.ofNat b.toNat).toNat = b.toNat := by
    rw [Char.ofNat, dif_pos (.inl (by omega))]
    rfl
  refine ⟨String.ofList [Char.ofNat b.toNat], ?_⟩
  rw [encode, String.toList_ofList, List.flatMap_singleton, utf8EncodeChar_of_lt (by rwa [hc]), hc,
    UInt8.ofNat_toNat]

/-- The character of the byte, and what is before and behind it. -/
theorem flatMap_eq_append_cons {cs : List Char} {as bs : List UInt8} {b : UInt8}
    (hb : b.toNat < 128) (h : cs.flatMap String.utf8EncodeChar = as ++ b :: bs) :
    ∃ ds es : List Char,
      ds.flatMap String.utf8EncodeChar = as ∧ es.flatMap String.utf8EncodeChar = bs := by
  induction cs generalizing as with
  | nil => simp at h
  | cons c cs ih =>
    have hlater : ∀ as', as = String.utf8EncodeChar c ++ as' →
        cs.flatMap String.utf8EncodeChar = as' ++ b :: bs → ∃ ds es : List Char,
          ds.flatMap String.utf8EncodeChar = as ∧ es.flatMap String.utf8EncodeChar = bs := by
      rintro as' rfl hcs
      obtain ⟨ds, es, rfl, rfl⟩ := ih hcs
      exact ⟨c :: ds, es, rfl, rfl⟩
    rw [List.flatMap_cons] at h
    rcases List.append_eq_append_iff.mp h with ⟨as', has, hcs⟩ | ⟨rest, hc, hrest⟩
    · exact hlater as' has hcs
    · cases rest with
      | nil => exact hlater [] (by simpa using hc.symm) (by simpa using hrest.symm)
      | cons x rest =>
        obtain ⟨rfl, rfl⟩ := List.cons.inj hrest
        -- the byte is in the first character, so it is the whole of it
        have hmem : b ∈ String.utf8EncodeChar c := by simp [hc]
        rw [utf8EncodeChar_of_lt (by rwa [toNat_of_mem_utf8EncodeChar hmem hb])] at hc
        obtain ⟨rfl, hone⟩ := List.singleton_eq_append_iff.mp hc |>.resolve_right (by simp)
        obtain rfl := (List.cons.inj hone).2
        exact ⟨[], cs, rfl, rfl⟩

theorem valid_append_cons_iff {as bs : List UInt8} {b : UInt8} (hb : b.toNat < 128) :
    Valid (as ++ b :: bs) ↔ Valid as ∧ Valid bs := by
  constructor
  · rintro ⟨s, hs⟩
    obtain ⟨ds, es, rfl, rfl⟩ := flatMap_eq_append_cons hb hs
    exact ⟨⟨String.ofList ds, by simp [encode]⟩, ⟨String.ofList es, by simp [encode]⟩⟩
  · rintro ⟨ha, hbs⟩
    exact ha.append ((valid_singleton hb).append hbs)

theorem valid_of_lt {bs : List UInt8} (h : ∀ b ∈ bs, b.toNat < 128) : Valid bs := by
  induction bs with
  | nil => exact valid_nil
  | cons b bs ih =>
    obtain ⟨hb, hbs⟩ := List.forall_mem_cons.mp h
    exact (valid_singleton hb).append (ih hbs)

theorem valid_append_iff_of_lt {as bs : List UInt8} (h : ∀ b ∈ bs, b.toNat < 128) :
    Valid (as ++ bs) ↔ Valid as := by
  cases bs with
  | nil => rw [List.append_nil]
  | cons b bs =>
    obtain ⟨hb, hbs⟩ := List.forall_mem_cons.mp h
    rw [valid_append_cons_iff hb]
    exact and_iff_left (valid_of_lt hbs)

end Utf8
