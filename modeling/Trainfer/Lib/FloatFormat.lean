import Mathlib.Algebra.Order.Ring.Nat
import Mathlib.Data.Nat.Log
import Mathlib.Tactic.Ring

/-! Binary floating-point formats on the level of their bits, without the sign.

The exponent field and the fraction, read as one number, are the magnitude bits of a number.
`value` is what they stand for, in units that are fine enough for every format at hand, and
`encode` rounds a number of units to the nearest magnitude, ties to even. `round_trip_iff` is
about a conversion to another format and back. -/

structure FloatFormat where
  fracBits : Nat
  expBits : Nat
  /-- The least positive number is `2 ^ unit` units. -/
  unit : Nat
  deriving DecidableEq, Repr

namespace FloatFormat

/-- The magnitude bits of infinity; those above it are NaNs. -/
def infinity (F : FloatFormat) : Nat := (2 ^ F.expBits - 1) * 2 ^ F.fracBits

/-- The fraction, with the hidden bit of a normal number. -/
def significand (F : FloatFormat) (k : Nat) : Nat :=
  if k / 2 ^ F.fracBits = 0 then k else 2 ^ F.fracBits + k % 2 ^ F.fracBits

/-- The exponent of the last place. -/
def exponent (F : FloatFormat) (k : Nat) : Nat := k / 2 ^ F.fracBits - 1 + F.unit

def value (F : FloatFormat) (k : Nat) : Nat := F.significand k * 2 ^ F.exponent k

/-- `n / 2 ^ p`, rounded to the nearest integer, ties to even. -/
def halfEven (n p : Nat) : Nat :=
  if 2 ^ p < 2 * (n % 2 ^ p) ∨ (2 ^ p = 2 * (n % 2 ^ p) ∧ n / 2 ^ p % 2 = 1) then n / 2 ^ p + 1
  else n / 2 ^ p

/-- The exponent of the last place that is kept of `n`. -/
def scale (F : FloatFormat) (n : Nat) : Nat := max F.unit (n.log2 - F.fracBits)

/-- The nearest magnitude, as if there were no largest number. A carry out of the fraction
goes to the exponent. -/
def encode (F : FloatFormat) (n : Nat) : Nat :=
  halfEven n (F.scale n) + (F.scale n - F.unit) * 2 ^ F.fracBits

/-- The magnitude bits of the rounded number; what is too large becomes infinity. -/
def round (F : FloatFormat) (n : Nat) : Nat := min (F.encode n) F.infinity

/-- The number has a magnitude in the format, if there were no largest one. -/
def Fits (F : FloatFormat) (n : Nat) : Prop :=
  ∃ c p, n = c * 2 ^ p ∧ c < 2 ^ (F.fracBits + 1) ∧ F.unit ≤ p

/-- The number is a finite one of the format. -/
def Holds (F : FloatFormat) (n : Nat) : Prop := ∃ k < F.infinity, F.value k = n

variable {F : FloatFormat} {k n p : Nat}

/-! ## Values -/

theorem halfEven_mul (c p : Nat) : halfEven (c * 2 ^ p) p = c := by
  have hpos : 0 < 2 ^ p := Nat.two_pow_pos p
  unfold halfEven
  rw [Nat.mul_mod_left, Nat.mul_div_cancel _ hpos, if_neg]
  omega

theorem halfEven_bounds (n p : Nat) : n / 2 ^ p ≤ halfEven n p ∧ halfEven n p ≤ n / 2 ^ p + 1 := by
  unfold halfEven
  split <;> omega

theorem significand_lt (F : FloatFormat) (k : Nat) : F.significand k < 2 ^ (F.fracBits + 1) := by
  have hpos : 0 < 2 ^ F.fracBits := Nat.two_pow_pos _
  have hmod : k % 2 ^ F.fracBits < 2 ^ F.fracBits := Nat.mod_lt k hpos
  unfold significand
  rw [Nat.pow_succ]
  split
  · rename_i h
    have := (Nat.div_eq_zero_iff_lt hpos).mp h
    omega
  · omega

theorem unit_le_exponent (F : FloatFormat) (k : Nat) : F.unit ≤ F.exponent k :=
  Nat.le_add_left _ _

theorem fits_value (F : FloatFormat) (k : Nat) : F.Fits (F.value k) :=
  ⟨F.significand k, F.exponent k, rfl, F.significand_lt k, F.unit_le_exponent k⟩

/-- A significand above the exponent steps, also one that carries. -/
theorem value_add {c j : Nat} (hc : c ≤ 2 ^ (F.fracBits + 1))
    (hnormal : j = 0 ∨ 2 ^ F.fracBits ≤ c) :
    F.value (c + j * 2 ^ F.fracBits) = c * 2 ^ (j + F.unit) := by
  have hpos : 0 < 2 ^ F.fracBits := Nat.two_pow_pos _
  have hdiv : (c + j * 2 ^ F.fracBits) / 2 ^ F.fracBits = c / 2 ^ F.fracBits + j :=
    Nat.add_mul_div_right _ _ hpos
  have hmod : (c + j * 2 ^ F.fracBits) % 2 ^ F.fracBits = c % 2 ^ F.fracBits :=
    Nat.add_mul_mod_self_right _ _ _
  rw [Nat.pow_succ] at hc
  unfold value significand exponent
  rw [hdiv, hmod]
  by_cases hsmall : c < 2 ^ F.fracBits
  · obtain rfl : j = 0 := hnormal.resolve_right (by omega)
    simp [Nat.div_eq_of_lt hsmall]
  · by_cases hcarry : c = 2 ^ F.fracBits * 2
    · subst hcarry
      have htwo : 2 ^ F.fracBits * 2 / 2 ^ F.fracBits = 2 := Nat.mul_div_cancel_left 2 hpos
      have hzero : 2 ^ F.fracBits * 2 % 2 ^ F.fracBits = 0 := Nat.mul_mod_right _ _
      rw [htwo, hzero, if_neg (by omega)]
      have hexp : 2 + j - 1 + F.unit = j + F.unit + 1 := by omega
      rw [hexp, Nat.pow_succ]
      ring
    · have hone : c / 2 ^ F.fracBits = 1 :=
        Nat.div_eq_of_lt_le (by omega) (by omega)
      have hsub : c % 2 ^ F.fracBits = c - 2 ^ F.fracBits := by
        rw [Nat.mod_eq_sub_mod (by omega), Nat.mod_eq_of_lt (by omega)]
      rw [hone, hsub, if_neg (by omega)]
      have hsum : 2 ^ F.fracBits + (c - 2 ^ F.fracBits) = c := by omega
      have hexp : 1 + j - 1 + F.unit = j + F.unit := by omega
      rw [hsum, hexp]

/-! ## Rounding -/

theorem unit_le_scale (F : FloatFormat) (n : Nat) : F.unit ≤ F.scale n := Nat.le_max_left _ _

theorem lt_two_pow_scale (F : FloatFormat) (n : Nat) :
    n < 2 ^ (F.fracBits + 1) * 2 ^ F.scale n := by
  have hlog : n < 2 ^ (n.log2 + 1) := Nat.lt_log2_self
  have hle : n.log2 - F.fracBits ≤ F.scale n := Nat.le_max_right _ _
  rw [← Nat.pow_add]
  exact hlog.trans_le (Nat.pow_le_pow_right (by decide) (by omega))

/-- A number in which few bits are set keeps all of them. -/
theorem scale_le {c : Nat} (hc : c < 2 ^ (F.fracBits + 1)) (hp : F.unit ≤ p) :
    F.scale (c * 2 ^ p) ≤ p := by
  refine Nat.max_le.mpr ⟨hp, ?_⟩
  by_cases hzero : c * 2 ^ p = 0
  · simp [hzero]
  · have hlt : c * 2 ^ p < 2 ^ (F.fracBits + 1 + p) := by
      rw [Nat.pow_add]
      exact Nat.mul_lt_mul_of_pos_right hc (Nat.two_pow_pos p)
    have hlog := (Nat.log2_lt hzero).mpr hlt
    omega

theorem scale_value (F : FloatFormat) (k : Nat) : F.scale (F.value k) = F.exponent k := by
  have hle : F.scale (F.value k) ≤ F.exponent k :=
    scale_le (F.significand_lt k) (F.unit_le_exponent k)
  by_cases hsub : k / 2 ^ F.fracBits = 0
  · have hexp : F.exponent k = F.unit := by simp [exponent, hsub]
    have hunit := F.unit_le_scale (F.value k)
    omega
  · have hsig : 2 ^ F.fracBits ≤ F.significand k := by
      rw [significand, if_neg hsub]
      omega
    have hge : 2 ^ (F.fracBits + F.exponent k) ≤ F.value k := by
      rw [Nat.pow_add]
      exact Nat.mul_le_mul_right _ hsig
    have hne : F.value k ≠ 0 := by
      have := Nat.two_pow_pos (F.fracBits + F.exponent k)
      omega
    have hlog : F.fracBits + F.exponent k ≤ (F.value k).log2 := (Nat.le_log2 hne).mpr hge
    have hscale : (F.value k).log2 - F.fracBits ≤ F.scale (F.value k) := Nat.le_max_right _ _
    omega

/-- **Exact numbers stay.** Rounding the value of a magnitude gives the magnitude back. -/
theorem encode_value (F : FloatFormat) (k : Nat) : F.encode (F.value k) = k := by
  unfold encode
  rw [scale_value, value, halfEven_mul]
  have hk := Nat.div_add_mod k (2 ^ F.fracBits)
  unfold significand exponent
  split
  · rename_i hsub
    simp [hsub]
  · rename_i hnormal
    have hexp : k / 2 ^ F.fracBits - 1 + F.unit - F.unit = k / 2 ^ F.fracBits - 1 :=
      Nat.add_sub_cancel _ _
    have hone : 2 ^ F.fracBits + (k / 2 ^ F.fracBits - 1) * 2 ^ F.fracBits =
        2 ^ F.fracBits * (k / 2 ^ F.fracBits) := by
      have hsucc : k / 2 ^ F.fracBits = k / 2 ^ F.fracBits - 1 + 1 :=
        (Nat.succ_pred_eq_of_ne_zero hnormal).symm
      conv_rhs => rw [hsucc]
      ring
    rw [hexp]
    omega

theorem value_injective (F : FloatFormat) : Function.Injective F.value :=
  fun j k h => by rw [← F.encode_value j, h, F.encode_value]

/-- The value of a rounded number. -/
theorem value_encode (F : FloatFormat) (n : Nat) :
    F.value (F.encode n) = halfEven n (F.scale n) * 2 ^ F.scale n := by
  have hpos : 0 < 2 ^ F.scale n := Nat.two_pow_pos _
  have hquot : n / 2 ^ F.scale n < 2 ^ (F.fracBits + 1) :=
    (Nat.div_lt_iff_lt_mul hpos).mpr (F.lt_two_pow_scale n)
  obtain ⟨hlow, hhigh⟩ := halfEven_bounds n (F.scale n)
  have hunit := F.unit_le_scale n
  have hsum : F.scale n - F.unit + F.unit = F.scale n := by omega
  unfold encode
  rw [value_add (by omega), hsum]
  by_cases hsub : F.scale n = F.unit
  · exact .inl (by omega)
  · right
    -- above the subnormal numbers the leading bit is kept
    have hscale : F.scale n = n.log2 - F.fracBits := by
      have : F.scale n = max F.unit (n.log2 - F.fracBits) := rfl
      omega
    have hne : n ≠ 0 := by
      rintro rfl
      simp at hscale
      omega
    have hlead : 2 ^ F.fracBits * 2 ^ F.scale n ≤ n := by
      rw [← Nat.pow_add]
      have hexp : F.fracBits + F.scale n = n.log2 := by omega
      rw [hexp]
      exact Nat.log2_self_le hne
    exact ((Nat.le_div_iff_mul_le hpos).mpr hlead).trans hlow

theorem value_encode_of_fits (h : F.Fits n) : F.value (F.encode n) = n := by
  obtain ⟨c, p, rfl, hc, hp⟩ := h
  have hle := scale_le hc hp
  rw [value_encode]
  generalize F.scale (c * 2 ^ p) = s at hle ⊢
  obtain ⟨d, rfl⟩ := Nat.exists_eq_add_of_le hle
  have hsplit : c * 2 ^ (s + d) = c * 2 ^ d * 2 ^ s := by
    rw [Nat.pow_add, Nat.mul_comm (2 ^ s), Nat.mul_assoc]
  rw [hsplit, halfEven_mul]

theorem holds_of_fits (h : F.Fits n) (hk : F.encode n < F.infinity) : F.Holds n :=
  ⟨F.encode n, hk, value_encode_of_fits h⟩

theorem round_value (hk : k < F.infinity) : F.round (F.value k) = k := by
  rw [round, encode_value, Nat.min_eq_left hk.le]

/-! ## To another format and back -/

/-- A finite number, rounded to the format `B` and from there to `S`. -/
def back (S B : FloatFormat) (k : Nat) : Nat :=
  if B.round (S.value k) < B.infinity then S.round (B.value (B.round (S.value k))) else S.infinity

/-- A rounded number is exact in the format it comes from, unless it was exact in the format it
was rounded to. -/
theorem fits_or_fits {S B : FloatFormat} (hfrac : B.fracBits ≤ S.fracBits) (k : Nat) :
    S.Fits (B.value (B.encode (S.value k))) ∨ B.Fits (S.value k) := by
  by_cases hscale : S.unit ≤ B.scale (S.value k)
  · left
    have hquot : S.value k / 2 ^ B.scale (S.value k) < 2 ^ (B.fracBits + 1) :=
      (Nat.div_lt_iff_lt_mul (Nat.two_pow_pos _)).mpr (B.lt_two_pow_scale _)
    obtain ⟨-, hhigh⟩ := halfEven_bounds (S.value k) (B.scale (S.value k))
    have hpow : 2 ^ (B.fracBits + 1) ≤ 2 ^ (S.fracBits + 1) :=
      Nat.pow_le_pow_right (by decide) (by omega)
    rw [value_encode]
    by_cases hcarry : halfEven (S.value k) (B.scale (S.value k)) = 2 ^ (B.fracBits + 1)
    · -- the carry makes it a power of two
      refine ⟨2 ^ B.fracBits, B.scale (S.value k) + 1, ?_, ?_, by omega⟩
      · rw [hcarry]
        ring
      · exact Nat.pow_lt_pow_right (by decide) (by omega)
    · exact ⟨_, _, rfl, by omega, hscale⟩
  · right
    -- every number of the first format is a multiple of `2 ^ S.unit`
    obtain ⟨c, p, hvalue, -, hp⟩ := S.fits_value k
    have hbound := B.lt_two_pow_scale (S.value k)
    obtain ⟨d, rfl⟩ := Nat.exists_eq_add_of_le hp
    have hsplit : S.value k = c * 2 ^ d * 2 ^ S.unit := by
      rw [hvalue, Nat.pow_add]
      ring
    have hunit := B.unit_le_scale (S.value k)
    refine ⟨c * 2 ^ d, S.unit, hsplit, ?_, by omega⟩
    have hlt : c * 2 ^ d * 2 ^ S.unit < 2 ^ (B.fracBits + 1) * 2 ^ S.unit := by
      rw [← hsplit]
      refine hbound.trans_le (Nat.mul_le_mul_left _ (Nat.pow_le_pow_right (by decide) (by omega)))
    exact Nat.lt_of_mul_lt_mul_right hlt

/-- **Round trips.** A finite number survives the way through a format with no more fraction
bits just if it is a number of that format. -/
theorem round_trip_iff {S B : FloatFormat} (hfrac : B.fracBits ≤ S.fracBits)
    (hk : k < S.infinity) : back S B k = k ↔ B.Holds (S.value k) := by
  unfold back
  constructor
  · intro h
    split at h
    · rename_i hfinite
      have henc : B.encode (S.value k) < B.infinity := by
        unfold round at hfinite
        omega
      have hround : B.round (S.value k) = B.encode (S.value k) := Nat.min_eq_left henc.le
      refine ⟨B.encode (S.value k), henc, ?_⟩
      rcases fits_or_fits hfrac k with hfits | hfits
      · rw [hround] at h
        have hexact : S.encode (B.value (B.encode (S.value k))) = k := by
          unfold round at h
          omega
        rw [← value_encode_of_fits hfits, hexact]
      · exact value_encode_of_fits hfits
    · omega
  · rintro ⟨j, hj, hvalue⟩
    rw [← hvalue, round_value hj, if_pos hj, hvalue, round_value hk]

/-! ## Which numbers two formats share -/

/-- The bits of the number between its first one and its last are at most `b`. -/
def Narrow (b n : Nat) : Prop := ∃ c i, n = c * 2 ^ i ∧ c < 2 ^ b

theorem value_lt (hexp : 2 ≤ F.expBits) (hk : k < F.infinity) :
    F.value k < 2 ^ (F.fracBits + 2 ^ F.expBits - 2 + F.unit) := by
  have hfour : 4 ≤ 2 ^ F.expBits := Nat.pow_le_pow_right (n := 2) (by decide) hexp
  have hquot : k / 2 ^ F.fracBits < 2 ^ F.expBits - 1 :=
    (Nat.div_lt_iff_lt_mul (Nat.two_pow_pos _)).mpr hk
  have hpow : 2 ^ (F.fracBits + 1) * 2 ^ F.exponent k ≤
      2 ^ (F.fracBits + 2 ^ F.expBits - 2 + F.unit) := by
    rw [← Nat.pow_add]
    refine Nat.pow_le_pow_right (by decide) ?_
    unfold exponent
    omega
  exact (Nat.mul_lt_mul_of_pos_right (F.significand_lt k) (Nat.two_pow_pos _)).trans_le hpow

theorem encode_lt (hexp : 2 ≤ F.expBits) (h : F.Fits n)
    (hn : n < 2 ^ (F.fracBits + 2 ^ F.expBits - 2 + F.unit)) : F.encode n < F.infinity := by
  by_contra hge
  have hfour : 4 ≤ 2 ^ F.expBits := Nat.pow_le_pow_right (n := 2) (by decide) hexp
  have hquot : 2 ^ F.expBits - 1 ≤ F.encode n / 2 ^ F.fracBits :=
    (Nat.le_div_iff_mul_le (Nat.two_pow_pos _)).mpr (Nat.le_of_not_lt hge)
  have hsig : 2 ^ F.fracBits ≤ F.significand (F.encode n) := by
    rw [significand, if_neg (by omega)]
    omega
  have hpow : 2 ^ (F.fracBits + 2 ^ F.expBits - 2 + F.unit) ≤
      2 ^ F.fracBits * 2 ^ F.exponent (F.encode n) := by
    rw [← Nat.pow_add]
    refine Nat.pow_le_pow_right (by decide) ?_
    unfold exponent
    omega
  have hvalue : 2 ^ F.fracBits * 2 ^ F.exponent (F.encode n) ≤ F.value (F.encode n) :=
    Nat.mul_le_mul_right _ hsig
  rw [value_encode_of_fits h] at hvalue
  omega

/-- In a format with a wider range only the significand counts. -/
theorem holds_iff_narrow {S B : FloatFormat} (hS : 2 ≤ S.expBits) (hB : 2 ≤ B.expBits)
    (hunit : B.unit ≤ S.unit) (hrange : S.fracBits + 2 ^ S.expBits + S.unit ≤
      B.fracBits + 2 ^ B.expBits + B.unit) (hk : k < S.infinity) :
    B.Holds (S.value k) ↔ Narrow (B.fracBits + 1) (S.significand k) := by
  constructor
  · rintro ⟨j, -, hj⟩
    obtain ⟨c, p, hcp, hc, -⟩ := B.fits_value j
    have heq : S.significand k * 2 ^ S.exponent k = c * 2 ^ p := hj.symm.trans hcp
    rcases Nat.le_total (S.exponent k) p with hle | hle
    · obtain ⟨d, rfl⟩ := Nat.exists_eq_add_of_le hle
      refine ⟨c, d, ?_, hc⟩
      refine Nat.eq_of_mul_eq_mul_right (Nat.two_pow_pos (S.exponent k)) ?_
      rw [heq, Nat.pow_add]
      ring
    · obtain ⟨d, hd⟩ := Nat.exists_eq_add_of_le hle
      rw [hd, Nat.pow_add] at heq
      have hsig : S.significand k * 2 ^ d = c := by
        refine Nat.eq_of_mul_eq_mul_right (Nat.two_pow_pos p) ?_
        rw [← heq]
        ring
      have hle' : S.significand k ≤ c :=
        hsig ▸ Nat.le_mul_of_pos_right _ (Nat.two_pow_pos d)
      exact ⟨S.significand k, 0, by simp, hle'.trans_lt hc⟩
  · rintro ⟨c, i, hci, hc⟩
    have hfits : B.Fits (S.value k) := by
      refine ⟨c, i + S.exponent k, ?_, hc, ?_⟩
      · rw [value, hci, Nat.pow_add]
        ring
      · have := S.unit_le_exponent k
        omega
    have hfour : 4 ≤ 2 ^ S.expBits := Nat.pow_le_pow_right (n := 2) (by decide) hS
    refine holds_of_fits hfits (encode_lt hB hfits ((value_lt hS hk).trans_le ?_))
    exact Nat.pow_le_pow_right (by decide) (by omega)

/-- With the same exponents, the shorter format has the numbers whose last fraction bits are
zero. -/
theorem value_truncated {S B : FloatFormat} {t : Nat} (hfrac : S.fracBits = B.fracBits + t)
    (hunit : B.unit = S.unit + t) (j : Nat) : S.value (j * 2 ^ t) = B.value j := by
  have hpos : 0 < 2 ^ t := Nat.two_pow_pos t
  have hpow : 2 ^ S.fracBits = 2 ^ B.fracBits * 2 ^ t := by rw [hfrac, Nat.pow_add]
  have hdiv : j * 2 ^ t / 2 ^ S.fracBits = j / 2 ^ B.fracBits := by
    rw [hpow, Nat.mul_div_mul_right _ _ hpos]
  have hmod : j * 2 ^ t % 2 ^ S.fracBits = j % 2 ^ B.fracBits * 2 ^ t := by
    rw [hpow, Nat.mul_mod_mul_right]
  have hsig : S.significand (j * 2 ^ t) = B.significand j * 2 ^ t := by
    unfold significand
    rw [hdiv, hmod, hpow]
    split
    · rfl
    · ring
  have hexp : S.exponent (j * 2 ^ t) + t = B.exponent j := by
    unfold exponent
    rw [hdiv, hunit]
    omega
  rw [value, value, hsig, ← hexp, Nat.pow_add]
  ring

theorem holds_iff_dvd {S B : FloatFormat} {t : Nat} (hfrac : S.fracBits = B.fracBits + t)
    (hunit : B.unit = S.unit + t) (hexp : S.expBits = B.expBits) (hk : k < S.infinity) :
    B.Holds (S.value k) ↔ 2 ^ t ∣ k := by
  have hinf : S.infinity = B.infinity * 2 ^ t := by
    rw [infinity, infinity, hexp, hfrac, Nat.pow_add]
    ring
  constructor
  · rintro ⟨j, -, hj⟩
    rw [← value_truncated hfrac hunit] at hj
    exact ⟨j, by rw [← S.value_injective hj, Nat.mul_comm]⟩
  · rintro ⟨j, rfl⟩
    rw [hinf, Nat.mul_comm] at hk
    refine ⟨j, Nat.lt_of_mul_lt_mul_right hk, ?_⟩
    rw [Nat.mul_comm, value_truncated hfrac hunit]

end FloatFormat
