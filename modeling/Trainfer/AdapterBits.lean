import Trainfer.Lib.FloatFormat
import Trainfer.SnapshotRoundTrip

/-! The bits of the adapter, through a snapshot and back.

A save converts every LoRA parameter to `bfloat16`, and a load converts it back to the dtype of
the parameter. `bits_restored_iff` says which parameters have the same bits afterwards. -/

namespace Trainfer

open FloatFormat (Narrow)

/-- The layout of a dtype; a unit is the least positive `float32`. -/
def DType.format : DType → FloatFormat
  | .float32 => ⟨23, 8, 0⟩
  | .float16 => ⟨10, 5, 125⟩
  | .bfloat16 => ⟨7, 8, 16⟩

/-- The bits of one number: the sign, and the exponent with the fraction. -/
structure Bits where
  neg : Bool
  magnitude : Nat
  deriving DecidableEq, Repr

namespace Bits

/-- What NaNs are converted to. -/
abbrev NaNs := DType → DType → Bits → Bits

def IsNaN (d : DType) (x : Bits) : Prop := d.format.infinity < x.magnitude

instance (d : DType) (x : Bits) : Decidable (IsNaN d x) :=
  inferInstanceAs (Decidable (_ < _))

/-- A conversion, which rounds to nearest and keeps the sign. To the dtype it has, a tensor is
not converted at all. -/
def convert (nan : NaNs) (src dst : DType) (x : Bits) : Bits :=
  if src = dst then x
  else if IsNaN src x then nan src dst x
  else if x.magnitude = src.format.infinity then ⟨x.neg, dst.format.infinity⟩
  else ⟨x.neg, dst.format.round (src.format.value x.magnitude)⟩

/-- The number is a `bfloat16` one. Of a `float32` number the last sixteen bits are zero, of a
`float16` number at most eight bits in a row are used, and a NaN is the one that the two
conversions make. -/
def Kept (nan : NaNs) (d : DType) (x : Bits) : Prop :=
  match d with
  | .bfloat16 => True
  | .float32 =>
    if IsNaN .float32 x then nan .bfloat16 .float32 (nan .float32 .bfloat16 x) = x
    else 2 ^ 16 ∣ x.magnitude
  | .float16 =>
    if IsNaN .float16 x then nan .bfloat16 .float16 (nan .float16 .bfloat16 x) = x
    else Narrow 8 (DType.float16.format.significand x.magnitude)

variable {nan : NaNs} {d : DType} {x : Bits}

theorem convert_nan {src dst : DType} (hne : src ≠ dst) (hx : IsNaN src x) :
    convert nan src dst x = nan src dst x := by
  rw [convert, if_neg hne, if_pos hx]

theorem convert_infinity {src dst : DType} (hne : src ≠ dst)
    (hx : x.magnitude = src.format.infinity) :
    convert nan src dst x = ⟨x.neg, dst.format.infinity⟩ := by
  have hnan : ¬ IsNaN src x := by
    rw [IsNaN, hx]
    exact Nat.lt_irrefl _
  rw [convert, if_neg hne, if_neg hnan, if_pos hx]

theorem convert_finite {src dst : DType} (hne : src ≠ dst)
    (hx : x.magnitude < src.format.infinity) :
    convert nan src dst x = ⟨x.neg, dst.format.round (src.format.value x.magnitude)⟩ := by
  have hnan : ¬ IsNaN src x := Nat.not_lt.mpr hx.le
  rw [convert, if_neg hne, if_neg hnan, if_neg hx.ne]

/-- A finite number on its way through `bfloat16`. -/
theorem convert_back_finite (hne : d ≠ .bfloat16) (hx : x.magnitude < d.format.infinity) :
    convert nan .bfloat16 d (convert nan d .bfloat16 x) =
      ⟨x.neg, FloatFormat.back d.format DType.bfloat16.format x.magnitude⟩ := by
  rw [convert_finite hne hx, FloatFormat.back]
  split
  · rename_i hfinite
    exact convert_finite hne.symm hfinite
  · rename_i hlarge
    refine convert_infinity hne.symm (Nat.le_antisymm ?_ (Nat.le_of_not_lt hlarge))
    exact Nat.min_le_right _ _

theorem holds_bfloat16_iff (hne : d ≠ .bfloat16) (hx : x.magnitude < d.format.infinity) :
    DType.bfloat16.format.Holds (d.format.value x.magnitude) ↔ Kept nan d x := by
  have hnan : ¬ IsNaN d x := Nat.not_lt.mpr hx.le
  cases d with
  | bfloat16 => exact absurd rfl hne
  | float32 =>
    simp only [Kept, hnan, if_false]
    exact FloatFormat.holds_iff_dvd rfl rfl rfl hx
  | float16 =>
    simp only [Kept, hnan, if_false]
    exact FloatFormat.holds_iff_narrow (by decide) (by decide) (by decide) (by decide) hx

theorem kept_infinity (hne : d ≠ .bfloat16) (hx : x.magnitude = d.format.infinity) :
    Kept nan d x := by
  have hnan : ¬ IsNaN d x := by
    rw [IsNaN, hx]
    exact Nat.lt_irrefl _
  cases d with
  | bfloat16 => exact absurd rfl hne
  | float32 =>
    simp only [Kept, hnan, if_false, hx]
    decide
  | float16 =>
    simp only [Kept, hnan, if_false, hx]
    exact ⟨1, 10, by decide, by decide⟩

/-- **Through `bfloat16` and back.** -/
theorem convert_back_iff
    (hnans : ∀ (src dst : DType) (y : Bits), IsNaN src y → IsNaN dst (nan src dst y)) :
    convert nan .bfloat16 d (convert nan d .bfloat16 x) = x ↔ Kept nan d x := by
  by_cases hne : d = .bfloat16
  · subst hne
    simp [convert, Kept]
  · rcases Nat.lt_trichotomy x.magnitude d.format.infinity with hx | hx | hx
    · rw [convert_back_finite hne hx, ← holds_bfloat16_iff hne hx]
      have hfrac : DType.bfloat16.format.fracBits ≤ d.format.fracBits := by
        cases d <;> decide
      rw [← FloatFormat.round_trip_iff hfrac hx]
      constructor
      · exact fun h => congrArg magnitude h
      · intro h
        rw [h]
    · refine iff_of_true ?_ (kept_infinity hne hx)
      rw [convert_infinity hne hx, convert_infinity (fun h => hne h.symm) rfl, ← hx]
    · have hnan : IsNaN d x := hx
      rw [convert_nan hne hnan, convert_nan (fun h => hne h.symm) (hnans _ _ _ hnan)]
      cases d with
      | bfloat16 => exact absurd rfl hne
      | float32 => simp only [Kept, hnan, if_true]
      | float16 => simp only [Kept, hnan, if_true]

end Bits

/-! ## Tensors -/

/-- The bits of a tensor's elements, and what torch makes of NaNs. -/
class TorchBits (T : Type) extends Torch T where
  bits : T → List Bits
  nan : Bits.NaNs

class LawfulTorchBits (T : Type) [TorchBits T] : Prop extends LawfulTorch T where
  bits_cast : ∀ (d : DType) (t : T), TorchBits.bits (Torch.cast d t) =
    (TorchBits.bits t).map (Bits.convert (TorchBits.nan T) (Torch.dtype t) d)
  isNaN_nan : ∀ (src dst : DType) (x : Bits), x.IsNaN src →
    (TorchBits.nan T src dst x).IsNaN dst

open TorchBits (bits nan)

namespace History

variable {arch : Arch} {T : Type} [TorchBits T]

/-- Every LoRA parameter has the same bits in both states. -/
def SameBits (saved live : ModelState arch T) : Prop :=
  ∀ p ∈ arch.loraParams, bits (live.param p) = bits (saved.param p)

/-- Every LoRA parameter holds numbers that survive `bfloat16`. -/
def KeptBits (st : ModelState arch T) : Prop :=
  ∀ p ∈ arch.loraParams, ∀ x ∈ bits (st.param p), x.Kept (nan T) (Torch.dtype (st.param p))

variable [LawfulTorchBits T]

theorem bits_cast_back (t : T) :
    bits (Torch.cast (Torch.dtype t) (Torch.cast .bfloat16 t)) = bits t ↔
      ∀ x ∈ bits t, x.Kept (nan T) (Torch.dtype t) := by
  rw [LawfulTorchBits.bits_cast, LawfulTorchBits.bits_cast, LawfulTorch.dtype_cast, List.map_map]
  refine Iff.trans ⟨?_, ?_⟩ (forall₂_congr fun x _ =>
    @Bits.convert_back_iff (nan T) (Torch.dtype t) x LawfulTorchBits.isNaN_nan)
  · intro h x hx
    exact List.map_inj_left.mp (h.trans (List.map_id _).symm) x hx
  · intro h
    exact (List.map_congr_left h).trans (List.map_id _)

/-- **Byte-exact adapters.** After a save, any changes, and a load of the name, every LoRA
parameter has the bits it was saved with just if it holds numbers that survive `bfloat16`. -/
theorem bits_restored_iff {sig : ParamName → DType × List Nat} {st : ModelState arch T}
    {as : List (StoreAction arch T)} {name : String} {h : History arch T}
    {saved : ModelState arch T} (hst : Fits sig st)
    (hchange : ∀ st', StoreAction.change st' ∈ as → Fits sig st')
    (hrun : Runs.exec step (init st) (as ++ [.load name]) = some h)
    (hsaved : h.saved name = some saved) : SameBits saved h.live ↔ KeptBits saved := by
  obtain ⟨m, hm, hload⟩ := Runs.exec_append_some.mp hrun
  have hmeets : Runs.Meets step
      (fun _ a => ∀ st', a = .change st' → Fits sig st') (init st) as := by
    refine Runs.meets_of_mem (fun a ha st' hst' => ?_) (init st)
    subst hst'
    exact hchange st' ha
  have hstore : StoreInv sig m :=
    Runs.exec_invariant (fun h a h' hi hg hstep => storeInv_step h a h' hi hg hstep)
      (storeInv_init hst) hm hmeets
  obtain rfl := Option.some.inj hload
  obtain ⟨hfits, hstored⟩ := hstore.saved name saved hsaved
  obtain ⟨-, -, -, hparams⟩ :=
    load_restores_adapter hstored (hstore.clean name) hfits hstore.fits
  refine forall₂_congr fun p hp => ?_
  show bits ((SnapshotStore.load m.store name m.live).2.param p) = _ ↔ _
  rw [SnapshotStore.load, hparams p hp]
  exact bits_cast_back _

end History

/-! ## One number -/

/-- A `1 × 1` tensor as its bits. Of torch's operations it has the conversions; NaNs become the
quiet one. -/
structure OneNumber where
  dtype : DType
  bits : Bits
  deriving DecidableEq

def OneNumber.quietNaN : Bits.NaNs := fun _ dst _ =>
  ⟨false, dst.format.infinity + 2 ^ (dst.format.fracBits - 1)⟩

instance : TorchBits OneNumber where
  dtype t := t.dtype
  shape _ := [1, 1]
  cast d t := ⟨d, t.bits.convert OneNumber.quietNaN t.dtype d⟩
  zero_ t := ⟨t.dtype, ⟨false, 0⟩⟩
  isZero t := t.bits.magnitude == 0
  matmul _ _ := .error ⟨.other "NotImplementedError", "addmm"⟩
  mul _ t := t
  add _ _ := .error ⟨.other "NotImplementedError", "add"⟩
  expand shape t :=
    if shape = [1, 1] then .ok t
    else .error ⟨.runtimeError, "The expanded size of the tensor must match the existing size"⟩
  bytes t := [UInt8.ofNat t.bits.magnitude, UInt8.ofNat (t.bits.magnitude / 256)]
  bits t := [t.bits]
  nan := OneNumber.quietNaN

instance : LawfulTorchBits OneNumber where
  dtype_cast _ _ := rfl
  shape_cast _ _ := rfl
  dtype_zero _ := rfl
  shape_zero _ := rfl
  expand_shape _ := rfl
  expand_ok shape t t' h := by
    simp only [Torch.expand] at h
    split at h
    · rename_i hs
      obtain rfl := Except.ok.inj h
      exact ⟨hs.symm, rfl⟩
    · cases h
  bits_cast _ _ := rfl
  isNaN_nan _ _ _ _ := Nat.lt_add_of_pos_right (Nat.two_pow_pos _)

namespace History

/-- Both matrices of one site hold the `float32` number with these bits. -/
def oneNumber (magnitude : Nat) : ModelState oneSite OneNumber :=
  ModelState.fresh oneSite (fun _ => ⟨.float32, ⟨false, magnitude⟩⟩) 1 1 "base"

theorem fits_oneNumber (magnitude : Nat) :
    Fits (fun _ => (.float32, [1, 1])) (oneNumber magnitude) := fun _ _ => rfl

/-- `1.0` survives a save, a reset and a load. -/
theorem one_restored :
    ∃ h saved, Runs.exec step (init (oneNumber 0x3F800000))
        [.save plainEnv "s", .reset, .load "s"] = some h ∧
      h.saved "s" = some saved ∧ SameBits saved h.live := by
  refine ⟨_, _, rfl, rfl, (@bits_restored_iff _ _ _ _ _ _ [.save plainEnv "s", .reset] "s" _ _
    (fits_oneNumber 0x3F800000) ?_ rfl rfl).mpr ?_⟩
  · simp
  · intro p _ x hx
    obtain rfl := List.mem_singleton.mp hx
    show Bits.Kept OneNumber.quietNaN .float32 ⟨false, 0x3F800000⟩
    rw [Bits.Kept, if_neg (by decide)]
    decide

/-- The next larger number comes back as `1.0`. -/
theorem ulp_lost :
    ¬ ∀ (st : ModelState oneSite OneNumber) (as : List (StoreAction oneSite OneNumber))
      (name : String) (h : History oneSite OneNumber) (saved : ModelState oneSite OneNumber),
      Fits (fun _ => (.float32, [1, 1])) st →
      (∀ st', StoreAction.change st' ∈ as → Fits (fun _ => (.float32, [1, 1])) st') →
      Runs.exec step (init st) (as ++ [.load name]) = some h → h.saved name = some saved →
        SameBits saved h.live := by
  intro hall
  have hsame := hall (oneNumber 0x3F800001) [.save plainEnv "s"] "s" _ _
    (fits_oneNumber 0x3F800001) (by simp) rfl rfl
  have hbits := hsame (.lora "a" .A "default") (by decide)
  revert hbits
  decide +kernel

end History

end Trainfer
