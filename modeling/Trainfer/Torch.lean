import Trainfer.Errors
import Mathlib.Data.Rat.Defs
import Mathlib.Data.List.AList
import Mathlib.Algebra.Ring.Nat

/-! What the model code asks of torch, as a parameter, and dictionaries of tensors.
Devices are left out: a copy on another device has the same value. -/

namespace Trainfer

universe u

inductive DType where
  | float32
  | float16
  | bfloat16
  deriving DecidableEq, Repr

/-- The tensor operations that the model state uses. -/
class Torch (T : Type u) where
  dtype : T → DType
  shape : T → List Nat
  /-- `t.to(dtype)` -/
  cast : DType → T → T
  /-- `t.zero_()` -/
  zero_ : T → T
  /-- `t.abs().sum() == 0` -/
  isZero : T → Bool
  matmul : T → T → Except PyError T
  /-- Multiplication by a Python float. -/
  mul : ℚ → T → T
  /-- Addition with broadcasting. -/
  add : T → T → Except PyError T
  /-- Broadcasting to a given shape. -/
  expand : List Nat → T → Except PyError T
  /-- `t.view(torch.uint8).numpy().tobytes()` -/
  bytes : T → List UInt8

namespace Torch

variable {T : Type u} [Torch T]

/-- `dst.copy_(src.to(dst.dtype))`. -/
def copy_ (dst src : T) : Except PyError T := expand (shape dst) (cast (dtype dst) src)

end Torch

/-- Documented behaviour of these operations. -/
class LawfulTorch (T : Type u) [Torch T] : Prop where
  dtype_cast : ∀ (d : DType) (t : T), Torch.dtype (Torch.cast d t) = d
  shape_cast : ∀ (d : DType) (t : T), Torch.shape (Torch.cast d t) = Torch.shape t
  dtype_zero : ∀ t : T, Torch.dtype (Torch.zero_ t) = Torch.dtype t
  shape_zero : ∀ t : T, Torch.shape (Torch.zero_ t) = Torch.shape t
  expand_shape : ∀ t : T, Torch.expand (Torch.shape t) t = .ok t
  expand_ok : ∀ (shape : List Nat) (t t' : T), Torch.expand shape t = .ok t' →
    Torch.shape t' = shape ∧ Torch.dtype t' = Torch.dtype t

/-- A `1 × 1` tensor that holds an integer of at most eight bits, which every dtype
represents. -/
structure OneByOne where
  dtype : DType
  value : ℚ
  deriving DecidableEq

/-- The little-endian `bfloat16` encoding of such a value. -/
def OneByOne.bytes (t : OneByOne) : List UInt8 :=
  let n := t.value.num.natAbs
  let sign := if t.value < 0 then 32768 else 0
  let bits :=
    if n = 0 then 0 else (127 + Nat.log2 n) * 128 + (n * 128 / 2 ^ Nat.log2 n - 128) + sign
  [UInt8.ofNat (bits % 256), UInt8.ofNat (bits / 256)]

instance : Torch OneByOne where
  dtype t := t.dtype
  shape _ := [1, 1]
  cast d t := ⟨d, t.value⟩
  zero_ t := ⟨t.dtype, 0⟩
  isZero t := decide (t.value = 0)
  matmul s t := .ok ⟨s.dtype, s.value * t.value⟩
  mul q t := ⟨t.dtype, t.value * q⟩
  add s t := .ok ⟨s.dtype, s.value + t.value⟩
  expand shape t :=
    if shape = [1, 1] then .ok t
    else .error ⟨.runtimeError, "The expanded size of the tensor must match the existing size"⟩
  bytes := OneByOne.bytes

instance : LawfulTorch OneByOne where
  dtype_cast _ _ := rfl
  shape_cast _ _ := rfl
  dtype_zero _ := rfl
  shape_zero _ := rfl
  expand_shape _ := rfl
  expand_ok shape t t' h := by
    simp only [Torch.expand] at h
    split at h
    · rename_i hs
      obtain rfl := Except.ok.inj h
      exact ⟨hs.symm, rfl⟩
    · cases h

/-! ## Dictionaries -/

/-- A Python dictionary with string keys. -/
abbrev Dict (ν : Type u) := AList fun _ : String => ν

namespace Dict

variable {ν : Type u}

/-- `not d`. -/
def isEmpty (d : Dict ν) : Bool := d.entries.isEmpty

/-- `d.update(e)`. -/
def update (d e : Dict ν) : Dict ν := e ∪ d

theorem lookup_of_isEmpty {d : Dict ν} (h : d.isEmpty = true) (k : String) :
    d.lookup k = none := by
  rw [AList.lookup_eq_none, AList.mem_keys, AList.keys, List.isEmpty_iff.mp h]
  simp

theorem lookup_update_of_mem {d e : Dict ν} {k : String} (h : k ∈ e) :
    (d.update e).lookup k = e.lookup k := AList.lookup_union_left h

theorem lookup_update_of_notMem {d e : Dict ν} {k : String} (h : k ∉ e) :
    (d.update e).lookup k = d.lookup k := AList.lookup_union_right h

/-- An update never removes a key. -/
theorem lookup_update_ne_none {d e : Dict ν} {k : String} (h : d.lookup k ≠ none) :
    (d.update e).lookup k ≠ none := by
  by_cases hk : k ∈ e
  · rw [lookup_update_of_mem hk]
    exact fun hn => AList.lookup_eq_none.mp hn hk
  · rwa [lookup_update_of_notMem hk]

end Dict

end Trainfer
