import VeraCrypt.Lib.XorLinear
import Mathlib.Algebra.Field.Basic
import Mathlib.Tactic.LinearCombination
import Mathlib.Tactic.Ring

/-!
# The field of the secret sharing (`Common/Shamir.c`)

`gf_mul` is a multiplication by shift and add, reduced by `0x1b` after each shift that carries
out of the byte, and `gf_inv` a power with a fixed schedule. Both are written without branches
on their operands.

They are the product and the inverse of a field on the 256 bytes whose sum is xor (`Gf256`).
The product is additive on both sides, so its laws hold once they hold for single bits, and so
does `a ^ 256 = a`. The inverse follows: `a ^ 255` is idempotent, and 0 and 1 are the only
idempotents.
-/

set_option autoImplicit false

namespace VeraCrypt

open Lib

/-- `(unsigned char) (0u - (unsigned) (b & 1u))` -/
def lowMask (b : UInt8) : UInt8 := 0 - (b &&& 1)

/-- The double of `a`: `(a << 1) ^ hi` of one round of `gf_mul`. -/
def xtime (a : UInt8) : UInt8 := (a <<< 1) ^^^ (lowMask (a >>> 7) &&& 0x1b)

/-- The rounds of `gf_mul` that are left. -/
def gfMulLoop : Nat → UInt8 → UInt8 → UInt8 → UInt8
  | 0, p, _, _ => p
  | n + 1, p, a, b => gfMulLoop n (p ^^^ (lowMask b &&& a)) (xtime a) (b >>> 1)

/-- `gf_mul` -/
def gfMul (a b : UInt8) : UInt8 := gfMulLoop 8 0 a b

/-- The rounds of `gf_inv` that are left, from bit `i` of the exponent on. -/
def gfInvLoop : Nat → Nat → UInt8 → UInt8 → UInt8
  | 0, _, r, _ => r
  | n + 1, i, r, base =>
    gfInvLoop n (i + 1) (if (254 >>> i) % 2 = 1 then gfMul r base else r) (gfMul base base)

/-- `gf_inv` -/
def gfInv (a : UInt8) : UInt8 := gfInvLoop 8 0 1 a

/-! ## The product is additive on both sides -/

theorem xor_and (a b c : UInt8) : (a ^^^ b) &&& c = (a &&& c) ^^^ (b &&& c) := by
  apply UInt8.toBitVec_inj.mp
  ext i hi
  simp [Bool.and_xor_distrib_right]

theorem lowMask_xor (a b : UInt8) : lowMask (a ^^^ b) = lowMask a ^^^ lowMask b := by
  have hbit : ∀ c : UInt8, c &&& 1 = 0 ∨ c &&& 1 = 1 := by
    intro c
    rw [← UInt8.toNat_inj, ← UInt8.toNat_inj, UInt8.toNat_and]
    have hone : (1 : UInt8).toNat = 1 := rfl
    have hzero : (0 : UInt8).toNat = 0 := rfl
    rw [hone, hzero, Nat.and_one_is_mod]
    exact Nat.mod_two_eq_zero_or_one _
  unfold lowMask
  rw [xor_and]
  rcases hbit a with ha | ha <;> rcases hbit b with hb | hb <;> rw [ha, hb] <;> rfl

theorem xtime_xor : XorAdditive xtime := by
  intro a b
  unfold xtime
  rw [UInt8.shiftLeft_xor, UInt8.shiftRight_xor, lowMask_xor, xor_and]
  ac_rfl

theorem gfMulLoop_xor_left (n : Nat) (p p' a a' b : UInt8) :
    gfMulLoop n (p ^^^ p') (a ^^^ a') b = gfMulLoop n p a b ^^^ gfMulLoop n p' a' b := by
  induction n generalizing p p' a a' b with
  | zero => rfl
  | succ n ih =>
    have hround : p ^^^ p' ^^^ (lowMask b &&& (a ^^^ a')) =
        (p ^^^ (lowMask b &&& a)) ^^^ (p' ^^^ (lowMask b &&& a')) := by
      rw [UInt8.and_comm, xor_and, UInt8.and_comm a, UInt8.and_comm a']
      ac_rfl
    unfold gfMulLoop
    rw [hround, xtime_xor, ih]

theorem gfMulLoop_xor_right (n : Nat) (p p' a b b' : UInt8) :
    gfMulLoop n (p ^^^ p') a (b ^^^ b') = gfMulLoop n p a b ^^^ gfMulLoop n p' a b' := by
  induction n generalizing p p' a b b' with
  | zero => rfl
  | succ n ih =>
    have hround : p ^^^ p' ^^^ (lowMask (b ^^^ b') &&& a) =
        (p ^^^ (lowMask b &&& a)) ^^^ (p' ^^^ (lowMask b' &&& a)) := by
      rw [lowMask_xor, xor_and]
      ac_rfl
    unfold gfMulLoop
    rw [hround, UInt8.shiftRight_xor, ih]

theorem gfMul_xor_left (b : UInt8) : XorAdditive (fun a => gfMul a b) := by
  intro a a'
  exact gfMulLoop_xor_left 8 0 0 a a' b

theorem gfMul_xor_right (a : UInt8) : XorAdditive (gfMul a) := by
  intro b b'
  exact gfMulLoop_xor_right 8 0 0 a b b'

/-! ## The laws of the product -/

/-- The laws at the single bits, and what eight squarings do to a bit. -/
theorem gfMul_bits : ∀ i ∈ bitBytes, (gfMul i 1 = i ∧ (fun x => gfMul x x)^[8] i = i) ∧
    ∀ j ∈ bitBytes, gfMul i j = gfMul j i ∧
      ∀ k ∈ bitBytes, gfMul (gfMul i j) k = gfMul i (gfMul j k) := by
  decide +kernel

theorem gfMul_comm (a b : UInt8) : gfMul a b = gfMul b a := by
  refine (gfMul_xor_left b).ext (gfMul_xor_right b) ?_ a
  intro i hi
  refine (gfMul_xor_right i).ext (gfMul_xor_left i) ?_ b
  intro j hj
  exact ((gfMul_bits i hi).2 j hj).1

theorem gfMul_assoc (a b c : UInt8) : gfMul (gfMul a b) c = gfMul a (gfMul b c) := by
  refine ((gfMul_xor_left c).comp (gfMul_xor_left b)).ext (gfMul_xor_left _) ?_ a
  intro i hi
  refine ((gfMul_xor_left c).comp (gfMul_xor_right i)).ext
    ((gfMul_xor_right i).comp (gfMul_xor_left c)) ?_ b
  intro j hj
  refine (gfMul_xor_right _).ext ((gfMul_xor_right i).comp (gfMul_xor_right j)) ?_ c
  intro k hk
  exact ((gfMul_bits i hi).2 j hj).2 k hk

theorem gfMul_one (a : UInt8) : gfMul a 1 = a := by
  exact (gfMul_xor_left 1).ext (fun _ _ => rfl) (fun i hi => (gfMul_bits i hi).1.1) a

/-! ## The field -/

/-- A byte as an element of the field. -/
@[ext] structure Gf256 where
  byte : UInt8
  deriving DecidableEq

namespace Gf256

instance : Zero Gf256 := ⟨⟨0⟩⟩
instance : One Gf256 := ⟨⟨1⟩⟩
instance : Add Gf256 := ⟨fun a b => ⟨a.byte ^^^ b.byte⟩⟩
instance : Neg Gf256 := ⟨fun a => a⟩
instance : Sub Gf256 := ⟨fun a b => ⟨a.byte ^^^ b.byte⟩⟩
instance : Mul Gf256 := ⟨fun a b => ⟨gfMul a.byte b.byte⟩⟩
instance : Inv Gf256 := ⟨fun a => ⟨gfInv a.byte⟩⟩

@[simp] theorem byte_zero : (0 : Gf256).byte = 0 := rfl
@[simp] theorem byte_one : (1 : Gf256).byte = 1 := rfl
@[simp] theorem byte_add (a b : Gf256) : (a + b).byte = a.byte ^^^ b.byte := rfl
@[simp] theorem byte_sub (a b : Gf256) : (a - b).byte = a.byte ^^^ b.byte := rfl
@[simp] theorem byte_neg (a : Gf256) : (-a).byte = a.byte := rfl
@[simp] theorem byte_mul (a b : Gf256) : (a * b).byte = gfMul a.byte b.byte := rfl
@[simp] theorem byte_inv (a : Gf256) : (a⁻¹).byte = gfInv a.byte := rfl

instance : CommRing Gf256 where
  add_assoc a b c := Gf256.ext (UInt8.xor_assoc _ _ _)
  zero_add a := Gf256.ext UInt8.zero_xor
  add_zero a := Gf256.ext UInt8.xor_zero
  add_comm a b := Gf256.ext (UInt8.xor_comm _ _)
  neg_add_cancel a := Gf256.ext UInt8.xor_self
  sub_eq_add_neg a b := rfl
  mul_assoc a b c := Gf256.ext (gfMul_assoc _ _ _)
  mul_comm a b := Gf256.ext (gfMul_comm _ _)
  one_mul a := Gf256.ext ((gfMul_comm _ _).trans (gfMul_one _))
  mul_one a := Gf256.ext (gfMul_one _)
  left_distrib a b c := Gf256.ext (gfMul_xor_right _ _ _)
  right_distrib a b c := Gf256.ext (gfMul_xor_left _ _ _)
  zero_mul a := Gf256.ext (gfMul_xor_left _).map_zero
  mul_zero a := Gf256.ext (gfMul_xor_right _).map_zero
  nsmul := nsmulRec
  zsmul := zsmulRec

/-- The schedule of `gf_inv` raises to the power 254. -/
theorem inv_eq_pow (a : Gf256) : a⁻¹ = a ^ 254 := by
  have hbyte : ∀ x y : UInt8, (⟨gfMul x y⟩ : Gf256) = ⟨x⟩ * ⟨y⟩ := fun _ _ => rfl
  have hone : (⟨1⟩ : Gf256) = 1 := rfl
  have hloop : a⁻¹ = ⟨gfInvLoop 8 0 1 a.byte⟩ := rfl
  rw [hloop]
  simp [gfInvLoop, hbyte, hone]
  ring

/-- Squaring is additive. -/
theorem sq_xor : XorAdditive (fun a => gfMul a a) := by
  intro a b
  have hsq : (⟨a⟩ + ⟨b⟩ : Gf256) * (⟨a⟩ + ⟨b⟩) = ⟨a⟩ * ⟨a⟩ + ⟨b⟩ * ⟨b⟩ := by
    have htwo : (⟨a⟩ * ⟨b⟩ + ⟨a⟩ * ⟨b⟩ : Gf256) = 0 := Gf256.ext UInt8.xor_self
    linear_combination htwo
  exact congrArg Gf256.byte hsq

/-- Eight squarings are the identity: they are additive, and keep every single bit. -/
theorem pow_256 (a : Gf256) : a ^ 256 = a := by
  have hfour := (sq_xor.comp sq_xor).comp (sq_xor.comp sq_xor)
  have hbits : ∀ i ∈ bitBytes, (fun x => gfMul x x)^[8] i = i :=
    fun i hi => (gfMul_bits i hi).1.2
  have hall := (hfour.comp hfour).ext (fun _ _ => rfl) hbits a.byte
  have hpow : a ^ 256 = ⟨(fun x => gfMul x x)^[8] a.byte⟩ := by
    have hbyte : ∀ x y : UInt8, (⟨gfMul x y⟩ : Gf256) = ⟨x⟩ * ⟨y⟩ := fun _ _ => rfl
    simp only [Function.iterate_succ, Function.comp, Function.iterate_zero, id, hbyte]
    ring
  rw [hpow]
  exact Gf256.ext hall

theorem eq_zero_or_one_of_sq {e : Gf256} (h : e * e = e) : e = 0 ∨ e = 1 := by
  have hall : ∀ b : UInt8, gfMul b b = b → b = 0 ∨ b = 1 := forall_byte (by decide +kernel)
  rcases hall e.byte (congrArg Gf256.byte h) with hzero | hone
  · exact Or.inl (Gf256.ext hzero)
  · exact Or.inr (Gf256.ext hone)

/-- `a ^ 255` is idempotent, and it is not 0 where `a` is not. -/
theorem mul_inv (a : Gf256) (h : a ≠ 0) : a * a⁻¹ = 1 := by
  have hpow := pow_256 a
  have hidem : a * a⁻¹ * (a * a⁻¹) = a * a⁻¹ := by
    rw [inv_eq_pow]
    linear_combination a ^ 254 * hpow
  rcases eq_zero_or_one_of_sq hidem with hzero | hone
  · refine absurd ?_ h
    rw [inv_eq_pow] at hzero
    linear_combination a * hzero - hpow
  · exact hone

instance : Field Gf256 where
  exists_pair_ne := ⟨0, 1, by decide⟩
  mul_inv_cancel := mul_inv
  inv_zero := by
    rw [inv_eq_pow]
    exact zero_pow (by decide)
  nnqsmul := _
  qsmul := _

end Gf256

end VeraCrypt
