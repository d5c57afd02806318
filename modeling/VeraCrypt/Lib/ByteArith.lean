import VeraCrypt.Lib.Endian
import Mathlib.Data.Int.ModEq

/-!
# Addition and subtraction byte by byte

Two loops over a pair of little-endian buffers of one length: one adds with a carry, the other
subtracts with a borrow, and both drop what is left of it at the end. They are addition and
subtraction modulo `256 ^ n` (`leNat_addCarry`, `leNat_subBorrow`), and so undo each other.
-/

set_option autoImplicit false

namespace VeraCrypt
namespace Lib

/-- Sum with a carry, which is kept in a word. -/
def addCarry : UInt32 → List UInt8 → List UInt8 → List UInt8
  | carry, x :: xs, y :: ys =>
    let s := carry + (x.toUInt32 + y.toUInt32)
    s.toUInt8 :: addCarry (s >>> 8) xs ys
  | _, xs, _ => xs

/-- Difference with a borrow, in signed numbers; the low byte is kept. -/
def subBorrow : Int → List UInt8 → List UInt8 → List UInt8
  | borrow, x :: xs, y :: ys =>
    let d := (x.toNat : Int) - y.toNat - borrow
    UInt8.ofNat (d % 256).toNat :: subBorrow (if d < 0 then 1 else 0) xs ys
  | _, xs, _ => xs

example : addCarry 0 [200, 1] [100, 2] = [44, 4] := by
  simp [addCarry]
  decide

example : subBorrow 0 [44, 4] [100, 2] = [200, 1] := by simp [subBorrow]

theorem length_addCarry (carry : UInt32) (xs ys : List UInt8) :
    (addCarry carry xs ys).length = xs.length := by
  induction xs generalizing carry ys with
  | nil => rfl
  | cons x xs ih =>
    cases ys with
    | nil => rfl
    | cons y ys => rw [addCarry, List.length_cons, List.length_cons, ih]

theorem length_subBorrow (borrow : Int) (xs ys : List UInt8) :
    (subBorrow borrow xs ys).length = xs.length := by
  induction xs generalizing borrow ys with
  | nil => rfl
  | cons x xs ih =>
    cases ys with
    | nil => rfl
    | cons y ys => rw [subBorrow, List.length_cons, List.length_cons, ih]

/-- The sum is exact up to the carry out of the last byte. -/
theorem leNat_addCarry {xs ys : List UInt8} (h : xs.length = ys.length) {carry : UInt32}
    (hc : carry.toNat ≤ 1) :
    ∃ k, leNat (addCarry carry xs ys) + 256 ^ xs.length * k =
      carry.toNat + leNat xs + leNat ys := by
  induction xs generalizing ys carry with
  | nil =>
    cases ys with
    | nil => exact ⟨carry.toNat, by simp [addCarry, leNat]⟩
    | cons y ys => simp at h
  | cons x xs ih =>
    cases ys with
    | nil => simp at h
    | cons y ys =>
      have hlen : xs.length = ys.length := by simpa using h
      have hx := x.toNat_lt
      have hy := y.toNat_lt
      have hs : (carry + (x.toUInt32 + y.toUInt32)).toNat = carry.toNat + x.toNat + y.toNat := by
        rw [UInt32.toNat_add, UInt32.toNat_add, UInt8.toNat_toUInt32, UInt8.toNat_toUInt32]
        omega
      have hnext : ((carry + (x.toUInt32 + y.toUInt32)) >>> 8).toNat =
          (carry.toNat + x.toNat + y.toNat) / 256 := by
        rw [UInt32.toNat_shiftRight, hs, Nat.shiftRight_eq_div_pow]
        rfl
      have hlow : (carry + (x.toUInt32 + y.toUInt32)).toUInt8.toNat =
          (carry.toNat + x.toNat + y.toNat) % 256 := by
        rw [UInt32.toNat_toUInt8, hs]
      have hbit : ((carry + (x.toUInt32 + y.toUInt32)) >>> 8).toNat ≤ 1 := by
        rw [hnext]
        omega
      obtain ⟨k, hk⟩ := ih hlen hbit
      refine ⟨k, ?_⟩
      have hpow : 256 ^ (xs.length + 1) * k = 256 * (256 ^ xs.length * k) := by
        rw [pow_succ]
        ring
      rw [hnext] at hk
      simp only [addCarry, leNat, List.length_cons]
      rw [hlow, hpow]
      omega

/-- The difference is exact up to the borrow out of the last byte. -/
theorem leNat_subBorrow {xs ys : List UInt8} (h : xs.length = ys.length) {borrow : Int}
    (h0 : 0 ≤ borrow) (h1 : borrow ≤ 1) :
    ∃ k : Nat, (leNat (subBorrow borrow xs ys) : Int) + leNat ys + borrow =
      leNat xs + 256 ^ xs.length * k := by
  induction xs generalizing ys borrow with
  | nil =>
    cases ys with
    | nil => exact ⟨borrow.toNat, by simp [subBorrow, leNat]; omega⟩
    | cons y ys => simp at h
  | cons x xs ih =>
    cases ys with
    | nil => simp at h
    | cons y ys =>
      have hlen : xs.length = ys.length := by simpa using h
      have hx := x.toNat_lt
      have hy := y.toNat_lt
      set d := (x.toNat : Int) - y.toNat - borrow with hd
      have hlow : ((UInt8.ofNat (d % 256).toNat).toNat : Int) = d % 256 := by
        rw [UInt8.toNat_ofNat']
        omega
      have hnext : (if d < 0 then (1 : Int) else 0) = - (d / 256) := by
        by_cases hneg : d < 0
        · rw [if_pos hneg]
          omega
        · rw [if_neg hneg]
          omega
      have hbit : 0 ≤ (if d < 0 then (1 : Int) else 0) ∧ (if d < 0 then (1 : Int) else 0) ≤ 1 := by
        rw [hnext]
        omega
      obtain ⟨k, hk⟩ := ih hlen hbit.1 hbit.2
      refine ⟨k, ?_⟩
      have hpow : (256 : Int) ^ (xs.length + 1) * k = 256 * (256 ^ xs.length * k) := by
        rw [pow_succ]
        ring
      simp only [subBorrow, leNat, List.length_cons]
      rw [← hd, hpow]
      push_cast
      rw [hlow]
      rw [hnext] at hk ⊢
      omega

section
variable {a b : List UInt8} (h : a.length = b.length)
include h

/-- The loop adds modulo `256 ^ n`. -/
theorem leNat_addBytes : leNat (addCarry 0 a b) = (leNat a + leNat b) % 256 ^ a.length := by
  obtain ⟨k, hk⟩ := @leNat_addCarry a b h 0 (by decide)
  have hlt := leNat_lt (addCarry 0 a b)
  have hzero : (0 : UInt32).toNat = 0 := rfl
  rw [length_addCarry] at hlt
  rw [hzero, Nat.zero_add] at hk
  rw [← hk, Nat.add_mul_mod_self_left, Nat.mod_eq_of_lt hlt]

/-- The loop subtracts modulo `256 ^ n`. -/
theorem leNat_subBytes :
    (leNat (subBorrow 0 a b) : Int) = ((leNat a : Int) - leNat b) % 256 ^ a.length := by
  obtain ⟨k, hk⟩ := @leNat_subBorrow a b h 0 (by omega) (by omega)
  have hlt := leNat_lt (subBorrow 0 a b)
  rw [length_subBorrow] at hlt
  have hcast : (leNat (subBorrow 0 a b) : Int) < 256 ^ a.length := by exact_mod_cast hlt
  have hdiff : (leNat a : Int) - leNat b =
      leNat (subBorrow 0 a b) + 256 ^ a.length * (-(k : Int)) := by
    rw [Int.mul_neg]
    omega
  rw [hdiff, Int.add_mul_emod_self_left, Int.emod_eq_of_lt (Int.natCast_nonneg _) hcast]

theorem subBytes_addBytes : subBorrow 0 (addCarry 0 a b) b = a := by
  have hlen : (addCarry 0 a b).length = b.length := by rw [length_addCarry, h]
  apply leNat_inj (by rw [length_subBorrow, length_addCarry])
  have hsub := leNat_subBytes hlen
  have hlt := leNat_lt a
  have hcast : (leNat a : Int) < 256 ^ a.length := by exact_mod_cast hlt
  rw [leNat_addBytes h, length_addCarry, Int.natCast_emod, Int.natCast_add, Int.natCast_pow,
    Nat.cast_ofNat, Int.emod_sub_emod] at hsub
  have hcancel : (leNat a : Int) + leNat b - leNat b = leNat a := by omega
  rw [hcancel] at hsub
  have hmod : (leNat a : Int) % 256 ^ a.length = leNat a :=
    Int.emod_eq_of_lt (Int.natCast_nonneg _) hcast
  exact_mod_cast hsub.trans hmod

theorem addBytes_subBytes : addCarry 0 (subBorrow 0 a b) b = a := by
  have hlen : (subBorrow 0 a b).length = b.length := by rw [length_subBorrow, h]
  apply leNat_inj (by rw [length_addCarry, length_subBorrow])
  have hadd := congrArg (Nat.cast (R := Int)) (leNat_addBytes hlen)
  have hlt := leNat_lt a
  have hcast : (leNat a : Int) < 256 ^ a.length := by exact_mod_cast hlt
  rw [length_subBorrow, Int.natCast_emod, Int.natCast_add, Int.natCast_pow, leNat_subBytes h,
    Nat.cast_ofNat, Int.emod_add_emod] at hadd
  have hcancel : (leNat a : Int) - leNat b + leNat b = leNat a := by omega
  rw [hcancel, Int.emod_eq_of_lt (Int.natCast_nonneg _) hcast] at hadd
  exact_mod_cast hadd

end

end Lib
end VeraCrypt
