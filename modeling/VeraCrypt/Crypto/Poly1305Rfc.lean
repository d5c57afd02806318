import Mathlib.Algebra.BigOperators.Intervals
import Mathlib.Algebra.BigOperators.Ring.Finset
import VeraCrypt.Crypto.Poly1305
import VeraCrypt.Lib.PackedFields

/-!
# Poly1305 and RFC 8439

The limbs of the source as one number, and what each step does to it. A block is added, the product
with `r` is taken modulo the prime `2^130 - 5`, and no sum or product on the way leaves its word:
the limbs are below a bound before each block (`Settled`) that one round of carries restores
(`mulR_exact`). At the end the number below the prime is chosen and `s` is added
(`poly1305_eq_rfcTag`).
-/

set_option autoImplicit false

namespace VeraCrypt
namespace Poly1305

open Lib

/-! ## The specification -/

/-- The number of five limbs. -/
def Limbs.num (h : Limbs) : Nat :=
  h.l0.toNat + 2 ^ 26 * h.l1.toNat + 2 ^ 52 * h.l2.toNat + 2 ^ 78 * h.l3.toNat +
    2 ^ 104 * h.l4.toNat

/-- `2^130 - 5` -/
def prime : Nat := 0x3fffffffffffffffffffffffffffffffb

def clamp (r : Nat) : Nat := r &&& 0x0ffffffc0ffffffc0ffffffc0fffffff

/-- Block `i` of a message with a bit set beyond its last byte. -/
def blockNum (msg : Bytes) (i : Nat) : Nat :=
  leNat (slice msg (16 * i) 16) + 2 ^ (8 * (slice msg (16 * i) 16).length)

def blockCount (msg : Bytes) : Nat := (msg.length + 15) / 16

/-- The polynomial of the first `n` blocks at `r`. -/
def polynomial (r : Nat) (msg : Bytes) (n : Nat) : Nat :=
  ∑ i ∈ Finset.range n, blockNum msg i * r ^ (n - i)

/-- The tag of RFC 8439 as a number. -/
def rfcTag (msg key : Bytes) : Nat :=
  (polynomial (clamp (leNat (slice key 0 16))) msg (blockCount msg) % prime +
    leNat (slice key 16 16)) % 2 ^ 128

/-! ## Words -/

theorem toNat_ld32 (p : Bytes) (off : Nat) :
    (ld32 p off).toNat = leNat p / 256 ^ off % 2 ^ 32 := by
  rw [ld32, UInt32.toNat_ofNat', slice, leNat_take, leNat_drop]
  norm_num

theorem toNat_and_limbMask (x : UInt32) : (x &&& limbMask).toNat = x.toNat % 2 ^ 26 := by
  rw [UInt32.toNat_and]
  exact Nat.and_two_pow_sub_one_eq_mod x.toNat 26

theorem toNat_shr (x : UInt32) {k : Nat} (hk : k < 32) :
    (x >>> UInt32.ofNat k).toNat = x.toNat / 2 ^ k := by
  have hmod : (UInt32.ofNat k).toNat % 32 = k := by
    rw [UInt32.toNat_ofNat']
    omega
  rw [UInt32.toNat_shiftRight, hmod, Nat.shiftRight_eq_div_pow]

theorem toNat_shl (x : UInt32) {k : Nat} (hk : k < 32) :
    (x <<< UInt32.ofNat k).toNat = x.toNat * 2 ^ k % 2 ^ 32 := by
  have hmod : (UInt32.ofNat k).toNat % 32 = k := by
    rw [UInt32.toNat_ofNat']
    omega
  rw [UInt32.toNat_shiftLeft, hmod, Nat.shiftLeft_eq]

theorem toNat_shr64 (x : UInt64) {k : Nat} (hk : k < 64) :
    (x >>> UInt64.ofNat k).toNat = x.toNat / 2 ^ k := by
  have hmod : (UInt64.ofNat k).toNat % 64 = k := by
    rw [UInt64.toNat_ofNat']
    omega
  rw [UInt64.toNat_shiftRight, hmod, Nat.shiftRight_eq_div_pow]

/-- The words at 26-bit steps of sixteen bytes, and their limbs. -/
theorem limbs_of_bytes (b : Bytes) :
    (ld32 b 0 &&& limbMask).toNat = leNat b % 2 ^ 26 ∧
      ((ld32 b 3 >>> 2) &&& limbMask).toNat = leNat b / 2 ^ 26 % 2 ^ 26 ∧
      ((ld32 b 6 >>> 4) &&& limbMask).toNat = leNat b / 2 ^ 52 % 2 ^ 26 ∧
      ((ld32 b 9 >>> 6) &&& limbMask).toNat = leNat b / 2 ^ 78 % 2 ^ 26 ∧
      (ld32 b 12 >>> 8).toNat = leNat b / 2 ^ 104 % 2 ^ 24 := by
  have h2 := toNat_shr (ld32 b 3) (k := 2) (by decide)
  have h4 := toNat_shr (ld32 b 6) (k := 4) (by decide)
  have h6 := toNat_shr (ld32 b 9) (k := 6) (by decide)
  have h8 := toNat_shr (ld32 b 12) (k := 8) (by decide)
  rw [toNat_ld32] at h2 h4 h6 h8
  refine ⟨?_, ?_, ?_, ?_, ?_⟩
  · rw [toNat_and_limbMask, toNat_ld32]
    omega
  · rw [toNat_and_limbMask]
    refine (congrArg (· % 2 ^ 26) h2).trans ?_
    norm_num
    omega
  · rw [toNat_and_limbMask]
    refine (congrArg (· % 2 ^ 26) h4).trans ?_
    norm_num
    omega
  · rw [toNat_and_limbMask]
    refine (congrArg (· % 2 ^ 26) h6).trans ?_
    norm_num
    omega
  · refine h8.trans ?_
    norm_num
    omega

/-! ## The key -/

/-- A mask sees the bits below its own size alone. -/
theorem and_mask (x : Nat) {mask k : Nat} (h : mask < 2 ^ k) : x % 2 ^ k &&& mask = x &&& mask := by
  have hand : (x &&& mask) % 2 ^ k = x % 2 ^ k &&& mask % 2 ^ k := Nat.and_mod_two_pow
  rw [Nat.mod_eq_of_lt h] at hand
  rw [← hand, Nat.mod_eq_of_lt (Nat.and_lt_two_pow x h)]

/-- A limb of the clamped number: a field of the number under a field of the mask. -/
theorem clamp_field (n k : Nat) :
    clamp n / 2 ^ k % 2 ^ 26 =
      n / 2 ^ k &&& (0x0ffffffc0ffffffc0ffffffc0fffffff / 2 ^ k % 2 ^ 26) := by
  rw [clamp, Nat.and_div_two_pow, Nat.and_mod_two_pow]
  exact and_mask _ (Nat.mod_lt _ (by decide))

theorem clamp_mod (n : Nat) : clamp (n % 2 ^ 128) = clamp n := and_mask n (by decide)

/-- What the clamped limbs are below. -/
structure Clamped (r : Limbs) : Prop where
  l0 : r.l0.toNat < 2 ^ 26
  l1 : r.l1.toNat < 2 ^ 26
  l2 : r.l2.toNat < 2 ^ 26
  l3 : r.l3.toNat < 2 ^ 26
  l4 : r.l4.toNat < 2 ^ 20

theorem clampR_fields (key : Bytes) :
    (clampR key).l0.toNat = leNat key / 2 ^ 0 &&& 0x03ffffff ∧
      (clampR key).l1.toNat = leNat key / 2 ^ 26 &&& 0x03ffff03 ∧
      (clampR key).l2.toNat = leNat key / 2 ^ 52 &&& 0x03ffc0ff ∧
      (clampR key).l3.toNat = leNat key / 2 ^ 78 &&& 0x03f03fff ∧
      (clampR key).l4.toNat = leNat key / 2 ^ 104 &&& 0x000fffff := by
  obtain ⟨h0, h1, h2, h3, h4⟩ := limbs_of_bytes key
  rw [toNat_and_limbMask] at h0 h1 h2 h3
  have hmask : ∀ (x mask : UInt32) (k : Nat) (n : Nat), mask.toNat < 2 ^ k →
      x.toNat % 2 ^ k = n % 2 ^ k → (x &&& mask).toNat = n &&& mask.toNat := by
    intro x mask k n hlt heq
    rw [UInt32.toNat_and, ← and_mask x.toNat hlt, heq, and_mask n hlt]
  refine ⟨?_, ?_, ?_, ?_, ?_⟩
  · exact hmask _ _ 26 _ (by decide) (by rw [h0]; omega)
  · exact hmask _ _ 26 _ (by decide) h1
  · exact hmask _ _ 26 _ (by decide) h2
  · exact hmask _ _ 26 _ (by decide) h3
  · exact hmask _ _ 24 _ (by decide) (by rw [h4]; omega)

theorem clamped_clampR (key : Bytes) : Clamped (clampR key) := by
  obtain ⟨h0, h1, h2, h3, h4⟩ := clampR_fields key
  have hle : ∀ x mask bound : Nat, mask < bound → x &&& mask < bound :=
    fun x mask bound h => Nat.lt_of_le_of_lt Nat.and_le_right h
  exact
    { l0 := h0 ▸ hle _ _ _ (by decide)
      l1 := h1 ▸ hle _ _ _ (by decide)
      l2 := h2 ▸ hle _ _ _ (by decide)
      l3 := h3 ▸ hle _ _ _ (by decide)
      l4 := h4 ▸ hle _ _ _ (by decide) }

/-- The clamped limbs are the clamped number. -/
theorem num_clampR (key : Bytes) : (clampR key).num = clamp (leNat (slice key 0 16)) := by
  obtain ⟨h0, h1, h2, h3, h4⟩ := clampR_fields key
  have hlow : leNat (slice key 0 16) = leNat key % 2 ^ 128 := by
    rw [slice, leNat_take, List.drop_zero]
    norm_num
  have hsmall : clamp (leNat key) < 2 ^ 130 := Nat.and_lt_two_pow _ (by decide)
  have f0 : clamp (leNat key) / 2 ^ 0 % 2 ^ 26 = (clampR key).l0.toNat :=
    (clamp_field (leNat key) 0).trans h0.symm
  have f1 : clamp (leNat key) / 2 ^ 26 % 2 ^ 26 = (clampR key).l1.toNat :=
    (clamp_field (leNat key) 26).trans h1.symm
  have f2 : clamp (leNat key) / 2 ^ 52 % 2 ^ 26 = (clampR key).l2.toNat :=
    (clamp_field (leNat key) 52).trans h2.symm
  have f3 : clamp (leNat key) / 2 ^ 78 % 2 ^ 26 = (clampR key).l3.toNat :=
    (clamp_field (leNat key) 78).trans h3.symm
  have f4 : clamp (leNat key) / 2 ^ 104 % 2 ^ 26 = (clampR key).l4.toNat :=
    (clamp_field (leNat key) 104).trans h4.symm
  rw [hlow, clamp_mod, Limbs.num, ← f0, ← f1, ← f2, ← f3, ← f4]
  omega

/-! ## A block is added -/

/-- The limbs between two blocks. The second is not settled: the last carry goes into it. -/
structure Settled (h : Limbs) : Prop where
  l0 : h.l0.toNat < 2 ^ 26
  l1 : h.l1.toNat < 2 ^ 26 + 64
  l2 : h.l2.toNat < 2 ^ 26
  l3 : h.l3.toNat < 2 ^ 26
  l4 : h.l4.toNat < 2 ^ 26

/-- The limbs with a block added. -/
structure Loaded (h : Limbs) : Prop where
  l0 : h.l0.toNat < 2 ^ 27
  l1 : h.l1.toNat < 2 ^ 27 + 64
  l2 : h.l2.toNat < 2 ^ 27
  l3 : h.l3.toNat < 2 ^ 27
  l4 : h.l4.toNat < 2 ^ 26 + 2 ^ 25

/-- `block` and `hibit` together are the block with its end marked. -/
theorem marked_block {b : Bytes} (hb : b.length ≤ 16) :
    leNat (if b.length < 16 then b ++ 1 :: List.replicate (15 - b.length) 0 else b) +
        2 ^ 104 * (if b.length < 16 then (0 : UInt32) else (1 : UInt32) <<< 24).toNat =
      leNat b + 2 ^ (8 * b.length) ∧
    leNat (if b.length < 16 then b ++ 1 :: List.replicate (15 - b.length) 0 else b) < 2 ^ 128 := by
  have hzero : ∀ n : Nat, leNat (List.replicate n 0) = 0 := by
    intro n
    induction n with
    | zero => rfl
    | succ n ih => simp [List.replicate_succ, leNat, ih]
  have hpow : ∀ n : Nat, 256 ^ n = 2 ^ (8 * n) := by
    intro n
    rw [pow_mul]
    norm_num
  by_cases hshort : b.length < 16
  · have hlen : (b ++ 1 :: List.replicate (15 - b.length) (0 : UInt8)).length = 16 := by
      simp
      omega
    have hlt := leNat_lt (b ++ 1 :: List.replicate (15 - b.length) (0 : UInt8))
    rw [hlen] at hlt
    simp only [if_pos hshort]
    refine ⟨?_, by norm_num at hlt ⊢; exact hlt⟩
    rw [leNat_append, leNat, hzero, hpow]
    simp
  · have hlen : b.length = 16 := by omega
    have hlt := leNat_lt b
    rw [hlen] at hlt
    simp only [if_neg hshort]
    refine ⟨?_, by norm_num at hlt ⊢; exact hlt⟩
    rw [hlen]
    rfl

/-- The fields of sixteen bytes make up their number. -/
theorem fields_of_block {n : Nat} (h : n < 2 ^ 128) :
    n % 2 ^ 26 + 2 ^ 26 * (n / 2 ^ 26 % 2 ^ 26) + 2 ^ 52 * (n / 2 ^ 52 % 2 ^ 26) +
      2 ^ 78 * (n / 2 ^ 78 % 2 ^ 26) + 2 ^ 104 * (n / 2 ^ 104 % 2 ^ 24) = n := by
  omega

theorem addBlock_exact {h : Limbs} (hh : Settled h) {b : Bytes} (hb : b.length ≤ 16) :
    (addBlock h b).num = h.num + (leNat b + 2 ^ (8 * b.length)) ∧ Loaded (addBlock h b) := by
  obtain ⟨hmark, hlt⟩ := marked_block hb
  unfold addBlock
  dsimp only
  generalize (if b.length < 16 then b ++ 1 :: List.replicate (15 - b.length) 0 else b) = block
    at hmark hlt ⊢
  have hhi : ∃ top : Nat, top ≤ 1 ∧
      (if b.length < 16 then (0 : UInt32) else (1 : UInt32) <<< 24).toNat = 2 ^ 24 * top := by
    by_cases hshort : b.length < 16
    · exact ⟨0, by decide, by rw [if_pos hshort]; rfl⟩
    · exact ⟨1, by decide, by rw [if_neg hshort]; rfl⟩
  generalize (if b.length < 16 then (0 : UInt32) else (1 : UInt32) <<< 24) = hibit at hmark hhi ⊢
  obtain ⟨top, htop, hhi⟩ := hhi
  obtain ⟨f0, f1, f2, f3, f4⟩ := limbs_of_bytes block
  have hor : ((ld32 block 12 >>> 8) ||| hibit).toNat =
      leNat block / 2 ^ 104 % 2 ^ 24 + 2 ^ 24 * top := by
    rw [UInt32.toNat_or, f4, hhi, Nat.or_comm, ← Nat.two_pow_add_eq_or_of_lt
      (Nat.mod_lt _ (by decide)), Nat.add_comm]
  have s0 := hh.l0
  have s1 := hh.l1
  have s2 := hh.l2
  have s3 := hh.l3
  have s4 := hh.l4
  have e0 : (h.l0 + (ld32 block 0 &&& limbMask)).toNat = h.l0.toNat + leNat block % 2 ^ 26 := by
    rw [UInt32.toNat_add, f0]
    omega
  have e1 : (h.l1 + ((ld32 block 3 >>> 2) &&& limbMask)).toNat =
      h.l1.toNat + leNat block / 2 ^ 26 % 2 ^ 26 := by
    rw [UInt32.toNat_add, f1]
    omega
  have e2 : (h.l2 + ((ld32 block 6 >>> 4) &&& limbMask)).toNat =
      h.l2.toNat + leNat block / 2 ^ 52 % 2 ^ 26 := by
    rw [UInt32.toNat_add, f2]
    omega
  have e3 : (h.l3 + ((ld32 block 9 >>> 6) &&& limbMask)).toNat =
      h.l3.toNat + leNat block / 2 ^ 78 % 2 ^ 26 := by
    rw [UInt32.toNat_add, f3]
    omega
  have e4 : (h.l4 + ((ld32 block 12 >>> 8) ||| hibit)).toNat =
      h.l4.toNat + (leNat block / 2 ^ 104 % 2 ^ 24 + 2 ^ 24 * top) := by
    rw [UInt32.toNat_add, hor]
    omega
  rw [hhi] at hmark
  have hparts := fields_of_block hlt
  have m0 : leNat block % 2 ^ 26 < 2 ^ 26 := Nat.mod_lt _ (by decide)
  have m1 : leNat block / 2 ^ 26 % 2 ^ 26 < 2 ^ 26 := Nat.mod_lt _ (by decide)
  have m2 : leNat block / 2 ^ 52 % 2 ^ 26 < 2 ^ 26 := Nat.mod_lt _ (by decide)
  have m3 : leNat block / 2 ^ 78 % 2 ^ 26 < 2 ^ 26 := Nat.mod_lt _ (by decide)
  have m4 : leNat block / 2 ^ 104 % 2 ^ 24 < 2 ^ 24 := Nat.mod_lt _ (by decide)
  constructor
  · unfold Limbs.num
    rw [e0, e1, e2, e3, e4]
    generalize leNat block % 2 ^ 26 = b0 at *
    generalize leNat block / 2 ^ 26 % 2 ^ 26 = b1 at *
    generalize leNat block / 2 ^ 52 % 2 ^ 26 = b2 at *
    generalize leNat block / 2 ^ 78 % 2 ^ 26 = b3 at *
    generalize leNat block / 2 ^ 104 % 2 ^ 24 = b4 at *
    rw [← hmark, ← hparts]
    ring
  · exact
      { l0 := by rw [e0]; omega
        l1 := by rw [e1]; omega
        l2 := by rw [e2]; omega
        l3 := by rw [e3]; omega
        l4 := by rw [e4]; omega }

/-! ## The product -/

/-- A sum of five products in a word of 64 bits. -/
def dot (h : Limbs) (x0 x1 x2 x3 x4 : UInt32) : UInt64 :=
  h.l0.toUInt64 * x0.toUInt64 + h.l1.toUInt64 * x1.toUInt64 + h.l2.toUInt64 * x2.toUInt64 +
    h.l3.toUInt64 * x3.toUInt64 + h.l4.toUInt64 * x4.toUInt64

/-- The same sum as a number. -/
def dotNat (h : Limbs) (x0 x1 x2 x3 x4 : Nat) : Nat :=
  h.l0.toNat * x0 + h.l1.toNat * x1 + h.l2.toNat * x2 + h.l3.toNat * x3 + h.l4.toNat * x4

/-- The carries from the five sums of a product. -/
def passCarries (d0 d1 d2 d3 d4 : UInt64) : Limbs :=
  let d1 := d1 + (d0 >>> 26)
  let d2 := d2 + (d1 >>> 26)
  let d3 := d3 + (d2 >>> 26)
  let d4 := d4 + (d3 >>> 26)
  let l0 := (d0.toUInt32 &&& limbMask) + (d4 >>> 26).toUInt32 * 5
  { l0 := l0 &&& limbMask
    l1 := (d1.toUInt32 &&& limbMask) + (l0 >>> 26)
    l2 := d2.toUInt32 &&& limbMask
    l3 := d3.toUInt32 &&& limbMask
    l4 := d4.toUInt32 &&& limbMask }

theorem mulR_eq (r h : Limbs) :
    mulR r h =
      passCarries (dot h r.l0 (r.l4 * 5) (r.l3 * 5) (r.l2 * 5) (r.l1 * 5))
        (dot h r.l1 r.l0 (r.l4 * 5) (r.l3 * 5) (r.l2 * 5))
        (dot h r.l2 r.l1 r.l0 (r.l4 * 5) (r.l3 * 5))
        (dot h r.l3 r.l2 r.l1 r.l0 (r.l4 * 5)) (dot h r.l4 r.l3 r.l2 r.l1 r.l0) := rfl

/-- The five sums of a product as numbers. -/
structure Sums where
  d0 : Nat
  d1 : Nat
  d2 : Nat
  d3 : Nat
  d4 : Nat

def Sums.num (w : Sums) : Nat :=
  w.d0 + 2 ^ 26 * w.d1 + 2 ^ 52 * w.d2 + 2 ^ 78 * w.d3 + 2 ^ 104 * w.d4

/-- The sums of `h * r`, where a factor `2^130` is replaced by 5. -/
def products (r h : Limbs) : Sums :=
  let r0 := r.l0.toNat
  let r1 := r.l1.toNat
  let r2 := r.l2.toNat
  let r3 := r.l3.toNat
  let r4 := r.l4.toNat
  { d0 := dotNat h r0 (5 * r4) (5 * r3) (5 * r2) (5 * r1)
    d1 := dotNat h r1 r0 (5 * r4) (5 * r3) (5 * r2)
    d2 := dotNat h r2 r1 r0 (5 * r4) (5 * r3)
    d3 := dotNat h r3 r2 r1 r0 (5 * r4)
    d4 := dotNat h r4 r3 r2 r1 r0 }

/-- Each sum with what the one before it passes on. -/
def Sums.carried (w : Sums) : Sums :=
  let d1 := w.d1 + w.d0 / 2 ^ 26
  let d2 := w.d2 + d1 / 2 ^ 26
  let d3 := w.d3 + d2 / 2 ^ 26
  let d4 := w.d4 + d3 / 2 ^ 26
  ⟨w.d0, d1, d2, d3, d4⟩

/-- The lowest limb with five times what leaves the highest. -/
def Sums.wrapped (w : Sums) : Nat := w.d0 % 2 ^ 26 + 5 * (w.carried.d4 / 2 ^ 26)

/-- What is left out of a product that is taken with a factor 5 for `2^130`. -/
theorem num_products (r h : Limbs) : ∃ q, h.num * r.num = (products r h).num + prime * q := by
  refine ⟨h.l1.toNat * r.l4.toNat + h.l2.toNat * r.l3.toNat + h.l3.toNat * r.l2.toNat +
      h.l4.toNat * r.l1.toNat +
    2 ^ 26 * (h.l2.toNat * r.l4.toNat + h.l3.toNat * r.l3.toNat + h.l4.toNat * r.l2.toNat) +
    2 ^ 52 * (h.l3.toNat * r.l4.toNat + h.l4.toNat * r.l3.toNat) +
    2 ^ 78 * (h.l4.toNat * r.l4.toNat), ?_⟩
  unfold Limbs.num Sums.num products dotNat prime
  ring

/-- What a sum of a product is below. -/
theorem dotNat_lt {h : Limbs} (hh : Loaded h) {x0 x1 x2 x3 x4 : Nat} (h0 : x0 < 5 * 2 ^ 26)
    (h1 : x1 < 5 * 2 ^ 26) (h2 : x2 < 5 * 2 ^ 26) (h3 : x3 < 5 * 2 ^ 26) (h4 : x4 < 5 * 2 ^ 26) :
    dotNat h x0 x1 x2 x3 x4 < 2 ^ 58 := by
  have hmul : ∀ a x : Nat, a < 2 ^ 27 + 64 → x < 5 * 2 ^ 26 →
      a * x ≤ (2 ^ 27 + 64) * (5 * 2 ^ 26) :=
    fun a x ha hx => Nat.mul_le_mul ha.le hx.le
  have p0 := hmul h.l0.toNat x0 (hh.l0.trans (by decide)) h0
  have p1 := hmul h.l1.toNat x1 hh.l1 h1
  have p2 := hmul h.l2.toNat x2 (hh.l2.trans (by decide)) h2
  have p3 := hmul h.l3.toNat x3 (hh.l3.trans (by decide)) h3
  have p4 := hmul h.l4.toNat x4 (hh.l4.trans (by decide)) h4
  unfold dotNat
  omega

/-- The highest sum has no factor 5 in it. -/
theorem dotNat_top_lt {h : Limbs} (hh : Loaded h) {r : Limbs} (hr : Clamped r) :
    (products r h).d4 < 2 ^ 55 - 2 ^ 40 := by
  have p0 : h.l0.toNat * r.l4.toNat ≤ 2 ^ 27 * 2 ^ 20 := Nat.mul_le_mul hh.l0.le hr.l4.le
  have p1 : h.l1.toNat * r.l3.toNat ≤ (2 ^ 27 + 64) * 2 ^ 26 := Nat.mul_le_mul hh.l1.le hr.l3.le
  have p2 : h.l2.toNat * r.l2.toNat ≤ 2 ^ 27 * 2 ^ 26 := Nat.mul_le_mul hh.l2.le hr.l2.le
  have p3 : h.l3.toNat * r.l1.toNat ≤ 2 ^ 27 * 2 ^ 26 := Nat.mul_le_mul hh.l3.le hr.l1.le
  have p4 : h.l4.toNat * r.l0.toNat ≤ (2 ^ 26 + 2 ^ 25) * 2 ^ 26 :=
    Nat.mul_le_mul hh.l4.le hr.l0.le
  simp only [products, dotNat]
  omega

theorem toNat_dot {h : Limbs} (hh : Loaded h) {x0 x1 x2 x3 x4 : UInt32}
    (h0 : x0.toNat < 5 * 2 ^ 26) (h1 : x1.toNat < 5 * 2 ^ 26) (h2 : x2.toNat < 5 * 2 ^ 26)
    (h3 : x3.toNat < 5 * 2 ^ 26) (h4 : x4.toNat < 5 * 2 ^ 26) :
    (dot h x0 x1 x2 x3 x4).toNat =
      dotNat h x0.toNat x1.toNat x2.toNat x3.toNat x4.toNat := by
  have hlt := dotNat_lt hh h0 h1 h2 h3 h4
  unfold dot
  simp only [UInt64.toNat_add, UInt64.toNat_mul, UInt32.toNat_toUInt64, Nat.add_mod_mod,
    Nat.mod_add_mod]
  exact Nat.mod_eq_of_lt (hlt.trans (by decide))

/-- The factor 5 of a clamped limb. -/
theorem toNat_mul_five {x : UInt32} (h : x.toNat < 2 ^ 26) : (x * 5).toNat = 5 * x.toNat := by
  rw [UInt32.toNat_mul]
  have h5 : (5 : UInt32).toNat = 5 := rfl
  rw [h5]
  omega

/-- What the sums of a product are below. -/
structure Sums.Bounded (w : Sums) : Prop where
  d0 : w.d0 < 2 ^ 58
  d1 : w.d1 < 2 ^ 58
  d2 : w.d2 < 2 ^ 58
  d3 : w.d3 < 2 ^ 58
  d4 : w.d4 < 2 ^ 55 - 2 ^ 40

theorem bounded_products {r h : Limbs} (hr : Clamped r) (hh : Loaded h) :
    (products r h).Bounded := by
  have b0 := hr.l0
  have b1 := hr.l1
  have b2 := hr.l2
  have b3 := hr.l3
  have b4 := hr.l4
  exact
    { d0 := dotNat_lt hh (by omega) (by omega) (by omega) (by omega) (by omega)
      d1 := dotNat_lt hh (by omega) (by omega) (by omega) (by omega) (by omega)
      d2 := dotNat_lt hh (by omega) (by omega) (by omega) (by omega) (by omega)
      d3 := dotNat_lt hh (by omega) (by omega) (by omega) (by omega) (by omega)
      d4 := dotNat_top_lt hh hr }

/-- What the carried sums and the wrapped limb are below. -/
structure Sums.CarriedBounded (w : Sums) : Prop where
  d0 : w.carried.d0 < 2 ^ 58
  d1 : w.carried.d1 < 2 ^ 59
  d2 : w.carried.d2 < 2 ^ 59
  d3 : w.carried.d3 < 2 ^ 59
  d4 : w.carried.d4 < 2 ^ 55
  wrapped : w.wrapped < 5 * 2 ^ 29 + 2 ^ 26

theorem Sums.Bounded.carried {w : Sums} (hw : w.Bounded) : w.CarriedBounded := by
  have b0 := hw.d0
  have b1 := hw.d1
  have b2 := hw.d2
  have b3 := hw.d3
  have b4 := hw.d4
  have c1 : w.carried.d1 < 2 ^ 59 := by
    show w.d1 + w.d0 / 2 ^ 26 < 2 ^ 59
    omega
  have c2 : w.carried.d2 < 2 ^ 59 := by
    show w.d2 + w.carried.d1 / 2 ^ 26 < 2 ^ 59
    omega
  have c3 : w.carried.d3 < 2 ^ 59 := by
    show w.d3 + w.carried.d2 / 2 ^ 26 < 2 ^ 59
    omega
  have c4 : w.carried.d4 < 2 ^ 55 := by
    show w.d4 + w.carried.d3 / 2 ^ 26 < 2 ^ 55
    omega
  refine ⟨b0, c1, c2, c3, c4, ?_⟩
  unfold Sums.wrapped
  omega

theorem toNat_carry64 (x : UInt64) : (x >>> 26).toNat = x.toNat / 2 ^ 26 :=
  toNat_shr64 x (k := 26) (by decide)

theorem toNat_carry (x : UInt32) : (x >>> 26).toNat = x.toNat / 2 ^ 26 :=
  toNat_shr x (k := 26) (by decide)

/-- A limb out of a word of 64 bits. -/
theorem toNat_limb64 (d : UInt64) : (d.toUInt32 &&& limbMask).toNat = d.toNat % 2 ^ 26 := by
  rw [toNat_and_limbMask, UInt64.toNat_toUInt32]
  omega

/-- A carry into the next sum. -/
theorem toNat_add_carry64 {d c : UInt64} {x y : Nat} (hd : d.toNat = x) (hc : c.toNat = y)
    (hlt : x + y / 2 ^ 26 < 2 ^ 64) : (d + (c >>> 26)).toNat = x + y / 2 ^ 26 := by
  rw [UInt64.toNat_add, toNat_carry64, hd, hc]
  exact Nat.mod_eq_of_lt hlt

/-- The limbs after the carries: the carried sums cut to 26 bits, what leaves the highest five-fold
in the lowest, and one carry more. -/
theorem passCarries_exact {d0 d1 d2 d3 d4 : UInt64} {w : Sums} (hw : w.Bounded)
    (e0 : d0.toNat = w.d0) (e1 : d1.toNat = w.d1) (e2 : d2.toNat = w.d2) (e3 : d3.toNat = w.d3)
    (e4 : d4.toNat = w.d4) :
    (passCarries d0 d1 d2 d3 d4).l0.toNat = w.wrapped % 2 ^ 26 ∧
      (passCarries d0 d1 d2 d3 d4).l1.toNat = w.carried.d1 % 2 ^ 26 + w.wrapped / 2 ^ 26 ∧
      (passCarries d0 d1 d2 d3 d4).l2.toNat = w.carried.d2 % 2 ^ 26 ∧
      (passCarries d0 d1 d2 d3 d4).l3.toNat = w.carried.d3 % 2 ^ 26 ∧
      (passCarries d0 d1 d2 d3 d4).l4.toNat = w.carried.d4 % 2 ^ 26 := by
  have hc := hw.carried
  have c1 : (d1 + (d0 >>> 26)).toNat = w.carried.d1 :=
    toNat_add_carry64 e1 e0 (hc.d1.trans (by decide))
  have c2 : (d2 + ((d1 + (d0 >>> 26)) >>> 26)).toNat = w.carried.d2 :=
    toNat_add_carry64 e2 c1 (hc.d2.trans (by decide))
  have c3 : (d3 + ((d2 + ((d1 + (d0 >>> 26)) >>> 26)) >>> 26)).toNat = w.carried.d3 :=
    toNat_add_carry64 e3 c2 (hc.d3.trans (by decide))
  have c4 : (d4 + ((d3 + ((d2 + ((d1 + (d0 >>> 26)) >>> 26)) >>> 26)) >>> 26)).toNat =
      w.carried.d4 :=
    toNat_add_carry64 e4 c3 (hc.d4.trans (by decide))
  unfold passCarries
  dsimp only
  generalize d1 + (d0 >>> 26) = x1 at c1 c2 c3 c4 ⊢
  generalize d2 + (x1 >>> 26) = x2 at c2 c3 c4 ⊢
  generalize d3 + (x2 >>> 26) = x3 at c3 c4 ⊢
  generalize d4 + (x3 >>> 26) = x4 at c4 ⊢
  -- the word of 32 bits that the last carry goes through
  have hwrap : ((d0.toUInt32 &&& limbMask) + (x4 >>> 26).toUInt32 * 5).toNat = w.wrapped := by
    have hlt := hc.wrapped
    have h5 : (5 : UInt32).toNat = 5 := rfl
    unfold Sums.wrapped at hlt ⊢
    rw [UInt32.toNat_add, UInt32.toNat_mul, toNat_limb64, UInt64.toNat_toUInt32, toNat_carry64,
      c4, e0, h5]
    omega
  have hadd : ((x1.toUInt32 &&& limbMask) +
      (((d0.toUInt32 &&& limbMask) + (x4 >>> 26).toUInt32 * 5) >>> 26)).toNat =
      w.carried.d1 % 2 ^ 26 + w.wrapped / 2 ^ 26 := by
    have hlt := hc.wrapped
    rw [UInt32.toNat_add, toNat_limb64, toNat_carry, hwrap, c1]
    omega
  refine ⟨?_, hadd, ?_, ?_, ?_⟩
  · rw [toNat_and_limbMask, hwrap]
  · rw [toNat_limb64, c2]
  · rw [toNat_limb64, c3]
  · rw [toNat_limb64, c4]

/-- The number the carries leave. -/
theorem num_carried (w : Sums) :
    w.wrapped % 2 ^ 26 + 2 ^ 26 * (w.carried.d1 % 2 ^ 26 + w.wrapped / 2 ^ 26) +
        2 ^ 52 * (w.carried.d2 % 2 ^ 26) + 2 ^ 78 * (w.carried.d3 % 2 ^ 26) +
        2 ^ 104 * (w.carried.d4 % 2 ^ 26) + prime * (w.carried.d4 / 2 ^ 26) = w.num := by
  have c1 : w.carried.d1 = w.d1 + w.d0 / 2 ^ 26 := rfl
  have c2 : w.carried.d2 = w.d2 + w.carried.d1 / 2 ^ 26 := rfl
  have c3 : w.carried.d3 = w.d3 + w.carried.d2 / 2 ^ 26 := rfl
  have c4 : w.carried.d4 = w.d4 + w.carried.d3 / 2 ^ 26 := rfl
  unfold Sums.wrapped Sums.num prime
  omega

/-- The limbs of a product are those of the sums as numbers. -/
theorem mulR_limbs {r h : Limbs} (hr : Clamped r) (hh : Loaded h) :
    (mulR r h).l0.toNat = (products r h).wrapped % 2 ^ 26 ∧
      (mulR r h).l1.toNat =
        (products r h).carried.d1 % 2 ^ 26 + (products r h).wrapped / 2 ^ 26 ∧
      (mulR r h).l2.toNat = (products r h).carried.d2 % 2 ^ 26 ∧
      (mulR r h).l3.toNat = (products r h).carried.d3 % 2 ^ 26 ∧
      (mulR r h).l4.toNat = (products r h).carried.d4 % 2 ^ 26 := by
  have b0 := hr.l0
  have b1 := hr.l1
  have b2 := hr.l2
  have b3 := hr.l3
  have b4 := hr.l4
  have s1 := toNat_mul_five b1
  have s2 := toNat_mul_five b2
  have s3 := toNat_mul_five b3
  have s4 := toNat_mul_five (b4.trans (by decide))
  have e0 : (dot h r.l0 (r.l4 * 5) (r.l3 * 5) (r.l2 * 5) (r.l1 * 5)).toNat = (products r h).d0 := by
    rw [toNat_dot hh (by omega) (by omega) (by omega) (by omega) (by omega), s1, s2, s3, s4]
    rfl
  have e1 : (dot h r.l1 r.l0 (r.l4 * 5) (r.l3 * 5) (r.l2 * 5)).toNat = (products r h).d1 := by
    rw [toNat_dot hh (by omega) (by omega) (by omega) (by omega) (by omega), s2, s3, s4]
    rfl
  have e2 : (dot h r.l2 r.l1 r.l0 (r.l4 * 5) (r.l3 * 5)).toNat = (products r h).d2 := by
    rw [toNat_dot hh (by omega) (by omega) (by omega) (by omega) (by omega), s3, s4]
    rfl
  have e3 : (dot h r.l3 r.l2 r.l1 r.l0 (r.l4 * 5)).toNat = (products r h).d3 := by
    rw [toNat_dot hh (by omega) (by omega) (by omega) (by omega) (by omega), s4]
    rfl
  have e4 : (dot h r.l4 r.l3 r.l2 r.l1 r.l0).toNat = (products r h).d4 :=
    toNat_dot hh (by omega) (by omega) (by omega) (by omega) (by omega)
  rw [mulR_eq]
  exact passCarries_exact (bounded_products hr hh) e0 e1 e2 e3 e4

/-- One block of the product: the limbs are settled again, and the number is that of the product
but for a multiple of the prime. -/
theorem mulR_exact {r h : Limbs} (hr : Clamped r) (hh : Loaded h) :
    Settled (mulR r h) ∧ ∃ q, h.num * r.num = (mulR r h).num + prime * q := by
  obtain ⟨f0, f1, f2, f3, f4⟩ := mulR_limbs hr hh
  have hwrap := (bounded_products hr hh).carried.wrapped
  refine ⟨?_, ?_⟩
  · exact
      { l0 := by rw [f0]; exact Nat.mod_lt _ (by decide)
        l1 := by rw [f1]; omega
        l2 := by rw [f2]; exact Nat.mod_lt _ (by decide)
        l3 := by rw [f3]; exact Nat.mod_lt _ (by decide)
        l4 := by rw [f4]; exact Nat.mod_lt _ (by decide) }
  · obtain ⟨q, hq⟩ := num_products r h
    refine ⟨(products r h).carried.d4 / 2 ^ 26 + q, ?_⟩
    rw [hq, ← num_carried, Limbs.num, f0, f1, f2, f3, f4, Nat.mul_add prime, Nat.add_assoc]

/-! ## The blocks of a message -/

/-- The limbs after the first `n` blocks. -/
def after (r : Limbs) (msg : Bytes) (n : Nat) : Limbs :=
  (List.range n).foldl (fun h i => mulR r (addBlock h (slice msg (16 * i) 16))) ⟨0, 0, 0, 0, 0⟩

theorem after_zero (r : Limbs) (msg : Bytes) : after r msg 0 = ⟨0, 0, 0, 0, 0⟩ := rfl

theorem after_succ (r : Limbs) (msg : Bytes) (n : Nat) :
    after r msg (n + 1) = mulR r (addBlock (after r msg n) (slice msg (16 * n) 16)) := by
  simp [after, List.range_succ]

theorem blocks_eq (r : Limbs) (msg : Bytes) : blocks r msg = after r msg (blockCount msg) := rfl

/-- One block more: the value so far and the block, times `r`. -/
theorem polynomial_succ (r : Nat) (msg : Bytes) (n : Nat) :
    polynomial r msg (n + 1) = (polynomial r msg n + blockNum msg n) * r := by
  have hshift : ∀ i ∈ Finset.range n,
      blockNum msg i * r ^ (n + 1 - i) = blockNum msg i * r ^ (n - i) * r := by
    intro i hi
    have hle : i ≤ n := (Finset.mem_range.mp hi).le
    rw [Nat.succ_sub hle, pow_succ, mul_assoc]
  unfold polynomial
  rw [Finset.sum_range_succ, Finset.sum_congr rfl hshift, ← Finset.sum_mul, Nat.add_mul]
  simp

theorem length_slice_le (msg : Bytes) (off : Nat) : (slice msg off 16).length ≤ 16 := by
  simp [slice]

/-- The limbs are settled before every block, and their number is the polynomial's value so far. -/
theorem after_exact {r : Limbs} (hr : Clamped r) (msg : Bytes) (n : Nat) :
    Settled (after r msg n) ∧ (after r msg n).num ≡ polynomial r.num msg n [MOD prime] := by
  induction n with
  | zero =>
    rw [after_zero]
    exact ⟨⟨by decide, by decide, by decide, by decide, by decide⟩, rfl⟩
  | succ n ih =>
    obtain ⟨hsettled, hmod⟩ := ih
    obtain ⟨hnum, hloaded⟩ := addBlock_exact hsettled (length_slice_le msg (16 * n))
    obtain ⟨hnext, q, hq⟩ := mulR_exact hr hloaded
    rw [after_succ]
    refine ⟨hnext, ?_⟩
    have hdrop : (mulR r (addBlock (after r msg n) (slice msg (16 * n) 16))).num ≡
        (addBlock (after r msg n) (slice msg (16 * n) 16)).num * r.num [MOD prime] := by
      rw [hq]
      exact (Nat.add_mul_mod_self_left _ _ _).symm
    rw [polynomial_succ]
    refine hdrop.trans (Nat.ModEq.mul_right _ ?_)
    rw [hnum]
    exact hmod.add_right _

/-! ## The last carries -/

/-- Every limb has 26 bits. -/
structure Reduced (h : Limbs) : Prop where
  l0 : h.l0.toNat < 2 ^ 26
  l1 : h.l1.toNat < 2 ^ 26
  l2 : h.l2.toNat < 2 ^ 26
  l3 : h.l3.toNat < 2 ^ 26
  l4 : h.l4.toNat < 2 ^ 26

/-- A carry into a limb that has room for it. -/
theorem toNat_add_carry {x y : UInt32} (h : x.toNat + y.toNat / 2 ^ 26 < 2 ^ 32) :
    (x + (y >>> 26)).toNat = x.toNat + y.toNat / 2 ^ 26 := by
  rw [UInt32.toNat_add, toNat_carry]
  exact Nat.mod_eq_of_lt h

theorem carry_exact {h : Limbs} (hh : Settled h) :
    Reduced (carry h) ∧ ∃ q, h.num = (carry h).num + prime * q := by
  have s0 := hh.l0
  have s1 := hh.l1
  have s2 := hh.l2
  have s3 := hh.l3
  have s4 := hh.l4
  have e2 := toNat_add_carry (x := h.l2) (y := h.l1) (by omega)
  unfold carry
  dsimp only
  generalize h.l2 + (h.l1 >>> 26) = x2 at e2 ⊢
  have e3 := toNat_add_carry (x := h.l3) (y := x2) (by omega)
  generalize h.l3 + (x2 >>> 26) = x3 at e3 ⊢
  have e4 := toNat_add_carry (x := h.l4) (y := x3) (by omega)
  generalize h.l4 + (x3 >>> 26) = x4 at e4 ⊢
  have e0 : (h.l0 + (x4 >>> 26) * 5).toNat = h.l0.toNat + 5 * (x4.toNat / 2 ^ 26) := by
    have h5 : (5 : UInt32).toNat = 5 := rfl
    rw [UInt32.toNat_add, UInt32.toNat_mul, toNat_carry, h5]
    omega
  generalize h.l0 + (x4 >>> 26) * 5 = x0 at e0 ⊢
  have hmask := toNat_and_limbMask h.l1
  have e1 := toNat_add_carry (x := h.l1 &&& limbMask) (y := x0) (by omega)
  rw [hmask] at e1
  constructor
  · exact
      { l0 := by rw [toNat_and_limbMask]; exact Nat.mod_lt _ (by decide)
        l1 := by rw [e1]; omega
        l2 := by rw [toNat_and_limbMask]; exact Nat.mod_lt _ (by decide)
        l3 := by rw [toNat_and_limbMask]; exact Nat.mod_lt _ (by decide)
        l4 := by rw [toNat_and_limbMask]; exact Nat.mod_lt _ (by decide) }
  · refine ⟨x4.toNat / 2 ^ 26, ?_⟩
    unfold Limbs.num prime
    dsimp only
    rw [toNat_and_limbMask, toNat_and_limbMask, toNat_and_limbMask, toNat_and_limbMask, e1]
    omega

/-! ## The residue -/

/-- The choice is between `h` and `h - p`. -/
theorem select_exact {h : Limbs} (hh : Reduced h) :
    Reduced (select h) ∧ (select h).num = h.num % prime := by
  have s0 := hh.l0
  have s1 := hh.l1
  have s2 := hh.l2
  have s3 := hh.l3
  have s4 := hh.l4
  have e0 : (h.l0 + 5).toNat = h.l0.toNat + 5 := by
    have h5 : (5 : UInt32).toNat = 5 := rfl
    rw [UInt32.toNat_add, h5]
    omega
  unfold select
  dsimp only
  generalize h.l0 + 5 = g0 at e0 ⊢
  have e1 := toNat_add_carry (x := h.l1) (y := g0) (by omega)
  generalize h.l1 + (g0 >>> 26) = g1 at e1 ⊢
  have e2 := toNat_add_carry (x := h.l2) (y := g1) (by omega)
  generalize h.l2 + (g1 >>> 26) = g2 at e2 ⊢
  have e3 := toNat_add_carry (x := h.l3) (y := g2) (by omega)
  generalize h.l3 + (g2 >>> 26) = g3 at e3 ⊢
  have e4 := toNat_add_carry (x := h.l4) (y := g3) (by omega)
  generalize h.l4 + (g3 >>> 26) = x4 at e4 ⊢
  have hbit : ((1 : UInt32) <<< 26).toNat = 2 ^ 26 := rfl
  by_cases htop : x4.toNat = 2 ^ 26
  · -- `h + 5` has reached `2^130`: the mask lets `g` through
    have hx4 : x4 = (1 : UInt32) <<< 26 := UInt32.toNat_inj.mp (htop.trans hbit.symm)
    have hmask : (((1 : UInt32) <<< 26 - (1 : UInt32) <<< 26) >>> 31) - 1 = 0xffffffff := by decide
    have hall : ∀ x : UInt32, x &&& 0xffffffff = x := fun x => UInt32.and_neg_one
    have hnone : ∀ x y : UInt32, (x &&& ~~~0xffffffff) ||| y = y := by
      intro x y
      have hz : ~~~(0xffffffff : UInt32) = 0 := by decide
      rw [hz, UInt32.and_zero, UInt32.zero_or]
    rw [hx4, hmask]
    simp only [hall, hnone]
    have hzero : ((1 : UInt32) <<< 26 - (1 : UInt32) <<< 26).toNat = 0 := rfl
    constructor
    · exact
        { l0 := by rw [toNat_and_limbMask]; exact Nat.mod_lt _ (by decide)
          l1 := by rw [toNat_and_limbMask]; exact Nat.mod_lt _ (by decide)
          l2 := by rw [toNat_and_limbMask]; exact Nat.mod_lt _ (by decide)
          l3 := by rw [toNat_and_limbMask]; exact Nat.mod_lt _ (by decide)
          l4 := by rw [hzero]; decide }
    · unfold Limbs.num prime
      dsimp only
      rw [toNat_and_limbMask, toNat_and_limbMask, toNat_and_limbMask, toNat_and_limbMask, hzero]
      omega
  · -- below the prime: the subtraction has gone below zero, and the mask lets `h` through
    have hmask : ((x4 - (1 : UInt32) <<< 26) >>> 31) - 1 = 0 := by
      have hshift : ((x4 - (1 : UInt32) <<< 26) >>> 31) = 1 := by
        have h31 := toNat_shr (x4 - (1 : UInt32) <<< 26) (k := 31) (by decide)
        refine UInt32.toNat_inj.mp (h31.trans ?_)
        rw [UInt32.toNat_sub, hbit]
        have h1 : (1 : UInt32).toNat = 1 := rfl
        rw [h1]
        omega
      rw [hshift]
      rfl
    have hall : ∀ x : UInt32, x &&& ~~~0 = x := by
      intro x
      have hz : ~~~(0 : UInt32) = -1 := by decide
      rw [hz, UInt32.and_neg_one]
    rw [hmask]
    simp only [hall, UInt32.and_zero, UInt32.or_zero]
    refine ⟨hh, ?_⟩
    unfold Limbs.num prime
    dsimp only
    omega

/-! ## The tag -/

/-- Two limbs that share a word. -/
theorem toNat_or_shl {x y : UInt32} {k : Nat} (hk : k < 32) (hx : x.toNat < 2 ^ k) :
    (x ||| (y <<< UInt32.ofNat k)).toNat = x.toNat + 2 ^ k * (y.toNat % 2 ^ (32 - k)) := by
  have hsplit : 2 ^ 32 = 2 ^ k * 2 ^ (32 - k) := by
    rw [← pow_add]
    congr 1
    omega
  have hshl : (y <<< UInt32.ofNat k).toNat = 2 ^ k * (y.toNat % 2 ^ (32 - k)) := by
    rw [toNat_shl y hk, hsplit, Nat.mul_comm y.toNat, Nat.mul_mod_mul_left]
  rw [UInt32.toNat_or, hshl, Nat.or_comm, ← Nat.two_pow_add_eq_or_of_lt hx, Nat.add_comm]

theorem leNat_st32 (v : UInt32) : leNat (st32 v) = v.toNat := by
  rw [st32, leNat_leBytes]
  exact Nat.mod_eq_of_lt v.toNat_lt

theorem length_st32 (v : UInt32) : (st32 v).length = 4 := length_leBytes 4 v.toNat

/-- Four words one after another. -/
theorem leNat_four (a b c d : UInt32) :
    leNat (st32 a ++ st32 b ++ st32 c ++ st32 d) =
      a.toNat + 2 ^ 32 * b.toNat + 2 ^ 64 * c.toNat + 2 ^ 96 * d.toNat := by
  simp only [leNat_append, List.length_append, length_st32, leNat_st32]
  norm_num

/-- The limbs as four words: the low 128 bits of the number. -/
theorem words_of_limbs {h : Limbs} (hh : Reduced h) :
    (h.l0 ||| (h.l1 <<< 26)).toNat = h.num % 2 ^ 32 ∧
      ((h.l1 >>> 6) ||| (h.l2 <<< 20)).toNat = h.num / 2 ^ 32 % 2 ^ 32 ∧
      ((h.l2 >>> 12) ||| (h.l3 <<< 14)).toNat = h.num / 2 ^ 64 % 2 ^ 32 ∧
      ((h.l3 >>> 18) ||| (h.l4 <<< 8)).toNat = h.num / 2 ^ 96 % 2 ^ 32 := by
  have s0 := hh.l0
  have s1 := hh.l1
  have s2 := hh.l2
  have s3 := hh.l3
  have s4 := hh.l4
  have h6 : (h.l1 >>> 6).toNat = h.l1.toNat / 2 ^ 6 := toNat_shr h.l1 (k := 6) (by decide)
  have h12 : (h.l2 >>> 12).toNat = h.l2.toNat / 2 ^ 12 := toNat_shr h.l2 (k := 12) (by decide)
  have h18 : (h.l3 >>> 18).toNat = h.l3.toNat / 2 ^ 18 := toNat_shr h.l3 (k := 18) (by decide)
  have f0 := toNat_or_shl (y := h.l1) (k := 26) (by decide) s0
  have f1 := toNat_or_shl (x := h.l1 >>> 6) (y := h.l2) (k := 20) (by decide) (by omega)
  have f2 := toNat_or_shl (x := h.l2 >>> 12) (y := h.l3) (k := 14) (by decide) (by omega)
  have f3 := toNat_or_shl (x := h.l3 >>> 18) (y := h.l4) (k := 8) (by decide) (by omega)
  unfold Limbs.num
  refine ⟨f0.trans ?_, f1.trans ?_, f2.trans ?_, f3.trans ?_⟩
  · omega
  · rw [h6]
    omega
  · rw [h12]
    omega
  · rw [h18]
    omega

/-- A sum of two words and a carry. -/
theorem toNat_add_words {f k : UInt32} {t : UInt64} (ht : t.toNat < 2 ^ 34) :
    (f.toUInt64 + k.toUInt64 + (t >>> 32)).toNat = f.toNat + k.toNat + t.toNat / 2 ^ 32 := by
  have h32 : (t >>> 32).toNat = t.toNat / 2 ^ 32 := toNat_shr64 t (k := 32) (by decide)
  have hf := f.toNat_lt
  have hk := k.toNat_lt
  rw [UInt64.toNat_add, UInt64.toNat_add, UInt32.toNat_toUInt64, UInt32.toNat_toUInt64, h32]
  omega

/-- Sixteen bytes as four words. -/
theorem four_words (n : Nat) :
    n % 2 ^ 32 + 2 ^ 32 * (n / 2 ^ 32 % 2 ^ 32) + 2 ^ 64 * (n / 2 ^ 64 % 2 ^ 32) +
      2 ^ 96 * (n / 2 ^ 96 % 2 ^ 32) = n % 2 ^ 128 := by
  omega

/-- Four words with their carries: the sum modulo `2^128`. -/
theorem word_carries {t0 t1 t2 t3 a0 a1 a2 a3 : Nat} (h0 : t0 = a0) (h1 : t1 = a1 + t0 / 2 ^ 32)
    (h2 : t2 = a2 + t1 / 2 ^ 32) (h3 : t3 = a3 + t2 / 2 ^ 32) :
    t0 % 2 ^ 32 + 2 ^ 32 * (t1 % 2 ^ 32) + 2 ^ 64 * (t2 % 2 ^ 32) + 2 ^ 96 * (t3 % 2 ^ 32) =
      (a0 + 2 ^ 32 * a1 + 2 ^ 64 * a2 + 2 ^ 96 * a3) % 2 ^ 128 := by
  have hsum : t0 % 2 ^ 32 + 2 ^ 32 * (t1 % 2 ^ 32) + 2 ^ 64 * (t2 % 2 ^ 32) +
      2 ^ 96 * (t3 % 2 ^ 32) + 2 ^ 128 * (t3 / 2 ^ 32) =
      a0 + 2 ^ 32 * a1 + 2 ^ 64 * a2 + 2 ^ 96 * a3 := by
    omega
  rw [← hsum, Nat.add_mul_mod_self_left]
  refine (Nat.mod_eq_of_lt ?_).symm
  omega

/-- The four words of `finish` from `t` to `t`. -/
def addWords (w0 w1 w2 w3 s0 s1 s2 s3 : UInt32) : Bytes :=
  let t0 := w0.toUInt64 + s0.toUInt64
  let t1 := w1.toUInt64 + s1.toUInt64 + (t0 >>> 32)
  let t2 := w2.toUInt64 + s2.toUInt64 + (t1 >>> 32)
  let t3 := w3.toUInt64 + s3.toUInt64 + (t2 >>> 32)
  st32 t0.toUInt32 ++ st32 t1.toUInt32 ++ st32 t2.toUInt32 ++ st32 t3.toUInt32

theorem finish_eq (key : Bytes) (h : Limbs) :
    finish key h =
      addWords (h.l0 ||| (h.l1 <<< 26)) ((h.l1 >>> 6) ||| (h.l2 <<< 20))
        ((h.l2 >>> 12) ||| (h.l3 <<< 14)) ((h.l3 >>> 18) ||| (h.l4 <<< 8)) (ld32 key 16)
        (ld32 key 20) (ld32 key 24) (ld32 key 28) := rfl

theorem addWords_exact (w0 w1 w2 w3 s0 s1 s2 s3 : UInt32) :
    leNat (addWords w0 w1 w2 w3 s0 s1 s2 s3) =
      ((w0.toNat + s0.toNat) + 2 ^ 32 * (w1.toNat + s1.toNat) + 2 ^ 64 * (w2.toNat + s2.toNat) +
        2 ^ 96 * (w3.toNat + s3.toNat)) % 2 ^ 128 := by
  have hsmall : ∀ w s : UInt32, w.toNat + s.toNat < 2 ^ 33 := by
    intro w s
    have hw := w.toNat_lt
    have hs := s.toNat_lt
    omega
  have t0 : (w0.toUInt64 + s0.toUInt64).toNat = w0.toNat + s0.toNat := by
    have hlt := hsmall w0 s0
    rw [UInt64.toNat_add, UInt32.toNat_toUInt64, UInt32.toNat_toUInt64]
    omega
  have b0 := hsmall w0 s0
  have b1 := hsmall w1 s1
  have b2 := hsmall w2 s2
  unfold addWords
  dsimp only
  generalize w0.toUInt64 + s0.toUInt64 = x0 at t0 ⊢
  have t1 := toNat_add_words (f := w1) (k := s1) (t := x0) (by omega)
  generalize w1.toUInt64 + s1.toUInt64 + (x0 >>> 32) = x1 at t1 ⊢
  have t2 := toNat_add_words (f := w2) (k := s2) (t := x1) (by omega)
  generalize w2.toUInt64 + s2.toUInt64 + (x1 >>> 32) = x2 at t2 ⊢
  have t3 := toNat_add_words (f := w3) (k := s3) (t := x2) (by omega)
  generalize w3.toUInt64 + s3.toUInt64 + (x2 >>> 32) = x3 at t3 ⊢
  rw [leNat_four, UInt64.toNat_toUInt32, UInt64.toNat_toUInt32, UInt64.toNat_toUInt32,
    UInt64.toNat_toUInt32]
  exact word_carries t0 t1 t2 t3

theorem finish_exact {h : Limbs} (hh : Reduced h) (key : Bytes) :
    leNat (finish key h) = (h.num + leNat (slice key 16 16)) % 2 ^ 128 := by
  obtain ⟨f0, f1, f2, f3⟩ := words_of_limbs hh
  have hs : leNat (slice key 16 16) = leNat key / 2 ^ 128 % 2 ^ 128 := by
    rw [slice, leNat_take, leNat_drop]
    norm_num
  have hkey : (ld32 key 16).toNat + 2 ^ 32 * (ld32 key 20).toNat + 2 ^ 64 * (ld32 key 24).toNat +
      2 ^ 96 * (ld32 key 28).toNat = leNat key / 2 ^ 128 % 2 ^ 128 := by
    rw [toNat_ld32, toNat_ld32, toNat_ld32, toNat_ld32, ← four_words (leNat key / 2 ^ 128)]
    simp only [Nat.div_div_eq_div_mul]
    norm_num
  rw [finish_eq, addWords_exact, f0, f1, f2, f3, hs, ← Nat.mod_add_mod h.num, ← hkey,
    ← four_words h.num]
  congr 1
  ring

/-! ## Nothing is lost -/

/-- The limbs of a block with its end marked. -/
def blockLimbs (msg : Bytes) : Limbs :=
  let n := msg.length
  let block := if n < 16 then msg ++ 1 :: List.replicate (15 - n) 0 else msg
  let hibit : UInt32 := if n < 16 then 0 else (1 : UInt32) <<< 24
  { l0 := ld32 block 0 &&& limbMask
    l1 := (ld32 block 3 >>> 2) &&& limbMask
    l2 := (ld32 block 6 >>> 4) &&& limbMask
    l3 := (ld32 block 9 >>> 6) &&& limbMask
    l4 := (ld32 block 12 >>> 8) ||| hibit }

theorem addBlock_eq (h : Limbs) (b : Bytes) :
    addBlock h b =
      ⟨h.l0 + (blockLimbs b).l0, h.l1 + (blockLimbs b).l1, h.l2 + (blockLimbs b).l2,
        h.l3 + (blockLimbs b).l3, h.l4 + (blockLimbs b).l4⟩ := rfl

/-- What the operations on words of 32 bits come to in a block, as numbers: the block is added, the
limbs of `r` are taken five times, and the last carry comes back into the two lowest limbs. -/
def narrowResults (r h : Limbs) (b : Bytes) : List Nat :=
  let m := blockLimbs b
  let w := products r (addBlock h b)
  [h.l0.toNat + m.l0.toNat, h.l1.toNat + m.l1.toNat, h.l2.toNat + m.l2.toNat,
    h.l3.toNat + m.l3.toNat, h.l4.toNat + m.l4.toNat, 5 * r.l1.toNat, 5 * r.l2.toNat,
    5 * r.l3.toNat, 5 * r.l4.toNat, w.carried.d4 / 2 ^ 26, 5 * (w.carried.d4 / 2 ^ 26), w.wrapped,
    w.carried.d1 % 2 ^ 26 + w.wrapped / 2 ^ 26]

/-- The same of the words of 64 bits. The products and the sums on the way to a sum are no more than
the sum. -/
def wideResults (r h : Limbs) (b : Bytes) : List Nat :=
  let w := products r (addBlock h b)
  [w.d0, w.d1, w.d2, w.d3, w.d4, w.carried.d1, w.carried.d2, w.carried.d3, w.carried.d4]

/-- Every result of a block fits its word, and the limbs of the block are made of these results. -/
structure Lossless (r h : Limbs) (b : Bytes) : Prop where
  narrow : ∀ v ∈ narrowResults r h b, v < 2 ^ 32
  wide : ∀ v ∈ wideResults r h b, v < 2 ^ 64
  l0 : (mulR r (addBlock h b)).l0.toNat = (products r (addBlock h b)).wrapped % 2 ^ 26
  l1 : (mulR r (addBlock h b)).l1.toNat =
    (products r (addBlock h b)).carried.d1 % 2 ^ 26 + (products r (addBlock h b)).wrapped / 2 ^ 26
  l2 : (mulR r (addBlock h b)).l2.toNat = (products r (addBlock h b)).carried.d2 % 2 ^ 26
  l3 : (mulR r (addBlock h b)).l3.toNat = (products r (addBlock h b)).carried.d3 % 2 ^ 26
  l4 : (mulR r (addBlock h b)).l4.toNat = (products r (addBlock h b)).carried.d4 % 2 ^ 26

/-- What the limbs of a block are below. -/
theorem blockLimbs_lt (b : Bytes) :
    (blockLimbs b).l0.toNat < 2 ^ 26 ∧ (blockLimbs b).l1.toNat < 2 ^ 26 ∧
      (blockLimbs b).l2.toNat < 2 ^ 26 ∧ (blockLimbs b).l3.toNat < 2 ^ 26 ∧
      (blockLimbs b).l4.toNat < 2 ^ 25 := by
  unfold blockLimbs
  dsimp only
  generalize (if b.length < 16 then b ++ 1 :: List.replicate (15 - b.length) 0 else b) = block
  have hhi : (if b.length < 16 then (0 : UInt32) else (1 : UInt32) <<< 24).toNat < 2 ^ 25 := by
    by_cases hshort : b.length < 16
    · rw [if_pos hshort]
      decide
    · rw [if_neg hshort]
      decide
  generalize (if b.length < 16 then (0 : UInt32) else (1 : UInt32) <<< 24) = hibit at hhi ⊢
  obtain ⟨f0, f1, f2, f3, f4⟩ := limbs_of_bytes block
  rw [f0, f1, f2, f3, UInt32.toNat_or, f4]
  refine ⟨Nat.mod_lt _ (by decide), Nat.mod_lt _ (by decide), Nat.mod_lt _ (by decide),
    Nat.mod_lt _ (by decide), ?_⟩
  exact Nat.or_lt_two_pow ((Nat.mod_lt _ (by decide)).trans (by decide)) hhi

theorem lossless_block {r h : Limbs} (hr : Clamped r) (hh : Settled h) {b : Bytes}
    (hb : b.length ≤ 16) : Lossless r h b := by
  have hloaded := (addBlock_exact hh hb).2
  have hw := bounded_products hr hloaded
  have hc := hw.carried
  obtain ⟨f0, f1, f2, f3, f4⟩ := mulR_limbs hr hloaded
  refine ⟨?_, ?_, f0, f1, f2, f3, f4⟩
  · intro v hv
    obtain ⟨m0, m1, m2, m3, m4⟩ := blockLimbs_lt b
    have s0 := hh.l0
    have s1 := hh.l1
    have s2 := hh.l2
    have s3 := hh.l3
    have s4 := hh.l4
    have r1 := hr.l1
    have r2 := hr.l2
    have r3 := hr.l3
    have r4 := hr.l4
    have ctop := hc.d4
    have cwrap := hc.wrapped
    simp only [narrowResults, List.mem_cons, List.not_mem_nil, or_false] at hv
    generalize products r (addBlock h b) = w at *
    obtain rfl | rfl | rfl | rfl | rfl | rfl | rfl | rfl | rfl | rfl | rfl | rfl | rfl := hv <;>
      omega
  · intro v hv
    have w0 := hw.d0
    have w1 := hw.d1
    have w2 := hw.d2
    have w3 := hw.d3
    have w4 := hw.d4
    have c1 := hc.d1
    have c2 := hc.d2
    have c3 := hc.d3
    have c4 := hc.d4
    simp only [wideResults, List.mem_cons, List.not_mem_nil, or_false] at hv
    generalize products r (addBlock h b) = w at *
    obtain rfl | rfl | rfl | rfl | rfl | rfl | rfl | rfl | rfl := hv <;> omega

/-- The tag of the source is the tag of RFC 8439: the polynomial of the blocks at the clamped `r`,
modulo `2^130 - 5`, plus `s` modulo `2^128`. No block loses a bit. -/
theorem poly1305_eq_rfcTag (msg key : Bytes) :
    poly1305 msg key = leBytes 16 (rfcTag msg key) ∧
      ∀ i < blockCount msg,
        Lossless (clampR key) (after (clampR key) msg i) (slice msg (16 * i) 16) := by
  have hr := clamped_clampR key
  constructor
  · obtain ⟨hsettled, hmod⟩ := after_exact hr msg (blockCount msg)
    obtain ⟨hreduced, q, hq⟩ := carry_exact hsettled
    obtain ⟨hchosen, hresidue⟩ := select_exact hreduced
    have hval : (select (carry (blocks (clampR key) msg))).num =
        polynomial (clamp (leNat (slice key 0 16))) msg (blockCount msg) % prime := by
      rw [blocks_eq, hresidue, ← num_clampR]
      refine Eq.trans ?_ hmod
      rw [hq, Nat.add_mul_mod_self_left]
    have htag : rfcTag msg key % 256 ^ 16 = rfcTag msg key :=
      Nat.mod_eq_of_lt ((Nat.mod_lt _ (by decide)).trans_le (by norm_num))
    apply leNat_inj (by simp)
    rw [leNat_leBytes, htag, poly1305, finish_exact (by rw [blocks_eq]; exact hchosen), hval,
      rfcTag]
  · intro i _
    exact lossless_block hr (after_exact hr msg i).1 (length_slice_le msg (16 * i))

/-- The prime is where the choice turns: `2^130 - 5` itself leaves 0, one less stays. -/
example :
    (select ⟨0x3fffffb, 0x3ffffff, 0x3ffffff, 0x3ffffff, 0x3ffffff⟩).num = 0 ∧
      (select ⟨0x3fffffa, 0x3ffffff, 0x3ffffff, 0x3ffffff, 0x3ffffff⟩).num = prime - 1 := by
  decide

end Poly1305
end VeraCrypt
