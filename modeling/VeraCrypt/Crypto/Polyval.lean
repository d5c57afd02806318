import VeraCrypt.Crypto.Hctr2
import VeraCrypt.Lib.BinaryPoly

/-!
# The product of POLYVAL (`gf_dot` in `Crypto/Hctr2.c`)

The product is formed without carries in 256 bits, one round for each bit of the first factor
(`eval_gfDotMul`). Then `P = x^128 + x^127 + x^126 + x^121 + 1` is added where the lowest bit is
set, which changes nothing modulo `P` and leaves a multiple of `x`, and the whole is moved down by
one: a division by `x` that loses no bit (`eval_gfDotHalve`). After 128 of them the upper half is
empty (`hi_gfDotHalve`). So the two limbs that are returned stand for `a * b * x^-128`
(`gfDot_polyval`), and the laws of the ring are those of the product.
-/

set_option autoImplicit false

namespace VeraCrypt

open Lib Polynomial

/-! ## Values of the limbs -/

section
variable {R : Type _} [CommRing R]

/-- The bits of both limbs as one number. -/
def W128.toNat (w : W128) : Nat := w.w0.toNat + 2 ^ 64 * w.w1.toNat

/-- The upper two limbs as one number. -/
def W256.hi (c : W256) : Nat := c.w2.toNat + 2 ^ 64 * c.w3.toNat

def W128.eval (x : R) (w : W128) : R := evalWord x w.w0 + x ^ 64 * evalWord x w.w1

def W256.eval (x : R) (c : W256) : R :=
  evalWord x c.w0 + x ^ 64 * evalWord x c.w1 + x ^ 128 * evalWord x c.w2 +
    x ^ 192 * evalWord x c.w3

theorem W128.toNat_lt (w : W128) : w.toNat < 2 ^ 128 := by
  have h0 := w.w0.toNat_lt
  have h1 := w.w1.toNat_lt
  unfold W128.toNat
  omega

theorem W128.toNat_inj {v w : W128} (h : v.toNat = w.toNat) : v = w := by
  cases v with
  | mk v0 v1 =>
    cases w with
    | mk w0 w1 =>
      have hv0 := v0.toNat_lt
      have hw0 := w0.toNat_lt
      simp only [W128.toNat] at h
      have hlo : v0 = w0 := UInt64.toNat_inj.mp (by omega)
      have hhi : v1 = w1 := UInt64.toNat_inj.mp (by omega)
      rw [hlo, hhi]

theorem W128.eval_eq (x : R) (w : W128) : w.eval x = evalBits x 128 w.toNat :=
  (evalBits_append x 64 w.w1.toNat w.w0.toNat_lt).symm

/-! ## The product -/

theorem toNat_spill (v : UInt64) {s : Nat} (hs : s < 64) :
    (spill v (UInt64.ofNat s)).toNat = v.toNat * 2 ^ s / 2 ^ 64 := by
  have hv := v.toNat_lt
  have hofNat : (UInt64.ofNat s).toNat = s := UInt64.toNat_ofNat_of_lt' (by
    show s < 2 ^ 64
    omega)
  by_cases h0 : s = 0
  · subst h0
    rw [spill, if_neg (by decide), pow_zero, Nat.mul_one, Nat.div_eq_of_lt hv]
    rfl
  · have hne : UInt64.ofNat s ≠ 0 := by
      intro hz
      rw [hz] at hofNat
      exact h0 hofNat.symm
    have hcount : (64 - UInt64.ofNat s).toNat = 64 - s := by
      rw [UInt64.toNat_sub, hofNat]
      show (2 ^ 64 - s + 64) % 2 ^ 64 = 64 - s
      omega
    have hmod : (64 - s) % 64 = 64 - s := Nat.mod_eq_of_lt (by omega)
    have hpow : 2 ^ 64 = 2 ^ (64 - s) * 2 ^ s := by
      rw [← Nat.pow_add]
      congr 1
      omega
    rw [spill, if_pos hne, UInt64.toNat_shiftRight, hcount, hmod, Nat.shiftRight_eq_div_pow, hpow,
      Nat.mul_div_mul_right _ _ (Nat.two_pow_pos s)]

theorem toNat_shiftLeft_ofNat (v : UInt64) {s : Nat} (hs : s < 64) :
    (v <<< UInt64.ofNat s).toNat = v.toNat * 2 ^ s % 2 ^ 64 := by
  have hofNat : (UInt64.ofNat s).toNat = s := UInt64.toNat_ofNat_of_lt' (by
    show s < 2 ^ 64
    omega)
  rw [UInt64.toNat_shiftLeft, hofNat, Nat.mod_eq_of_lt hs, Nat.shiftLeft_eq]

theorem toNat_shiftRight_ofNat (v : UInt64) {s : Nat} (hs : s < 64) :
    (v >>> UInt64.ofNat s).toNat = v.toNat / 2 ^ s := by
  have hofNat : (UInt64.ofNat s).toNat = s := UInt64.toNat_ofNat_of_lt' (by
    show s < 2 ^ 64
    omega)
  rw [UInt64.toNat_shiftRight, hofNat, Nat.mod_eq_of_lt hs, Nat.shiftRight_eq_div_pow]

theorem evalWord_spill (x : R) (v : UInt64) {s : Nat} (hs : s < 64) :
    evalWord x (v <<< UInt64.ofNat s) + x ^ 64 * evalWord x (spill v (UInt64.ofNat s)) =
      x ^ s * evalWord x v :=
  evalWord_shl x v _ _ hs (toNat_shiftLeft_ofNat v hs) (toNat_spill v hs)

/-- Bit `i` of the two limbs, as the loop reads it. -/
theorem W128.bit_eq (a : W128) {i : Nat} (hi : i < 128) :
    ((if i < 64 then a.w0 else a.w1) >>> UInt64.ofNat (i % 64)).toNat % 2 =
      a.toNat / 2 ^ i % 2 := by
  have h0 := a.w0.toNat_lt
  rw [toNat_shiftRight_ofNat _ (Nat.mod_lt i (by decide))]
  by_cases hlt : i < 64
  · have hpow : 2 ^ 64 = 2 ^ i * (2 * 2 ^ (63 - i)) := by
      rw [← Nat.pow_succ', ← Nat.pow_add]
      congr 1
      omega
    rw [if_pos hlt, Nat.mod_eq_of_lt hlt, W128.toNat, hpow, Nat.mul_assoc,
      Nat.add_mul_div_left _ _ (Nat.two_pow_pos i), Nat.mul_assoc, Nat.add_mul_mod_self_left]
  · have hsub : i % 64 = i - 64 := by omega
    have hpow : 2 ^ i = 2 ^ 64 * 2 ^ (i - 64) := by
      rw [← Nat.pow_add]
      congr 1
      omega
    have htop : a.toNat / 2 ^ 64 = a.w1.toNat := by
      unfold W128.toNat
      omega
    rw [if_neg hlt, hsub, hpow, ← Nat.div_div_eq_div_mul, htop]

end

section
variable {R : Type _} [CommRing R] [Algebra (ZMod 2) R]

/-- **One round of the product** adds the second factor moved up by `i`, if bit `i` is set. -/
theorem eval_gfDotMul (x : R) (a b : W128) (c : W256) {i : Nat} (hi : i < 128) :
    (gfDotMul a b c i).eval x =
      c.eval x + x ^ i * (a.toNat / 2 ^ i % 2 : Nat) * b.eval x := by
  have hs : i % 64 < 64 := Nat.mod_lt i (by decide)
  have hbit := a.bit_eq hi
  have hspill0 := evalWord_spill x b.w0 hs
  have hspill1 := evalWord_spill x b.w1 hs
  rw [gfDotMul, ← hbit]
  by_cases hlt : i < 64
  · rw [if_pos hlt, if_pos hlt]
    rw [Nat.mod_eq_of_lt hlt] at hspill0 hspill1 ⊢
    simp only [W256.eval, W128.eval, evalWord_xor, evalWord_mask]
    linear_combination (((a.w0 >>> UInt64.ofNat i).toNat % 2 : Nat) : R) * hspill0 +
      (((a.w0 >>> UInt64.ofNat i).toNat % 2 : Nat) : R) * x ^ 64 * hspill1
  · have hpow : x ^ i = x ^ 64 * x ^ (i % 64) := by
      rw [← pow_add]
      congr 1
      omega
    rw [if_neg hlt, if_neg hlt, hpow]
    simp only [W256.eval, W128.eval, evalWord_xor, evalWord_mask]
    linear_combination (((a.w1 >>> UInt64.ofNat (i % 64)).toNat % 2 : Nat) : R) * x ^ 64 * hspill0 +
      (((a.w1 >>> UInt64.ofNat (i % 64)).toNat % 2 : Nat) : R) * x ^ 128 * hspill1

/-- After `k` rounds: the product with the low `k` bits of the first factor. -/
theorem eval_foldl_gfDotMul (x : R) (a b : W128) {k : Nat} (hk : k ≤ 128) :
    ((List.range k).foldl (gfDotMul a b) ⟨0, 0, 0, 0⟩).eval x =
      evalBits x k a.toNat * b.eval x := by
  induction k with
  | zero => simp [W256.eval, evalWord_zero, evalBits]
  | succ k ih =>
    rw [List.range_succ, List.foldl_append, List.foldl_cons, List.foldl_nil,
      eval_gfDotMul x a b _ (by omega), ih (by omega), evalBits_succ_top]
    ring

/-! ## The halvings -/

/-- The bits of `P` in the second limb: 121, 126 and 127. -/
theorem evalWord_middle (x : R) :
    evalWord x ((1 : UInt64) <<< 57 ||| (1 : UInt64) <<< 62 ||| (1 : UInt64) <<< 63) =
      x ^ 57 + x ^ 62 + x ^ 63 := by
  have hxor : (1 : UInt64) <<< 57 ||| (1 : UInt64) <<< 62 ||| (1 : UInt64) <<< 63 =
      (1 : UInt64) <<< 57 ^^^ (1 : UInt64) <<< 62 ^^^ (1 : UInt64) <<< 63 := by decide
  have h57 : evalWord x ((1 : UInt64) <<< 57) = x ^ 57 := evalWord_two_pow x (by decide) (by decide)
  have h62 : evalWord x ((1 : UInt64) <<< 62) = x ^ 62 := evalWord_two_pow x (by decide) (by decide)
  have h63 : evalWord x ((1 : UInt64) <<< 63) = x ^ 63 := evalWord_two_pow x (by decide) (by decide)
  rw [hxor, evalWord_xor, evalWord_xor, h57, h62, h63]

theorem evalWord_one (x : R) : evalWord x 1 = 1 := by
  rw [evalWord_two_pow x (by decide : 0 < 64) (by decide), pow_zero]

/-- With `P` added the lowest bit is clear. -/
theorem xor_own_bit_even (w : UInt64) : (w ^^^ (1 &&& (0 - (w &&& 1)))).toNat % 2 = 0 := by
  have hbit : (w &&& 1).toNat = w.toNat % 2 := by
    rw [UInt64.toNat_and]
    exact Nat.and_one_is_mod w.toNat
  rcases Nat.mod_two_eq_zero_or_one w.toNat with h | h
  · have hzero : w &&& 1 = 0 := UInt64.toNat_inj.mp (hbit.trans h)
    rw [hzero, UInt64.sub_zero, UInt64.and_zero, UInt64.xor_zero, h]
  · have hone : w &&& 1 = 1 := UInt64.toNat_inj.mp (hbit.trans h)
    have hmask : (1 : UInt64) &&& (0 - 1) = 1 := by decide
    rw [hone, hmask, UInt64.toNat_xor, Nat.xor_mod_two_eq]
    show (w.toNat + 1) % 2 = 0
    omega

/-- **A halving divides by `x`** in every ring in which `P` vanishes at `x`. -/
theorem eval_gfDotHalve {x : R} (hx : x ^ 128 + x ^ 127 + x ^ 126 + x ^ 121 + 1 = 0) (c : W256) :
    x * (gfDotHalve c).eval x = c.eval x := by
  have heven := xor_own_bit_even c.w0
  have h0 := evalWord_half x (c.w0 ^^^ (1 &&& (0 - (c.w0 &&& 1))))
  have h1 := evalWord_half x (c.w1 ^^^
    (((1 : UInt64) <<< 57 ||| (1 : UInt64) <<< 62 ||| (1 : UInt64) <<< 63) &&&
      (0 - (c.w0 &&& 1))))
  have h2 := evalWord_half x (c.w2 ^^^ (1 &&& (0 - (c.w0 &&& 1))))
  have h3 := evalWord_half x c.w3
  rw [heven, Nat.cast_zero, zero_add] at h0
  rw [evalWord_xor, evalWord_mask, evalWord_one] at h0 h2
  rw [evalWord_xor, evalWord_mask, evalWord_middle] at h1
  simp only [gfDotHalve, W256.eval, evalWord_shr_or]
  linear_combination (-1 : R) * h0 - x ^ 64 * h1 - x ^ 128 * h2 - x ^ 192 * h3 +
    ((c.w0.toNat % 2 : Nat) : R) * hx

theorem eval_iterate_gfDotHalve {x : R} (hx : x ^ 128 + x ^ 127 + x ^ 126 + x ^ 121 + 1 = 0)
    (c : W256) (k : Nat) : x ^ k * (gfDotHalve^[k] c).eval x = c.eval x := by
  induction k with
  | zero => simp
  | succ k ih =>
    rw [Function.iterate_succ_apply', pow_succ, mul_assoc, eval_gfDotHalve hx, ih]

end

/-- The upper half moves down by one bit, whatever the lower half does. -/
theorem hi_gfDotHalve (c : W256) : (gfDotHalve c).hi = c.hi / 2 := by
  have hmask : (1 &&& (0 - (c.w0 &&& 1))).toNat ≤ 1 := by
    rw [UInt64.toNat_and]
    exact Nat.and_le_left
  have hmaskHalf : (1 &&& (0 - (c.w0 &&& 1))).toNat / 2 = 0 := by omega
  have hw2 : (c.w2 ^^^ (1 &&& (0 - (c.w0 &&& 1)))).toNat / 2 = c.w2.toNat / 2 := by
    rw [UInt64.toNat_xor, Nat.xor_div_two, hmaskHalf, Nat.xor_zero]
  simp only [gfDotHalve, W256.hi, toNat_shr_or, toNat_half, hw2]
  omega

theorem hi_iterate_gfDotHalve (c : W256) (k : Nat) : (gfDotHalve^[k] c).hi = c.hi / 2 ^ k := by
  induction k with
  | zero => simp
  | succ k ih =>
    rw [Function.iterate_succ_apply', hi_gfDotHalve, ih, Nat.div_div_eq_div_mul, Nat.pow_succ]

/-- After 128 halvings nothing is left above the two limbs that are returned. -/
theorem hi_gfDot (c : W256) : (gfDotHalve^[128] c).hi = 0 := by
  have h2 := c.w2.toNat_lt
  have h3 := c.w3.toNat_lt
  rw [hi_iterate_gfDotHalve]
  apply Nat.div_eq_of_lt
  unfold W256.hi
  omega

theorem W256.eval_of_hi {R : Type _} [CommRing R] (x : R) {c : W256} (h : c.hi = 0) :
    c.eval x = (⟨c.w0, c.w1⟩ : W128).eval x := by
  unfold W256.hi at h
  have h2 : c.w2 = 0 := UInt64.toNat_inj.mp (by simp; omega)
  have h3 : c.w3 = 0 := UInt64.toNat_inj.mp (by simp; omega)
  simp [W256.eval, W128.eval, h2, h3, evalWord_zero]

/-- The product before it is cut to two limbs, in every ring in which `P` vanishes at `x`. -/
theorem eval_gfDot {R : Type _} [CommRing R] [Algebra (ZMod 2) R] {x : R}
    (hx : x ^ 128 + x ^ 127 + x ^ 126 + x ^ 121 + 1 = 0) (a b : W128) :
    x ^ 128 * (gfDot a b).eval x = a.eval x * b.eval x := by
  have hprod := eval_foldl_gfDotMul x a b (Nat.le_refl 128)
  rw [← W128.eval_eq] at hprod
  rw [gfDot, ← W256.eval_of_hi x (hi_gfDot _), eval_iterate_gfDotHalve hx, hprod]

/-! ## The ring of POLYVAL -/

@[irreducible] noncomputable def polyvalModulus : (ZMod 2)[X] :=
  X ^ 128 + X ^ 127 + X ^ 126 + X ^ 121 + 1

abbrev PolyvalRing : Type := AdjoinRoot polyvalModulus

noncomputable def polyvalX : PolyvalRing := AdjoinRoot.root polyvalModulus

/-- Bit `i` of the two limbs is the coefficient of `x ^ i`. -/
noncomputable def W128.polyval (w : W128) : PolyvalRing := evalBits polyvalX 128 w.toNat

theorem degree_polyvalModulus : polyvalModulus.degree = 128 := by
  unfold polyvalModulus
  compute_degree!

theorem polyvalX_root :
    polyvalX ^ 128 + polyvalX ^ 127 + polyvalX ^ 126 + polyvalX ^ 121 + 1 = 0 := by
  have hmk : AdjoinRoot.mk polyvalModulus polyvalModulus =
      polyvalX ^ 128 + polyvalX ^ 127 + polyvalX ^ 126 + polyvalX ^ 121 + 1 := by
    conv_lhs => arg 2; unfold polyvalModulus
    simp only [map_add, map_pow, AdjoinRoot.mk_X, map_one]
    rfl
  rw [← hmk, AdjoinRoot.mk_self]

/-- The constant coefficient of `P` is one, so `x` has an inverse. -/
theorem polyvalX_mul :
    polyvalX * (polyvalX ^ 127 + polyvalX ^ 126 + polyvalX ^ 125 + polyvalX ^ 120) = 1 := by
  have htwo := add_self_of_algebra (1 : PolyvalRing)
  linear_combination polyvalX_root - htwo

noncomputable def polyvalUnit : PolyvalRingˣ :=
  Units.mkOfMulEqOne polyvalX _ polyvalX_mul

theorem W128.polyval_inj : Function.Injective W128.polyval := by
  intro v w h
  exact W128.toNat_inj (evalBits_root_inj degree_polyvalModulus v.toNat_lt w.toNat_lt h)

def W128.xor (v w : W128) : W128 := ⟨v.w0 ^^^ w.w0, v.w1 ^^^ w.w1⟩

theorem W128.polyval_xor (v w : W128) : (v.xor w).polyval = v.polyval + w.polyval := by
  simp only [W128.polyval, ← W128.eval_eq, W128.eval, W128.xor, evalWord_xor]
  ring

theorem polyval_gfDot (a b : W128) :
    (gfDot a b).polyval = a.polyval * b.polyval * ↑(polyvalUnit⁻¹ ^ 128) := by
  have hprod := eval_gfDot polyvalX_root a b
  simp only [W128.eval_eq] at hprod
  have hunit : polyvalX ^ 128 * ↑(polyvalUnit⁻¹ ^ 128) = (1 : PolyvalRing) := by
    have hval : (polyvalUnit : PolyvalRing) = polyvalX := rfl
    rw [← hval, ← Units.val_pow_eq_pow_val, ← Units.val_mul, inv_pow, mul_inv_cancel,
      Units.val_one]
  unfold W128.polyval
  linear_combination (↑(polyvalUnit⁻¹ ^ 128) : PolyvalRing) * hprod -
    evalBits polyvalX 128 (gfDot a b).toNat * hunit

/-- **`gf_dot` is the product of POLYVAL**, `a * b * x^-128` modulo `P`, on words that each stand
for an element of their own; so it commutes, is additive in both factors and associates. -/
theorem gfDot_polyval :
    (polyvalUnit : PolyvalRing) = AdjoinRoot.root polyvalModulus ∧
    Function.Injective W128.polyval ∧
    (∀ a b : W128, (gfDot a b).polyval = a.polyval * b.polyval * ↑(polyvalUnit⁻¹ ^ 128)) ∧
    (∀ a b : W128, gfDot a b = gfDot b a) ∧
    (∀ a a' b : W128, gfDot (a.xor a') b = (gfDot a b).xor (gfDot a' b)) ∧
    (∀ a b b' : W128, gfDot a (b.xor b') = (gfDot a b).xor (gfDot a b')) ∧
    ∀ a b c : W128, gfDot (gfDot a b) c = gfDot a (gfDot b c) := by
  refine ⟨rfl, W128.polyval_inj, polyval_gfDot, ?_, ?_, ?_, ?_⟩
  · intro a b
    apply W128.polyval_inj
    rw [polyval_gfDot, polyval_gfDot, mul_comm a.polyval]
  · intro a a' b
    apply W128.polyval_inj
    simp only [polyval_gfDot, W128.polyval_xor, add_mul]
  · intro a b b'
    apply W128.polyval_inj
    simp only [polyval_gfDot, W128.polyval_xor, mul_add, add_mul]
  · intro a b c
    apply W128.polyval_inj
    simp only [polyval_gfDot]
    ring

end VeraCrypt
