import Mathlib.Algebra.Field.ZMod
import Mathlib.Data.Nat.Bitwise
import Mathlib.RingTheory.AdjoinRoot
import Mathlib.Tactic.ComputeDegree

/-!
# Words as polynomials over the field of two elements

The bits of a word are the coefficients of a polynomial, bit `i` that of `X ^ i`. `evalBits a n`
is the value of the low `n` bits at a point `a` of a ring of characteristic two. Xor is addition
(`evalBits_xor`), a shift by one is multiplication by the point (`evalBits_two_mul`), and a shift
that carries out of the word is brought back by whatever the point's `n`-th power is
(`evalBits_shift`). At the root of a polynomial of degree `n` words of `n` bits are told apart
(`evalBits_root_inj`), so there a word is an element of the quotient ring and nothing else.
-/

set_option autoImplicit false

namespace VeraCrypt
namespace Lib

open Polynomial

/-! ## Values of words -/

section
variable {R : Type _} [CommRing R]

/-- The value at `a` of the polynomial whose coefficients are the low `n` bits of `v`. -/
def evalBits (a : R) : (n v : Nat) → R
  | 0, _ => 0
  | n + 1, v => (v % 2 : Nat) + a * evalBits a n (v / 2)

theorem map_evalBits {S : Type _} [CommRing S] (f : R →+* S) (a : R) (n v : Nat) :
    f (evalBits a n v) = evalBits (f a) n v := by
  induction n generalizing v with
  | zero => exact map_zero f
  | succ n ih => rw [evalBits, evalBits, map_add, map_mul, map_natCast, ih]

theorem evalBits_two_mul (a : R) (n v : Nat) :
    evalBits a (n + 1) (2 * v) = a * evalBits a n v := by
  have hmod : 2 * v % 2 = 0 := by omega
  have hdiv : 2 * v / 2 = v := by omega
  rw [evalBits, hmod, hdiv, Nat.cast_zero, zero_add]

theorem evalBits_zero (a : R) (n : Nat) : evalBits a n 0 = 0 := by
  induction n with
  | zero => rfl
  | succ n ih => rw [evalBits, Nat.zero_mod, Nat.zero_div, ih, Nat.cast_zero, mul_zero, add_zero]

/-- Bits past the end of a word are clear. -/
theorem evalBits_of_lt (a : R) {n v : Nat} (h : v < 2 ^ n) :
    evalBits a (n + 1) v = evalBits a n v := by
  induction n generalizing v with
  | zero =>
    have hv : v = 0 := by omega
    rw [hv, evalBits_zero, evalBits_zero]
  | succ n ih =>
    have hhalf : v / 2 < 2 ^ n := by
      rw [Nat.pow_succ] at h
      omega
    rw [evalBits, ih hhalf]
    rfl

theorem evalBits_of_lt_of_le (a : R) {m n v : Nat} (h : v < 2 ^ m) (hle : m ≤ n) :
    evalBits a n v = evalBits a m v := by
  induction n, hle using Nat.le_induction with
  | base => rfl
  | succ n hle ih =>
    rw [evalBits_of_lt a (h.trans_le (Nat.pow_le_pow_right (by decide) hle)), ih]

/-- The bit just past the end of a word. -/
theorem evalBits_two_pow_add (a : R) {n v : Nat} (h : v < 2 ^ n) :
    evalBits a (n + 1) (2 ^ n + v) = a ^ n + evalBits a n v := by
  induction n generalizing v with
  | zero =>
    have hv : v = 0 := by omega
    rw [hv]
    simp [evalBits]
  | succ n ih =>
    have hpow : 2 ^ (n + 1) = 2 * 2 ^ n := Nat.pow_succ'
    have hmod : (2 ^ (n + 1) + v) % 2 = v % 2 := by omega
    have hdiv : (2 ^ (n + 1) + v) / 2 = 2 ^ n + v / 2 := by omega
    have hhalf : v / 2 < 2 ^ n := by omega
    rw [evalBits, hmod, hdiv, ih hhalf, evalBits]
    ring

theorem evalBits_two_pow (a : R) {n k : Nat} (h : n < k) : evalBits a k (2 ^ n) = a ^ n := by
  have hlt : 2 ^ n < 2 ^ (n + 1) := Nat.pow_lt_pow_right (by decide) (Nat.lt_succ_self n)
  have htop := evalBits_two_pow_add a (Nat.two_pow_pos n)
  rw [evalBits_of_lt_of_le a hlt h]
  simpa [evalBits_zero] using htop

/-- One word on top of another. -/
theorem evalBits_append (a : R) {m lo : Nat} (n hi : Nat) (h : lo < 2 ^ m) :
    evalBits a (m + n) (lo + 2 ^ m * hi) = evalBits a m lo + a ^ m * evalBits a n hi := by
  induction m generalizing lo with
  | zero =>
    have hlo : lo = 0 := by omega
    simp [hlo, evalBits]
  | succ m ih =>
    have hpow : 2 ^ (m + 1) * hi = 2 * (2 ^ m * hi) := by
      rw [Nat.pow_succ']
      exact Nat.mul_assoc 2 (2 ^ m) hi
    have hhalf : lo / 2 < 2 ^ m := by
      rw [Nat.pow_succ] at h
      omega
    have hmod : (lo + 2 ^ (m + 1) * hi) % 2 = lo % 2 := by omega
    have hdiv : (lo + 2 ^ (m + 1) * hi) / 2 = lo / 2 + 2 ^ m * hi := by omega
    rw [Nat.add_right_comm m 1 n, evalBits, hmod, hdiv, ih hhalf, evalBits]
    ring

/-- The topmost of the bits that are read. -/
theorem evalBits_succ_top (a : R) (n v : Nat) :
    evalBits a (n + 1) v = evalBits a n v + a ^ n * (v / 2 ^ n % 2 : Nat) := by
  induction n generalizing v with
  | zero => simp [evalBits]
  | succ n ih =>
    have hdiv : v / 2 / 2 ^ n = v / 2 ^ (n + 1) := by
      rw [Nat.div_div_eq_div_mul, Nat.pow_succ']
    rw [evalBits, ih, evalBits, hdiv]
    ring

/-! ### Words of 64 bits -/

/-- The value of a whole word. -/
def evalWord (a : R) (w : UInt64) : R := evalBits a 64 w.toNat

theorem evalWord_zero (a : R) : evalWord a 0 = 0 := evalBits_zero a 64

theorem evalWord_two_pow (a : R) {w : UInt64} {n : Nat} (hn : n < 64) (h : w.toNat = 2 ^ n) :
    evalWord a w = a ^ n := by
  rw [evalWord, h]
  exact evalBits_two_pow a hn

theorem toNat_half (w : UInt64) : (w >>> 1).toNat = w.toNat / 2 := by
  rw [UInt64.toNat_shiftRight]
  exact Nat.shiftRight_eq_div_pow w.toNat 1

theorem half_lt (w : UInt64) : w.toNat / 2 < 2 ^ 63 := by
  have hw := w.toNat_lt
  omega

theorem evalWord_half (a : R) (w : UInt64) :
    evalWord a w = (w.toNat % 2 : Nat) + a * evalWord a (w >>> 1) := by
  rw [evalWord, evalWord, toNat_half, evalBits_of_lt a (half_lt w)]
  rfl

/-- A word moved down by one, the lowest bit of the next one moved in at the top. -/
theorem toNat_shr_or (u v : UInt64) :
    ((u >>> 1) ||| (v <<< 63)).toNat = u.toNat / 2 + 2 ^ 63 * (v.toNat % 2) := by
  have htop : (v <<< 63).toNat = 2 ^ 63 * (v.toNat % 2) := by
    have hshift : (v <<< 63).toNat = v.toNat <<< 63 % 2 ^ 64 := UInt64.toNat_shiftLeft v 63
    rw [hshift, Nat.shiftLeft_eq]
    omega
  rw [UInt64.toNat_or, toNat_half, htop, Nat.lor_comm, ← Nat.two_pow_add_eq_or_of_lt (half_lt u),
    Nat.add_comm]

theorem evalWord_shr_or (a : R) (u v : UInt64) :
    evalWord a ((u >>> 1) ||| (v <<< 63)) =
      evalWord a (u >>> 1) + a ^ 63 * (v.toNat % 2 : Nat) := by
  have hbit : evalBits a 1 (v.toNat % 2) = (v.toNat % 2 : Nat) := by
    simp [evalBits]
  rw [evalWord, evalWord, toNat_shr_or, toNat_half, evalBits_append a 1 _ (half_lt u), hbit,
    evalBits_of_lt a (half_lt u)]

/-- A mask made of one bit keeps a word or clears it. -/
theorem evalWord_mask (a : R) (k w : UInt64) :
    evalWord a (k &&& (0 - (w &&& 1))) = (w.toNat % 2 : Nat) * evalWord a k := by
  have hbit : (w &&& 1).toNat = w.toNat % 2 := by
    rw [UInt64.toNat_and]
    exact Nat.and_one_is_mod w.toNat
  rcases Nat.mod_two_eq_zero_or_one w.toNat with h | h
  · have hzero : w &&& 1 = 0 := UInt64.toNat_inj.mp (hbit.trans h)
    rw [hzero, h, UInt64.sub_zero, UInt64.and_zero, evalWord_zero, Nat.cast_zero, zero_mul]
  · have hone : w &&& 1 = 1 := UInt64.toNat_inj.mp (hbit.trans h)
    have hmask : (0 : UInt64) - 1 = -1 := by decide
    rw [hone, h, hmask, UInt64.and_neg_one, Nat.cast_one, one_mul]

/-- A shift up in two words: what leaves the lower one stands in the upper one. -/
theorem evalWord_shl (a : R) (w lo hi : UInt64) {s : Nat} (hs : s < 64)
    (hlo : lo.toNat = w.toNat * 2 ^ s % 2 ^ 64) (hhi : hi.toNat = w.toNat * 2 ^ s / 2 ^ 64) :
    evalWord a lo + a ^ 64 * evalWord a hi = a ^ s * evalWord a w := by
  have hsplit : lo.toNat + 2 ^ 64 * hi.toNat = 0 + 2 ^ s * w.toNat := by
    rw [hlo, hhi, Nat.mod_add_div, Nat.zero_add, Nat.mul_comm]
  have hlt : 0 + 2 ^ s * w.toNat < 2 ^ (s + 64) := by
    rw [Nat.pow_add, Nat.zero_add]
    exact Nat.mul_lt_mul_of_pos_left w.toNat_lt (Nat.two_pow_pos s)
  have hlow := evalBits_append a 64 hi.toNat lo.toNat_lt
  have hshift := evalBits_append a 64 w.toNat (Nat.two_pow_pos s)
  rw [hsplit, evalBits_of_lt_of_le a hlt (by omega), hshift, evalBits_zero, zero_add] at hlow
  exact hlow.symm

end

section
variable {R : Type _} [CommRing R] [Algebra (ZMod 2) R]

theorem two_eq_zero_of_algebra : (2 : R) = 0 := by
  have h : algebraMap (ZMod 2) R 2 = algebraMap (ZMod 2) R 0 := congrArg _ (by decide)
  rwa [map_ofNat, map_zero] at h

theorem add_self_of_algebra (x : R) : x + x = 0 := by
  rw [← two_mul, two_eq_zero_of_algebra, zero_mul]

/-- **Xor is addition.** -/
theorem evalBits_xor (a : R) (n v w : Nat) :
    evalBits a n (v ^^^ w) = evalBits a n v + evalBits a n w := by
  induction n generalizing v w with
  | zero => rw [evalBits, evalBits, evalBits, add_zero]
  | succ n ih =>
    have hbit : (((v ^^^ w) % 2 : Nat) : R) = (v % 2 : Nat) + (w % 2 : Nat) := by
      rw [Nat.xor_mod_two_eq]
      rcases Nat.mod_two_eq_zero_or_one v with hv | hv
      · have hsum : (v + w) % 2 = w % 2 := by omega
        rw [hsum, hv, Nat.cast_zero, zero_add]
      · rcases Nat.mod_two_eq_zero_or_one w with hw | hw
        · have hsum : (v + w) % 2 = 1 := by omega
          rw [hsum, hv, hw, Nat.cast_zero, add_zero]
        · have hsum : (v + w) % 2 = 0 := by omega
          rw [hsum, hv, hw, Nat.cast_zero, Nat.cast_one, add_self_of_algebra]
    rw [evalBits, evalBits, evalBits, Nat.xor_div_two, ih, hbit]
    ring

theorem evalWord_xor (a : R) (v w : UInt64) :
    evalWord a (v ^^^ w) = evalWord a v + evalWord a w := by
  rw [evalWord, UInt64.toNat_xor, evalBits_xor]
  rfl

/-- **A shift by one** is multiplication by the point: where the top bit drops out of the word,
    `r` is what stands for it. -/
theorem evalBits_shift (a : R) {n r v : Nat} (hr : evalBits a n r = a ^ n) (hv : v < 2 ^ n)
    (hn : 0 < n) :
    evalBits a n (if v < 2 ^ (n - 1) then 2 * v else (2 * v - 2 ^ n) ^^^ r) =
      a * evalBits a n v := by
  obtain ⟨m, rfl⟩ : ∃ m, n = m + 1 := ⟨n - 1, by omega⟩
  rw [Nat.add_sub_cancel]
  have hdouble := evalBits_two_mul a (m + 1) v
  by_cases hlt : v < 2 ^ m
  · rw [if_pos hlt, evalBits_two_mul, evalBits_of_lt a hlt]
  · rw [if_neg hlt]
    have hpow : 2 ^ (m + 1) = 2 * 2 ^ m := Nat.pow_succ'
    have hrest : 2 * v - 2 ^ (m + 1) < 2 ^ (m + 1) := by omega
    have hsplit : 2 * v = 2 ^ (m + 1) + (2 * v - 2 ^ (m + 1)) := by omega
    rw [hsplit, evalBits_two_pow_add a hrest] at hdouble
    rw [evalBits_xor, hr, ← hdouble, add_comm]

end

/-! ## The quotient by a polynomial -/

theorem degree_evalBits_X_lt (n v : Nat) : (evalBits (X : (ZMod 2)[X]) n v).degree < n := by
  induction n generalizing v with
  | zero => rw [evalBits, degree_zero]; exact WithBot.bot_lt_coe 0
  | succ n ih =>
    have hbit : (((v % 2 : Nat) : (ZMod 2)[X])).degree < ((n + 1 : Nat) : WithBot ℕ) := by
      rw [← C_eq_natCast]
      exact degree_C_le.trans_lt (WithBot.coe_lt_coe.mpr (Nat.succ_pos n))
    have hrest : (X * evalBits (X : (ZMod 2)[X]) n (v / 2)).degree <
        ((n + 1 : Nat) : WithBot ℕ) := by
      rcases eq_or_ne (evalBits (X : (ZMod 2)[X]) n (v / 2)) 0 with hz | hnz
      · rw [hz, mul_zero, degree_zero]
        exact WithBot.bot_lt_coe _
      · have hlt := (natDegree_lt_iff_degree_lt hnz).mpr (ih (v / 2))
        rw [degree_eq_natDegree (mul_ne_zero X_ne_zero hnz), natDegree_X_mul hnz]
        exact WithBot.coe_lt_coe.mpr (Nat.succ_lt_succ hlt)
    exact (degree_add_le _ _).trans_lt (max_lt hbit hrest)

theorem evalBits_X_inj {n v w : Nat} (hv : v < 2 ^ n) (hw : w < 2 ^ n)
    (h : evalBits (X : (ZMod 2)[X]) n v = evalBits X n w) : v = w := by
  induction n generalizing v w with
  | zero => omega
  | succ n ih =>
    rw [Nat.pow_succ] at hv hw
    rw [evalBits, evalBits] at h
    have hlow := congrArg (fun p : (ZMod 2)[X] => p.coeff 0) h
    simp only [coeff_add, coeff_X_mul_zero, add_zero, ← C_eq_natCast, coeff_C_zero] at hlow
    have hbit : v % 2 = w % 2 := by
      have hmod := (ZMod.natCast_eq_natCast_iff _ _ _).mp hlow
      unfold Nat.ModEq at hmod
      omega
    rw [hbit, add_right_inj] at h
    have hhigh := ih (by omega) (by omega) (mul_left_cancel₀ X_ne_zero h)
    omega

/-- **A word is an element of the quotient** by a polynomial of its length. -/
theorem evalBits_root_inj {p : (ZMod 2)[X]} {n v w : Nat} (hp : p.degree = n) (hv : v < 2 ^ n)
    (hw : w < 2 ^ n) (h : evalBits (AdjoinRoot.root p) n v = evalBits (AdjoinRoot.root p) n w) :
    v = w := by
  have hmk : ∀ u, AdjoinRoot.mk p (evalBits X n u) = evalBits (AdjoinRoot.root p) n u := by
    intro u
    rw [map_evalBits, AdjoinRoot.mk_X]
  rw [← hmk, ← hmk, AdjoinRoot.mk_eq_mk] at h
  have hlt : (evalBits (X : (ZMod 2)[X]) n v - evalBits X n w).degree < p.degree := by
    rw [hp]
    exact (degree_sub_le _ _).trans_lt
      (max_lt (degree_evalBits_X_lt n v) (degree_evalBits_X_lt n w))
  exact evalBits_X_inj hv hw (sub_eq_zero.mp (eq_zero_of_dvd_of_degree_lt h hlt))

end Lib
end VeraCrypt
