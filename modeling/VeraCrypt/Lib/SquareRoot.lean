import Mathlib.NumberTheory.LegendreSymbol.QuadraticReciprocity
import Mathlib.Tactic.Ring

/-!
# Square roots of quotients modulo `p ≡ 5 (mod 8)`

A root of `u / v` without a division: `u v ^ 3 (u v ^ 7) ^ ((p - 5) / 8)` is one up to a root of
minus one, and `2 ^ ((p - 1) / 4)` is a root of minus one.
-/

set_option autoImplicit false

namespace VeraCrypt
namespace Lib

section

variable {p : Nat} [Fact p.Prime]

/-- The candidate for a root of `u / v`. -/
def rootCandidate (u v : ZMod p) : ZMod p := u * v ^ 3 * (u * v ^ 7) ^ ((p - 5) / 8)

theorem two_ne_zero_of_mod (hp : p % 8 = 5) : (2 : ZMod p) ≠ 0 := by
  intro h
  have hdvd : p ∣ 2 := (ZMod.natCast_eq_zero_iff 2 p).mp (by exact_mod_cast h)
  have hle := Nat.le_of_dvd (by norm_num) hdvd
  omega

/-- Two is no square there, so half of the way to its order it is minus one. -/
theorem rootNegOne_sq (hp : p % 8 = 5) : ((2 : ZMod p) ^ ((p - 1) / 4)) ^ 2 = -1 := by
  have hne := two_ne_zero_of_mod hp
  have hexp : (p - 1) / 4 * 2 = p / 2 := by omega
  rw [← pow_mul, hexp]
  rcases ZMod.pow_div_two_eq_neg_one_or_one p hne with h | h
  · have hsq := (ZMod.exists_sq_eq_two_iff (p := p) (by omega)).mp
      ((ZMod.euler_criterion p hne).mpr h)
    omega
  · exact h

/-- Where `u / v` has a root, the candidate is one of `u / v` or of `-(u / v)`. -/
theorem rootCandidate_sq (hp : p % 8 = 5) {u v x : ZMod p} (hx : u = v * x ^ 2) :
    v * rootCandidate u v ^ 2 = u ∨ v * rootCandidate u v ^ 2 = -u := by
  have hexp : 2 * ((p - 5) / 8) + 1 = (p - 1) / 4 := by omega
  have hval : v * rootCandidate u v ^ 2 = u * (u * v ^ 7) ^ ((p - 1) / 4) := by
    rw [← hexp, pow_succ (u * v ^ 7), pow_mul' (u * v ^ 7), rootCandidate]
    ring
  by_cases h0 : v ^ 4 * x = 0
  · have hu : u = 0 := by
      rcases mul_eq_zero.mp h0 with h | h
      · rw [hx, pow_eq_zero_iff (by norm_num) |>.mp h, zero_mul]
      · rw [hx, h]
        ring
    exact Or.inl (by rw [hval, hu, zero_mul])
  · have hsq : u * v ^ 7 = (v ^ 4 * x) ^ 2 := by
      rw [hx]
      ring
    have hhalf : 2 * ((p - 1) / 4) = p / 2 := by omega
    rw [hval, hsq, ← pow_mul, hhalf]
    rcases ZMod.pow_div_two_eq_neg_one_or_one p h0 with h | h
    · exact Or.inl (by rw [h, mul_one])
    · exact Or.inr (by rw [h, mul_neg_one])

end

end Lib
end VeraCrypt
