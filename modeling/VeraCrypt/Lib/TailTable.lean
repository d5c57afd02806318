import Mathlib.Data.Nat.Basic
import Mathlib.Tactic.Linarith
import Mathlib.Tactic.Ring

/-!
# An area with a table at its end

An area of units of `s` bytes holds `n` units of data and, in whole units behind them, a table
of `w` bytes for each. `tailUsed` is the number of units that takes. The most units of data an
area of `t` units has room for is `tailFit`, and it need not fill the area: one more unit of
data may ask for one more unit of table as well.
-/

set_option autoImplicit false

namespace VeraCrypt
namespace Lib

def tailUsed (w s n : Nat) : Nat := n + (n * w + s - 1) / s

def tailFit (w s t : Nat) : Nat := t * s / (s + w)

section
variable {w s t n : Nat}

/-- A rounded-up quotient is at most `m` where the dividend is at most `m` divisors. -/
theorem ceilDiv_le_iff (hs : 0 < s) {a m : Nat} : (a + s - 1) / s ≤ m ↔ a ≤ m * s := by
  constructor
  · intro h
    have hlt := (Nat.div_lt_iff_lt_mul hs).mp (Nat.lt_succ_of_le h)
    rw [Nat.succ_mul] at hlt
    omega
  · intro h
    refine Nat.lt_succ_iff.mp ((Nat.div_lt_iff_lt_mul hs).mpr ?_)
    rw [Nat.succ_mul]
    omega

theorem tailUsed_le_iff (hs : 0 < s) : tailUsed w s n ≤ t ↔ n * (s + w) ≤ t * s := by
  unfold tailUsed
  constructor
  · intro h
    obtain ⟨m, rfl⟩ := Nat.exists_eq_add_of_le (Nat.le_of_add_right_le h)
    have hm := (ceilDiv_le_iff hs).mp (Nat.le_of_add_le_add_left h)
    calc n * (s + w) = n * s + n * w := Nat.mul_add _ _ _
      _ ≤ n * s + m * s := Nat.add_le_add_left hm _
      _ = (n + m) * s := (Nat.add_mul _ _ _).symm
  · intro h
    have hn : n ≤ t := by
      have hle : n * s ≤ t * s := Nat.le_trans (Nat.mul_le_mul_left n (Nat.le_add_right s w)) h
      exact Nat.le_of_mul_le_mul_right hle hs
    obtain ⟨m, rfl⟩ := Nat.exists_eq_add_of_le hn
    rw [Nat.mul_add, Nat.add_mul] at h
    exact Nat.add_le_add_left ((ceilDiv_le_iff hs).mpr (Nat.le_of_add_le_add_left h)) n

/-- What fits is what is at most `tailFit`. -/
theorem tailUsed_le_iff_le_tailFit (hs : 0 < s) : tailUsed w s n ≤ t ↔ n ≤ tailFit w s t := by
  rw [tailUsed_le_iff hs, tailFit, Nat.le_div_iff_mul_le (by omega)]

/-- **When the fullest division leaves nothing over.** -/
theorem tailUsed_tailFit_eq_iff (hs : 0 < s) :
    tailUsed w s (tailFit w s t) = t ↔ t * s % (s + w) < s := by
  have hle : tailUsed w s (tailFit w s t) ≤ t :=
    (tailUsed_le_iff_le_tailFit hs).mpr (Nat.le_refl _)
  have hdiv : tailFit w s t * (s + w) + t * s % (s + w) = t * s := by
    rw [tailFit, Nat.mul_comm]
    exact Nat.div_add_mod _ _
  cases t with
  | zero =>
    rw [Nat.zero_mul, Nat.zero_mod]
    exact ⟨fun _ => hs, fun _ => Nat.le_zero.mp hle⟩
  | succ t =>
    have hless := @tailUsed_le_iff w s t (tailFit w s (t + 1)) hs
    rw [Nat.succ_mul] at hdiv
    constructor
    · intro heq
      have hno : ¬ tailFit w s (t + 1) * (s + w) ≤ t * s := by
        intro h
        have h' := hless.mpr h
        omega
      rw [Nat.succ_mul]
      omega
    · intro hlt
      rw [Nat.succ_mul] at hlt
      have hno : ¬ tailUsed w s (tailFit w s (t + 1)) ≤ t := by
        intro h
        have h' := hless.mp h
        omega
      omega

end

end Lib
end VeraCrypt
