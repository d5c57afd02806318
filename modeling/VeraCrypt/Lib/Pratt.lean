import Mathlib.Data.List.Prime
import Mathlib.NumberTheory.LucasPrimality

/-!
# Primality from a chain of Lucas tests

A line of a chain is a number, a base and the prime factors of the number less one. It passes when
the base has order `p - 1`, which is tested with `powMod`, and its factors are known primes; a chain
adds each number that passes to the known ones. All the tests are by evaluation.
-/

set_option autoImplicit false

namespace VeraCrypt
namespace Lib

/-- `a ^ e % m`, for an exponent of at most `n` bits. -/
def powMod (m a : Nat) : Nat → Nat → Nat
  | 0, _ => 1 % m
  | n + 1, e =>
    let r := powMod m a n (e / 2)
    if e % 2 = 1 then r * r % m * a % m else r * r % m

theorem powMod_eq (m a : Nat) {n e : Nat} (he : e < 2 ^ n) : powMod m a n e = a ^ e % m := by
  induction n generalizing e with
  | zero =>
    have h0 : e = 0 := by simpa using he
    rw [h0]
    rfl
  | succ n ih =>
    have hhalf : e / 2 < 2 ^ n := by
      rw [pow_succ] at he
      omega
    have hsq : a ^ (e / 2) % m * (a ^ (e / 2) % m) % m = a ^ (e / 2 + e / 2) % m := by
      rw [← Nat.mul_mod, ← pow_add]
    rw [powMod, ih hhalf]
    by_cases hodd : e % 2 = 1
    · have he' : e / 2 + e / 2 + 1 = e := by omega
      rw [if_pos hodd, hsq, Nat.mod_mul_mod, ← pow_succ, he']
    · have he' : e / 2 + e / 2 = e := by omega
      rw [if_neg hodd, hsq, he']

/-- A line of a chain; a factor stands in `factors` as often as it divides `p - 1`. -/
structure LucasTest where
  p : Nat
  base : Nat
  factors : List Nat
deriving DecidableEq

def LucasTest.bits (t : LucasTest) : Nat := t.p.log2 + 1

/-- The line passes, where `known` are primes. -/
def LucasTest.passes (known : List Nat) (t : LucasTest) : Bool :=
  1 < t.p && t.factors.all (known.contains ·) && t.factors.prod == t.p - 1 &&
    powMod t.p t.base t.bits (t.p - 1) == 1 &&
    t.factors.all (fun q => powMod t.p t.base t.bits ((t.p - 1) / q) != 1)

/-- Every line passes with the numbers of the earlier ones known. -/
def chainPasses : List Nat → List LucasTest → Bool
  | _, [] => true
  | known, t :: ts => t.passes known && chainPasses (t.p :: known) ts

theorem cast_pow_eq_one_iff {p a e : Nat} (hp : 1 < p) :
    (a : ZMod p) ^ e = 1 ↔ a ^ e % p = 1 := by
  have h := ZMod.natCast_eq_natCast_iff' (a ^ e) 1 p
  rw [Nat.mod_eq_of_lt hp, Nat.cast_pow, Nat.cast_one] at h
  exact h

theorem LucasTest.prime {known : List Nat} {t : LucasTest}
    (hknown : ∀ q ∈ known, q.Prime) (h : t.passes known = true) : t.p.Prime := by
  simp only [LucasTest.passes, Bool.and_eq_true, decide_eq_true_eq, List.all_eq_true,
    List.contains_iff_mem, beq_iff_eq, bne_iff_ne] at h
  rcases h with ⟨⟨⟨⟨h1, hmem⟩, hprod⟩, hfull⟩, hpart⟩
  have hbits : t.p < 2 ^ t.bits := Nat.lt_log2_self
  rw [powMod_eq _ _ (by omega)] at hfull
  apply lucas_primality t.p (t.base : ZMod t.p)
  · exact (cast_pow_eq_one_iff h1).mpr hfull
  · intro q hq hdvd hone
    rw [← hprod] at hdvd
    rcases (Prime.dvd_prod_iff hq.prime).mp hdvd with ⟨r, hr, hqr⟩
    have hqr : q = r := (Nat.prime_dvd_prime_iff_eq hq (hknown r (hmem r hr))).mp hqr
    subst hqr
    have hlt : (t.p - 1) / q < 2 ^ t.bits := Nat.lt_of_le_of_lt (Nat.div_le_self _ _) (by omega)
    apply hpart q hr
    rw [powMod_eq _ _ hlt]
    exact (cast_pow_eq_one_iff h1).mp hone

theorem prime_of_chain {known : List Nat} {ts : List LucasTest}
    (hknown : ∀ q ∈ known, q.Prime) (h : chainPasses known ts = true) : ∀ t ∈ ts, t.p.Prime := by
  induction ts generalizing known with
  | nil => simp
  | cons t ts ih =>
    rw [chainPasses, Bool.and_eq_true] at h
    have hp := LucasTest.prime hknown h.1
    intro s hs
    rcases List.mem_cons.mp hs with rfl | hs
    · exact hp
    · refine ih ?_ h.2 s hs
      intro q hq
      rcases List.mem_cons.mp hq with rfl | hq
      · exact hp
      · exact hknown q hq

end Lib
end VeraCrypt
