import Mathlib.Data.List.GetD
import Mathlib.Data.Nat.Digits.Lemmas
import Mathlib.Tactic.Ring
import VeraCrypt.Lib.Endian

/-!
# Integers as little-endian 64-bit limbs

Arithmetic on lists of 64-bit limbs with a 128-bit accumulator, as it is written where the compiler
has one: addition with a carry, subtraction with a borrow, shifting by one bit, schoolbook
multiplication and comparison from the top limb. Each operation has one lemma that says what it does
to the number the limbs stand for (`limbNat`).
-/

set_option autoImplicit false

namespace VeraCrypt
namespace Lib

/-- The number that little-endian limbs stand for. -/
def limbNat (l : List UInt64) : Nat := Nat.ofDigits (2 ^ 64) (l.map UInt64.toNat)

@[simp] theorem limbNat_nil : limbNat [] = 0 := rfl

@[simp] theorem limbNat_cons (x : UInt64) (xs : List UInt64) :
    limbNat (x :: xs) = x.toNat + 2 ^ 64 * limbNat xs := by
  rw [limbNat, List.map_cons, Nat.ofDigits_cons]
  rfl

theorem limbNat_append (as bs : List UInt64) :
    limbNat (as ++ bs) = limbNat as + (2 ^ 64) ^ as.length * limbNat bs := by
  rw [limbNat, List.map_append, Nat.ofDigits_append, List.length_map]
  rfl

theorem limb_mem_lt {l : List UInt64} : ∀ d ∈ l.map UInt64.toNat, d < 2 ^ 64 := by
  intro d hd
  rcases List.mem_map.mp hd with ⟨x, -, rfl⟩
  exact x.toNat_lt

theorem limbNat_lt (l : List UInt64) : limbNat l < (2 ^ 64) ^ l.length := by
  have h := Nat.ofDigits_lt_base_pow_length (b := 2 ^ 64) (by norm_num) (limb_mem_lt (l := l))
  rwa [List.length_map] at h

theorem limbNat_inj {as bs : List UInt64} (hlen : as.length = bs.length)
    (h : limbNat as = limbNat bs) : as = bs := by
  have hmap : as.map UInt64.toNat = bs.map UInt64.toNat := by
    apply Nat.ofDigits_inj_of_len_eq (b := 2 ^ 64) (by norm_num)
    · rw [List.length_map, List.length_map, hlen]
    · exact limb_mem_lt
    · exact limb_mem_lt
    · exact h
  exact List.map_injective_iff.mpr (fun _ _ => UInt64.toNat_inj.mp) hmap

@[simp] theorem limbNat_replicate_zero (n : Nat) : limbNat (List.replicate n 0) = 0 := by
  induction n with
  | zero => rfl
  | succ n ih => rw [List.replicate_succ, limbNat_cons, ih]; rfl

/-! ## Addition and subtraction -/

/-- The limbs of `as + bs + c` and the carry out of the last one. -/
def addLimbs : List UInt64 → List UInt64 → Nat → List UInt64 × Nat
  | a :: as, b :: bs, c =>
    let s := (a.toNat + b.toNat + c) % 2 ^ 128
    let r := addLimbs as bs (s >>> 64)
    (UInt64.ofNat s :: r.1, r.2)
  | _, _, c => ([], c)

/-- The limbs of `as - bs - br` and the borrow out of the last one. -/
def subLimbs : List UInt64 → List UInt64 → Nat → List UInt64 × Nat
  | a :: as, b :: bs, br =>
    let t := (2 ^ 128 + a.toNat - b.toNat - br) % 2 ^ 128
    let r := subLimbs as bs ((t >>> 64) % 2)
    (UInt64.ofNat t :: r.1, r.2)
  | _, _, br => ([], br)

example : addLimbs [2 ^ 64 - 1, 2 ^ 64 - 1] [1, 0] 0 = ([0, 0], 1) := by
  simp only [addLimbs]
  decide +kernel

example : subLimbs [0, 0] [1, 0] 0 = ([2 ^ 64 - 1, 2 ^ 64 - 1], 1) := by
  simp only [subLimbs]
  decide +kernel

theorem length_addLimbs {as bs : List UInt64} (c : Nat) (h : as.length = bs.length) :
    (addLimbs as bs c).1.length = as.length := by
  induction as generalizing bs c with
  | nil => rfl
  | cons a as ih =>
    cases bs with
    | nil => exact absurd h (by simp)
    | cons b bs =>
      rw [addLimbs, List.length_cons, List.length_cons, ih _ (by simpa using h)]

theorem length_subLimbs {as bs : List UInt64} (br : Nat) (h : as.length = bs.length) :
    (subLimbs as bs br).1.length = as.length := by
  induction as generalizing bs br with
  | nil => rfl
  | cons a as ih =>
    cases bs with
    | nil => exact absurd h (by simp)
    | cons b bs =>
      rw [subLimbs, List.length_cons, List.length_cons, ih _ (by simpa using h)]

theorem limbNat_addLimbs {as bs : List UInt64} {c : Nat} (h : as.length = bs.length) (hc : c ≤ 1) :
    limbNat (addLimbs as bs c).1 + (2 ^ 64) ^ as.length * (addLimbs as bs c).2 =
      limbNat as + limbNat bs + c ∧ (addLimbs as bs c).2 ≤ 1 := by
  induction as generalizing bs c with
  | nil =>
    cases bs with
    | nil => simp [addLimbs, hc]
    | cons b bs => exact absurd h (by simp)
  | cons a as ih =>
    cases bs with
    | nil => exact absurd h (by simp)
    | cons b bs =>
      have ha := a.toNat_lt
      have hb := b.toNat_lt
      have hs : (a.toNat + b.toNat + c) % 2 ^ 128 = a.toNat + b.toNat + c :=
        Nat.mod_eq_of_lt (by omega)
      have hcarry : (a.toNat + b.toNat + c) >>> 64 ≤ 1 := by
        rw [Nat.shiftRight_eq_div_pow]
        omega
      have hlen : as.length = bs.length := by simpa using h
      rcases ih hlen hcarry with ⟨hval, hout⟩
      rw [addLimbs, hs]
      refine ⟨?_, hout⟩
      have hlow : (UInt64.ofNat (a.toNat + b.toNat + c)).toNat = (a.toNat + b.toNat + c) % 2 ^ 64 :=
        UInt64.toNat_ofNat'
      simp only [limbNat_cons, hlow, List.length_cons, pow_succ (2 ^ 64)]
      have hsplit := Nat.mod_add_div (a.toNat + b.toNat + c) (2 ^ 64)
      rw [Nat.shiftRight_eq_div_pow] at hval
      calc _ = (a.toNat + b.toNat + c) % 2 ^ 64 + 2 ^ 64 *
              (limbNat (addLimbs as bs ((a.toNat + b.toNat + c) >>> 64)).1 + (2 ^ 64) ^ as.length *
                (addLimbs as bs ((a.toNat + b.toNat + c) >>> 64)).2) := by ring
        _ = (a.toNat + b.toNat + c) % 2 ^ 64 + 2 ^ 64 *
              (limbNat as + limbNat bs + (a.toNat + b.toNat + c) / 2 ^ 64) := by
            rw [Nat.shiftRight_eq_div_pow, hval]
        _ = a.toNat + 2 ^ 64 * limbNat as + (b.toNat + 2 ^ 64 * limbNat bs) + c := by omega

/-- One limb of a subtraction: bit 64 of the 128-bit difference is the borrow. -/
theorem sub_limb {a b br : Nat} (ha : a < 2 ^ 64) (hb : b < 2 ^ 64) (hbr : br ≤ 1) :
    (2 ^ 128 + a - b - br) % 2 ^ 128 % 2 ^ 64 + b + br =
      a + 2 ^ 64 * ((2 ^ 128 + a - b - br) % 2 ^ 128 / 2 ^ 64 % 2) := by
  omega

theorem limbNat_subLimbs {as bs : List UInt64} {br : Nat} (h : as.length = bs.length)
    (hbr : br ≤ 1) :
    limbNat (subLimbs as bs br).1 + limbNat bs + br =
      limbNat as + (2 ^ 64) ^ as.length * (subLimbs as bs br).2 ∧ (subLimbs as bs br).2 ≤ 1 := by
  induction as generalizing bs br with
  | nil =>
    cases bs with
    | nil => simp [subLimbs, hbr]
    | cons b bs => exact absurd h (by simp)
  | cons a as ih =>
    cases bs with
    | nil => exact absurd h (by simp)
    | cons b bs =>
      have hlimb := sub_limb a.toNat_lt b.toNat_lt hbr
      rw [subLimbs]
      generalize (2 ^ 128 + a.toNat - b.toNat - br) % 2 ^ 128 = t at hlimb ⊢
      have hborrow : (t >>> 64) % 2 ≤ 1 := by omega
      have hlen : as.length = bs.length := by simpa using h
      rcases ih hlen hborrow with ⟨hval, hout⟩
      refine ⟨?_, hout⟩
      have hlow : (UInt64.ofNat t).toNat = t % 2 ^ 64 := UInt64.toNat_ofNat'
      simp only [limbNat_cons, hlow, List.length_cons, pow_succ (2 ^ 64)]
      rw [Nat.shiftRight_eq_div_pow] at hval ⊢
      calc t % 2 ^ 64 + 2 ^ 64 * limbNat (subLimbs as bs (t / 2 ^ 64 % 2)).1 +
              (b.toNat + 2 ^ 64 * limbNat bs) + br
          = (t % 2 ^ 64 + b.toNat + br) + 2 ^ 64 *
              (limbNat (subLimbs as bs (t / 2 ^ 64 % 2)).1 + limbNat bs) := by ring
        _ = a.toNat + 2 ^ 64 * (limbNat (subLimbs as bs (t / 2 ^ 64 % 2)).1 + limbNat bs +
              t / 2 ^ 64 % 2) := by
            rw [hlimb]
            ring
        _ = _ := by
            rw [hval]
            ring

/-! ## Shifting -/

/-- All limbs shifted left by one bit, `carry` into the lowest, with the bit shifted out. -/
def shlLimbs : List UInt64 → UInt64 → List UInt64 × UInt64
  | x :: xs, carry =>
    let r := shlLimbs xs (x >>> 63)
    ((x <<< 1 ||| carry) :: r.1, r.2)
  | [], carry => ([], carry)

theorem length_shlLimbs (xs : List UInt64) (carry : UInt64) :
    (shlLimbs xs carry).1.length = xs.length := by
  induction xs generalizing carry with
  | nil => rfl
  | cons x xs ih => rw [shlLimbs, List.length_cons, List.length_cons, ih]

theorem toNat_shl_or (x carry : UInt64) (h : carry.toNat ≤ 1) :
    (x <<< 1 ||| carry).toNat = 2 * x.toNat % 2 ^ 64 + carry.toNat := by
  have hx := x.toNat_lt
  have heven : 2 * x.toNat % 2 ^ 64 = 2 ^ 1 * (x.toNat % 2 ^ 63) := by omega
  have hshift : (x <<< 1).toNat = 2 * x.toNat % 2 ^ 64 := by
    rw [UInt64.toNat_shiftLeft]
    simp [Nat.shiftLeft_eq, Nat.mul_comm]
  rw [UInt64.toNat_or, hshift, heven, ← Nat.two_pow_add_eq_or_of_lt (by omega)]

theorem toNat_shr_63 (x : UInt64) : (x >>> 63).toNat = x.toNat / 2 ^ 63 := by
  rw [UInt64.toNat_shiftRight]
  simp [Nat.shiftRight_eq_div_pow]

theorem limbNat_shlLimbs (xs : List UInt64) {carry : UInt64} (h : carry.toNat ≤ 1) :
    limbNat (shlLimbs xs carry).1 + (2 ^ 64) ^ xs.length * (shlLimbs xs carry).2.toNat =
      2 * limbNat xs + carry.toNat ∧ (shlLimbs xs carry).2.toNat ≤ 1 := by
  induction xs generalizing carry with
  | nil => simp [shlLimbs, h]
  | cons x xs ih =>
    have hx := x.toNat_lt
    have hnc := toNat_shr_63 x
    have hle : (x >>> 63).toNat ≤ 1 := by omega
    rcases ih hle with ⟨hval, hout⟩
    rw [shlLimbs]
    refine ⟨?_, hout⟩
    simp only [limbNat_cons, toNat_shl_or x carry h, List.length_cons, pow_succ (2 ^ 64)]
    calc 2 * x.toNat % 2 ^ 64 + carry.toNat + 2 ^ 64 * limbNat (shlLimbs xs (x >>> 63)).1 +
            (2 ^ 64) ^ xs.length * 2 ^ 64 * (shlLimbs xs (x >>> 63)).2.toNat
        = 2 * x.toNat % 2 ^ 64 + carry.toNat + 2 ^ 64 * (limbNat (shlLimbs xs (x >>> 63)).1 +
            (2 ^ 64) ^ xs.length * (shlLimbs xs (x >>> 63)).2.toNat) := by ring
      _ = 2 * x.toNat % 2 ^ 64 + carry.toNat + 2 ^ 64 * (2 * limbNat xs + x.toNat / 2 ^ 63) := by
          rw [hval, hnc]
      _ = 2 * (x.toNat + 2 ^ 64 * limbNat xs) + carry.toNat := by omega

/-! ## Multiplication -/

/-- `ps` with `a * bs + c` added: a limb of the product at a time, the last carry into the limb
above. -/
def mulRow (a : UInt64) : List UInt64 → List UInt64 → Nat → List UInt64
  | b :: bs, p :: ps, c =>
    let t := (a.toNat * b.toNat + p.toNat + c) % 2 ^ 128
    UInt64.ofNat t :: mulRow a bs ps (t >>> 64)
  | [], p :: ps, c => (p + UInt64.ofNat c) :: ps
  | _, [], _ => []

/-- Schoolbook multiplication into `ps`, one row for each limb of `as`, each one limb further up. -/
def mulLimbs : List UInt64 → List UInt64 → List UInt64 → List UInt64
  | a :: as, bs, ps =>
    match mulRow a bs ps 0 with
    | p :: ps => p :: mulLimbs as bs ps
    | [] => []
  | [], _, ps => ps

/-- A limb of the product and a carry fit in the accumulator. -/
theorem mul_limb_lt {a b p c : Nat} (ha : a < 2 ^ 64) (hb : b < 2 ^ 64) (hp : p < 2 ^ 64)
    (hc : c < 2 ^ 64) : a * b + p + c < 2 ^ 128 := by
  have hab : a * b ≤ (2 ^ 64 - 1) * (2 ^ 64 - 1) := Nat.mul_le_mul (by omega) (by omega)
  omega

theorem mulRow_eq (a : UInt64) {bs qs : List UInt64} (rest : List UInt64) {c : Nat}
    (hlen : qs.length = bs.length) (hc : c < 2 ^ 64) :
    ∃ row : List UInt64, mulRow a bs (qs ++ 0 :: rest) c = row ++ rest ∧
      row.length = bs.length + 1 ∧ limbNat row = limbNat qs + a.toNat * limbNat bs + c := by
  induction bs generalizing qs c with
  | nil =>
    rw [List.length_nil, List.length_eq_zero_iff] at hlen
    subst hlen
    refine ⟨[0 + UInt64.ofNat c], rfl, rfl, ?_⟩
    have hofNat : (UInt64.ofNat c).toNat = c := by
      rw [UInt64.toNat_ofNat']
      omega
    simp [hofNat]
  | cons b bs ih =>
    cases qs with
    | nil => exact absurd hlen (by simp)
    | cons q qs =>
      have hlt := mul_limb_lt a.toNat_lt b.toNat_lt q.toNat_lt hc
      have hcarry : (a.toNat * b.toNat + q.toNat + c) >>> 64 < 2 ^ 64 := by
        rw [Nat.shiftRight_eq_div_pow]
        omega
      have hlen' : qs.length = bs.length := by simpa using hlen
      rcases ih hlen' hcarry with ⟨row, hrow, hrowLen, hval⟩
      refine ⟨UInt64.ofNat (a.toNat * b.toNat + q.toNat + c) :: row, ?_, ?_, ?_⟩
      · rw [List.cons_append, mulRow, Nat.mod_eq_of_lt hlt, hrow, List.cons_append]
      · rw [List.length_cons, hrowLen, List.length_cons]
      · have hlow : (UInt64.ofNat (a.toNat * b.toNat + q.toNat + c)).toNat =
            (a.toNat * b.toNat + q.toNat + c) % 2 ^ 64 := UInt64.toNat_ofNat'
        rw [Nat.shiftRight_eq_div_pow] at hval
        have hsplit := Nat.mod_add_div (a.toNat * b.toNat + q.toNat + c) (2 ^ 64)
        simp only [limbNat_cons, hlow, hval]
        calc _ = (a.toNat * b.toNat + q.toNat + c) % 2 ^ 64 +
                2 ^ 64 * ((a.toNat * b.toNat + q.toNat + c) / 2 ^ 64) +
                2 ^ 64 * (limbNat qs + a.toNat * limbNat bs) := by ring
          _ = a.toNat * b.toNat + q.toNat + c + 2 ^ 64 * (limbNat qs + a.toNat * limbNat bs) := by
              rw [hsplit]
          _ = q.toNat + 2 ^ 64 * limbNat qs + a.toNat * (b.toNat + 2 ^ 64 * limbNat bs) + c := by
              ring

/-- The window of the current row starts with what the earlier rows have left there and has zeros
above. -/
theorem limbNat_mulLimbs_window (as : List UInt64) {bs qs : List UInt64}
    (hlen : qs.length = bs.length) :
    limbNat (mulLimbs as bs (qs ++ List.replicate as.length 0)) =
        limbNat qs + limbNat as * limbNat bs ∧
      (mulLimbs as bs (qs ++ List.replicate as.length 0)).length = as.length + bs.length := by
  induction as generalizing qs with
  | nil => simp [mulLimbs, hlen]
  | cons a as ih =>
    rcases mulRow_eq a (List.replicate as.length 0) hlen (by norm_num : 0 < 2 ^ 64) with
      ⟨row, hrow, hrowLen, hval⟩
    cases row with
    | nil => exact absurd hrowLen (by simp)
    | cons p row =>
      have hrowLen' : row.length = bs.length := by simpa using hrowLen
      rcases ih hrowLen' with ⟨ihval, ihlen⟩
      rw [List.length_cons, List.replicate_succ, mulLimbs, hrow, List.cons_append]
      constructor
      · rw [limbNat_cons, ihval, limbNat_cons]
        rw [limbNat_cons, Nat.add_zero] at hval
        calc p.toNat + 2 ^ 64 * (limbNat row + limbNat as * limbNat bs)
            = (p.toNat + 2 ^ 64 * limbNat row) + 2 ^ 64 * (limbNat as * limbNat bs) := by ring
          _ = limbNat qs + (a.toNat + 2 ^ 64 * limbNat as) * limbNat bs := by
              rw [hval]
              ring
      · rw [List.length_cons, ihlen]
        omega

theorem limbNat_mulLimbs (as bs : List UInt64) :
    limbNat (mulLimbs as bs (List.replicate (bs.length + as.length) 0)) =
      limbNat as * limbNat bs := by
  have hlen : (List.replicate bs.length (0 : UInt64)).length = bs.length := List.length_replicate
  have h := (limbNat_mulLimbs_window as hlen).1
  rwa [List.replicate_append_replicate, limbNat_replicate_zero, Nat.zero_add] at h

theorem length_mulLimbs (as bs : List UInt64) :
    (mulLimbs as bs (List.replicate (bs.length + as.length) 0)).length = as.length + bs.length := by
  have hlen : (List.replicate bs.length (0 : UInt64)).length = bs.length := List.length_replicate
  have h := (limbNat_mulLimbs_window as hlen).2
  rwa [List.replicate_append_replicate] at h

/-! ## Comparison -/

/-- Comparison of limbs that are given from the top one down. -/
def cmpTop : List UInt64 → List UInt64 → Ordering
  | a :: as, b :: bs => if a < b then .lt else if a > b then .gt else cmpTop as bs
  | _, _ => .eq

theorem cmpTop_eq {as bs : List UInt64} (hlen : as.length = bs.length) :
    cmpTop as bs = compare (limbNat as.reverse) (limbNat bs.reverse) := by
  induction as generalizing bs with
  | nil =>
    cases bs with
    | nil => rfl
    | cons b bs => exact absurd hlen (by simp)
  | cons a as ih =>
    cases bs with
    | nil => exact absurd hlen (by simp)
    | cons b bs =>
      have hlen' : as.length = bs.length := by simpa using hlen
      have hloA := limbNat_lt as.reverse
      have hloB := limbNat_lt bs.reverse
      rw [List.length_reverse] at hloA hloB
      simp only [cmpTop, ih hlen', List.reverse_cons, limbNat_append, List.length_reverse,
        limbNat_cons, limbNat_nil, Nat.mul_zero, Nat.add_zero]
      rw [← hlen'] at hloB ⊢
      generalize (2 ^ 64) ^ as.length = B at hloA hloB ⊢
      rcases lt_trichotomy a.toNat b.toNat with h | h | h
      · have hstep : B * (a.toNat + 1) ≤ B * b.toNat := Nat.mul_le_mul_left B h
        rw [if_pos (UInt64.lt_iff_toNat_lt.mpr h), eq_comm, compare_lt_iff_lt]
        rw [Nat.mul_add, Nat.mul_one] at hstep
        omega
      · rw [UInt64.toNat_inj] at h
        subst h
        rw [if_neg (UInt64.lt_irrefl a), if_neg (UInt64.lt_irrefl a)]
        simp only [Nat.compare_eq_ite_lt, Nat.add_lt_add_iff_right]
      · have hstep : B * (b.toNat + 1) ≤ B * a.toNat := Nat.mul_le_mul_left B h
        have hgt := UInt64.lt_iff_toNat_lt.mpr h
        rw [if_neg (UInt64.lt_asymm hgt), if_pos hgt, eq_comm, compare_gt_iff_gt]
        rw [Nat.mul_add, Nat.mul_one] at hstep
        omega

/-! ## Reading bits and bytes -/

/-- Bit `i` of the limbs. -/
def bitAt (l : List UInt64) (i : Nat) : UInt64 := (l.getD (i >>> 6) 0 >>> UInt64.ofNat (i % 64)) &&& 1

/-- The bits from `64 * k + s` on of the limbs begin as those of limb `k` from `s` on. -/
theorem limbNat_shift (l : List UInt64) {k s : Nat} (hs : s ≤ 64) :
    limbNat l / 2 ^ (64 * k + s) % 2 ^ (64 - s) = (l.getD k 0).toNat / 2 ^ s := by
  induction l generalizing k with
  | nil => simp
  | cons x xs ih =>
    have hx := x.toNat_lt
    have hpow : (2 : Nat) ^ 64 = 2 ^ s * 2 ^ (64 - s) := by rw [← pow_add]; congr 1; omega
    cases k with
    | zero =>
      rw [limbNat_cons, Nat.mul_zero, Nat.zero_add, List.getD_cons_zero]
      have hlt : x.toNat / 2 ^ s < 2 ^ (64 - s) := by
        rw [Nat.div_lt_iff_lt_mul (by positivity), Nat.mul_comm, ← hpow]
        exact hx
      rw [hpow, Nat.mul_assoc, Nat.add_mul_div_left _ _ (by positivity), Nat.add_mul_mod_self_left,
        Nat.mod_eq_of_lt hlt]
    | succ k =>
      have hdiv : (x.toNat + 2 ^ 64 * limbNat xs) / 2 ^ 64 = limbNat xs := by omega
      rw [limbNat_cons, List.getD_cons_succ, ← ih (k := k), show 64 * (k + 1) + s = 64 + (64 * k + s) by
        omega, pow_add 2 64, ← Nat.div_div_eq_div_mul, hdiv]

theorem toNat_bitAt (l : List UInt64) (i : Nat) : (bitAt l i).toNat = limbNat l / 2 ^ i % 2 := by
  have hs : i % 64 < 64 := Nat.mod_lt i (by norm_num)
  have hshift := limbNat_shift l (k := i / 64) (s := i % 64) (by omega)
  have hi : 64 * (i / 64) + i % 64 = i := Nat.div_add_mod i 64
  have hdvd : 2 ∣ 2 ^ (64 - i % 64) := dvd_pow_self 2 (by omega)
  rw [hi] at hshift
  have hofNat : (UInt64.ofNat (i % 64)).toNat = i % 64 := by
    rw [UInt64.toNat_ofNat']
    omega
  rw [bitAt, UInt64.toNat_and, UInt64.toNat_shiftRight, hofNat, Nat.shiftRight_eq_div_pow,
    Nat.shiftRight_eq_div_pow, Nat.mod_mod, show (2 : Nat) ^ 6 = 64 from rfl, ← hshift]
  simp [Nat.and_one_is_mod, Nat.mod_mod_of_dvd _ hdvd]

/-- The lowest `n` bytes of the limbs. -/
def limbBytes (l : List UInt64) (n : Nat) : List UInt8 :=
  (List.range n).map fun i => (l.getD (i >>> 3) 0 >>> UInt64.ofNat (i % 8 * 8)).toUInt8

theorem leBytes_eq_map (n v : Nat) :
    leBytes n v = (List.range n).map fun i => UInt8.ofNat (v / 256 ^ i) := by
  induction n generalizing v with
  | zero => rfl
  | succ n ih =>
    rw [leBytes, ih, List.range_succ_eq_map, List.map_cons, List.map_map, pow_zero, Nat.div_one]
    congr 1
    apply List.map_congr_left
    intro i _
    rw [Function.comp_apply, Nat.succ_eq_add_one, pow_succ', Nat.div_div_eq_div_mul]

theorem limbBytes_eq (l : List UInt64) (n : Nat) : limbBytes l n = leBytes n (limbNat l) := by
  rw [limbBytes, leBytes_eq_map]
  apply List.map_congr_left
  intro i _
  have hs : i % 8 * 8 < 64 := by omega
  have hshift := limbNat_shift l (k := i / 8) (s := i % 8 * 8) (by omega)
  have hi : 64 * (i / 8) + i % 8 * 8 = 8 * i := by omega
  have hdvd : 256 ∣ 2 ^ (64 - i % 8 * 8) := pow_dvd_pow 2 (by omega : 8 ≤ 64 - i % 8 * 8)
  have hofNat : (UInt64.ofNat (i % 8 * 8)).toNat = i % 8 * 8 := by
    rw [UInt64.toNat_ofNat']
    omega
  rw [hi, pow_mul, show (2 : Nat) ^ 8 = 256 from rfl] at hshift
  apply UInt8.toNat_inj.mp
  rw [UInt8.toNat_ofNat', UInt64.toNat_toUInt8, UInt64.toNat_shiftRight, hofNat,
    Nat.mod_eq_of_lt hs, Nat.shiftRight_eq_div_pow, Nat.shiftRight_eq_div_pow,
    show (2 : Nat) ^ 3 = 8 from rfl, ← hshift]
  exact Nat.mod_mod_of_dvd _ hdvd

/-- `n` limbs out of bytes, least significant first. -/
def limbsOfBytes (b : List UInt8) (n : Nat) : List UInt64 :=
  (List.range (8 * n)).foldl
    (fun r i => r.modify (i >>> 3) (· ||| (b.getD i 0).toUInt64 <<< UInt64.ofNat (i % 8 * 8)))
    (List.replicate n 0)

/-- A byte that is or-ed in above everything else is added. -/
theorem limbNat_modify_or {l : List UInt64} {k s : Nat} (b : UInt8) (hk : k < l.length)
    (hs : s ≤ 56) (h : limbNat l < 2 ^ (64 * k + s)) :
    limbNat (l.modify k (· ||| b.toUInt64 <<< UInt64.ofNat s)) =
      limbNat l + b.toNat * 2 ^ (64 * k + s) := by
  induction l generalizing k with
  | nil => exact absurd hk (by simp)
  | cons x xs ih =>
    cases k with
    | zero =>
      have hb : b.toNat < 2 ^ 8 := b.toNat_lt
      rw [limbNat_cons, Nat.mul_zero, Nat.zero_add] at h
      have hx : x.toNat < 2 ^ s := by omega
      have hofNat : (UInt64.ofNat s).toNat = s := by
        rw [UInt64.toNat_ofNat']
        omega
      have hshift : (b.toUInt64 <<< UInt64.ofNat s).toNat = 2 ^ s * b.toNat := by
        have hlt : 2 ^ s * b.toNat < 2 ^ 64 := by
          calc 2 ^ s * b.toNat < 2 ^ s * 2 ^ 8 := Nat.mul_lt_mul_of_pos_left hb (by positivity)
            _ = 2 ^ (s + 8) := (pow_add 2 s 8).symm
            _ ≤ 2 ^ 64 := Nat.pow_le_pow_right (by norm_num) (by omega)
        have hs64 : s % 64 = s := Nat.mod_eq_of_lt (by omega)
        rw [UInt64.toNat_shiftLeft, hofNat, hs64, Nat.shiftLeft_eq, UInt8.toNat_toUInt64,
          Nat.mul_comm, Nat.mod_eq_of_lt hlt]
      rw [List.modify_zero_cons, limbNat_cons, limbNat_cons, UInt64.toNat_or, hshift, Nat.or_comm,
        ← Nat.two_pow_add_eq_or_of_lt hx, Nat.mul_zero, Nat.zero_add]
      ring
    | succ k =>
      have hxs : limbNat xs < 2 ^ (64 * k + s) := by
        rw [limbNat_cons, show 64 * (k + 1) + s = 64 + (64 * k + s) by omega, pow_add] at h
        exact Nat.lt_of_mul_lt_mul_left (Nat.lt_of_le_of_lt (Nat.le_add_left _ _) h)
      rw [List.modify_succ_cons, limbNat_cons, ih (by simpa using hk) hxs, limbNat_cons,
        show 64 * (k + 1) + s = 64 + (64 * k + s) by omega, pow_add 2 64]
      ring

theorem limbNat_limbsOfBytes_upto {b : List UInt8} {n : Nat} (hb : b.length = 8 * n) {m : Nat}
    (hm : m ≤ 8 * n) :
    limbNat ((List.range m).foldl
        (fun r i => r.modify (i >>> 3) (· ||| (b.getD i 0).toUInt64 <<< UInt64.ofNat (i % 8 * 8)))
        (List.replicate n 0)) = leNat (b.take m) ∧
      ((List.range m).foldl
        (fun r i => r.modify (i >>> 3) (· ||| (b.getD i 0).toUInt64 <<< UInt64.ofNat (i % 8 * 8)))
        (List.replicate n 0)).length = n := by
  induction m with
  | zero => simp [leNat]
  | succ m ih =>
    rcases ih (by omega) with ⟨hval, hlen⟩
    have hmb : m < b.length := by omega
    have htake := leNat_lt (b.take m)
    rw [List.length_take, Nat.min_eq_left (by omega), show 256 = 2 ^ 8 from rfl, ← pow_mul] at htake
    have hm8 : 64 * (m / 8) + m % 8 * 8 = 8 * m := by omega
    rw [List.range_succ, List.foldl_append, List.foldl_cons, List.foldl_nil]
    refine ⟨?_, ?_⟩
    · rw [Nat.shiftRight_eq_div_pow, show (2 : Nat) ^ 3 = 8 from rfl, limbNat_modify_or, hval, hm8,
        pow_mul, List.take_succ_eq_append_getElem hmb, leNat_append, List.length_take,
        Nat.min_eq_left (by omega), List.getD_eq_getElem b 0 hmb]
      · simp only [leNat]
        ring
      · rw [hlen]
        omega
      · omega
      · rw [hval, hm8]
        exact htake
    · rw [List.length_modify, hlen]

theorem limbNat_limbsOfBytes {b : List UInt8} {n : Nat} (hb : b.length = 8 * n) :
    limbNat (limbsOfBytes b n) = leNat b := by
  have h := (limbNat_limbsOfBytes_upto hb (Nat.le_refl (8 * n))).1
  rwa [← hb, List.take_length, hb] at h

theorem length_limbsOfBytes (b : List UInt8) (n : Nat) : (limbsOfBytes b n).length = n := by
  have hfold : ∀ (is : List Nat) (r : List UInt64), (is.foldl
      (fun r i => r.modify (i >>> 3) (· ||| (b.getD i 0).toUInt64 <<< UInt64.ofNat (i % 8 * 8)))
      r).length = r.length := by
    intro is
    induction is with
    | nil => intro r; rfl
    | cons i is ih => intro r; rw [List.foldl_cons, ih, List.length_modify]
  rw [limbsOfBytes, hfold, List.length_replicate]

theorem leNat_modify {l : List UInt8} {k : Nat} (f : UInt8 → UInt8) (hk : k < l.length) :
    leNat (l.modify k f) + 256 ^ k * (l.getD k 0).toNat =
      leNat l + 256 ^ k * (f (l.getD k 0)).toNat := by
  induction l generalizing k with
  | nil => exact absurd hk (by simp)
  | cons b bs ih =>
    cases k with
    | zero =>
      simp only [List.modify_zero_cons, List.getD_cons_zero, leNat]
      omega
    | succ k =>
      have hih := ih (k := k) (by simpa using hk)
      simp only [List.modify_succ_cons, List.getD_cons_succ, leNat, pow_succ']
      rw [Nat.mul_assoc, Nat.mul_assoc]
      omega

/-- The top byte says where the number lies. -/
theorem leNat_top {l : List UInt8} {k : Nat} (hk : l.length = k + 1) :
    256 ^ k * (l.getD k 0).toNat ≤ leNat l ∧ leNat l < 256 ^ k * ((l.getD k 0).toNat + 1) := by
  induction l generalizing k with
  | nil => exact absurd hk (by simp)
  | cons b bs ih =>
    have hb := b.toNat_lt
    cases k with
    | zero =>
      have hbs : bs = [] := List.length_eq_zero_iff.mp (by simpa using hk)
      subst hbs
      simp [leNat]
    | succ k =>
      rcases ih (k := k) (by simpa using hk) with ⟨hle, hlt⟩
      simp only [List.getD_cons_succ, leNat, pow_succ']
      rw [Nat.mul_assoc, Nat.mul_assoc]
      omega

/-! ## Loops from the top bit down -/

/-- A loop that counts down from `n - 1`: `P i` holds once index `i` is done. -/
theorem foldl_range_reverse {σ : Type} {P : Nat → σ → Prop} {f : σ → Nat → σ} {n : Nat} {s : σ}
    (h0 : P n s) (hstep : ∀ i < n, ∀ s, P (i + 1) s → P i (f s i)) :
    P 0 ((List.range n).reverse.foldl f s) := by
  induction n generalizing s with
  | zero => exact h0
  | succ n ih =>
    rw [List.range_succ, List.reverse_append, List.reverse_singleton, List.singleton_append,
      List.foldl_cons]
    apply ih (hstep n (Nat.lt_succ_self n) s h0)
    intro i hi
    exact hstep i (Nat.lt_succ_of_lt hi)

/-- The number above bit `i` is that above bit `i + 1` with bit `i` shifted in. -/
theorem div_two_pow_eq (v i : Nat) : v / 2 ^ i = 2 * (v / 2 ^ (i + 1)) + v / 2 ^ i % 2 := by
  rw [pow_succ, ← Nat.div_div_eq_div_mul]
  omega

end Lib
end VeraCrypt
