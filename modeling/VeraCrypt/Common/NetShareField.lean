import VeraCrypt.Lib.Limbs

/-!
# Field arithmetic of the network share (`Common/NetShare.c`)

256-bit arithmetic modulo `p`, on four limbs of 64 bits: addition and subtraction with one
correction, schoolbook multiplication, a reduction that shifts the product in bit by bit, and powers
by square and multiply. Every operation has a lemma that says which residue it returns.
-/

set_option autoImplicit false

namespace VeraCrypt

open Lib

/-- `n` limbs, least significant first: `u256` for four of them, the product for eight. -/
@[ext] structure LimbVec (n : Nat) where
  v : List UInt64
  length_v : v.length = n

abbrev U256 := LimbVec 4

namespace LimbVec

variable {n : Nat}

def toNat (a : LimbVec n) : Nat := limbNat a.v

theorem toNat_lt (a : LimbVec n) : a.toNat < (2 ^ 64) ^ n := by
  have h := limbNat_lt a.v
  rwa [a.length_v] at h

theorem toNat_inj {a b : LimbVec n} (h : a.toNat = b.toNat) : a = b :=
  LimbVec.ext (limbNat_inj (a.length_v.trans b.length_v.symm) h)

end LimbVec

/-! ## The functions of the source -/

/-- `FP` -/
def fp : U256 :=
  { v := [0xffffffffffffffed, 0xffffffffffffffff, 0xffffffffffffffff, 0x7fffffffffffffff]
    length_v := rfl }

/-- `FD` -/
def fd : U256 :=
  { v := [0x75eb4dca135978a3, 0x00700a4d4141d8ab, 0x8cc740797779e898, 0x52036cee2b6ffe73]
    length_v := rfl }

/-- A small constant, as the source sets its lowest limb. -/
def U256.small (k : UInt64) : U256 := { v := [k, 0, 0, 0], length_v := rfl }

/-- `ucmp`, with -1, 0 and 1 as the three orders. -/
def ucmp (a b : U256) : Ordering := cmpTop a.v.reverse b.v.reverse

def uge (a b : U256) : Bool := ucmp a b != .lt

def uiszero (a : U256) : Bool := a.v.foldl (· ||| ·) 0 == 0

/-- `rem` of `reduce512`: `rem[0]` to `rem[3]` and `rem[4]`. -/
structure Remainder where
  lo : U256
  hi : UInt64

def Remainder.toNat (rem : Remainder) : Nat := rem.lo.toNat + 2 ^ 256 * rem.hi.toNat

/-- The five limbs shifted left, with a bit of the product shifted in. -/
def Remainder.shl (rem : Remainder) (carry : UInt64) : Remainder :=
  let r := shlLimbs rem.lo.v carry
  { lo := { v := r.1, length_v := (length_shlLimbs rem.lo.v carry).trans rem.lo.length_v }
    hi := rem.hi <<< 1 ||| r.2 }

/-- `m` taken from the lower four limbs and the borrow from the fifth. -/
def Remainder.sub (rem : Remainder) (m : U256) : Remainder :=
  let r := subLimbs rem.lo.v m.v 0
  { lo :=
      { v := r.1
        length_v := (length_subLimbs 0 (rem.lo.length_v.trans m.length_v.symm)).trans
          rem.lo.length_v }
    hi := rem.hi - UInt64.ofNat r.2 }

theorem ucmp_eq (a b : U256) : ucmp a b = compare a.toNat b.toNat := by
  have hlen : a.v.reverse.length = b.v.reverse.length := by
    rw [List.length_reverse, List.length_reverse, a.length_v, b.length_v]
  rw [ucmp, cmpTop_eq hlen, List.reverse_reverse, List.reverse_reverse]
  rfl

theorem uge_iff (a b : U256) : uge a b = true ↔ b.toNat ≤ a.toNat := by
  rw [uge, ucmp_eq, bne_iff_ne, ne_eq, compare_lt_iff_lt, not_lt]

/-- Where the loop of `reduce512` subtracts, there is enough to subtract from. -/
theorem Remainder.le_of_not_break {rem : Remainder} {m : U256}
    (h : ¬(rem.hi = 0 ∧ uge rem.lo m = false)) : m.toNat ≤ rem.toNat := by
  have hm := m.toNat_lt
  by_cases h0 : rem.hi = 0
  · by_cases hge : uge rem.lo m = true
    · have hle := (uge_iff rem.lo m).mp hge
      rw [Remainder.toNat]
      omega
    · exact absurd ⟨h0, by simpa using hge⟩ h
  · have hpos : 0 < rem.hi.toNat := by
      apply Nat.pos_of_ne_zero
      intro hz
      exact h0 (UInt64.toNat_inj.mp hz)
    rw [Remainder.toNat]
    omega

theorem Remainder.toNat_sub {rem : Remainder} {m : U256} (h : m.toNat ≤ rem.toNat) :
    (rem.sub m).toNat = rem.toNat - m.toNat := by
  have hlen := rem.lo.length_v.trans m.length_v.symm
  rcases limbNat_subLimbs hlen (Nat.zero_le 1) with ⟨hval, hout⟩
  have hlo := limbNat_lt (subLimbs rem.lo.v m.v 0).1
  have hhi := rem.hi.toNat_lt
  rw [length_subLimbs 0 hlen, rem.lo.length_v] at hlo
  rw [rem.lo.length_v] at hval
  simp only [Remainder.toNat, LimbVec.toNat] at h ⊢
  simp only [Remainder.sub]
  generalize (subLimbs rem.lo.v m.v 0).2 = br at hval hout
  have hofNat : (UInt64.ofNat br).toNat = br := by
    rw [UInt64.toNat_ofNat']
    omega
  have hhiSub : (rem.hi - UInt64.ofNat br).toNat = rem.hi.toNat - br := by
    rw [UInt64.toNat_sub, hofNat]
    omega
  rw [hhiSub]
  omega

/-- The inner loop of `reduce512`. -/
def Remainder.reduce (m : U256) [NeZero m.toNat] (rem : Remainder) : Remainder :=
  if h : rem.hi = 0 ∧ uge rem.lo m = false then rem else Remainder.reduce m (rem.sub m)
termination_by rem.toNat
decreasing_by
  have hle := Remainder.le_of_not_break h
  have hpos := NeZero.pos m.toNat
  rw [Remainder.toNat_sub hle]
  omega

/-- The body of the outer loop. -/
def Remainder.shiftIn (prod : LimbVec 8) (m : U256) [NeZero m.toNat] (rem : Remainder) (bit : Nat) :
    Remainder :=
  (rem.shl (bitAt prod.v bit)).reduce m

def reduce512 (prod : LimbVec 8) (m : U256) [NeZero m.toNat] : U256 :=
  ((List.range 512).reverse.foldl (Remainder.shiftIn prod m) { lo := U256.small 0, hi := 0 }).lo

def mulmod (a b m : U256) [NeZero m.toNat] : U256 :=
  let prod : LimbVec 8 :=
    { v := mulLimbs a.v b.v (List.replicate (b.v.length + a.v.length) 0)
      length_v := by rw [length_mulLimbs, a.length_v, b.length_v] }
  reduce512 prod m

/-- `t - m`, the borrow dropped. -/
def U256.wrapSub (a b : U256) : U256 :=
  { v := (subLimbs a.v b.v 0).1
    length_v := (length_subLimbs 0 (a.length_v.trans b.length_v.symm)).trans a.length_v }

/-- `a + b`, the carry dropped. -/
def U256.wrapAdd (a b : U256) : U256 :=
  { v := (addLimbs a.v b.v 0).1
    length_v := (length_addLimbs 0 (a.length_v.trans b.length_v.symm)).trans a.length_v }

def addmod (a b m : U256) : U256 :=
  let t := a.wrapAdd b
  if uge t m then t.wrapSub m else t

def submod (a b m : U256) : U256 :=
  let t := a.wrapSub b
  if (subLimbs a.v b.v 0).2 ≠ 0 then t.wrapAdd m else t

/-- The body of the loop of `powmod`. -/
def powmodBit (base exp m : U256) [NeZero m.toNat] (res : U256) (i : Nat) : U256 :=
  let res := mulmod res res m
  if bitAt exp.v i ≠ 0 then mulmod res base m else res

def powmod (base exp m : U256) [NeZero m.toNat] : U256 :=
  (List.range 256).reverse.foldl (powmodBit base exp m) (U256.small 1)

/-- A constant with `k` taken from its lowest limb. -/
def U256.lowSub (a : U256) (k : UInt64) : U256 :=
  { v := a.v.modify 0 (· - k)
    length_v := (List.length_modify _ _ _).trans a.length_v }

instance : NeZero fp.toNat := ⟨by decide⟩

def feInv (a : U256) : U256 := powmod a (fp.lowSub 2) fp

/-! ## What they return -/

theorem U256.toNat_small (k : UInt64) : (U256.small k).toNat = k.toNat := by
  simp [U256.small, LimbVec.toNat]

theorem uiszero_iff (a : U256) : uiszero a = true ↔ a.toNat = 0 := by
  have hor : ∀ (l : List UInt64) (x : UInt64),
      l.foldl (· ||| ·) x = 0 ↔ x = 0 ∧ limbNat l = 0 := by
    intro l
    induction l with
    | nil => simp
    | cons y l ih =>
      intro x
      have hy : y = 0 ↔ y.toNat = 0 := by
        rw [← UInt64.toNat_inj]
        rfl
      have hor : x ||| y = 0 ↔ x = 0 ∧ y = 0 := UInt64.or_eq_zero_iff
      have hmul : 2 ^ 64 * limbNat l = 0 ↔ limbNat l = 0 := by omega
      rw [List.foldl_cons, ih, limbNat_cons, hor, hy, and_assoc, Nat.add_eq_zero_iff, hmul]
  rw [uiszero, beq_iff_eq, hor]
  exact ⟨fun h => h.2, fun h => ⟨rfl, h⟩⟩

theorem Remainder.toNat_shl {rem : Remainder} {carry : UInt64} (hcarry : carry.toNat ≤ 1)
    (h : 2 * rem.toNat + carry.toNat < 2 ^ 320) :
    (rem.shl carry).toNat = 2 * rem.toNat + carry.toNat := by
  rcases limbNat_shlLimbs rem.lo.v hcarry with ⟨hval, hout⟩
  have hhi := rem.hi.toNat_lt
  rw [rem.lo.length_v] at hval
  simp only [Remainder.toNat, LimbVec.toNat] at h ⊢
  simp only [Remainder.shl]
  rw [toNat_shl_or _ _ hout]
  omega

/-- The inner loop leaves the residue. -/
theorem Remainder.reduce_eq (m : U256) [NeZero m.toNat] (rem : Remainder) :
    (rem.reduce m).hi = 0 ∧ (rem.reduce m).lo.toNat = rem.toNat % m.toNat := by
  induction rem using Remainder.reduce.induct m with
  | case1 rem h =>
    rw [Remainder.reduce, dif_pos h]
    have hlt : ¬ m.toNat ≤ rem.lo.toNat := by
      rw [← uge_iff, h.2]
      exact Bool.false_ne_true
    have hval : rem.toNat = rem.lo.toNat := by
      rw [Remainder.toNat, h.1]
      rfl
    rw [hval, Nat.mod_eq_of_lt (by omega)]
    exact ⟨h.1, rfl⟩
  | case2 rem h ih =>
    have hle := Remainder.le_of_not_break h
    rw [Remainder.reduce, dif_neg h]
    rw [Remainder.toNat_sub hle] at ih
    rwa [Nat.mod_eq_sub_mod hle]

/-- After each bit the remainder is that of the bits so far. -/
def Remainder.Holds (prod : LimbVec 8) (m : U256) (bit : Nat) (rem : Remainder) : Prop :=
  rem.hi = 0 ∧ rem.lo.toNat = prod.toNat / 2 ^ bit % m.toNat

theorem Remainder.Holds.lt {prod : LimbVec 8} {m : U256} [NeZero m.toNat] {bit : Nat}
    {rem : Remainder} (h : rem.Holds prod m bit) : rem.toNat < m.toNat := by
  rw [Remainder.toNat, h.1, h.2]
  simpa using Nat.mod_lt _ (NeZero.pos m.toNat)

/-- **No bit is shifted out of the fifth limb.** -/
theorem Remainder.Holds.toNat_shl {prod : LimbVec 8} {m : U256} [NeZero m.toNat] {bit : Nat}
    {rem : Remainder} (h : rem.Holds prod m bit) (i : Nat) :
    (rem.shl (bitAt prod.v i)).toNat = 2 * rem.toNat + (bitAt prod.v i).toNat := by
  have hbit : (bitAt prod.v i).toNat = prod.toNat / 2 ^ i % 2 := toNat_bitAt prod.v i
  have hlt := h.lt
  have hm := m.toNat_lt
  apply Remainder.toNat_shl
  · omega
  · omega

theorem Remainder.holds_shiftIn {prod : LimbVec 8} {m : U256} [NeZero m.toNat] {bit : Nat}
    {rem : Remainder} (h : rem.Holds prod m (bit + 1)) :
    (rem.shiftIn prod m bit).Holds prod m bit := by
  have hval : rem.toNat = prod.toNat / 2 ^ (bit + 1) % m.toNat := by
    rw [Remainder.toNat, h.1, h.2]
    rfl
  have hbit : (bitAt prod.v bit).toNat = prod.toNat / 2 ^ bit % 2 := toNat_bitAt prod.v bit
  have hshl := h.toNat_shl bit
  rcases Remainder.reduce_eq m (rem.shl (bitAt prod.v bit)) with ⟨hhi', hlo'⟩
  refine ⟨hhi', ?_⟩
  rw [Remainder.shiftIn, hlo', hshl, hbit, hval]
  conv_rhs => rw [div_two_pow_eq prod.toNat bit]
  exact Nat.ModEq.add_right _ (Nat.ModEq.mul_left 2 (Nat.mod_modEq _ _))

theorem Remainder.holds_start (prod : LimbVec 8) (m : U256) :
    Remainder.Holds prod m 512 { lo := U256.small 0, hi := 0 } := by
  have hprod := prod.toNat_lt
  refine ⟨rfl, ?_⟩
  rw [Nat.div_eq_of_lt (Nat.lt_of_lt_of_eq hprod (pow_mul 2 64 8).symm), Nat.zero_mod]
  exact U256.toNat_small 0

theorem reduce512_eq (prod : LimbVec 8) (m : U256) [NeZero m.toNat] :
    (reduce512 prod m).toNat = prod.toNat % m.toNat := by
  have hend := foldl_range_reverse (P := Remainder.Holds prod m) (f := Remainder.shiftIn prod m)
    (Remainder.holds_start prod m) (fun _ _ _ => Remainder.holds_shiftIn)
  have hlo := hend.2
  rw [pow_zero, Nat.div_one] at hlo
  rw [reduce512]
  exact hlo

/-! ### The remainder between two bits -/

/-- `rem` of `reduce512` after the first `k` rounds of its outer loop. -/
def reduce512Rem (prod : LimbVec 8) (m : U256) [NeZero m.toNat] (k : Nat) : Remainder :=
  ((List.range 512).reverse.take k).foldl (Remainder.shiftIn prod m) { lo := U256.small 0, hi := 0 }

theorem reduce512_eq_rem (prod : LimbVec 8) (m : U256) [NeZero m.toNat] :
    reduce512 prod m = (reduce512Rem prod m 512).lo := by
  rw [reduce512, reduce512Rem, List.take_of_length_le]
  simp

theorem reduce512Rem_succ (prod : LimbVec 8) (m : U256) [NeZero m.toNat] {k : Nat} (hk : k < 512) :
    reduce512Rem prod m (k + 1) = (reduce512Rem prod m k).shiftIn prod m (511 - k) := by
  have hlen : k < (List.range 512).reverse.length := by simpa using hk
  rw [reduce512Rem, List.take_succ_eq_append_getElem hlen, List.foldl_append]
  simp [reduce512Rem]

theorem holds_reduce512Rem (prod : LimbVec 8) (m : U256) [NeZero m.toNat] {k : Nat} (hk : k ≤ 512) :
    (reduce512Rem prod m k).Holds prod m (512 - k) := by
  induction k with
  | zero => exact Remainder.holds_start prod m
  | succ k ih =>
    have hprev := ih (by omega)
    have hbit : 512 - k = 511 - k + 1 := by omega
    have hnext : 512 - (k + 1) = 511 - k := by omega
    rw [hbit] at hprev
    rw [reduce512Rem_succ prod m (by omega), hnext]
    exact Remainder.holds_shiftIn hprev

/-- The inner loop subtracts once at most when it starts below twice the modulus. -/
theorem Remainder.reduce_once {m : U256} [NeZero m.toNat] (rem : Remainder)
    (h : rem.toNat < 2 * m.toNat) :
    rem.reduce m = if rem.toNat < m.toNat then rem else rem.sub m := by
  by_cases hbreak : rem.hi = 0 ∧ uge rem.lo m = false
  · have hlt : rem.toNat < m.toNat := by
      have hnot : ¬ m.toNat ≤ rem.lo.toNat := by
        rw [← uge_iff, hbreak.2]
        exact Bool.false_ne_true
      rw [Remainder.toNat, hbreak.1]
      simpa using hnot
    rw [Remainder.reduce, dif_pos hbreak, if_pos hlt]
  · have hle := Remainder.le_of_not_break hbreak
    have hsub := Remainder.toNat_sub hle
    -- what is left is below the modulus, so the loop stops there
    have hstop : (rem.sub m).hi = 0 ∧ uge (rem.sub m).lo m = false := by
      by_contra hgo
      have hagain := Remainder.le_of_not_break hgo
      omega
    rw [Remainder.reduce, dif_neg hbreak, Remainder.reduce, dif_pos hstop, if_neg (by omega)]

theorem mulmod_eq (a b m : U256) [NeZero m.toNat] :
    (mulmod a b m).toNat = a.toNat * b.toNat % m.toNat := by
  rw [mulmod, reduce512_eq, LimbVec.toNat, limbNat_mulLimbs]
  rfl

theorem U256.toNat_wrapAdd {a b : U256} :
    (a.wrapAdd b).toNat = (a.toNat + b.toNat) % 2 ^ 256 := by
  have hlen := a.length_v.trans b.length_v.symm
  have hval := (limbNat_addLimbs (c := 0) hlen (by norm_num)).1
  have hlt := (a.wrapAdd b).toNat_lt
  rw [a.length_v] at hval
  simp only [U256.wrapAdd, LimbVec.toNat] at hlt ⊢
  omega

theorem U256.toNat_wrapSub {a b : U256} :
    (a.wrapSub b).toNat + b.toNat = a.toNat + 2 ^ 256 * (subLimbs a.v b.v 0).2 ∧
      (subLimbs a.v b.v 0).2 ≤ 1 := by
  have hlen := a.length_v.trans b.length_v.symm
  rcases limbNat_subLimbs hlen (Nat.zero_le 1) with ⟨hval, hout⟩
  rw [a.length_v] at hval
  refine ⟨?_, hout⟩
  simp only [U256.wrapSub, LimbVec.toNat]
  omega

theorem addmod_eq {a b m : U256} (ha : a.toNat < m.toNat) (hb : b.toNat < m.toNat)
    (hm : m.toNat ≤ 2 ^ 255) : (addmod a b m).toNat = (a.toNat + b.toNat) % m.toNat := by
  have hadd : (a.wrapAdd b).toNat = a.toNat + b.toNat := by
    rw [U256.toNat_wrapAdd]
    omega
  rw [addmod]
  by_cases hge : uge (a.wrapAdd b) m = true
  · have hle := (uge_iff _ _).mp hge
    rcases U256.toNat_wrapSub (a := a.wrapAdd b) (b := m) with ⟨hval, hout⟩
    have hlt := ((a.wrapAdd b).wrapSub m).toNat_lt
    rw [if_pos hge, Nat.mod_eq_sub_mod (by omega), Nat.mod_eq_of_lt (by omega)]
    omega
  · have hlt : ¬ m.toNat ≤ (a.wrapAdd b).toNat := fun hle => hge ((uge_iff _ _).mpr hle)
    rw [if_neg hge, hadd, Nat.mod_eq_of_lt (by omega)]

theorem submod_eq {a b m : U256} (ha : a.toNat < m.toNat) (hb : b.toNat < m.toNat) :
    (submod a b m).toNat = (a.toNat + m.toNat - b.toNat) % m.toNat := by
  rcases U256.toNat_wrapSub (a := a) (b := b) with ⟨hval, hout⟩
  have hlt := (a.wrapSub b).toNat_lt
  have hm := m.toNat_lt
  rw [submod]
  by_cases hbr : (subLimbs a.v b.v 0).2 = 0
  · rw [if_neg (not_not_intro hbr), Nat.mod_eq_sub_mod (by omega), Nat.mod_eq_of_lt (by omega)]
    omega
  · rw [if_pos hbr, U256.toNat_wrapAdd, Nat.mod_eq_of_lt (by omega : a.toNat + m.toNat - b.toNat < _)]
    omega

/-- After each bit of the exponent, the power for the bits so far. -/
def PowmodHolds (base exp m : U256) (i : Nat) (res : U256) : Prop :=
  res.toNat ≡ base.toNat ^ (exp.toNat / 2 ^ i) [MOD m.toNat] ∧ (i < 256 → res.toNat < m.toNat)

theorem powmodHolds_bit {base exp m : U256} [NeZero m.toNat] {i : Nat} {res : U256}
    (h : PowmodHolds base exp m (i + 1) res) :
    PowmodHolds base exp m i (powmodBit base exp m res i) := by
  have hpos := NeZero.pos m.toNat
  have hbit : (bitAt exp.v i).toNat = exp.toNat / 2 ^ i % 2 := toNat_bitAt exp.v i
  have hhalf := div_two_pow_eq exp.toNat i
  have hsq : (mulmod res res m).toNat ≡
      base.toNat ^ (2 * (exp.toNat / 2 ^ (i + 1))) [MOD m.toNat] := by
    rw [mulmod_eq, two_mul, pow_add]
    exact (Nat.mod_modEq _ _).trans (h.1.mul h.1)
  rw [powmodBit]
  by_cases h0 : bitAt exp.v i = 0
  · have hexp : exp.toNat / 2 ^ i = 2 * (exp.toNat / 2 ^ (i + 1)) := by
      rw [h0, UInt64.toNat_zero] at hbit
      omega
    rw [if_neg (not_not_intro h0), PowmodHolds, hexp]
    refine ⟨hsq, fun _ => ?_⟩
    rw [mulmod_eq]
    exact Nat.mod_lt _ hpos
  · have hexp : exp.toNat / 2 ^ i = 2 * (exp.toNat / 2 ^ (i + 1)) + 1 := by
      have hne : (bitAt exp.v i).toNat ≠ 0 := fun hz => h0 (UInt64.toNat_inj.mp hz)
      omega
    rw [if_pos h0, PowmodHolds, hexp, pow_succ]
    constructor
    · rw [mulmod_eq]
      exact (Nat.mod_modEq _ _).trans (hsq.mul_right _)
    · intro _
      rw [mulmod_eq]
      exact Nat.mod_lt _ hpos

theorem powmod_eq (base exp m : U256) [NeZero m.toNat] :
    (powmod base exp m).toNat = base.toNat ^ exp.toNat % m.toNat := by
  have hstart : PowmodHolds base exp m 256 (U256.small 1) := by
    have hexp := exp.toNat_lt
    refine ⟨?_, fun h => absurd h (Nat.lt_irrefl 256)⟩
    rw [Nat.div_eq_of_lt (Nat.lt_of_lt_of_eq hexp (pow_mul 2 64 4).symm), pow_zero,
      U256.toNat_small]
    rfl
  rcases foldl_range_reverse (P := PowmodHolds base exp m) (f := powmodBit base exp m) hstart
    (fun _ _ _ => powmodHolds_bit) with ⟨hres, hlt⟩
  rw [pow_zero, Nat.div_one] at hres
  rw [powmod, ← Nat.mod_eq_of_lt (hlt (by norm_num))]
  exact hres

end VeraCrypt
