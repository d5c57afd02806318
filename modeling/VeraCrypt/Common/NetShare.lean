import VeraCrypt.Common.NetShareField
import VeraCrypt.Crypto.Primitives
import VeraCrypt.Lib.XorLinear
import VeraCrypt.Lib.Pratt
import VeraCrypt.Lib.SquareRoot

/-!
# Points of the network share and their encoding (`Common/NetShare.c`)

A point travels as `y` with the parity of `x` in the top bit. Decoding recovers `x` as a square
root, and accepts a string exactly if it is the encoding of a point of the curve with reduced
coordinates (`ptDecompress_codec`).
-/

set_option autoImplicit false

namespace VeraCrypt

open Lib

/-! ## The field -/

/-- `p` -/
abbrev fieldPrime : Nat := 2 ^ 255 - 19

theorem toNat_fp : fp.toNat = fieldPrime := by decide

/-- The primes below 100, which the chain starts from. -/
def smallPrimes : List Nat := (List.range 100).filter Nat.Prime

/-- The lines that lead to `p`. -/
def fieldPrimeChain : List LucasTest :=
  [ ⟨103, 5, [2, 3, 17]⟩,
    ⟨107, 2, [2, 53]⟩,
    ⟨127, 3, [2, 3, 3, 7]⟩,
    ⟨131, 2, [2, 5, 13]⟩,
    ⟨173, 2, [2, 2, 43]⟩,
    ⟨223, 3, [2, 3, 37]⟩,
    ⟨239, 7, [2, 7, 17]⟩,
    ⟨353, 3, [2, 2, 2, 2, 2, 11]⟩,
    ⟨419, 2, [2, 11, 19]⟩,
    ⟨479, 13, [2, 239]⟩,
    ⟨487, 3, [2, 3, 3, 3, 3, 3]⟩,
    ⟨991, 6, [2, 3, 3, 5, 11]⟩,
    ⟨1723, 3, [2, 3, 7, 41]⟩,
    ⟨2437, 2, [2, 2, 3, 7, 29]⟩,
    ⟨3727, 3, [2, 3, 3, 3, 3, 23]⟩,
    ⟨4153, 5, [2, 2, 2, 3, 173]⟩,
    ⟨9463, 3, [2, 3, 19, 83]⟩,
    ⟨32573, 2, [2, 2, 17, 479]⟩,
    ⟨37853, 2, [2, 2, 9463]⟩,
    ⟨57467, 2, [2, 59, 487]⟩,
    ⟨65147, 2, [2, 32573]⟩,
    ⟨75707, 2, [2, 37853]⟩,
    ⟨132049, 26, [2, 2, 2, 2, 3, 3, 7, 131]⟩,
    ⟨430751, 17, [2, 5, 5, 5, 1723]⟩,
    ⟨569003, 2, [2, 7, 97, 419]⟩,
    ⟨1923133, 2, [2, 2, 3, 43, 3727]⟩,
    ⟨8574133, 2, [2, 2, 3, 7, 103, 991]⟩,
    ⟨2773320623, 5, [2, 2437, 569003]⟩,
    ⟨72106336199, 7, [2, 13, 2773320623]⟩,
    ⟨1919519569386763, 2, [2, 3, 7, 19, 47, 47, 127, 8574133]⟩,
    ⟨31757755568855353, 10, [2, 2, 2, 3, 31, 107, 223, 4153, 430751]⟩,
    ⟨75445702479781427272750846543864801, 7, [2, 2, 2, 2, 2, 3, 3, 5, 5, 75707, 72106336199, 1919519569386763]⟩,
    ⟨74058212732561358302231226437062788676166966415465897661863160754340907, 2, [2, 3, 353, 57467, 132049, 1923133, 31757755568855353, 75445702479781427272750846543864801]⟩,
    ⟨57896044618658097711785492504343953926634992332820282019728792003956564819949, 2, [2, 2, 3, 65147, 74058212732561358302231226437062788676166966415465897661863160754340907]⟩ ]

theorem fieldPrime_prime : fieldPrime.Prime := by
  have hsmall : ∀ q ∈ smallPrimes, q.Prime := by
    intro q hq
    exact of_decide_eq_true (List.mem_filter.mp hq).2
  have hchain : chainPasses smallPrimes fieldPrimeChain = true := by decide +kernel
  have hmem : (⟨fieldPrime, 2, [2, 2, 3, 65147,
      74058212732561358302231226437062788676166966415465897661863160754340907]⟩ : LucasTest) ∈
      fieldPrimeChain := by decide
  exact prime_of_chain hsmall hchain _ hmem

/-- A chain of one line. -/
example : chainPasses smallPrimes [⟨103, 5, [2, 3, 17]⟩] = true := by decide +kernel

instance : Fact fieldPrime.Prime := ⟨fieldPrime_prime⟩

theorem fieldPrime_mod_eight : fieldPrime % 8 = 5 := by decide

/-- The residue of four limbs. -/
def U256.fe (a : U256) : ZMod fieldPrime := (a.toNat : ZMod fieldPrime)

def U256.Reduced (a : U256) : Prop := a.toNat < fieldPrime

theorem U256.Reduced.lt_two_pow {a : U256} (ha : a.Reduced) : a.toNat < 2 ^ 255 :=
  Nat.lt_trans ha (by norm_num)

theorem U256.fe_inj {a b : U256} (ha : a.Reduced) (hb : b.Reduced) : a.fe = b.fe ↔ a = b := by
  constructor
  · intro h
    have hmod := (ZMod.natCast_eq_natCast_iff' a.toNat b.toNat fieldPrime).mp h
    rw [Nat.mod_eq_of_lt ha, Nat.mod_eq_of_lt hb] at hmod
    exact LimbVec.toNat_inj hmod
  · exact fun h => congrArg U256.fe h

theorem ucmp_eq_iff {a b : U256} (ha : a.Reduced) (hb : b.Reduced) :
    ucmp a b = .eq ↔ a.fe = b.fe := by
  rw [ucmp_eq, compare_eq_iff_eq, U256.fe_inj ha hb]
  exact ⟨LimbVec.toNat_inj, fun h => congrArg LimbVec.toNat h⟩

theorem fe_of_toNat_mod {a : U256} {n : Nat} (h : a.toNat = n % fp.toNat) :
    a.fe = (n : ZMod fieldPrime) := by
  rw [U256.fe, h, toNat_fp, ZMod.natCast_mod]

theorem reduced_of_toNat_mod {a : U256} {n : Nat} (h : a.toNat = n % fp.toNat) : a.Reduced := by
  rw [U256.Reduced, h, toNat_fp]
  exact Nat.mod_lt n (by norm_num)

theorem reduced_mulmod (a b : U256) : (mulmod a b fp).Reduced :=
  reduced_of_toNat_mod (mulmod_eq a b fp)

theorem fe_mulmod (a b : U256) : (mulmod a b fp).fe = a.fe * b.fe := by
  rw [fe_of_toNat_mod (mulmod_eq a b fp), Nat.cast_mul]
  rfl

theorem reduced_powmod (a e : U256) : (powmod a e fp).Reduced :=
  reduced_of_toNat_mod (powmod_eq a e fp)

theorem fe_powmod (a e : U256) : (powmod a e fp).fe = a.fe ^ e.toNat := by
  rw [fe_of_toNat_mod (powmod_eq a e fp), Nat.cast_pow]
  rfl

theorem U256.Reduced.lt_fp {a : U256} (ha : a.Reduced) : a.toNat < fp.toNat := by
  rw [toNat_fp]
  exact ha

theorem toNat_addmod {a b : U256} (ha : a.Reduced) (hb : b.Reduced) :
    (addmod a b fp).toNat = (a.toNat + b.toNat) % fp.toNat :=
  addmod_eq ha.lt_fp hb.lt_fp (by rw [toNat_fp]; norm_num)

theorem fe_addmod {a b : U256} (ha : a.Reduced) (hb : b.Reduced) :
    (addmod a b fp).fe = a.fe + b.fe := by
  rw [fe_of_toNat_mod (toNat_addmod ha hb), Nat.cast_add]
  rfl

theorem fe_submod {a b : U256} (ha : a.Reduced) (hb : b.Reduced) :
    (submod a b fp).fe = a.fe - b.fe := by
  have hle : b.toNat ≤ a.toNat + fp.toNat := by
    have hb' := hb.lt_fp
    omega
  have hp : (fp.toNat : ZMod fieldPrime) = 0 := by
    rw [toNat_fp]
    exact ZMod.natCast_self fieldPrime
  rw [fe_of_toNat_mod (submod_eq ha.lt_fp hb.lt_fp), Nat.cast_sub hle, Nat.cast_add, hp, add_zero]
  rfl

theorem reduced_small (k : UInt64) : (U256.small k).Reduced := by
  rw [U256.Reduced, U256.toNat_small]
  exact Nat.lt_trans k.toNat_lt (by norm_num)

theorem fe_small (k : UInt64) : (U256.small k).fe = (k.toNat : ZMod fieldPrime) := by
  rw [U256.fe, U256.toNat_small]

theorem fe_one : (U256.small 1).fe = 1 := by
  rw [fe_small, UInt64.toNat_one, Nat.cast_one]

theorem fe_feInv (a : U256) : (feInv a).fe = a.fe⁻¹ := by
  have hexp : (fp.lowSub 2).toNat = fieldPrime - 2 := by decide
  rw [feInv, fe_powmod, hexp]
  by_cases h0 : a.fe = 0
  · rw [h0, inv_zero, zero_pow (by norm_num)]
  · have hone : a.fe ^ (fieldPrime - 1) = 1 := ZMod.pow_card_sub_one_eq_one h0
    apply eq_inv_of_mul_eq_one_left
    rw [← pow_succ]
    exact hone

theorem toNat_submod {a b : U256} (ha : a.Reduced) (hb : b.Reduced) :
    ((submod a b fp).toNat : Int) = ((a.toNat : Int) - b.toNat) % fieldPrime := by
  have hle : b.toNat ≤ a.toNat + fieldPrime := by
    unfold U256.Reduced at hb
    omega
  rw [submod_eq ha.lt_fp hb.lt_fp, toNat_fp, Int.natCast_mod, Nat.cast_sub hle, Nat.cast_add]
  rw [add_sub_right_comm, Int.add_emod_right]

theorem reduced_feInv (a : U256) : (feInv a).Reduced := reduced_powmod a (fp.lowSub 2)

/-- The inverse of a residue other than zero; zero gives zero. -/
theorem mul_feInv {a : U256} (ha : a.Reduced) :
    a.toNat * (feInv a).toNat % fieldPrime = if a.toNat = 0 then 0 else 1 := by
  by_cases h0 : a.toNat = 0
  · simp [h0]
  · have hne : a.fe ≠ 0 := by
      intro hz
      have hdvd := (ZMod.natCast_eq_zero_iff a.toNat fieldPrime).mp hz
      exact h0 (Nat.eq_zero_of_dvd_of_lt hdvd ha)
    have hinv : a.fe * (feInv a).fe = 1 := by
      rw [fe_feInv]
      exact mul_inv_cancel₀ hne
    have hcast : ((a.toNat * (feInv a).toNat : Nat) : ZMod fieldPrime) =
        ((1 : Nat) : ZMod fieldPrime) := by
      rw [Nat.cast_mul, Nat.cast_one]
      exact hinv
    have hmod := (ZMod.natCast_eq_natCast_iff' _ _ fieldPrime).mp hcast
    rw [if_neg h0, hmod]
    exact Nat.mod_eq_of_lt (by norm_num)

theorem feInv_zero {a : U256} (h : a.toNat = 0) : (feInv a).toNat = 0 := by
  have hfe : (feInv a).fe = 0 := by
    rw [fe_feInv, U256.fe, h, Nat.cast_zero, inv_zero]
  have hdvd := (ZMod.natCast_eq_zero_iff _ fieldPrime).mp hfe
  exact Nat.eq_zero_of_dvd_of_lt hdvd (reduced_feInv a)

/-- **The arithmetic is exact.** Every 512-bit value is reduced to its residue: before each bit the
remainder is below `p`, the shift loses nothing, and one exact subtraction at most follows. Every
operation returns the residue of its result. -/
theorem field_arithmetic :
    (∀ prod : LimbVec 8, (reduce512 prod fp).toNat = prod.toNat % fieldPrime ∧
      ∀ k < 512,
        let rem := reduce512Rem prod fp k
        let bit := bitAt prod.v (511 - k)
        let shifted := rem.shl bit
        rem.toNat < fieldPrime ∧
          shifted.toNat = 2 * rem.toNat + bit.toNat ∧
          reduce512Rem prod fp (k + 1) =
            (if shifted.toNat < fieldPrime then shifted else shifted.sub fp) ∧
          (fieldPrime ≤ shifted.toNat →
            (shifted.sub fp).toNat = shifted.toNat - fieldPrime)) ∧
    (∀ a b : U256, (mulmod a b fp).toNat = a.toNat * b.toNat % fieldPrime) ∧
    (∀ a exp : U256, (powmod a exp fp).toNat = a.toNat ^ exp.toNat % fieldPrime) ∧
    (∀ a b : U256, a.toNat < fieldPrime → b.toNat < fieldPrime →
      (addmod a b fp).toNat = (a.toNat + b.toNat) % fieldPrime ∧
      ((submod a b fp).toNat : Int) = ((a.toNat : Int) - b.toNat) % fieldPrime) ∧
    (∀ a : U256, a.toNat < fieldPrime →
      (feInv a).toNat < fieldPrime ∧
      a.toNat * (feInv a).toNat % fieldPrime = (if a.toNat = 0 then 0 else 1) ∧
      (a.toNat = 0 → (feInv a).toNat = 0)) := by
  refine ⟨fun prod => ⟨?_, ?_⟩, ?_, ?_, ?_, ?_⟩
  · rw [reduce512_eq, toNat_fp]
  · intro k hk
    have hholds := holds_reduce512Rem prod fp (by omega : k ≤ 512)
    have hlt := hholds.lt
    have hshl := hholds.toNat_shl (511 - k)
    have hbit : (bitAt prod.v (511 - k)).toNat = prod.toNat / 2 ^ (511 - k) % 2 :=
      toNat_bitAt prod.v (511 - k)
    have honce := Remainder.reduce_once (m := fp)
      ((reduce512Rem prod fp k).shl (bitAt prod.v (511 - k))) (by omega)
    rw [toNat_fp] at hlt honce
    refine ⟨hlt, hshl, ?_, ?_⟩
    · rw [reduce512Rem_succ prod fp hk]
      exact honce
    · intro hle
      rw [← toNat_fp] at hle ⊢
      exact Remainder.toNat_sub hle
  · intro a b
    rw [mulmod_eq, toNat_fp]
  · intro a exp
    rw [powmod_eq, toNat_fp]
  · intro a b ha hb
    exact ⟨by rw [toNat_addmod ha hb, toNat_fp], toNat_submod ha hb⟩
  · intro a ha
    exact ⟨reduced_feInv a, mul_feInv ha, feInv_zero⟩

/-- At the largest residue: `(p - 1) + (p - 1)` and its inverse. -/
theorem field_arithmetic_top :
    (fp.lowSub 1).toNat < fieldPrime ∧
      (addmod (fp.lowSub 1) (fp.lowSub 1) fp).toNat =
        ((fp.lowSub 1).toNat + (fp.lowSub 1).toNat) % fieldPrime ∧
      (fp.lowSub 1).toNat * (feInv (fp.lowSub 1)).toNat % fieldPrime = 1 := by
  have hlt : (fp.lowSub 1).toNat < fieldPrime := by decide
  have hne : (fp.lowSub 1).toNat ≠ 0 := by decide
  have hinv := (field_arithmetic.2.2.2.2 (fp.lowSub 1) hlt).2.1
  rw [if_neg hne] at hinv
  exact ⟨hlt, (field_arithmetic.2.2.2.1 (fp.lowSub 1) (fp.lowSub 1) hlt hlt).1, hinv⟩

/-! ## The functions of the source -/

/-- The error returns of the module. -/
inductive NetShareError
  | param
  | point
  | transport
  | cred
deriving DecidableEq

def NetShareError.code : NetShareError → Int
  | .param => -1
  | .point => -2
  | .transport => -3
  | .cred => -4

/-- `pt` -/
structure Pt where
  X : U256
  Y : U256
  Z : U256
  T : U256

/-- `BX` -/
def basePointX : U256 :=
  { v := [0xc9562d608f25d51a, 0x692cc7609525a7b2, 0xc0a4e231fdd6dc5c, 0x216936d3cd6e53fe]
    length_v := rfl }

/-- `BY` -/
def basePointY : U256 :=
  { v := [0x6666666666666658, 0x6666666666666666, 0x6666666666666666, 0x6666666666666666]
    length_v := rfl }

/-- `pt_base` -/
def ptBase : Pt :=
  { X := basePointX
    Y := basePointY
    Z := U256.small 1
    T := mulmod basePointX basePointY fp }

def feToBytes (a : U256) : Bytes := limbBytes a.v 32

def feFromBytes (b : Bytes) : U256 :=
  { v := limbsOfBytes b 4, length_v := length_limbsOfBytes b 4 }

/-- Limbs from the top one down, shifted right by one bit. -/
def shrTop : List UInt64 → UInt64 → List UInt64
  | x :: xs, carry => (x >>> 1 ||| carry <<< 63) :: shrTop xs (x &&& 1)
  | [], _ => []

theorem length_shrTop (xs : List UInt64) (carry : UInt64) :
    (shrTop xs carry).length = xs.length := by
  induction xs generalizing carry with
  | nil => rfl
  | cons x xs ih => rw [shrTop, List.length_cons, List.length_cons, ih]

def U256.shr (a : U256) : U256 :=
  { v := (shrTop a.v.reverse 0).reverse
    length_v := by rw [List.length_reverse, length_shrTop, List.length_reverse, a.length_v] }

/-- `e` of `pt_decompress`: `(p-5)/8`, by three shifts. -/
def rootExp : U256 := (fp.lowSub 5).shr.shr.shr

/-- `q` of `pt_decompress`: `(p-1)/4`, by two shifts. -/
def rootNegOneExp : U256 := (fp.lowSub 1).shr.shr

/-- The candidate for a root of `u / v`. -/
def ptCandidate (u v : U256) : U256 :=
  let v3 := mulmod (mulmod v v fp) v fp
  let v7 := mulmod (mulmod v3 v3 fp) v fp
  let uv3 := mulmod u v3 fp
  let uv7 := mulmod u v7 fp
  mulmod uv3 (powmod uv7 rootExp fp) fp

/-- `vx2`, and `chk` after the correction. -/
def ptVx2 (v x : U256) : U256 := mulmod v (mulmod x x fp) fp

/-- `sq`, a root of minus one. -/
def ptRootNegOne : U256 := powmod (U256.small 2) rootNegOneExp fp

/-- The correction of the candidate; `none` where neither of `u / v` and `-(u / v)` has it as a
root. -/
def ptCorrect (u v x : U256) : Option U256 :=
  if ucmp (ptVx2 v x) u ≠ .eq then
    if ucmp (ptVx2 v x) (submod (U256.small 0) u fp) = .eq then some (mulmod x ptRootNegOne fp)
    else none
  else some x

/-- The square root in `pt_decompress`: the candidate, its correction and the check of the result. -/
def ptRoot (u v : U256) : Option U256 :=
  (ptCorrect u v (ptCandidate u v)).bind fun x =>
    if ucmp (ptVx2 v x) u ≠ .eq then none else some x

/-- Of `x` and `p - x`, the one with the parity asked for. -/
def ptSign (x : U256) (signBit : UInt8) : U256 :=
  if x.v.getD 0 0 &&& 1 ≠ signBit.toUInt64 then submod (U256.small 0) x fp else x

def ptDecompress (enc : Bytes) : Except NetShareError Pt :=
  let ybytes := enc.take 32
  let signBit := (ybytes.getD 31 0 >>> 7) &&& 1
  let y := feFromBytes (ybytes.modify 31 (· &&& 0x7f))
  if uge y fp then .error .point
  else
    let y2 := mulmod y y fp
    let one := U256.small 1
    let u := submod y2 one fp
    let v := addmod (mulmod fd y2 fp) one fp
    (ptRoot u v).elim (.error .point) fun x =>
      if uiszero x && signBit != 0 then .error .point
      else
        let x := ptSign x signBit
        .ok { X := x, Y := y, Z := U256.small 1, T := mulmod x y fp }

def ptCompress (a : Pt) : Bytes :=
  let zi := feInv a.Z
  let x := mulmod a.X zi fp
  let y := mulmod a.Y zi fp
  (feToBytes y).modify 31 (fun o => (o.toUInt64 ||| (x.v.getD 0 0 &&& 1) <<< 7).toUInt8)

/-- `NetSharePointValidate`; `none` is a null pointer. -/
def netSharePointValidate (enc : Option Bytes) : Int :=
  match enc with
  | none => NetShareError.param.code
  | some enc =>
    match ptDecompress enc with
    | .ok _ => 0
    | .error e => e.code

/-- `NetSharePointRoundTrip`, with the return code and what is then in `out`. -/
def netSharePointRoundTrip (enc out : Option Bytes) : Int × Option Bytes :=
  match enc, out with
  | some enc, some out =>
    match ptDecompress enc with
    | .ok p => (0, some (ptCompress p))
    | .error e => (e.code, some out)
  | _, _ => (NetShareError.param.code, out)

/-! ## The curve -/

/-- `-x² + y² = 1 + d x² y²` -/
def OnCurve (x y : ZMod fieldPrime) : Prop := -x ^ 2 + y ^ 2 = 1 + fd.fe * x ^ 2 * y ^ 2

/-- A point in projective coordinates, any representation of it. -/
structure Pt.OnCurve (P : Pt) : Prop where
  Z_ne : P.Z.fe ≠ 0
  eq : (-P.X.fe ^ 2 + P.Y.fe ^ 2) * P.Z.fe ^ 2 = P.Z.fe ^ 4 + fd.fe * P.X.fe ^ 2 * P.Y.fe ^ 2

/-- Two projective representations of one point. -/
structure Pt.Same (P Q : Pt) : Prop where
  X : P.X.fe * Q.Z.fe = Q.X.fe * P.Z.fe
  Y : P.Y.fe * Q.Z.fe = Q.Y.fe * P.Z.fe

/-- The string for the coordinates `x` and `y`. -/
def encodePoint (x y : Nat) : Bytes := leBytes 32 (y + 2 ^ 255 * (x % 2))

theorem fd_add_one_ne : fd.fe + 1 ≠ 0 := by
  intro h
  have hcast : ((fd.toNat + 1 : Nat) : ZMod fieldPrime) = 0 := by
    rw [Nat.cast_add, Nat.cast_one]
    exact h
  have hdvd := (ZMod.natCast_eq_zero_iff _ _).mp hcast
  exact absurd hdvd (by decide)

/-- On the curve `x` is a root of `u / v`, and `v` is not zero. -/
theorem OnCurve.root {x y : ZMod fieldPrime} (h : VeraCrypt.OnCurve x y) :
    y ^ 2 - 1 = (fd.fe * y ^ 2 + 1) * x ^ 2 ∧ fd.fe * y ^ 2 + 1 ≠ 0 := by
  have hroot : y ^ 2 - 1 = (fd.fe * y ^ 2 + 1) * x ^ 2 := by
    rw [VeraCrypt.OnCurve] at h
    linear_combination h
  refine ⟨hroot, ?_⟩
  intro hv
  rw [hv, zero_mul] at hroot
  have hy : y ^ 2 = 1 := sub_eq_zero.mp hroot
  rw [hy, mul_one] at hv
  exact fd_add_one_ne hv

theorem onCurve_of_root {x y : ZMod fieldPrime}
    (h : (fd.fe * y ^ 2 + 1) * x ^ 2 = y ^ 2 - 1) : VeraCrypt.OnCurve x y := by
  rw [VeraCrypt.OnCurve]
  linear_combination -h

/-! ## The root -/

theorem toNat_rootExp : rootExp.toNat = (fieldPrime - 5) / 8 := by decide

theorem toNat_rootNegOneExp : rootNegOneExp.toNat = (fieldPrime - 1) / 4 := by decide

theorem fe_ptRootNegOne_sq : ptRootNegOne.fe ^ 2 = -1 := by
  rw [ptRootNegOne, fe_powmod, toNat_rootNegOneExp, fe_small]
  exact rootNegOne_sq fieldPrime_mod_eight

theorem fe_ptCandidate (u v : U256) : (ptCandidate u v).fe = rootCandidate u.fe v.fe := by
  simp only [ptCandidate, fe_mulmod, fe_powmod, toNat_rootExp, rootCandidate]
  ring

theorem fe_ptVx2 (v x : U256) : (ptVx2 v x).fe = v.fe * x.fe ^ 2 := by
  rw [ptVx2, fe_mulmod, fe_mulmod, sq]

theorem ucmp_ptVx2 {u v x : U256} (hu : u.Reduced) :
    ucmp (ptVx2 v x) u = .eq ↔ v.fe * x.fe ^ 2 = u.fe := by
  have hred : (ptVx2 v x).Reduced := reduced_mulmod v (mulmod x x fp)
  rw [ucmp_eq_iff hred hu, fe_ptVx2]

theorem fe_neg {u : U256} (hu : u.Reduced) : (submod (U256.small 0) u fp).fe = -u.fe := by
  rw [fe_submod (reduced_small 0) hu, fe_small, UInt64.toNat_zero, Nat.cast_zero, zero_sub]

theorem reduced_neg {u : U256} (hu : u.Reduced) : (submod (U256.small 0) u fp).Reduced :=
  reduced_of_toNat_mod (submod_eq (reduced_small 0).lt_fp hu.lt_fp)

theorem ptCorrect_reduced {u v x w : U256} (hx : x.Reduced) (h : ptCorrect u v x = some w) :
    w.Reduced := by
  rw [ptCorrect] at h
  split at h
  · split at h
    · rw [← Option.some.inj h]
      exact reduced_mulmod x ptRootNegOne
    · exact absurd h (by simp)
  · rw [← Option.some.inj h]
    exact hx

/-- Up to the sign of `u` the candidate is right, so the correction makes it right. -/
theorem ptCorrect_complete {u v x : U256} (hu : u.Reduced)
    (hx : v.fe * x.fe ^ 2 = u.fe ∨ v.fe * x.fe ^ 2 = -u.fe) :
    ∃ w, ptCorrect u v x = some w ∧ v.fe * w.fe ^ 2 = u.fe := by
  rw [ptCorrect]
  by_cases heq : ucmp (ptVx2 v x) u = .eq
  · rw [if_neg (not_not_intro heq)]
    exact ⟨x, rfl, (ucmp_ptVx2 hu).mp heq⟩
  · have hneg := hx.resolve_left (fun h => heq ((ucmp_ptVx2 hu).mpr h))
    have hcmp : ucmp (ptVx2 v x) (submod (U256.small 0) u fp) = .eq := by
      rw [ucmp_ptVx2 (reduced_neg hu), fe_neg hu]
      exact hneg
    rw [if_pos heq, if_pos hcmp]
    refine ⟨mulmod x ptRootNegOne fp, rfl, ?_⟩
    rw [fe_mulmod, mul_pow, fe_ptRootNegOne_sq]
    linear_combination -hneg

theorem ptRoot_eq_some {u v x : U256} (hu : u.Reduced) :
    ptRoot u v = some x ↔
      ptCorrect u v (ptCandidate u v) = some x ∧ v.fe * x.fe ^ 2 = u.fe := by
  rw [ptRoot, Option.bind_eq_some_iff]
  constructor
  · rintro ⟨w, hw, hcheck⟩
    by_cases heq : ucmp (ptVx2 v w) u = .eq
    · rw [if_neg (not_not_intro heq)] at hcheck
      rw [← Option.some.inj hcheck]
      exact ⟨hw, (ucmp_ptVx2 hu).mp heq⟩
    · rw [if_pos heq] at hcheck
      exact absurd hcheck (by simp)
  · rintro ⟨hx, hsq⟩
    exact ⟨x, hx, if_neg (not_not_intro ((ucmp_ptVx2 hu).mpr hsq))⟩

theorem ptRoot_sound {u v x : U256} (hu : u.Reduced) (h : ptRoot u v = some x) :
    x.Reduced ∧ v.fe * x.fe ^ 2 = u.fe := by
  rcases (ptRoot_eq_some hu).mp h with ⟨hcorrect, hx⟩
  exact ⟨ptCorrect_reduced (reduced_mulmod _ _) hcorrect, hx⟩

theorem ptRoot_complete {u v : U256} (hu : u.Reduced) {x : ZMod fieldPrime}
    (hx : u.fe = v.fe * x ^ 2) : ∃ w, ptRoot u v = some w := by
  have hcand := rootCandidate_sq fieldPrime_mod_eight hx
  rw [← fe_ptCandidate] at hcand
  rcases ptCorrect_complete hu hcand with ⟨w, hw, hsq⟩
  exact ⟨w, (ptRoot_eq_some hu).mpr ⟨hw, hsq⟩⟩

/-! ## The sign -/

theorem toNat_parity (x : U256) : (x.v.getD 0 0 &&& 1).toNat = x.toNat % 2 := by
  have hshift := limbNat_shift x.v (k := 0) (s := 0) (by norm_num)
  rw [Nat.mul_zero, Nat.add_zero, pow_zero, Nat.div_one, Nat.div_one, Nat.sub_zero] at hshift
  rw [UInt64.toNat_and, ← hshift, UInt64.toNat_one, Nat.and_one_is_mod,
    Nat.mod_mod_of_dvd _ (dvd_pow_self 2 (by norm_num))]
  rfl

theorem ptSign_spec {x : U256} {signBit : UInt8} (hx : x.Reduced) (hs : signBit.toNat ≤ 1)
    (h0 : ¬(x.toNat = 0 ∧ signBit.toNat = 1)) :
    (ptSign x signBit).Reduced ∧ (ptSign x signBit).toNat % 2 = signBit.toNat ∧
      (ptSign x signBit).fe ^ 2 = x.fe ^ 2 := by
  have hpar : x.v.getD 0 0 &&& 1 = signBit.toUInt64 ↔ x.toNat % 2 = signBit.toNat := by
    rw [← UInt64.toNat_inj, toNat_parity, UInt8.toNat_toUInt64]
  rw [ptSign]
  by_cases heq : x.toNat % 2 = signBit.toNat
  · rw [if_neg (not_not_intro (hpar.mpr heq))]
    exact ⟨hx, heq, rfl⟩
  · rw [if_pos (fun h => heq (hpar.mp h))]
    refine ⟨reduced_neg hx, ?_, ?_⟩
    · have hlt : x.toNat < fieldPrime := hx
      have hodd : fieldPrime % 2 = 1 := by decide
      have hpos : x.toNat ≠ 0 := by omega
      rw [submod_eq (reduced_small 0).lt_fp hx.lt_fp, U256.toNat_small, toNat_fp, UInt64.toNat_zero,
        Nat.zero_add, Nat.mod_eq_of_lt (by omega : fieldPrime - x.toNat < fieldPrime)]
      omega
    · rw [fe_neg hx, neg_sq]

/-- A square and the parity determine a reduced number. -/
theorem eq_of_sq_of_parity {a b : Nat} (ha : a < fieldPrime) (hb : b < fieldPrime)
    (hsq : (a : ZMod fieldPrime) ^ 2 = (b : ZMod fieldPrime) ^ 2) (hpar : a % 2 = b % 2) :
    a = b := by
  rcases sq_eq_sq_iff_eq_or_eq_neg.mp hsq with h | h
  · have hmod := (ZMod.natCast_eq_natCast_iff' a b fieldPrime).mp h
    rwa [Nat.mod_eq_of_lt ha, Nat.mod_eq_of_lt hb] at hmod
  · have hsum : ((a + b : Nat) : ZMod fieldPrime) = 0 := by
      rw [Nat.cast_add]
      exact eq_neg_iff_add_eq_zero.mp h
    rcases (ZMod.natCast_eq_zero_iff _ _).mp hsum with ⟨k, hk⟩
    have hodd : fieldPrime % 2 = 1 := by decide
    have hk2 : k < 2 := by
      by_contra hge
      have hmul : fieldPrime * 2 ≤ fieldPrime * k := Nat.mul_le_mul_left _ (by omega)
      omega
    have hk0 : k = 0 := by
      by_contra hne
      have hk1 : k = 1 := by omega
      rw [hk1, Nat.mul_one] at hk
      omega
    rw [hk0, Nat.mul_zero] at hk
    omega

/-! ## The encoding -/

@[simp] theorem length_encodePoint (x y : Nat) : (encodePoint x y).length = 32 :=
  length_leBytes _ _

theorem leNat_encodePoint {x y : Nat} (hy : y < 2 ^ 255) :
    leNat (encodePoint x y) = y + 2 ^ 255 * (x % 2) := by
  rw [encodePoint, leNat_leBytes, Nat.mod_eq_of_lt]
  have hx : x % 2 < 2 := Nat.mod_lt x (by norm_num)
  omega

/-- The top byte without the sign bit, and the sign bit. -/
theorem split_top (b : UInt8) : (b &&& 0x7f).toNat + 128 * ((b >>> 7) &&& 1).toNat = b.toNat ∧
    (b &&& 0x7f).toNat < 128 ∧ ((b >>> 7) &&& 1).toNat ≤ 1 := by
  revert b
  exact forall_byte (by decide +kernel)

/-- `y` as `pt_decompress` reads it. -/
def ptDecodeY (enc : Bytes) : U256 := feFromBytes ((enc.take 32).modify 31 (· &&& 0x7f))

/-- `signBit` of `pt_decompress` -/
def ptDecodeSign (enc : Bytes) : UInt8 := ((enc.take 32).getD 31 0 >>> 7) &&& 1

theorem leNat_decode {enc : Bytes} (hlen : enc.length = 32) :
    leNat enc = (ptDecodeY enc).toNat + 2 ^ 255 * (ptDecodeSign enc).toNat ∧
      (ptDecodeY enc).toNat < 2 ^ 255 ∧ (ptDecodeSign enc).toNat ≤ 1 := by
  have htake : enc.take 32 = enc := List.take_of_length_le (by omega)
  have hmod := leNat_modify (l := enc) (k := 31) (· &&& 0x7f) (by omega)
  have hlenMod : (enc.modify 31 (· &&& 0x7f)).length = 8 * 4 := by
    rw [List.length_modify, hlen]
  have hy : (ptDecodeY enc).toNat = leNat (enc.modify 31 (· &&& 0x7f)) := by
    rw [ptDecodeY, feFromBytes, LimbVec.toNat, htake, limbNat_limbsOfBytes hlenMod]
  have htop := leNat_top (l := enc) (k := 31) hlen
  rcases split_top (enc.getD 31 0) with ⟨hsplit, hlow, hsign⟩
  rw [hy, ptDecodeSign, htake]
  refine ⟨?_, ?_, hsign⟩
  · omega
  · omega

theorem eq_encodePoint_iff {enc : Bytes} (hlen : enc.length = 32) {x y : Nat} (hy : y < 2 ^ 255) :
    enc = encodePoint x y ↔
      (ptDecodeY enc).toNat = y ∧ (ptDecodeSign enc).toNat = x % 2 := by
  rcases leNat_decode hlen with ⟨hval, hlt, hsign⟩
  have hx : x % 2 < 2 := Nat.mod_lt x (by norm_num)
  constructor
  · intro h
    have hnat : leNat enc = y + 2 ^ 255 * (x % 2) := by rw [h, leNat_encodePoint hy]
    omega
  · rintro ⟨h1, h2⟩
    apply leNat_inj
    · rw [hlen, length_encodePoint]
    · rw [hval, leNat_encodePoint hy, h1, h2]

/-- The sign bit or-ed into the top byte. -/
theorem or_sign {w : UInt64} (hw : w.toNat ≤ 1) {o : UInt8} (ho : o.toNat < 128) :
    (o.toUInt64 ||| w <<< 7).toUInt8.toNat = o.toNat + 128 * w.toNat := by
  have hall0 : ∀ o : UInt8, (o.toUInt64 ||| (0 : UInt64) <<< 7).toUInt8.toNat = o.toNat :=
    forall_byte (by decide +kernel)
  have hall1 : ∀ o : UInt8, o.toNat < 128 →
      (o.toUInt64 ||| (1 : UInt64) <<< 7).toUInt8.toNat = o.toNat + 128 :=
    forall_byte (by decide +kernel)
  rcases Nat.le_one_iff_eq_zero_or_eq_one.mp hw with h | h
  · have hw0 : w = 0 := UInt64.toNat_inj.mp h
    rw [hw0, hall0]
    rfl
  · have hw1 : w = 1 := UInt64.toNat_inj.mp h
    rw [hw1, hall1 o ho]
    rfl

/-- The affine coordinates that `pt_compress` computes. -/
def Pt.affineX (P : Pt) : U256 := mulmod P.X (feInv P.Z) fp

def Pt.affineY (P : Pt) : U256 := mulmod P.Y (feInv P.Z) fp

theorem ptCompress_eq (P : Pt) :
    ptCompress P = encodePoint P.affineX.toNat P.affineY.toNat := by
  have hy : P.affineY.toNat < 2 ^ 255 :=
    U256.Reduced.lt_two_pow (reduced_mulmod P.Y (feInv P.Z))
  have hbytes : leNat (feToBytes P.affineY) = P.affineY.toNat := by
    rw [feToBytes, limbBytes_eq, leNat_leBytes, ← LimbVec.toNat, Nat.mod_eq_of_lt (by omega)]
  have hlen : (feToBytes P.affineY).length = 32 := by
    rw [feToBytes, limbBytes_eq, length_leBytes]
  have hpar := toNat_parity P.affineX
  have htop := leNat_top (l := feToBytes P.affineY) (k := 31) hlen
  have hmod := leNat_modify (l := feToBytes P.affineY) (k := 31)
    (fun o => (o.toUInt64 ||| (P.affineX.v.getD 0 0 &&& 1) <<< 7).toUInt8) (by omega)
  have ho : ((feToBytes P.affineY).getD 31 0).toNat < 128 := by omega
  have hsign := or_sign (w := P.affineX.v.getD 0 0 &&& 1) (by omega) ho
  apply leNat_inj
  · rw [length_encodePoint]
    exact (List.length_modify _ _ _).trans hlen
  · rw [leNat_encodePoint (by omega)]
    have hshape : ptCompress P = (feToBytes P.affineY).modify 31
        (fun o => (o.toUInt64 ||| (P.affineX.v.getD 0 0 &&& 1) <<< 7).toUInt8) := rfl
    rw [hshape]
    omega

/-! ## The codec -/

/-- What `pt_decompress` takes the root of: `u` and `v`. -/
def ptU (y : U256) : U256 := submod (mulmod y y fp) (U256.small 1) fp

def ptV (y : U256) : U256 := addmod (mulmod fd (mulmod y y fp) fp) (U256.small 1) fp

/-- The point that `pt_decompress` returns for `x` and `y`. -/
def ptAffine (x y : U256) : Pt := { X := x, Y := y, Z := U256.small 1, T := mulmod x y fp }

theorem ptDecompress_eq (enc : Bytes) : ptDecompress enc =
    if uge (ptDecodeY enc) fp then .error .point
    else (ptRoot (ptU (ptDecodeY enc)) (ptV (ptDecodeY enc))).elim (.error .point) fun x =>
      if uiszero x && ptDecodeSign enc != 0 then .error .point
      else .ok (ptAffine (ptSign x (ptDecodeSign enc)) (ptDecodeY enc)) := rfl

theorem reduced_ptU (y : U256) : (ptU y).Reduced :=
  reduced_of_toNat_mod (submod_eq (reduced_mulmod y y).lt_fp (reduced_small 1).lt_fp)

theorem fe_ptU (y : U256) : (ptU y).fe = y.fe ^ 2 - 1 := by
  rw [ptU, fe_submod (reduced_mulmod y y) (reduced_small 1), fe_mulmod, fe_one, sq]

theorem fe_ptV (y : U256) : (ptV y).fe = fd.fe * y.fe ^ 2 + 1 := by
  rw [ptV, fe_addmod (reduced_mulmod _ _) (reduced_small 1), fe_mulmod, fe_mulmod, fe_one, sq]

theorem uge_fp_iff (a : U256) : uge a fp = true ↔ ¬a.Reduced := by
  rw [uge_iff, toNat_fp, U256.Reduced, not_lt]

/-- `enc` is the encoding of the point of the curve with the reduced coordinates `x` and `y`. -/
structure IsEncoding (enc : Bytes) (x y : Nat) : Prop where
  x_lt : x < fieldPrime
  y_lt : y < fieldPrime
  onCurve : OnCurve (x : ZMod fieldPrime) (y : ZMod fieldPrime)
  eq : enc = encodePoint x y

theorem ptDecompress_sound {enc : Bytes} (hlen : enc.length = 32) {P : Pt}
    (h : ptDecompress enc = .ok P) :
    P = ptAffine P.X P.Y ∧ IsEncoding enc P.X.toNat P.Y.toNat := by
  rw [ptDecompress_eq] at h
  by_cases hge : uge (ptDecodeY enc) fp = true
  · rw [if_pos hge] at h
    exact absurd h (by simp)
  · have hyRed : (ptDecodeY enc).Reduced := not_not.mp (fun hn => hge ((uge_fp_iff _).mpr hn))
    rw [if_neg hge] at h
    rcases hroot : ptRoot (ptU (ptDecodeY enc)) (ptV (ptDecodeY enc)) with _ | x
    · rw [hroot] at h
      exact absurd h (by simp)
    · rw [hroot, Option.elim_some] at h
      rcases ptRoot_sound (reduced_ptU _) hroot with ⟨hxRed, hsq⟩
      rcases leNat_decode hlen with ⟨-, -, hsign⟩
      by_cases hzero : (uiszero x && ptDecodeSign enc != 0) = true
      · rw [if_pos hzero] at h
        exact absurd h (by simp)
      · rw [if_neg hzero] at h
        have hP := Except.ok.inj h
        have h0 : ¬(x.toNat = 0 ∧ (ptDecodeSign enc).toNat = 1) := by
          rintro ⟨hx0, hs1⟩
          apply hzero
          rw [Bool.and_eq_true]
          refine ⟨(uiszero_iff x).mpr hx0, ?_⟩
          rw [bne_iff_ne]
          intro hs0
          rw [hs0] at hs1
          exact absurd hs1 (by decide)
        rcases ptSign_spec hxRed hsign h0 with ⟨hred, hpar, hfe⟩
        rw [← hP]
        refine ⟨rfl, hred, hyRed, ?_, ?_⟩
        · apply onCurve_of_root
          rw [fe_ptV, fe_ptU, ← hfe] at hsq
          exact hsq
        · exact (eq_encodePoint_iff hlen hyRed.lt_two_pow).mpr ⟨rfl, hpar.symm⟩

theorem natCast_eq_zero {x : Nat} (hx : x < fieldPrime) (h : (x : ZMod fieldPrime) = 0) : x = 0 :=
  Nat.eq_zero_of_dvd_of_lt ((ZMod.natCast_eq_zero_iff x fieldPrime).mp h) hx

theorem ptDecompress_complete {enc : Bytes} {x y : Nat} (h : IsEncoding enc x y) :
    ∃ P, ptDecompress enc = .ok P ∧ P.X.toNat = x ∧ P.Y.toNat = y := by
  have hlen : enc.length = 32 := by rw [h.eq, length_encodePoint]
  rcases (eq_encodePoint_iff hlen (Nat.lt_trans h.y_lt (by norm_num))).mp h.eq with ⟨hy, hs⟩
  rcases leNat_decode hlen with ⟨-, -, hsign⟩
  rcases h.onCurve.root with ⟨hroot, hv⟩
  have hyRed : (ptDecodeY enc).Reduced := by
    rw [U256.Reduced, hy]
    exact h.y_lt
  have hyfe : (ptDecodeY enc).fe = (y : ZMod fieldPrime) := congrArg Nat.cast hy
  have hu : (ptU (ptDecodeY enc)).fe = (ptV (ptDecodeY enc)).fe * (x : ZMod fieldPrime) ^ 2 := by
    rw [fe_ptU, fe_ptV, hyfe]
    exact hroot
  rcases ptRoot_complete (reduced_ptU _) hu with ⟨w, hw⟩
  rcases ptRoot_sound (reduced_ptU _) hw with ⟨hwRed, hsq⟩
  have hwx : w.fe ^ 2 = (x : ZMod fieldPrime) ^ 2 := by
    apply mul_left_cancel₀ (a := (ptV (ptDecodeY enc)).fe)
    · rw [fe_ptV, hyfe]
      exact hv
    · rw [hsq, hu]
  have h0 : ¬(w.toNat = 0 ∧ (ptDecodeSign enc).toNat = 1) := by
    rintro ⟨hw0, hs1⟩
    rw [U256.fe, hw0, Nat.cast_zero, zero_pow (by norm_num)] at hwx
    have hx0 := natCast_eq_zero h.x_lt ((pow_eq_zero_iff (by norm_num)).mp hwx.symm)
    rw [hs, hx0] at hs1
    exact absurd hs1 (by norm_num)
  rcases ptSign_spec hwRed hsign h0 with ⟨hred, hpar, hfe⟩
  refine ⟨ptAffine (ptSign w (ptDecodeSign enc)) (ptDecodeY enc), ?_, ?_, hy⟩
  · have hzero : ¬(uiszero w && ptDecodeSign enc != 0) = true := by
      intro hz
      rw [Bool.and_eq_true, uiszero_iff, bne_iff_ne] at hz
      have hne : (ptDecodeSign enc).toNat ≠ 0 := fun hs0 => hz.2 (UInt8.toNat_inj.mp hs0)
      exact h0 ⟨hz.1, by omega⟩
    rw [ptDecompress_eq, if_neg (fun hge => (uge_fp_iff _).mp hge hyRed), hw, Option.elim_some,
      if_neg hzero]
  · exact eq_of_sq_of_parity hred h.x_lt (hfe.trans hwx) (hpar.trans hs)

theorem ptDecompress_isOk_iff {enc : Bytes} (hlen : enc.length = 32) :
    (∃ P, ptDecompress enc = .ok P) ↔ ∃ x y, IsEncoding enc x y := by
  constructor
  · rintro ⟨P, hP⟩
    exact ⟨_, _, (ptDecompress_sound hlen hP).2⟩
  · rintro ⟨x, y, h⟩
    rcases ptDecompress_complete h with ⟨P, hP, -, -⟩
    exact ⟨P, hP⟩

theorem reduced_affineX (P : Pt) : P.affineX.Reduced := reduced_mulmod P.X (feInv P.Z)

theorem reduced_affineY (P : Pt) : P.affineY.Reduced := reduced_mulmod P.Y (feInv P.Z)

theorem fe_affineX (P : Pt) : P.affineX.fe = P.X.fe * P.Z.fe⁻¹ := by
  rw [Pt.affineX, fe_mulmod, fe_feInv]

theorem fe_affineY (P : Pt) : P.affineY.fe = P.Y.fe * P.Z.fe⁻¹ := by
  rw [Pt.affineY, fe_mulmod, fe_feInv]

/-- With `Z = 1` and reduced coordinates nothing changes. -/
theorem ptCompress_ptAffine {x y : U256} (hx : x.Reduced) (hy : y.Reduced) :
    ptCompress (ptAffine x y) = encodePoint x.toNat y.toNat := by
  have hX : (ptAffine x y).affineX = x := by
    apply (U256.fe_inj (reduced_affineX _) hx).mp
    rw [fe_affineX, ptAffine, fe_one, inv_one, mul_one]
  have hY : (ptAffine x y).affineY = y := by
    apply (U256.fe_inj (reduced_affineY _) hy).mp
    rw [fe_affineY, ptAffine, fe_one, inv_one, mul_one]
  rw [ptCompress_eq, hX, hY]

theorem ptCompress_ptDecompress {enc : Bytes} (hlen : enc.length = 32) {P : Pt}
    (h : ptDecompress enc = .ok P) : ptCompress P = enc := by
  rcases ptDecompress_sound hlen h with ⟨hP, hx, hy, -, heq⟩
  rw [hP, ptCompress_ptAffine hx hy]
  exact heq.symm

/-- The affine coordinates of a point of the curve are on it. -/
theorem Pt.OnCurve.affine {P : Pt} (h : P.OnCurve) :
    VeraCrypt.OnCurve P.affineX.fe P.affineY.fe := by
  have hZ := h.Z_ne
  have heq := h.eq
  rw [VeraCrypt.OnCurve, fe_affineX, fe_affineY]
  field_simp
  linear_combination heq

theorem isEncoding_ptCompress {P : Pt} (h : P.OnCurve) :
    IsEncoding (ptCompress P) P.affineX.toNat P.affineY.toNat :=
  { x_lt := reduced_affineX P
    y_lt := reduced_affineY P
    onCurve := h.affine
    eq := ptCompress_eq P }

theorem ptDecompress_ptCompress {P : Pt} (h : P.OnCurve) :
    ∃ Q, ptDecompress (ptCompress P) = .ok Q ∧ P.Same Q ∧ Q = ptAffine P.affineX P.affineY := by
  rcases ptDecompress_complete (isEncoding_ptCompress h) with ⟨Q, hQ, hX, hY⟩
  have hlen : (ptCompress P).length = 32 := by rw [ptCompress_eq, length_encodePoint]
  rcases ptDecompress_sound hlen hQ with ⟨hform, -⟩
  have hQ' : Q = ptAffine P.affineX P.affineY := by
    rw [hform, LimbVec.toNat_inj hX, LimbVec.toNat_inj hY]
  have hZ := h.Z_ne
  refine ⟨Q, hQ, ?_, hQ'⟩
  rw [hQ']
  constructor
  · rw [ptAffine, fe_one, fe_affineX, mul_one, mul_assoc, inv_mul_cancel₀ hZ, mul_one]
  · rw [ptAffine, fe_one, fe_affineY, mul_one, mul_assoc, inv_mul_cancel₀ hZ, mul_one]

/-- `NetSharePointValidate` accepts the encodings of points of the curve. -/
theorem netSharePointValidate_eq_zero_iff {enc : Bytes} (hlen : enc.length = 32) :
    netSharePointValidate (some enc) = 0 ↔ ∃ x y, IsEncoding enc x y := by
  rw [← ptDecompress_isOk_iff hlen, netSharePointValidate]
  cases ptDecompress enc with
  | ok P => simp
  | error e => cases e <;> simp [NetShareError.code]

/-- `NetSharePointRoundTrip` gives back what it accepts. -/
theorem netSharePointRoundTrip_eq {enc : Bytes} (hlen : enc.length = 32) (out : Bytes) :
    netSharePointRoundTrip (some enc) (some out) = (0, some enc) ∨
      (netSharePointRoundTrip (some enc) (some out)).2 = some out ∧
        (netSharePointRoundTrip (some enc) (some out)).1 < 0 := by
  rw [netSharePointRoundTrip]
  cases hdec : ptDecompress enc with
  | ok P => exact Or.inl (by simp only [ptCompress_ptDecompress hlen hdec])
  | error e => exact Or.inr ⟨rfl, by cases e <;> simp [NetShareError.code]⟩

/-- The codec: a string is accepted exactly if it encodes a point of the curve, whose coordinates are
then recovered; encoding what was decoded gives the string back, and decoding what was encoded the
point. -/
theorem pt_codec :
    (∀ enc : Bytes, enc.length = 32 →
      ((∃ P, ptDecompress enc = .ok P) ↔ ∃ x y, IsEncoding enc x y)) ∧
    (∀ enc x y, IsEncoding enc x y →
      ∃ P, ptDecompress enc = .ok P ∧ P.X.toNat = x ∧ P.Y.toNat = y ∧ P.Z.toNat = 1) ∧
    (∀ enc P, enc.length = 32 → ptDecompress enc = .ok P → ptCompress P = enc) ∧
    (∀ P : Pt, P.OnCurve →
      ∃ Q, ptDecompress (ptCompress P) = .ok Q ∧ P.Same Q ∧
        Q.T.fe * Q.Z.fe = Q.X.fe * Q.Y.fe) := by
  refine ⟨fun enc hlen => ptDecompress_isOk_iff hlen, ?_,
    fun enc P hlen hP => ptCompress_ptDecompress hlen hP, ?_⟩
  · intro enc x y h
    rcases ptDecompress_complete h with ⟨P, hP, hX, hY⟩
    have hlen : enc.length = 32 := by rw [h.eq, length_encodePoint]
    refine ⟨P, hP, hX, hY, ?_⟩
    rw [(ptDecompress_sound hlen hP).1]
    exact U256.toNat_small 1
  · intro P h
    rcases ptDecompress_ptCompress h with ⟨Q, hQ, hsame, hform⟩
    refine ⟨Q, hQ, hsame, ?_⟩
    rw [hform, ptAffine, fe_one, mul_one, fe_mulmod]

theorem onCurve_ptBase : OnCurve basePointX.fe basePointY.fe := by
  have hmod : basePointY.toNat ^ 2 % fieldPrime =
      (1 + fd.toNat * basePointX.toNat ^ 2 * basePointY.toNat ^ 2 + basePointX.toNat ^ 2) %
        fieldPrime := by decide
  have hcast := (ZMod.natCast_eq_natCast_iff' _ _ fieldPrime).mpr hmod
  push_cast at hcast
  rw [OnCurve]
  simp only [U256.fe]
  linear_combination hcast

/-- Every multiple of the coordinates represents the point. -/
theorem OnCurve.scale {x y z : U256} (h : OnCurve x.fe y.fe) (hz : z.fe ≠ 0) (t : U256) :
    Pt.OnCurve { X := mulmod x z fp, Y := mulmod y z fp, Z := z, T := t } := by
  refine { Z_ne := hz, eq := ?_ }
  rw [OnCurve] at h
  rw [fe_mulmod, fe_mulmod]
  linear_combination z.fe ^ 4 * h

/-- The base point with `Z = 2`. -/
def ptBaseTwo : Pt :=
  { X := mulmod basePointX (U256.small 2) fp
    Y := mulmod basePointY (U256.small 2) fp
    Z := U256.small 2
    T := mulmod ptBase.T (U256.small 2) fp }

theorem pt_codec_base :
    (∃ P, ptDecompress (encodePoint basePointX.toNat basePointY.toNat) = .ok P ∧
      ptCompress P = encodePoint basePointX.toNat basePointY.toNat) ∧
    (∃ Q, ptDecompress (ptCompress ptBaseTwo) = .ok Q ∧ ptBaseTwo.Same Q) := by
  have henc : IsEncoding (encodePoint basePointX.toNat basePointY.toNat) basePointX.toNat
      basePointY.toNat :=
    { x_lt := by decide
      y_lt := by decide
      onCurve := onCurve_ptBase
      eq := rfl }
  have htwo : (U256.small 2).fe ≠ 0 := by
    rw [fe_small]
    exact two_ne_zero_of_mod fieldPrime_mod_eight
  constructor
  · rcases (pt_codec.1 _ (length_encodePoint _ _)).mpr ⟨_, _, henc⟩ with ⟨P, hP⟩
    exact ⟨P, hP, pt_codec.2.2.1 _ P (length_encodePoint _ _) hP⟩
  · rcases pt_codec.2.2.2 ptBaseTwo (onCurve_ptBase.scale htwo _) with ⟨Q, hQ, hsame, -⟩
    exact ⟨Q, hQ, hsame⟩

end VeraCrypt
