import VeraCrypt.Lib.BlockHash
import Mathlib.Data.List.GetD
import Mathlib.Logic.Function.Iterate
import Mathlib.Algebra.Group.Nat.Defs

/-!
# Keccak and SHA-3 (FIPS 202)

The standard's own definitions: a state is 1600 bits `A[x, y, z]`, a step mapping gives each bit of
the new state from bits of the old one, and the sponge takes a padded message block by block.
Nothing is updated in place, and the offsets and the round constants are those that the standard's
algorithms generate.
-/

set_option autoImplicit false

namespace VeraCrypt
namespace Lib
namespace Keccak

/-! ## The step mappings -/

/-- The bits `A[x, y, z]`. -/
abbrev StateArray := Fin 5 → Fin 5 → Fin 64 → Bool

/-- The parity of a column. -/
def parity (A : StateArray) (x : Fin 5) (z : Fin 64) : Bool :=
  A x 0 z ^^ A x 1 z ^^ A x 2 z ^^ A x 3 z ^^ A x 4 z

def theta (A : StateArray) : StateArray :=
  fun x y z => A x y z ^^ (parity A (x - 1) z ^^ parity A (x + 1) (z - 1))

/-- The lanes in the order in which `rho` reaches them. -/
def rhoWalk : Nat → Fin 5 × Fin 5
  | 0 => (1, 0)
  | t + 1 =>
    let (x, y) := rhoWalk t
    (y, 2 * x + 3 * y)

/-- The lane reached at `t` is moved by `(t + 1)(t + 2) / 2`, the lane `(0, 0)` is not. -/
def rhoOffset (x y : Fin 5) : Nat :=
  match (List.range 24).find? (fun t => rhoWalk t = (x, y)) with
  | some t => (t + 1) * (t + 2) / 2
  | none => 0

def rho (A : StateArray) : StateArray := fun x y z => A x y (z - Fin.ofNat 64 (rhoOffset x y))

def pi (A : StateArray) : StateArray := fun x y z => A (x + 3 * y) x z

def chi (A : StateArray) : StateArray :=
  fun x y z => A x y z ^^ ((A (x + 1) y z ^^ true) && A (x + 2) y z)

/-- One shift of the register of `rc`: a bit comes in at the bottom, and the bit that goes out at
    the top is added at four places. -/
def rcStep (R : List Bool) : List Bool :=
  let R := false :: R
  let top := R.getD 8 false
  ([0, 4, 5, 6].foldl (fun R i => R.modify i (· ^^ top)) R).take 8

def rc (t : Nat) : Bool :=
  (rcStep^[t % 255] [true, false, false, false, false, false, false, false]).getD 0 false

/-- Bit `2^j - 1` of a round constant is `rc (j + 7 * ir)`, the others are clear. -/
def roundConstant (ir : Nat) (z : Fin 64) : Bool :=
  (List.range 7).any (fun j => z.val == 2 ^ j - 1 && rc (j + 7 * ir))

def iota (ir : Nat) (A : StateArray) : StateArray :=
  fun x y z => if x = 0 ∧ y = 0 then A x y z ^^ roundConstant ir z else A x y z

def round (A : StateArray) (ir : Nat) : StateArray := iota ir (chi (pi (rho (theta A))))

/-- `Keccak-p[1600, 24]` on state arrays. -/
def keccakP (A : StateArray) : StateArray := (List.range 24).foldl round A

/-! ## Strings -/

/-- A string of 1600 bits. -/
abbrev StateString := Fin 1600 → Bool

def toArray (S : StateString) : StateArray :=
  fun x y z => S ⟨64 * (5 * y.val + x.val) + z.val, by omega⟩

def toString (A : StateArray) : StateString :=
  fun i => A ⟨i.val / 64 % 5, by omega⟩ ⟨i.val / 64 / 5, by omega⟩ ⟨i.val % 64, by omega⟩

/-- `Keccak-f[1600]` -/
def keccakF (S : StateString) : StateString := toString (keccakP (toArray S))

theorem toArray_toString (A : StateArray) : toArray (toString A) = A := by
  funext x y z
  have hx : (64 * (5 * y.val + x.val) + z.val) / 64 % 5 = x.val := by omega
  have hy : (64 * (5 * y.val + x.val) + z.val) / 64 / 5 = y.val := by omega
  have hz : (64 * (5 * y.val + x.val) + z.val) % 64 = z.val := by omega
  simp only [toArray, toString, hx, hy, hz]

/-! ## The sponge -/

/-- `pad10*1` for a string of `m` bits: the zeros are `(-m - 2) mod x`. -/
def pad (x m : Nat) : List Bool :=
  [true] ++ List.replicate ((x - (m + 2) % x) % x) false ++ [true]

/-- The state with a block added to its first bits. -/
def xorBlock (S : StateString) (P : List Bool) : StateString := fun i => S i ^^ P.getD i.val false

def absorbBlock (S : StateString) (P : List Bool) : StateString := keccakF (xorBlock S P)

def zeroString : StateString := fun _ => false

/-- The first `r` bits. -/
def trunc (r : Nat) (S : StateString) : List Bool := (List.ofFn S).take r

/-- `SPONGE[Keccak-f[1600], pad10*1, r](N, d)` -/
def sponge (r : Nat) (N : List Bool) (d : Nat) : List Bool :=
  let S := absorb absorbBlock r zeroString (N ++ pad r N.length)
  ((List.range ((d + r - 1) / r)).flatMap (fun k => trunc r (keccakF^[k] S))).take d

/-- `KECCAK[c](N, d)` -/
def keccak (c : Nat) (N : List Bool) (d : Nat) : List Bool := sponge (1600 - c) N d

/-- `SHA3-512(M) = KECCAK[1024](M || 01, 512)` -/
def sha3_512 (M : List Bool) : List Bool := keccak 1024 (M ++ [false, true]) 512

/-- The bits of a byte string, the lowest bit of each byte first. -/
def bitsOf (bytes : List UInt8) : List Bool :=
  bytes.flatMap (fun b => (List.range 8).map b.toBitVec.getLsbD)

@[simp] theorem length_bitsOf (bytes : List UInt8) : (bitsOf bytes).length = 8 * bytes.length := by
  rw [bitsOf, length_flatMap_const (k := 8) (fun b _ => by simp)]
  omega

theorem bitsOf_append (a b : List UInt8) : bitsOf (a ++ b) = bitsOf a ++ bitsOf b := by
  simp [bitsOf]

/-- The bits in a byte string, byte by byte. -/
theorem getD_bitsOf (bytes : List UInt8) {n : Nat} :
    (bitsOf bytes).getD n false =
      (decide (n / 8 < bytes.length) && (bytes.getD (n / 8) 0).toBitVec.getLsbD (n % 8)) := by
  induction bytes generalizing n with
  | nil => simp [bitsOf]
  | cons b bytes ih =>
    have hcons : bitsOf (b :: bytes) = (List.range 8).map b.toBitVec.getLsbD ++ bitsOf bytes := by
      simp [bitsOf]
    rw [hcons]
    by_cases hlt : n < 8
    · have hdiv : n / 8 = 0 := by omega
      have hmod : n % 8 = n := by omega
      rw [List.getD_append _ _ _ _ (by simpa using hlt), hdiv, hmod]
      simp [hlt, List.getD_eq_getElem?_getD]
    · have hdiv : n / 8 = (n - 8) / 8 + 1 := by omega
      have hmod : n % 8 = (n - 8) % 8 := by omega
      rw [List.getD_append_right _ _ _ _ (by simpa using Nat.le_of_not_lt hlt), hdiv, hmod]
      simpa [List.getD_eq_getElem?_getD] using ih (n := n - 8)

@[simp] theorem xorBlock_nil (S : StateString) : xorBlock S [] = S := by
  funext i
  simp [xorBlock]

end Keccak
end Lib
end VeraCrypt
