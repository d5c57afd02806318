import Mathlib.Algebra.NeZero
import Mathlib.Data.List.GetD
import Mathlib.Data.Nat.Basic
import Mathlib.Tactic.Common
import Mathlib.Algebra.Ring.Nat

/-!
# A device that is encrypted unit by unit

A device and a buffer are functions from addresses to bytes. Writing changes a range and nothing
else; a unit cipher turns units of `u` bytes, each with its number, into units. What stands at an
address of an encrypted device (`decryptAt`) depends on its unit alone, so writes of whole units
beside it do not show, and writes of units that were encrypted under their own numbers show as what
was encrypted.
-/

set_option autoImplicit false

namespace VeraCrypt
namespace Lib

/-! ## Reading and writing -/

/-- What a read from offset `off` on gives. -/
def readAt (d : Nat → UInt8) (off : Nat) : Nat → UInt8 := fun i => d (off + i)

/-- The device after a write of `n` bytes at `off`. -/
def writeAt (d : Nat → UInt8) (off n : Nat) (buf : Nat → UInt8) : Nat → UInt8 :=
  fun i => if off ≤ i ∧ i < off + n then buf (i - off) else d i

section
variable {d buf : Nat → UInt8} {off n i : Nat}

theorem writeAt_inside (hi : i < n) : writeAt d off n buf (off + i) = buf i := by
  rw [writeAt, if_pos ⟨Nat.le_add_right off i, Nat.add_lt_add_left hi off⟩, Nat.add_sub_cancel_left]

theorem writeAt_outside (h : i < off ∨ off + n ≤ i) : writeAt d off n buf i = d i := by
  rw [writeAt, if_neg]
  rintro ⟨h1, h2⟩
  omega

/-- What a write does to an address, by the place of the address. -/
theorem writeAt_cases (d buf : Nat → UInt8) (off n i : Nat) :
    (i < off ∨ off + n ≤ i) ∧ writeAt d off n buf i = d i ∨
      ∃ k < n, i = off + k ∧ writeAt d off n buf i = buf k := by
  by_cases h : off ≤ i ∧ i < off + n
  · right
    refine ⟨i - off, by omega, by omega, ?_⟩
    rw [writeAt, if_pos h]
  · left
    refine ⟨by omega, ?_⟩
    rw [writeAt, if_neg h]

end

/-- The first `n` bytes of a buffer. -/
def bytesOf (buf : Nat → UInt8) (n : Nat) : List UInt8 := (List.range n).map buf

/-- A buffer that begins with `bytes`. -/
def bufferOf (bytes : List UInt8) : Nat → UInt8 := fun i => bytes.getD i 0

@[simp] theorem length_bytesOf (buf : Nat → UInt8) (n : Nat) : (bytesOf buf n).length = n := by
  rw [bytesOf, List.length_map, List.length_range]

theorem bytesOf_congr {buf buf' : Nat → UInt8} {n : Nat} (h : ∀ i < n, buf i = buf' i) :
    bytesOf buf n = bytesOf buf' n := by
  apply List.map_congr_left
  intro i hi
  exact h i (List.mem_range.mp hi)

theorem bytesOf_bufferOf (bytes : List UInt8) : bytesOf (bufferOf bytes) bytes.length = bytes := by
  apply List.ext_getElem (length_bytesOf _ _)
  intro i _ hi
  simp only [bytesOf, List.getElem_map, List.getElem_range]
  exact List.getD_eq_getElem _ _ hi

/-- Several writes to one range, the last one last. -/
def overwrite (d : Nat → UInt8) (off n : Nat) (bufs : List (Nat → UInt8)) : Nat → UInt8 :=
  bufs.foldl (fun d buf => writeAt d off n buf) d

theorem overwrite_outside {d : Nat → UInt8} {off n i : Nat} (bufs : List (Nat → UInt8))
    (h : i < off ∨ off + n ≤ i) : overwrite d off n bufs i = d i := by
  induction bufs generalizing d with
  | nil => rfl
  | cons buf bufs ih =>
    have hrest : overwrite (writeAt d off n buf) off n bufs i = writeAt d off n buf i := ih
    exact hrest.trans (writeAt_outside h)

/-- A write hides what was written to its range before. -/
theorem writeAt_overwrite (d : Nat → UInt8) (off n : Nat) (bufs : List (Nat → UInt8))
    (buf : Nat → UInt8) : writeAt (overwrite d off n bufs) off n buf = writeAt d off n buf := by
  funext i
  rcases writeAt_cases d buf off n i with ⟨hout, hd⟩ | ⟨k, hk, rfl, hd⟩
  · rw [hd, writeAt_outside hout, overwrite_outside bufs hout]
  · rw [hd, writeAt_inside hk]

/-! ## Units -/

variable {u : Nat}

/-- A cipher of units of `u` bytes: each is encrypted with its number and can be decrypted. -/
structure UnitCipher (u : Nat) where
  enc : Nat → (Fin u → UInt8) → Fin u → UInt8
  dec : Nat → (Fin u → UInt8) → Fin u → UInt8
  dec_enc : ∀ n b, dec n (enc n b) = b

/-- Unit `n` of a device. -/
def unitAt (u : Nat) (d : Nat → UInt8) (n : Nat) : Fin u → UInt8 := fun k => d (u * n + k)

theorem unitAt_congr {d d' : Nat → UInt8} {n : Nat} (h : ∀ k < u, d (u * n + k) = d' (u * n + k)) :
    unitAt u d n = unitAt u d' n := by
  funext k
  exact h k k.isLt

variable [NeZero u]

/-- `i` as a position in its unit. -/
def inUnit (u : Nat) [NeZero u] (i : Nat) : Fin u := ⟨i % u, Nat.mod_lt i (Nat.pos_of_neZero u)⟩

/-- The first `count` units of a buffer mapped, with the numbers from `first` on. -/
def onUnits (f : Nat → (Fin u → UInt8) → Fin u → UInt8) (first count : Nat) (buf : Nat → UInt8) :
    Nat → UInt8 :=
  fun i => if i < u * count then f (first + i / u) (unitAt u buf (i / u)) (inUnit u i) else buf i

/-- The byte at address `p` of an encrypted device. -/
def decryptAt (c : UnitCipher u) (d : Nat → UInt8) (p : Nat) : UInt8 :=
  c.dec (p / u) (unitAt u d (p / u)) (inUnit u p)

theorem unitAt_inUnit (d : Nat → UInt8) (i : Nat) : unitAt u d (i / u) (inUnit u i) = d i := by
  have h : u * (i / u) + i % u = i := Nat.div_add_mod i u
  rw [unitAt, inUnit, h]

/-- Units of a mapped buffer. -/
theorem unitAt_onUnits {f : Nat → (Fin u → UInt8) → Fin u → UInt8} {first count j : Nat}
    {buf : Nat → UInt8} (hj : j < count) :
    unitAt u (onUnits f first count buf) j = f (first + j) (unitAt u buf j) := by
  funext k
  have hu := Nat.pos_of_neZero u
  have hlt : u * j + k < u * count := by
    have hmul := Nat.mul_le_mul_left u (Nat.succ_le_of_lt hj)
    rw [Nat.mul_succ] at hmul
    omega
  have hdiv : (u * j + k) / u = j := by
    rw [Nat.mul_add_div hu, Nat.div_eq_of_lt k.isLt, Nat.add_zero]
  have hmod : inUnit u (u * j + k) = k :=
    Fin.ext ((Nat.mul_add_mod u j k).trans (Nat.mod_eq_of_lt k.isLt))
  rw [unitAt, onUnits, if_pos hlt, hdiv, hmod]

theorem onUnits_dec_enc (c : UnitCipher u) {first count i : Nat} {buf : Nat → UInt8}
    (hi : i < u * count) :
    onUnits c.dec first count (onUnits c.enc first count buf) i = buf i := by
  have hj : i / u < count := Nat.div_lt_of_lt_mul hi
  rw [onUnits, if_pos hi, unitAt_onUnits hj, c.dec_enc, unitAt_inUnit]

/-- Decrypting units that were read from their own place. -/
theorem onUnits_dec_readAt (c : UnitCipher u) {d : Nat → UInt8} {first count i : Nat}
    (hi : i < u * count) :
    onUnits c.dec first count (readAt d (u * first)) i = decryptAt c d (u * first + i) := by
  have hu := Nat.pos_of_neZero u
  have hdiv : (u * first + i) / u = first + i / u := Nat.mul_add_div hu first i
  have hmod : inUnit u (u * first + i) = inUnit u i := Fin.ext (Nat.mul_add_mod u first i)
  have hunit : unitAt u (readAt d (u * first)) (i / u) = unitAt u d (first + i / u) := by
    funext k
    rw [unitAt, readAt, unitAt, Nat.mul_add, Nat.add_assoc]
  rw [onUnits, if_pos hi, decryptAt, hdiv, hmod, hunit]

/-- Only the unit of an address counts. -/
theorem decryptAt_congr (c : UnitCipher u) {d d' : Nat → UInt8} {p : Nat}
    (h : ∀ q, q / u = p / u → d q = d' q) : decryptAt c d p = decryptAt c d' p := by
  have hunit : unitAt u d (p / u) = unitAt u d' (p / u) := by
    apply unitAt_congr
    intro k hk
    apply h
    rw [Nat.mul_add_div (Nat.pos_of_neZero u), Nat.div_eq_of_lt hk, Nat.add_zero]
  rw [decryptAt, decryptAt, hunit]

/-- A device that agrees with another outside of a range of whole units. -/
theorem decryptAt_outside (c : UnitCipher u) {d d' : Nat → UInt8} {first count p : Nat}
    (h : ∀ i, i < u * first ∨ u * (first + count) ≤ i → d i = d' i)
    (hp : p < u * first ∨ u * (first + count) ≤ p) : decryptAt c d p = decryptAt c d' p := by
  have hu := Nat.pos_of_neZero u
  apply decryptAt_congr
  intro q hq
  apply h
  rcases hp with hp | hp
  · left
    have hlt : p / u < first := Nat.div_lt_of_lt_mul hp
    rw [← hq] at hlt
    rwa [Nat.div_lt_iff_lt_mul hu, Nat.mul_comm] at hlt
  · right
    have hle : first + count ≤ p / u := (Nat.le_div_iff_mul_le hu).mpr (by rwa [Nat.mul_comm])
    rw [← hq] at hle
    rw [Nat.mul_comm]
    exact (Nat.le_div_iff_mul_le hu).mp hle

/-- What was encrypted under its own unit numbers decrypts to what it was. -/
theorem decryptAt_writeAt_enc (c : UnitCipher u) {d buf : Nat → UInt8} {first count i : Nat}
    (hi : i < u * count) :
    decryptAt c (writeAt d (u * first) (u * count) (onUnits c.enc first count buf))
      (u * first + i) = buf i := by
  have hu := Nat.pos_of_neZero u
  have hj : i / u < count := Nat.div_lt_of_lt_mul hi
  have hread : ∀ k < u * count,
      readAt (writeAt d (u * first) (u * count) (onUnits c.enc first count buf)) (u * first) k =
        onUnits c.enc first count buf k := fun k hk => writeAt_inside hk
  rw [← onUnits_dec_readAt c hi, onUnits, if_pos hi]
  have hunit : unitAt u
      (readAt (writeAt d (u * first) (u * count) (onUnits c.enc first count buf)) (u * first))
      (i / u) = unitAt u (onUnits c.enc first count buf) (i / u) := by
    apply unitAt_congr
    intro k hk
    apply hread
    have hmul := Nat.mul_le_mul_left u (Nat.succ_le_of_lt hj)
    rw [Nat.mul_succ] at hmul
    omega
  rw [hunit, unitAt_onUnits hj, c.dec_enc, unitAt_inUnit]

end Lib
end VeraCrypt
