import Mathlib.Logic.Function.Iterate
import Mathlib.Data.UInt
import VeraCrypt.Lib.Endian
import VeraCrypt.Lib.Region

/-!
# HMAC and PBKDF2

HMAC (RFC 2104) over any hash, and PBKDF2 (RFC 8018) over any pseudorandom function. A derived key
depends on the function at the messages of the derivation alone (`pbkdf2_congr`).
-/

set_option autoImplicit false

namespace VeraCrypt
namespace Lib

/-- A string of RFC 8018. -/
abbrev Octets := List UInt8

def xorOctets (a b : Octets) : Octets := List.zipWith (· ^^^ ·) a b

/-- A key at the length of a block: hashed if it is longer, then padded with zeros. -/
def hmacKey (hash : Octets → Octets) (block : Nat) (key : Octets) : Octets :=
  let key := if block < key.length then hash key else key
  key ++ List.replicate (block - key.length) 0

def hmac (hash : Octets → Octets) (block : Nat) (key msg : Octets) : Octets :=
  let key := hmacKey hash block key
  hash (key.map (· ^^^ 0x5c) ++ hash (key.map (· ^^^ 0x36) ++ msg))

/-- `F (P, S, c, i)` of RFC 8018: `U_1 xor ... xor U_c`. -/
def pbkdf2Block (prf : Octets → Octets) (salt : Octets) (c i : Nat) : Octets :=
  let u := prf (salt ++ beBytes 4 i)
  (List.range (c - 1)).foldl (fun t j => xorOctets t (prf^[j + 1] u)) u

def pbkdf2 (prf : Octets → Octets) (hLen : Nat) (salt : Octets) (c dkLen : Nat) : Octets :=
  ((List.range ((dkLen + hLen - 1) / hLen)).flatMap
    (fun i => pbkdf2Block prf salt c (i + 1))).take dkLen

/-- Another step of a chain at its start instead of its end. -/
theorem foldl_chain (prf : Octets → Octets) (c : Nat) (u t : Octets) :
    (List.range (c + 1)).foldl (fun t j => xorOctets t (prf^[j + 1] u)) t =
      (List.range c).foldl (fun t j => xorOctets t (prf^[j + 1] (prf u)))
        (xorOctets t (prf u)) := by
  rw [List.range_succ_eq_map, List.foldl_cons, List.foldl_map]
  rfl

theorem length_xorOctets {a b : Octets} (h : a.length = b.length) :
    (xorOctets a b).length = a.length := by
  simp [xorOctets, h]

theorem length_pbkdf2Block {prf : Octets → Octets} {hLen : Nat} (hlen : ∀ m, (prf m).length = hLen)
    (salt : Octets) (c i : Nat) : (pbkdf2Block prf salt c i).length = hLen := by
  unfold pbkdf2Block
  dsimp only
  generalize hu : prf (salt ++ beBytes 4 i) = u
  have hulen : u.length = hLen := by rw [← hu, hlen]
  induction c - 1 with
  | zero => exact hulen
  | succ n ih =>
    rw [List.range_succ, List.foldl_append]
    have hstep : (prf^[n + 1] u).length = hLen := by rw [Function.iterate_succ_apply', hlen]
    exact (length_xorOctets (ih.trans hstep.symm)).trans ih

/-- The whole blocks of a derived key, and what is taken of the last one. -/
theorem pbkdf2_eq {prf : Octets → Octets} {hLen : Nat} (hpos : 0 < hLen)
    (hlen : ∀ m, (prf m).length = hLen) (salt : Octets) (c : Nat) {dkLen l : Nat}
    (hl : (dkLen + hLen - 1) / hLen = l + 1) :
    pbkdf2 prf hLen salt c dkLen =
      (List.range l).flatMap (fun i => pbkdf2Block prf salt c (i + 1)) ++
        (pbkdf2Block prf salt c (l + 1)).take (dkLen - l * hLen) := by
  have hfirst : ((List.range l).flatMap (fun i => pbkdf2Block prf salt c (i + 1))).length =
      l * hLen := by
    rw [length_flatMap_const (fun i _ => length_pbkdf2Block hlen salt c (i + 1)), List.length_range]
  have hle : l * hLen ≤ dkLen := by
    have hmul := Nat.div_mul_le_self (dkLen + hLen - 1) hLen
    rw [hl, Nat.succ_mul] at hmul
    omega
  rw [pbkdf2, hl, List.range_succ, List.flatMap_append, List.flatMap_singleton,
    List.take_append, hfirst, List.take_of_length_le (by omega)]

section congr

variable {prf prf' : Octets → Octets} {hLen : Nat}

theorem pbkdf2Block_congr (hlen : ∀ m, (prf m).length = hLen) {salt : Octets}
    (hsalt : ∀ m : Octets, m.length ≤ max hLen (salt.length + 4) → prf m = prf' m) (c i : Nat) :
    pbkdf2Block prf salt c i = pbkdf2Block prf' salt c i := by
  have hfirst : prf (salt ++ beBytes 4 i) = prf' (salt ++ beBytes 4 i) := hsalt _ (by simp)
  have hu : (prf' (salt ++ beBytes 4 i)).length = hLen := by rw [← hfirst, hlen]
  have hchain : ∀ j, prf^[j] (prf' (salt ++ beBytes 4 i)) = prf'^[j] (prf' (salt ++ beBytes 4 i)) ∧
      (prf'^[j] (prf' (salt ++ beBytes 4 i))).length = hLen := by
    intro j
    induction j with
    | zero => exact ⟨rfl, hu⟩
    | succ j ih =>
      rw [Function.iterate_succ_apply', Function.iterate_succ_apply', ih.1]
      have hstep := hsalt (prf'^[j] (prf' (salt ++ beBytes 4 i)))
        (by rw [ih.2]; exact le_max_left _ _)
      exact ⟨hstep, by rw [← hstep, hlen]⟩
  unfold pbkdf2Block
  dsimp only
  rw [hfirst]
  congr 1
  funext t j
  rw [(hchain (j + 1)).1]

theorem pbkdf2_congr (hlen : ∀ m, (prf m).length = hLen) {salt : Octets}
    (hsalt : ∀ m : Octets, m.length ≤ max hLen (salt.length + 4) → prf m = prf' m) (c dkLen : Nat) :
    pbkdf2 prf hLen salt c dkLen = pbkdf2 prf' hLen salt c dkLen := by
  unfold pbkdf2
  congr 2
  funext i
  exact pbkdf2Block_congr hlen hsalt c (i + 1)

end congr

end Lib
end VeraCrypt
