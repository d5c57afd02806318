import VeraCrypt.Lib.Pbkdf2

/-!
# HKDF

HKDF (RFC 5869) over any hash. No salt is the salt of zeros of the length of the hash
(`hkdf_noSalt`), since a key is padded with zeros.
-/

set_option autoImplicit false

namespace VeraCrypt
namespace Lib

section

variable (prf : Octets → Octets) (info : Octets)

/-- `T(i)` of RFC 5869. -/
def hkdfT : Nat → Octets
  | 0 => []
  | i + 1 => prf (hkdfT i ++ info ++ [UInt8.ofNat (i + 1)])

/-- `T(1) || ... || T(k)` -/
def hkdfBlocks (k : Nat) : Octets := (List.range k).flatMap (fun i => hkdfT prf info (i + 1))

def hkdfExpand (hLen l : Nat) : Octets := (hkdfBlocks prf info ((l + hLen - 1) / hLen)).take l

@[simp] theorem hkdfBlocks_succ (k : Nat) :
    hkdfBlocks prf info (k + 1) = hkdfBlocks prf info k ++ hkdfT prf info (k + 1) := by
  simp [hkdfBlocks, List.range_succ]

variable {prf} in
theorem length_hkdfBlocks {hLen : Nat} (hlen : ∀ m, (prf m).length = hLen) (k : Nat) :
    (hkdfBlocks prf info k).length = k * hLen := by
  have hstep : ∀ i ∈ List.range k, (hkdfT prf info (i + 1)).length = hLen := fun _ _ => hlen _
  rw [hkdfBlocks, length_flatMap_const hstep, List.length_range]

end

section

variable (hash : Octets → Octets) (block : Nat)

def hkdfExtract (salt ikm : Octets) : Octets := hmac hash block salt ikm

def hkdf (hLen : Nat) (salt ikm info : Octets) (l : Nat) : Octets :=
  hkdfExpand (hmac hash block (hkdfExtract hash block salt ikm)) info hLen l

theorem hmacKey_noSalt {hLen : Nat} (h : hLen ≤ block) :
    hmacKey hash block [] = hmacKey hash block (List.replicate hLen 0) := by
  simp [hmacKey, Nat.not_lt.mpr h]
  omega

theorem hkdf_noSalt {hLen : Nat} (h : hLen ≤ block) (ikm info : Octets) (l : Nat) :
    hkdf hash block hLen [] ikm info l =
      hkdf hash block hLen (List.replicate hLen 0) ikm info l := by
  rw [hkdf, hkdf, hkdfExtract, hkdfExtract, hmac, hmac, hmacKey_noSalt hash block h]

end

end Lib
end VeraCrypt
