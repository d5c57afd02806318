import VeraCrypt.Crypto.Primitives
import VeraCrypt.Lib.ConstTime
import VeraCrypt.Lib.Region

/-!
# The keyslot wrap (`Common/Keyslot.c`)

A slot wraps its payload under a key derived from the slot's passphrase:

    dk     = KDF(passphrase, salt, cost, 72 bytes)
    encKey = dk[0..32)   iv = dk[32..40)   macKey = dk[40..72)
    ct     = ChaCha20(encKey, iv) XOR payload
    tag    = HMAC-SHA256(macKey, aad || ct)

The open side recomputes the tag, compares it without branching and decrypts whatever the
outcome (`keyslotUnwrapCT`). What is proved here needs no property of the primitives:
unwrapping what was wrapped, under the same passphrase and header bytes, verifies and gives
the payload back (`keyslotUnwrapCT_keyslotWrap`).
-/

set_option autoImplicit false

namespace VeraCrypt

open Lib

def keyslotSaltSize : Nat := 32
def keyslotTagSize : Nat := 32
def keyslotDkSize : Nat := 72
def keyslotVmkMax : Int := 512

/-- `KeyslotKdfFn`: passphrase, salt, cost and the number of bytes to derive. -/
abbrev KeyslotKdfFn := (pass salt : Bytes) → (cost : UInt32) → (dkLen : Nat) → Bytes

def ksSha256Blk : Nat := 64

/-- `ks_hmac_sha256` over the message `m1 || m2`. A long key is hashed, a short one
    zero-padded to the block. -/
def ksHmacSha256 (P : Primitives) (key m1 m2 : Bytes) : Bytes :=
  let k0 :=
    if key.length > ksSha256Blk then
      P.sha256 key ++ List.replicate (ksSha256Blk - keyslotTagSize) 0
    else
      key ++ List.replicate (ksSha256Blk - key.length) 0
  let inner := P.sha256 (k0.map (· ^^^ 0x36) ++ m1 ++ m2)
  P.sha256 (k0.map (· ^^^ 0x5c) ++ inner)

@[simp] theorem length_ksHmacSha256 (P : Primitives) (key m1 m2 : Bytes) :
    (ksHmacSha256 P key m1 m2).length = keyslotTagSize :=
  P.length_sha256 _

/-- `KeyslotConstTimeEqual`. -/
def keyslotConstTimeEqual (a b : Bytes) : Bool := ctEqual a b

/-- The keystream of a derived key: `encKey = dk[0..32)`, `iv = dk[32..40)`. -/
def dkStream (P : Primitives) (dk : Bytes) : Nat → UInt8 :=
  P.chaCha20 (slice dk 0 32) (slice dk 32 8)

/-- The MAC key of a derived key: `macKey = dk[40..72)`. -/
def dkMacKey (dk : Bytes) : Bytes := slice dk 40 32

/-- `KeyslotWrapWithDK`: the ciphertext and the tag. -/
def keyslotWrapWithDK (P : Primitives) (dk aad vmk : Bytes) : Bytes × Bytes :=
  let ct := chaCha256Encrypt (dkStream P dk) vmk
  (ct, ksHmacSha256 P (dkMacKey dk) aad ct)

def keyslotWrap (P : Primitives) (kdf : KeyslotKdfFn) (cost : UInt32)
    (pass salt aad vmk : Bytes) : Bytes × Bytes :=
  keyslotWrapWithDK P (kdf pass salt cost keyslotDkSize) aad vmk

/-- `KeyslotUnwrapCT`: always derives, always MACs, always decrypts; the flag says whether
    the tag matched. -/
def keyslotUnwrapCT (P : Primitives) (kdf : KeyslotKdfFn) (cost : UInt32)
    (pass salt aad ct tag : Bytes) : Bool × Bytes :=
  let dk := kdf pass salt cost keyslotDkSize
  let computed := ksHmacSha256 P (dkMacKey dk) aad ct
  (keyslotConstTimeEqual computed tag, chaCha256Encrypt (dkStream P dk) ct)

section
variable (P : Primitives) (kdf : KeyslotKdfFn) (cost : UInt32) (pass salt aad : Bytes)

@[simp] theorem length_keyslotWrap_ct (vmk : Bytes) :
    (keyslotWrap P kdf cost pass salt aad vmk).1.length = vmk.length := by
  simp [keyslotWrap, keyslotWrapWithDK]

@[simp] theorem length_keyslotWrap_tag (vmk : Bytes) :
    (keyslotWrap P kdf cost pass salt aad vmk).2.length = keyslotTagSize := by
  simp [keyslotWrap, keyslotWrapWithDK]

@[simp] theorem length_keyslotUnwrapCT (ct tag : Bytes) :
    (keyslotUnwrapCT P kdf cost pass salt aad ct tag).2.length = ct.length := by
  simp [keyslotUnwrapCT]

/-- **Unwrap inverts wrap**, under the passphrase, salt and header bytes of the wrap. -/
theorem keyslotUnwrapCT_keyslotWrap (vmk : Bytes) :
    keyslotUnwrapCT P kdf cost pass salt aad
      (keyslotWrap P kdf cost pass salt aad vmk).1
      (keyslotWrap P kdf cost pass salt aad vmk).2 = (true, vmk) := by
  simp only [keyslotUnwrapCT, keyslotWrap, keyslotWrapWithDK, keyslotConstTimeEqual,
    ctEqual_self, chaCha256Encrypt_involutive]

end

end VeraCrypt
