import Mathlib.Data.List.Basic
import Mathlib.Data.UInt

/-!
# The primitives the rest of the code calls

`Crypto/Sha2.c` and `Crypto/chacha256.c` are used through two functions only: a digest of a
message, and a keystream that is xored onto a buffer. Nothing proved here depends on which
digest or which keystream they are, so they are the two fields of `Primitives`; the length of
a digest is the one property of SHA-256 the record layouts rest on, and it is a field.
-/

set_option autoImplicit false

namespace VeraCrypt

/-- A buffer of bytes. -/
abbrev Bytes := List UInt8

structure Primitives where
  /-- `sha256_begin` / `sha256_hash` / `sha256_end` over the whole message. -/
  sha256 : Bytes → Bytes
  length_sha256 : ∀ m, (sha256 m).length = 32
  /-- Byte `i` of the ChaCha20 keystream for a 32-byte key and an 8-byte iv. -/
  chaCha20 : (key iv : Bytes) → Nat → UInt8

/-- Primitives that evaluate: a digest of equal bytes that depends on every byte of its message,
    and a keystream that depends on the key. For runs on concrete inputs only. -/
def Primitives.demo : Primitives where
  sha256 m := List.replicate 32 (m.foldl (fun d b => 3 * d + b) 1)
  length_sha256 m := by simp
  chaCha20 key _ i := key.headD 0 + UInt8.ofNat i

/-- A random source handed to one call: byte `i` of what it will draw. -/
abbrev RandStream := Nat → UInt8

/-- The draw of `n` bytes that starts at position `off` of the stream. -/
def RandStream.bytes (r : RandStream) (off n : Nat) : Bytes :=
  (List.range n).map (fun i => r (off + i))

@[simp] theorem RandStream.length_bytes (r : RandStream) (off n : Nat) :
    (RandStream.bytes r off n).length = n := by
  simp [RandStream.bytes]

def xorBytes (a b : Bytes) : Bytes := List.zipWith (· ^^^ ·) a b

theorem length_xorBytes {a b : Bytes} (h : a.length = b.length) :
    (xorBytes a b).length = a.length := by
  simp [xorBytes, h]

theorem xorBytes_replicate_zero (a : Bytes) : xorBytes a (List.replicate a.length 0) = a := by
  induction a with
  | nil => rfl
  | cons x xs ih =>
    have hx : x ^^^ 0 = x := UInt8.xor_zero
    have htl : xorBytes xs (List.replicate xs.length 0) = xs := ih
    simp only [xorBytes, List.length_cons, List.replicate_succ, List.zipWith_cons_cons, hx]
      at htl ⊢
    rw [htl]

theorem xorBytes_comm (a b : Bytes) : xorBytes a b = xorBytes b a := by
  unfold xorBytes
  exact List.zipWith_comm_of_comm UInt8.xor_comm

/-- Xoring a pad on twice gives the buffer back. -/
theorem xorBytes_cancel {a b : Bytes} (h : a.length = b.length) :
    xorBytes (xorBytes a b) b = a := by
  induction a generalizing b with
  | nil => rfl
  | cons x xs ih =>
    cases b with
    | nil => simp at h
    | cons y ys =>
      have hlen : xs.length = ys.length := by simpa using h
      have hxy : x ^^^ y ^^^ y = x := by rw [UInt8.xor_assoc, UInt8.xor_self, UInt8.xor_zero]
      have htl : xorBytes (xorBytes xs ys) ys = xs := ih hlen
      simp only [xorBytes, List.zipWith_cons_cons, hxy] at htl ⊢
      rw [htl]

/-- `ChaCha256Encrypt`: the keystream xored onto the buffer, in either direction. -/
def chaCha256Encrypt (keystream : Nat → UInt8) (data : Bytes) : Bytes :=
  data.mapIdx (fun i b => b ^^^ keystream i)

@[simp] theorem length_chaCha256Encrypt (ks : Nat → UInt8) (data : Bytes) :
    (chaCha256Encrypt ks data).length = data.length := by
  simp [chaCha256Encrypt]

theorem chaCha256Encrypt_involutive (ks : Nat → UInt8) (data : Bytes) :
    chaCha256Encrypt ks (chaCha256Encrypt ks data) = data := by
  apply List.ext_getElem?
  intro i
  simp only [chaCha256Encrypt, List.getElem?_mapIdx, Option.map_map]
  cases data[i]? with
  | none => rfl
  | some b =>
    have hb : b ^^^ ks i ^^^ ks i = b := by rw [UInt8.xor_assoc, UInt8.xor_self, UInt8.xor_zero]
    simp [Function.comp, hb]

end VeraCrypt
