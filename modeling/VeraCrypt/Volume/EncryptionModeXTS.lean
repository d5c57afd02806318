import VeraCrypt.Crypto.Primitives
import VeraCrypt.Lib.Endian
import VeraCrypt.Lib.Region

/-!
# Ciphers and XTS mode (`Volume/Cipher.cpp`, `Volume/EncryptionModeXTS.cpp`,
`Volume/EncryptionAlgorithm.cpp`)

A block cipher is a parameter: it keeps the length of a block, and decrypting undoes
encrypting. XTS is translated from the source: each 512-byte data unit gets a first whitening
value, the unit's number encrypted under the secondary key, and each next one is the last one
doubled in GF(2^128). A cascade runs the mode once for each of its ciphers.
-/

set_option autoImplicit false

namespace VeraCrypt

open Lib

def bytesPerXtsBlock : Nat := 16
def blocksPerXtsDataUnit : Nat := 32
def encryptionDataUnitSize : UInt64 := 512

inductive Cipher where
  | aes | serpent | twofish | camellia | kuznyechik
  deriving DecidableEq

/-- `EncryptBlock` and `DecryptBlock` of each cipher under a key. -/
structure Ciphers where
  encryptBlock : Cipher → (key block : Bytes) → Bytes
  decryptBlock : Cipher → (key block : Bytes) → Bytes
  length_encryptBlock : ∀ c k b, (encryptBlock c k b).length = b.length
  length_decryptBlock : ∀ c k b, (decryptBlock c k b).length = b.length
  decrypt_encrypt : ∀ c k b, decryptBlock c k (encryptBlock c k b) = b
  encrypt_decrypt : ∀ c k b, encryptBlock c k (decryptBlock c k b) = b

theorem map_xor_map_xor (k : UInt8) (b : Bytes) :
    (b.map (· ^^^ k)).map (· ^^^ k) = b := by
  rw [List.map_map]
  have hid : (fun x : UInt8 => x ^^^ k) ∘ (fun x => x ^^^ k) = id := by
    funext x
    show x ^^^ k ^^^ k = x
    rw [UInt8.xor_assoc, UInt8.xor_self, UInt8.xor_zero]
  rw [hid, List.map_id]

/-- Ciphers that xor the first byte of the key onto a block. For runs on concrete inputs only. -/
def Ciphers.demo : Ciphers where
  encryptBlock _ k b := b.map (· ^^^ k.headD 0)
  decryptBlock _ k b := b.map (· ^^^ k.headD 0)
  length_encryptBlock _ _ _ := List.length_map _
  length_decryptBlock _ _ _ := List.length_map _
  decrypt_encrypt _ k b := map_xor_map_xor (k.headD 0) b
  encrypt_decrypt _ k b := map_xor_map_xor (k.headD 0) b

/-! ## One cipher -/

/-- The next whitening value: doubled, and 135 xored into the lowest byte on a carry. -/
def nextWhitening (w : Bytes) : Bytes :=
  let doubled := leBytes bytesPerXtsBlock (2 * leNat w)
  if leNat w < 2 ^ 127 then doubled else doubled.modifyHead (· ^^^ 135)

/-- The first whitening value of a data unit. -/
def firstWhitening (secondary : Bytes → Bytes) (dataUnitNo : UInt64) : Bytes :=
  secondary (leBytes 8 dataUnitNo.toNat ++ List.replicate 8 0)

/-- The loop of `EncryptBufferXTS` and of `DecryptBufferXTS`, which differ in `cipher` only:
    `block` counts the blocks of the current data unit, and `w` is the whitening value at
    hand. -/
def xtsBlocks (cipher secondary : Bytes → Bytes) :
    (dataUnitNo : UInt64) → (block : Nat) → (w : Bytes) → List Bytes → List Bytes
  | _, _, _, [] => []
  | dataUnitNo, block, w, b :: bs =>
    let w := if block = 0 then firstWhitening secondary dataUnitNo else w
    let out := xorBytes (cipher (xorBytes b w)) w
    if block + 1 = blocksPerXtsDataUnit then
      out :: xtsBlocks cipher secondary (dataUnitNo + 1) 0 w bs
    else
      out :: xtsBlocks cipher secondary dataUnitNo (block + 1) (nextWhitening w) bs

/-- The blocks of a buffer. -/
def xtsBlocksOf (data : Bytes) : List Bytes :=
  (List.range (data.length / bytesPerXtsBlock)).map
    (fun i => slice data (i * bytesPerXtsBlock) bytesPerXtsBlock)

/-- `EncryptBufferXTS` / `DecryptBufferXTS` with `startCipherBlockNo = 0`; `none` is the fatal
    exception on a length that is no multiple of the block. -/
def bufferXTS (cipher secondary : Bytes → Bytes) (data : Bytes) (startDataUnitNo : UInt64) :
    Option Bytes :=
  if data.length % bytesPerXtsBlock ≠ 0 then none
  else some (xtsBlocks cipher secondary startDataUnitNo 0 [] (xtsBlocksOf data)).flatten

/-! ## Encryption algorithms -/

/-- `EncryptionAlgorithm::GetAvailableAlgorithms`, in its order. -/
inductive AlgorithmId where
  | aes | serpent | twofish | camellia | kuznyechik
  | aesTwofish | aesTwofishSerpent | camelliaKuznyechik | camelliaSerpent | kuznyechikAES
  | kuznyechikSerpentCamellia | kuznyechikTwofish | serpentAES | serpentTwofishAES
  | twofishSerpent
  deriving DecidableEq

def getAvailableAlgorithms : List AlgorithmId :=
  [.aes, .serpent, .twofish, .camellia, .kuznyechik, .aesTwofish, .aesTwofishSerpent,
    .camelliaKuznyechik, .camelliaSerpent, .kuznyechikAES, .kuznyechikSerpentCamellia,
    .kuznyechikTwofish, .serpentAES, .serpentTwofishAES, .twofishSerpent]

/-- `Ciphers` of an algorithm, in the order in which they encrypt. -/
def AlgorithmId.ciphers : AlgorithmId → List Cipher
  | .aes => [.aes]
  | .serpent => [.serpent]
  | .twofish => [.twofish]
  | .camellia => [.camellia]
  | .kuznyechik => [.kuznyechik]
  | .aesTwofish => [.twofish, .aes]
  | .aesTwofishSerpent => [.serpent, .twofish, .aes]
  | .camelliaKuznyechik => [.kuznyechik, .camellia]
  | .camelliaSerpent => [.serpent, .camellia]
  | .kuznyechikAES => [.aes, .kuznyechik]
  | .kuznyechikSerpentCamellia => [.camellia, .serpent, .kuznyechik]
  | .kuznyechikTwofish => [.twofish, .kuznyechik]
  | .serpentAES => [.aes, .serpent]
  | .serpentTwofishAES => [.aes, .twofish, .serpent]
  | .twofishSerpent => [.serpent, .twofish]

def cipherKeySize : Nat := 32

def AlgorithmId.getKeySize (a : AlgorithmId) : Nat := a.ciphers.length * cipherKeySize

/-- An `EncryptionAlgorithm` object with its keys set and its XTS mode: `key` is what `SetKey`
    was given, `secondaryKey` what the mode was, `sectorOffset` the mode's. -/
structure EncryptionAlgorithm where
  algorithm : AlgorithmId
  key : Bytes
  secondaryKey : Bytes
  sectorOffset : UInt64
  deriving DecidableEq

/-- The ciphers of the algorithm with the keys cut from the two key buffers in order. -/
def EncryptionAlgorithm.keyed (ea : EncryptionAlgorithm) : List (Cipher × Bytes × Bytes) :=
  ea.algorithm.ciphers.mapIdx (fun i c =>
    (c, slice ea.key (i * cipherKeySize) cipherKeySize,
      slice ea.secondaryKey (i * cipherKeySize) cipherKeySize))

/-- `EncryptionModeXTS::EncryptBuffer`. -/
def EncryptionAlgorithm.encryptBuffer (C : Ciphers) (ea : EncryptionAlgorithm) (data : Bytes)
    (startDataUnitNo : UInt64) : Option Bytes :=
  ea.keyed.foldlM (fun d (c, k, k2) =>
    bufferXTS (C.encryptBlock c k) (C.encryptBlock c k2) d
      (startDataUnitNo + ea.sectorOffset)) data

/-- `EncryptionModeXTS::DecryptBuffer`: the ciphers in reverse order. -/
def EncryptionAlgorithm.decryptBuffer (C : Ciphers) (ea : EncryptionAlgorithm) (data : Bytes)
    (startDataUnitNo : UInt64) : Option Bytes :=
  ea.keyed.reverse.foldlM (fun d (c, k, k2) =>
    bufferXTS (C.decryptBlock c k) (C.encryptBlock c k2) d
      (startDataUnitNo + ea.sectorOffset)) data

/-- `EncryptSectors`, as one thread does it: `sectorCount` sectors of the buffer. -/
def EncryptionAlgorithm.encryptSectors (C : Ciphers) (ea : EncryptionAlgorithm) (data : Bytes)
    (sectorIndex sectorCount sectorSize : UInt64) : Option Bytes :=
  let length := (sectorCount * sectorSize).toNat
  (ea.encryptBuffer C (data.take length) (sectorIndex * sectorSize / encryptionDataUnitSize)).map
    (fun out => out ++ data.drop length)

def EncryptionAlgorithm.decryptSectors (C : Ciphers) (ea : EncryptionAlgorithm) (data : Bytes)
    (sectorIndex sectorCount sectorSize : UInt64) : Option Bytes :=
  let length := (sectorCount * sectorSize).toNat
  (ea.decryptBuffer C (data.take length) (sectorIndex * sectorSize / encryptionDataUnitSize)).map
    (fun out => out ++ data.drop length)

/-! ## Lengths -/

theorem length_xtsBlocksOf (data : Bytes) :
    (xtsBlocksOf data).length = data.length / bytesPerXtsBlock := by
  simp [xtsBlocksOf]

theorem length_of_mem_xtsBlocksOf {data b : Bytes} (h : b ∈ xtsBlocksOf data) :
    b.length = bytesPerXtsBlock := by
  obtain ⟨i, hi, rfl⟩ := List.mem_map.mp h
  have hi' : i < data.length / bytesPerXtsBlock := List.mem_range.mp hi
  apply length_slice
  have hmul := Nat.mul_le_mul_right bytesPerXtsBlock (Nat.succ_le_of_lt hi')
  have hdiv := Nat.div_mul_le_self data.length bytesPerXtsBlock
  rw [Nat.succ_mul] at hmul
  omega

@[simp] theorem length_nextWhitening (w : Bytes) : (nextWhitening w).length = 16 := by
  unfold nextWhitening
  split <;> simp [bytesPerXtsBlock]

section

variable {cipher secondary : Bytes → Bytes}

theorem length_firstWhitening (hs : ∀ b, (secondary b).length = b.length) (n : UInt64) :
    (firstWhitening secondary n).length = 16 := by
  rw [firstWhitening, hs, List.length_append, length_leBytes, List.length_replicate]

/-- Every output block is a block, whatever the whitening. -/
theorem length_of_mem_xtsBlocks (hc : ∀ b, (cipher b).length = b.length)
    (hs : ∀ b, (secondary b).length = b.length) {bs : List Bytes} (hbs : ∀ b ∈ bs, b.length = 16) :
    ∀ {n : UInt64} {j : Nat} {w : Bytes}, (j ≠ 0 → w.length = 16) →
      ∀ o ∈ xtsBlocks cipher secondary n j w bs, o.length = 16 := by
  induction bs with
  | nil => intro n j w _ o ho; exact absurd ho (by simp [xtsBlocks])
  | cons b bs ih =>
    intro n j w hw o ho
    have hb : b.length = 16 := hbs b (by simp)
    have htl : ∀ c ∈ bs, c.length = 16 := fun c hm => hbs c (by simp [hm])
    have hw' : (if j = 0 then firstWhitening secondary n else w).length = 16 := by
      split
      · exact length_firstWhitening hs n
      · rename_i hj
        exact hw hj
    have hout : (xorBytes (cipher (xorBytes b (if j = 0 then firstWhitening secondary n else w)))
        (if j = 0 then firstWhitening secondary n else w)).length = 16 := by
      have hin := length_xorBytes (hb.trans hw'.symm)
      rw [length_xorBytes (by rw [hc, hin, hb, hw']), hc, hin, hb]
    simp only [xtsBlocks] at ho
    split at ho
    · rcases List.mem_cons.mp ho with rfl | hm
      · exact hout
      · exact ih htl (fun h => absurd rfl h) o hm
    · rcases List.mem_cons.mp ho with rfl | hm
      · exact hout
      · exact ih htl (fun _ => length_nextWhitening _) o hm

theorem length_xtsBlocks {bs : List Bytes} :
    ∀ {n : UInt64} {j : Nat} {w : Bytes},
      (xtsBlocks cipher secondary n j w bs).length = bs.length := by
  induction bs with
  | nil => intro n j w; rfl
  | cons b bs ih =>
    intro n j w
    simp only [xtsBlocks]
    split
    · rw [List.length_cons, List.length_cons, ih]
    · rw [List.length_cons, List.length_cons, ih]

theorem length_bufferXTS (hc : ∀ b, (cipher b).length = b.length)
    (hs : ∀ b, (secondary b).length = b.length) {data out : Bytes} {n : UInt64}
    (h : bufferXTS cipher secondary data n = some out) : out.length = data.length := by
  unfold bufferXTS at h
  split at h
  · exact absurd h (by simp)
  · rename_i hmod
    have hlen : ∀ b ∈ xtsBlocksOf data, b.length = 16 := fun b hb => length_of_mem_xtsBlocksOf hb
    have hout := length_flatten_const
      (length_of_mem_xtsBlocks hc hs hlen (n := n) (j := 0) (w := []) (fun hj => absurd rfl hj))
    rw [length_xtsBlocks, length_xtsBlocksOf] at hout
    rw [← Option.some.inj h, hout]
    simp only [bytesPerXtsBlock] at hmod ⊢
    omega

end

/-- A cascade of any block functions keeps the length of a buffer. -/
theorem length_foldlM_bufferXTS {C : Ciphers} {f : Cipher → Bytes → Bytes → Bytes}
    (hf : ∀ c k b, (f c k b).length = b.length) {n : UInt64} {data out : Bytes}
    {ks : List (Cipher × Bytes × Bytes)}
    (h : ks.foldlM (fun d (c, k, k2) => bufferXTS (f c k) (C.encryptBlock c k2) d n) data =
      some out) : out.length = data.length := by
  induction ks generalizing data with
  | nil => exact congrArg List.length (Option.some.inj h).symm
  | cons ck ks ih =>
    obtain ⟨c, k, k2⟩ := ck
    obtain ⟨mid, hmid, hrest⟩ := Option.bind_eq_some_iff.mp h
    rw [ih hrest, length_bufferXTS (hf c k) (C.length_encryptBlock c k2) hmid]

theorem EncryptionAlgorithm.length_encryptBuffer {C : Ciphers} {ea : EncryptionAlgorithm}
    {data out : Bytes} {n : UInt64} (h : ea.encryptBuffer C data n = some out) :
    out.length = data.length :=
  length_foldlM_bufferXTS C.length_encryptBlock h

theorem EncryptionAlgorithm.length_decryptBuffer {C : Ciphers} {ea : EncryptionAlgorithm}
    {data out : Bytes} {n : UInt64} (h : ea.decryptBuffer C data n = some out) :
    out.length = data.length :=
  length_foldlM_bufferXTS C.length_decryptBlock h

theorem EncryptionAlgorithm.length_encryptSectors {C : Ciphers} {ea : EncryptionAlgorithm}
    {data out : Bytes} {i n s : UInt64} (h : ea.encryptSectors C data i n s = some out) :
    out.length = data.length := by
  obtain ⟨enc, henc, rfl⟩ := Option.map_eq_some_iff.mp h
  have hlen := EncryptionAlgorithm.length_encryptBuffer henc
  rw [List.length_append, hlen, ← List.length_append, List.take_append_drop]

end VeraCrypt
