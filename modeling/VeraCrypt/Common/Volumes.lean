import VeraCrypt.Volume.VolumeHeader

/-!
# The C header codec (`Common/Volumes.c`, `Common/Crypto.c`)

The driver and the Windows programs write and read volume headers with their own code:
`CreateVolumeHeaderInMemory` and `ReadVolumeHeader`. A header is a buffer of 512 bytes here, its
salt included, and the offsets of the fields count from the salt.

Deriving a header key is outside this module: `dk` is what it gave. The branch of
`ReadVolumeHeader` for a boot loader that keeps the scheduled header key is not modelled.
-/

set_option autoImplicit false

namespace VeraCrypt

open Lib

namespace Common

/-! ## Encryption algorithms (`Crypto.c`) -/

/-- The column of ciphers of the table `EncryptionAlgorithms`; the first and the last row are
    the all-zero ones. An algorithm is its row. -/
def encryptionAlgorithms : List (List Cipher) :=
  [[], [.aes], [.serpent], [.twofish], [.camellia], [.kuznyechik], [.twofish, .aes],
    [.serpent, .twofish, .aes], [.aes, .serpent], [.aes, .twofish, .serpent],
    [.serpent, .twofish], [.kuznyechik, .camellia], [.twofish, .kuznyechik],
    [.serpent, .camellia], [.aes, .kuznyechik], [.camellia, .serpent, .kuznyechik], []]

/-- What `EAGetFirstCipher` and `EAGetNextCipher` run through. -/
def eaCiphers (ea : Nat) : List Cipher := encryptionAlgorithms.getD ea []

def eaGetKeySize (ea : Nat) : Nat := ((eaCiphers ea).map (fun _ => cipherKeySize)).sum

/-- `EAInit` and `EAInitMode`: the ciphers in order, each with its piece of the two keys. -/
def eaInit (ea : Nat) (key key2 : Bytes) : List (Cipher × Bytes × Bytes) :=
  (eaCiphers ea).mapIdx (fun i c =>
    (c, slice key (i * cipherKeySize) cipherKeySize, slice key2 (i * cipherKeySize) cipherKeySize))

/-- `EncryptBuffer` in XTS mode; `none` is the fatal exception on a length that is not whole
    blocks. -/
def encryptBuffer (C : Ciphers) (schedule : List (Cipher × Bytes × Bytes)) (buf : Bytes) :
    Option Bytes :=
  schedule.foldlM (fun b (c, k, k2) =>
    bufferXTS (C.encryptBlock c k) (C.encryptBlock c k2) b 0) buf

def decryptBuffer (C : Ciphers) (schedule : List (Cipher × Bytes × Bytes)) (buf : Bytes) :
    Option Bytes :=
  schedule.reverse.foldlM (fun b (c, k, k2) =>
    bufferXTS (C.decryptBlock c k) (C.encryptBlock c k2) b 0) buf

/-! ## Reading (`ReadVolumeHeader`) -/

def volumeHeaderVersion : UInt16 := 0x0005
def headerMagicNumber : UInt32 := 0x56455241
def volumeHeaderEffectiveSize : Nat := 512
def pkcs5SaltSize : Nat := 64
def masterKeydataSize : Nat := 256
def headerEncryptedDataOffset : Nat := pkcs5SaltSize
def headerEncryptedDataSize : Nat := volumeHeaderEffectiveSize - headerEncryptedDataOffset
def headerMasterKeydataOffset : Nat := 256

def headerOffsetMagic : Nat := 64
def headerOffsetVersion : Nat := 68
def headerOffsetRequiredVersion : Nat := 70
def headerOffsetKeyAreaCrc : Nat := 72
def headerOffsetHiddenVolumeSize : Nat := 92
def headerOffsetVolumeSize : Nat := 100
def headerOffsetEncryptedAreaStart : Nat := 108
def headerOffsetEncryptedAreaLength : Nat := 116
def headerOffsetFlags : Nat := 124
def headerOffsetSectorSize : Nat := 128
def headerOffsetHeaderCrc : Nat := 252

def getHeaderField16 (header : Bytes) (offset : Nat) : UInt16 :=
  UInt16.ofNat (beNat (slice header offset 2))
def getHeaderField32 (header : Bytes) (offset : Nat) : UInt32 :=
  UInt32.ofNat (beNat (slice header offset 4))
def getHeaderField64 (header : Bytes) (offset : Nat) : UInt64 :=
  UInt64.ofNat (beNat (slice header offset 8))

inductive Status where
  | newVersionRequired | parameterIncorrect | cipherInitWeakKey | fatal
  deriving DecidableEq

/-- What `ReadVolumeHeader` sets of a `CRYPTO_INFO`. -/
structure CryptoInfo where
  ea : Nat
  /-- The scheduled master keys: `ks` and `ks2`. -/
  schedule : List (Cipher × Bytes × Bytes)
  masterKeydata : Bytes
  k2 : Bytes
  headerVersion : UInt16
  requiredProgramVersion : UInt16
  legacyVolume : Bool
  hiddenVolumeSize : UInt64
  hiddenVolume : Bool
  volumeSize : UInt64
  encryptedAreaStart : UInt64
  encryptedAreaLength : UInt64
  headerFlags : UInt32
  sectorSize : UInt32
  bVulnerableMasterKey : Bool
  deriving DecidableEq

/-- The sector size of a header: stated from version 5 on. -/
def headerSectorSize (header : Bytes) : UInt32 :=
  if 5 ≤ getHeaderField16 header headerOffsetVersion then
    getHeaderField32 header headerOffsetSectorSize
  else 512

/-- The body of the loop over the algorithms behind the decryption: `.ok none` goes on with the
    next algorithm, an error ends the search. `recoveryMode` is
    `ReadVolumeHeaderRecoveryMode`. -/
def readDecryptedHeader (recoveryMode : Bool) (ea : Nat) (header : Bytes) :
    Except Status (Option CryptoInfo) :=
  if getHeaderField32 header headerOffsetMagic ≠ headerMagicNumber then .ok none
  else if volumeHeaderVersion < getHeaderField16 header headerOffsetVersion then
    .error .newVersionRequired
  else if recoveryMode = false ∧ 4 ≤ getHeaderField16 header headerOffsetVersion ∧
      getHeaderField32 header headerOffsetHeaderCrc ≠
        getCrc32 (slice header headerOffsetMagic (headerOffsetHeaderCrc - headerOffsetMagic)) then
    .ok none
  else if recoveryMode = false ∧ getHeaderField32 header headerOffsetKeyAreaCrc ≠
      getCrc32 (slice header headerMasterKeydataOffset masterKeydataSize) then .ok none
  else if versionNumber < getHeaderField16 header headerOffsetRequiredVersion then
    .error .newVersionRequired
  else if headerSectorSize header < 512 ∨ 4096 < headerSectorSize header ∨
      headerSectorSize header % 512 ≠ 0 then .error .parameterIncorrect
  else
    let masterKeydata := slice header headerMasterKeydataOffset masterKeydataSize
    let keySize := eaGetKeySize ea
    .ok (some
      { ea := ea
        schedule := eaInit ea masterKeydata (masterKeydata.drop keySize)
        masterKeydata := masterKeydata
        k2 := slice masterKeydata keySize keySize
        headerVersion := getHeaderField16 header headerOffsetVersion
        requiredProgramVersion := getHeaderField16 header headerOffsetRequiredVersion
        legacyVolume := getHeaderField16 header headerOffsetRequiredVersion < 0x10b
        hiddenVolumeSize := getHeaderField64 header headerOffsetHiddenVolumeSize
        hiddenVolume := getHeaderField64 header headerOffsetHiddenVolumeSize ≠ 0
        volumeSize := getHeaderField64 header headerOffsetVolumeSize
        encryptedAreaStart := getHeaderField64 header headerOffsetEncryptedAreaStart
        encryptedAreaLength := getHeaderField64 header headerOffsetEncryptedAreaLength
        headerFlags := getHeaderField32 header headerOffsetFlags
        sectorSize := headerSectorSize header
        bVulnerableMasterKey := slice masterKeydata 0 keySize = slice masterKeydata keySize keySize })

/-- One turn of the loop over the algorithms: decrypt the header, and read it. -/
def readVolumeHeaderWith (C : Ciphers) (recoveryMode : Bool) (encryptedHeader dk : Bytes)
    (ea : Nat) : Except Status (Option CryptoInfo) :=
  match decryptBuffer C (eaInit ea dk (dk.drop (eaGetKeySize ea)))
      (slice encryptedHeader headerEncryptedDataOffset headerEncryptedDataSize) with
  | none => .error .fatal
  | some decrypted =>
    readDecryptedHeader recoveryMode ea
      (slice encryptedHeader 0 headerEncryptedDataOffset ++ decrypted)

/-! ## Writing (`CreateVolumeHeaderInMemory`) -/

/-- The arguments that reach the header, and what the random number generator gives. The three
    buffers have fixed sizes. -/
structure HeaderRequest where
  ea : Nat
  /-- `masterKeydata`; `none` draws new keys. -/
  masterKeydata : Option Bytes
  volumeSize : UInt64
  hiddenVolumeSize : UInt64
  encryptedAreaStart : UInt64
  encryptedAreaLength : UInt64
  requiredProgramVersion : UInt16
  headerFlags : UInt32
  sectorSize : UInt32
  salt : Bytes
  /-- `keyInfo.master_keydata` behind the draw: the new keys, and what the buffer held. -/
  drawn : Bytes
  length_masterKeydata : ∀ k ∈ masterKeydata, k.length = masterKeydataSize
  length_salt : salt.length = pkcs5SaltSize
  length_drawn : drawn.length = masterKeydataSize

/-- The master key data a request ends up with. -/
def HeaderRequest.keydata (r : HeaderRequest) : Bytes := r.masterKeydata.getD r.drawn

/-- `TC_VOLUME_MIN_REQUIRED_PROGRAM_VERSION`. -/
def volumeMinRequiredProgramVersion : UInt16 := 0x010b

/-- What is written behind the salt up to the header checksum, in the order of the running
    pointer; the buffer was zero before. -/
def headerParts (r : HeaderRequest) : List Bytes :=
  [beBytes 4 headerMagicNumber.toNat, beBytes 2 volumeHeaderVersion.toNat,
    beBytes 2 (if r.requiredProgramVersion ≠ 0 then r.requiredProgramVersion
      else volumeMinRequiredProgramVersion).toNat,
    beBytes 4 (getCrc32 r.keydata).toNat, List.replicate (2 * 8) 0,
    beBytes 8 r.hiddenVolumeSize.toNat, beBytes 8 r.volumeSize.toNat,
    beBytes 8 r.encryptedAreaStart.toNat, beBytes 8 r.encryptedAreaLength.toNat,
    beBytes 4 r.headerFlags.toNat, beBytes 4 r.sectorSize.toNat, List.replicate 120 0]

/-- The header behind its salt before it is encrypted. -/
def headerPlaintext (r : HeaderRequest) : Bytes :=
  (headerParts r).flatten ++
    (beBytes 4 (getCrc32 (headerParts r).flatten).toNat ++ r.keydata)

/-- `CreateVolumeHeaderInMemory`. New keys whose halves are the same are refused. -/
def createVolumeHeaderInMemory (C : Ciphers) (r : HeaderRequest) (dk : Bytes) :
    Except Status Bytes :=
  if r.masterKeydata = none ∧ slice r.drawn 0 (eaGetKeySize r.ea) =
      slice r.drawn (eaGetKeySize r.ea) (eaGetKeySize r.ea) then .error .cipherInitWeakKey
  else if r.sectorSize < 512 ∨ 4096 < r.sectorSize ∨ r.sectorSize % 512 ≠ 0 then .error .fatal
  else
    match encryptBuffer C (eaInit r.ea dk (dk.drop (eaGetKeySize r.ea))) (headerPlaintext r) with
    | none => .error .fatal
    | some encrypted => .ok (r.salt ++ encrypted)

end Common

end VeraCrypt
