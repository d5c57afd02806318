import VeraCrypt.Volume.EncryptionModeXTS
import VeraCrypt.Platform.File

/-!
# The volume header (`Volume/VolumeHeader.cpp`)

A header is a 64-byte salt and an encrypted part. `Deserialize` accepts a decrypted part by its
magic and its two checksums and reads the fields; `Serialize` writes them. A keyslot carries
the first 448 bytes of the decrypted part, which is all that `Deserialize` reads, and
`RebuildFromKeyslot` pads them with zeros again.

Key derivation and the mixing in of a hardware factor are parameters (`KeyDerivation`).
-/

set_option autoImplicit false

namespace VeraCrypt

open Lib

/-! ## Constants -/

def currentHeaderVersion : UInt16 := 5
def minAllowedHeaderVersion : UInt16 := 1
/-- `VERSION_NUM`. -/
def versionNumber : UInt16 := 0x0126

def saltSize : Nat := 64
def encryptedHeaderDataOffset : Nat := saltSize
def dataKeyAreaMaxSize : Nat := 256
def dataAreaKeyOffset : Nat := dataKeyAreaMaxSize - encryptedHeaderDataOffset
/-- `TC_HEADER_OFFSET_HEADER_CRC - TC_HEADER_OFFSET_MAGIC`. -/
def headerCrcOffset : Nat := 252 - 64
/-- `GetKeyslotPayloadSize`. -/
def keyslotPayloadSize : Nat := dataAreaKeyOffset + dataKeyAreaMaxSize
/-- `GetHeaderKeyDerivationSize`, the same for every function offered. -/
def headerKeyDerivationSize : Nat := 192

inductive VolumeType where
  | unknown | normal | hidden
  deriving DecidableEq

/-! ## CRC-32 (`Common/Crc.c`) -/

/-- One bit of the reflected division that entry `i` of `crc_32_tab` tabulates. -/
def crc32Bit (c : UInt32) : UInt32 :=
  if c &&& 1 = 1 then (c >>> 1) ^^^ 0xedb88320 else c >>> 1

def crc32Tab (i : UInt32) : UInt32 :=
  crc32Bit (crc32Bit (crc32Bit (crc32Bit (crc32Bit (crc32Bit (crc32Bit (crc32Bit i)))))))

def getCrc32 (data : Bytes) : UInt32 :=
  let crc : UInt32 :=
    data.foldl (fun crc b => (crc >>> 8) ^^^ crc32Tab ((crc ^^^ b.toUInt32) &&& 0xff)) 0xffffffff
  crc ^^^ 0xffffffff

/-! ## Key derivation -/

inductive Pkcs5Kdf where
  | hmacSha512 | hmacSha256 | hmacBlake2s | hmacWhirlpool | hmacStreebog | hmacSha3_512
  | argon2 | hmacBlake2b | hmacSha256Boot | hmacBlake2sBoot
  deriving DecidableEq

/-- `GetName`: a boot variant has the name of the function it varies. -/
def Pkcs5Kdf.getName : Pkcs5Kdf → String
  | .hmacSha512 => "HMAC-SHA-512"
  | .hmacSha256 | .hmacSha256Boot => "HMAC-SHA-256"
  | .hmacBlake2s | .hmacBlake2sBoot => "HMAC-BLAKE2s-256"
  | .hmacWhirlpool => "HMAC-Whirlpool"
  | .hmacStreebog => "HMAC-Streebog"
  | .hmacSha3_512 => "HMAC-SHA3-512"
  | .argon2 => "Argon2"
  | .hmacBlake2b => "HMAC-BLAKE2b-512"

/-- `Pkcs5Kdf::GetAvailableAlgorithms`; Balloon is off in a default build. -/
def getAvailableKdfs : List Pkcs5Kdf :=
  [.hmacSha512, .hmacSha256, .hmacBlake2s, .hmacWhirlpool, .hmacStreebog, .hmacSha3_512,
    .argon2, .hmacBlake2b]

/-- What the header code asks of `Pkcs5Kdf.cpp`, of the hardware factor and of the thread
    pool. -/
structure KeyDerivation where
  /-- `DeriveKey` into a buffer of the size given; `none` is a non-zero result. -/
  deriveKey : Pkcs5Kdf → (password : Bytes) → (pim : Int) → (salt : Bytes) → Option Bytes
  /-- The passwords to try for a salt: the one given, or its mixes with the token's response;
      `none` when the token fails. -/
  effectivePasswords : (password salt : Bytes) → Option (List Bytes)
  /-- `HKFShouldApply`, for a layout that is hidden or not. -/
  hkfShouldApply : (layoutIsHidden : Bool) → Bool
  /-- The order in which the derivations of a pass complete. -/
  completionOrder : List Pkcs5Kdf → List Pkcs5Kdf
  perm_completionOrder : ∀ l, (completionOrder l).Perm l

/-! ## The decrypted part -/

/-- The sector sizes a header may carry. -/
def SectorSizeValid (s : UInt32) : Prop := 512 ≤ s ∧ s ≤ 4096 ∧ s % 512 = 0

instance (s : UInt32) : Decidable (SectorSizeValid s) :=
  inferInstanceAs (Decidable (512 ≤ s ∧ s ≤ 4096 ∧ s % 512 = 0))

/-- A header that has been decrypted, or rebuilt from a keyslot. -/
structure VolumeHeader where
  headerSize : Nat
  /-- The algorithm the header was opened with, holding the master keys. -/
  ea : EncryptionAlgorithm
  pkcs5 : Pkcs5Kdf
  headerVersion : UInt16
  requiredMinProgramVersion : UInt16
  volumeKeyAreaCrc32 : UInt32
  volumeCreationTime : UInt64
  headerCreationTime : UInt64
  volumeType : VolumeType
  hiddenVolumeDataSize : UInt64
  volumeDataSize : UInt64
  encryptedAreaStart : UInt64
  encryptedAreaLength : UInt64
  flags : UInt32
  sectorSize : UInt32
  sectorSize_valid : SectorSizeValid sectorSize
  dataAreaKey : Bytes
  xtsKeyVulnerable : Bool
  effectivePlaintext : Bytes

def headerMagic : Bytes := [0x56, 0x45, 0x52, 0x41]

def entry16 (header : Bytes) (offset : Nat) : UInt16 :=
  UInt16.ofNat (beNat (slice header offset 2))
def entry32 (header : Bytes) (offset : Nat) : UInt32 :=
  UInt32.ofNat (beNat (slice header offset 4))
def entry64 (header : Bytes) (offset : Nat) : UInt64 :=
  UInt64.ofNat (beNat (slice header offset 8))

/-- The sector size a decrypted part states: fixed before version 5. -/
def statedSectorSize (header : Bytes) : UInt32 :=
  if entry16 header 4 < 5 then 512 else entry32 header 64

/-- `VolumeHeader::Deserialize` of a decrypted part under the algorithm that decrypted it;
    `none` is `false`. -/
def deserialize (headerSize : Nat) (header : Bytes) (ea : AlgorithmId) (pkcs5 : Pkcs5Kdf) :
    Except Exception (Option VolumeHeader) :=
  if header.length ≠ headerSize - encryptedHeaderDataOffset then .error .parameterIncorrect
  else if slice header 0 4 ≠ headerMagic then .ok none
  else if entry16 header 4 < minAllowedHeaderVersion then .ok none
  else if currentHeaderVersion < entry16 header 4 then .error .higherVersionRequired
  else if 4 ≤ entry16 header 4 ∧
      getCrc32 (slice header 0 headerCrcOffset) ≠ entry32 header headerCrcOffset then .ok none
  else if versionNumber < entry16 header 6 then .error .higherVersionRequired
  else if hs : SectorSizeValid (statedSectorSize header) then
    if entry32 header 8 ≠ getCrc32 (slice header dataAreaKeyOffset dataKeyAreaMaxSize) then
      .ok none
    else
      let keySize := ea.getKeySize
      let key := slice header dataAreaKeyOffset keySize
      let secondaryKey := slice header (dataAreaKeyOffset + keySize) keySize
      .ok (some
        { headerSize := headerSize
          ea := { algorithm := ea, key := key, secondaryKey := secondaryKey, sectorOffset := 0 }
          pkcs5 := pkcs5
          headerVersion := entry16 header 4
          requiredMinProgramVersion := entry16 header 6
          volumeKeyAreaCrc32 := entry32 header 8
          volumeCreationTime := entry64 header 12
          headerCreationTime := entry64 header 20
          hiddenVolumeDataSize := entry64 header 28
          volumeType := if entry64 header 28 ≠ 0 then .hidden else .normal
          volumeDataSize := entry64 header 36
          encryptedAreaStart := entry64 header 44
          encryptedAreaLength := entry64 header 52
          flags := entry32 header 60
          sectorSize := statedSectorSize header
          sectorSize_valid := hs
          dataAreaKey := slice header dataAreaKeyOffset dataKeyAreaMaxSize
          xtsKeyVulnerable := secondaryKey = key
          effectivePlaintext :=
            if keyslotPayloadSize ≤ header.length then slice header 0 keyslotPayloadSize
            else [] })
  else .error .parameterIncorrect

/-- `RebuildFromKeyslot`: the payload padded to the size of an encrypted part. -/
def rebuildFromKeyslot (headerSize : Nat) (plaintext : Bytes) (ea : AlgorithmId)
    (kdf : Pkcs5Kdf) : Except Exception (Option VolumeHeader) :=
  if plaintext.length ≠ keyslotPayloadSize then .ok none
  else
    deserialize headerSize
      (plaintext ++ List.replicate
        (headerSize - encryptedHeaderDataOffset - keyslotPayloadSize) 0) ea kdf

/-! ## Decryption -/

/-- The first success of a list of trials; an exception ends the search. -/
def firstM {α β : Type} (f : α → Except Exception (Option β)) :
    List α → Except Exception (Option β)
  | [] => .ok none
  | a :: as =>
    match f a with
    | .error e => .error e
    | .ok (some b) => .ok (some b)
    | .ok none => firstM f as

theorem firstM_some {α β : Type} {f : α → Except Exception (Option β)} {l : List α} {b : β}
    (h : firstM f l = .ok (some b)) : ∃ a ∈ l, f a = .ok (some b) := by
  induction l with
  | nil => exact absurd h (by simp [firstM])
  | cons a as ih =>
    unfold firstM at h
    split at h
    · exact absurd h (by simp)
    · rename_i b' hb
      rw [← h]
      exact ⟨a, List.mem_cons_self, hb⟩
    · obtain ⟨a', hmem, ha'⟩ := ih h
      exact ⟨a', List.mem_cons_of_mem a hmem, ha'⟩

theorem firstM_none {α β : Type} {f : α → Except Exception (Option β)} {l : List α}
    (h : ∀ a ∈ l, f a = .ok none) : firstM f l = .ok none := by
  induction l with
  | nil => rfl
  | cons a as ih =>
    rw [firstM, h a List.mem_cons_self]
    exact ih (fun a' hmem => h a' (List.mem_cons_of_mem a hmem))

/-- An algorithm keyed from the derived header key: the first part keys the ciphers, the second
    the mode. -/
def headerAlgorithm (a : AlgorithmId) (headerKey : Bytes) : EncryptionAlgorithm where
  algorithm := a
  key := slice headerKey 0 a.getKeySize
  secondaryKey := slice headerKey a.getKeySize a.getKeySize
  sectorOffset := 0

/-- One trial of `DecryptWithHeaderKey`: decrypt the encrypted part under an algorithm keyed
    from the derived key, and deserialize. -/
def decryptWithAlgorithm (C : Ciphers) (headerSize : Nat) (encryptedData headerKey : Bytes)
    (pkcs5 : Pkcs5Kdf) (a : AlgorithmId) : Except Exception (Option VolumeHeader) :=
  if headerKey.length < a.getKeySize * 2 then .ok none
  else
    match (headerAlgorithm a headerKey).decryptBuffer C
        (slice encryptedData encryptedHeaderDataOffset
          (headerSize - encryptedHeaderDataOffset)) 0 with
    | none => .error .fatal
    | some header => deserialize headerSize header a pkcs5

/-- `DecryptWithHeaderKey`; the one mode there is is XTS. -/
def decryptWithHeaderKey (C : Ciphers) (headerSize : Nat) (encryptedData headerKey : Bytes)
    (pkcs5 : Pkcs5Kdf) (algorithms : List AlgorithmId) :
    Except Exception (Option VolumeHeader) :=
  firstM (decryptWithAlgorithm C headerSize encryptedData headerKey pkcs5) algorithms

/-- `DecryptWithEffectivePassword`. A derivation that fails is skipped in a search over all
    functions and is an error for the one function asked for. -/
def decryptWithEffectivePassword (C : Ciphers) (K : KeyDerivation) (headerSize : Nat)
    (encryptedData password : Bytes) (pim : Int) (kdf : Option Pkcs5Kdf)
    (kdfs : List Pkcs5Kdf) (algorithms : List AlgorithmId) :
    Except Exception (Option VolumeHeader) :=
  let salt := slice encryptedData 0 saltSize
  match kdf with
  | none =>
    firstM (fun p =>
      match K.deriveKey p password pim salt with
      | none => .ok none
      | some headerKey => decryptWithHeaderKey C headerSize encryptedData headerKey p algorithms)
      (K.completionOrder kdfs)
  | some asked =>
    firstM (fun p =>
      match K.deriveKey p password pim salt with
      | none => .error .externalException
      | some headerKey => decryptWithHeaderKey C headerSize encryptedData headerKey p algorithms)
      (kdfs.filter (fun p => p.getName = asked.getName))

/-- `VolumeHeader::Decrypt`. -/
def decryptHeader (C : Ciphers) (K : KeyDerivation) (headerSize : Nat)
    (encryptedData password : Bytes) (pim : Int) (kdf : Option Pkcs5Kdf)
    (kdfs : List Pkcs5Kdf) (algorithms : List AlgorithmId) (applyHardwareFactor : Bool) :
    Except Exception (Option VolumeHeader) :=
  if password.length < 1 then .error .passwordEmpty
  else if applyHardwareFactor then
    match K.effectivePasswords password (slice encryptedData 0 saltSize) with
    | none => .error .externalException
    | some passwords =>
      firstM (fun p => decryptWithEffectivePassword C K headerSize encryptedData p pim kdf kdfs
        algorithms) passwords
  else decryptWithEffectivePassword C K headerSize encryptedData password pim kdf kdfs algorithms

/-- **Where a header comes from**: a decrypted part that was accepted, under one of the
    algorithms tried. -/
theorem decryptHeader_some {C : Ciphers} {K : KeyDerivation} {headerSize : Nat}
    {encryptedData password : Bytes} {pim : Int} {kdf : Option Pkcs5Kdf} {kdfs : List Pkcs5Kdf}
    {algorithms : List AlgorithmId} {applyHardwareFactor : Bool} {h : VolumeHeader}
    (hd : decryptHeader C K headerSize encryptedData password pim kdf kdfs algorithms
      applyHardwareFactor = .ok (some h)) :
    ∃ part a pkcs5, a ∈ algorithms ∧ deserialize headerSize part a pkcs5 = .ok (some h) := by
  have hkey : ∀ headerKey p,
      decryptWithHeaderKey C headerSize encryptedData headerKey p algorithms = .ok (some h) →
      ∃ part a pkcs5, a ∈ algorithms ∧ deserialize headerSize part a pkcs5 = .ok (some h) := by
    intro headerKey p hp
    obtain ⟨a, hmem, ha⟩ := firstM_some hp
    unfold decryptWithAlgorithm at ha
    split at ha
    · exact absurd ha (by simp)
    · split at ha
      · exact absurd ha (by simp)
      · rename_i part _
        exact ⟨part, a, p, hmem, ha⟩
  have hpass : ∀ pw,
      decryptWithEffectivePassword C K headerSize encryptedData pw pim kdf kdfs algorithms =
        .ok (some h) →
      ∃ part a pkcs5, a ∈ algorithms ∧ deserialize headerSize part a pkcs5 = .ok (some h) := by
    intro pw hpw
    unfold decryptWithEffectivePassword at hpw
    simp only at hpw
    split at hpw
    · obtain ⟨p, -, hp⟩ := firstM_some hpw
      split at hp
      · exact absurd hp (by simp)
      · exact hkey _ _ hp
    · obtain ⟨p, -, hp⟩ := firstM_some hpw
      split at hp
      · exact absurd hp (by simp)
      · exact hkey _ _ hp
  unfold decryptHeader at hd
  split at hd
  · exact absurd hd (by simp)
  · split at hd
    · split at hd
      · exact absurd hd (by simp)
      · obtain ⟨pw, -, hpw⟩ := firstM_some hd
        exact hpass pw hpw
    · exact hpass password hd

/-! ## Encryption -/

/-- The fields of `Serialize` up to the header checksum, in their order. The two times are
    written as zero. -/
def headerParts (h : VolumeHeader) : List Bytes :=
  [headerMagic, beBytes 2 currentHeaderVersion.toNat,
    beBytes 2 h.requiredMinProgramVersion.toNat, beBytes 4 (getCrc32 h.dataAreaKey).toNat,
    beBytes 8 0, beBytes 8 0, beBytes 8 h.hiddenVolumeDataSize.toNat,
    beBytes 8 h.volumeDataSize.toNat, beBytes 8 h.encryptedAreaStart.toNat,
    beBytes 8 h.encryptedAreaLength.toNat, beBytes 4 h.flags.toNat,
    beBytes 4 h.sectorSize.toNat, List.replicate 120 0]

def serializeFields (h : VolumeHeader) : Bytes := (headerParts h).flatten

/-- `VolumeHeader::Serialize` into a buffer of `size` bytes: everything behind the key area is
    zero. -/
def serialize (h : VolumeHeader) (size : Nat) : Bytes :=
  serializeFields h ++ (beBytes 4 (getCrc32 (serializeFields h)).toNat ++ (h.dataAreaKey ++
    List.replicate (size - keyslotPayloadSize) 0))

/-- `VolumeHeader::EncryptNew` into a buffer of `bufferSize` bytes: the new header. A key too
    short for the algorithm makes `GetRange` throw. -/
def encryptNew (C : Ciphers) (h : VolumeHeader) (bufferSize : Nat)
    (newSalt newHeaderKey : Bytes) : Except Exception Bytes :=
  if bufferSize ≠ h.headerSize ∨ newSalt.length ≠ saltSize then .error .parameterIncorrect
  else if newHeaderKey.length < h.ea.algorithm.getKeySize * 2 then .error .parameterIncorrect
  else
    match (headerAlgorithm h.ea.algorithm newHeaderKey).encryptBuffer C
        (serialize h (h.headerSize - encryptedHeaderDataOffset)) 0 with
    | none => .error .fatal
    | some headerData => .ok (newSalt ++ headerData)

/-- `CurrentRequiredMinProgramVersion`. -/
def currentRequiredMinProgramVersion : UInt16 := 0x010b

structure VolumeHeaderCreationOptions where
  ea : EncryptionAlgorithm
  kdf : Pkcs5Kdf
  type : VolumeType
  sectorSize : UInt32
  volumeDataStart : UInt64
  volumeDataSize : UInt64
  dataKey : Bytes
  salt : Bytes
  headerKey : Bytes

/-- The fields that `VolumeHeader::Create` sets. -/
def newHeader (headerSize : Nat) (options : VolumeHeaderCreationOptions)
    (hs : SectorSizeValid options.sectorSize) : VolumeHeader where
  headerSize := headerSize
  ea := options.ea
  pkcs5 := options.kdf
  headerVersion := currentHeaderVersion
  requiredMinProgramVersion := currentRequiredMinProgramVersion
  volumeKeyAreaCrc32 := 0
  volumeCreationTime := 0
  headerCreationTime := 0
  volumeType := .unknown
  hiddenVolumeDataSize := if options.type = .hidden then options.volumeDataSize else 0
  volumeDataSize := options.volumeDataSize
  encryptedAreaStart := options.volumeDataStart
  encryptedAreaLength := options.volumeDataSize
  flags := 0
  sectorSize := options.sectorSize
  sectorSize_valid := hs
  dataAreaKey := options.dataKey ++
    List.replicate (dataKeyAreaMaxSize - options.dataKey.length) 0
  xtsKeyVulnerable :=
    slice options.dataKey options.ea.algorithm.getKeySize options.ea.algorithm.getKeySize =
      slice options.dataKey 0 options.ea.algorithm.getKeySize
  effectivePlaintext := []

/-- `VolumeHeader::Create` into a buffer of the size of the header. -/
def createHeader (C : Ciphers) (headerSize : Nat) (options : VolumeHeaderCreationOptions) :
    Except Exception (VolumeHeader × Bytes) :=
  if options.dataKey.length ≠ options.ea.algorithm.getKeySize * 2 ∨
      options.salt.length ≠ saltSize then .error .parameterIncorrect
  else if hs : SectorSizeValid options.sectorSize then
    match encryptNew C (newHeader headerSize options hs) headerSize options.salt
        options.headerKey with
    | .error e => .error e
    | .ok headerBuffer => .ok (newHeader headerSize options hs, headerBuffer)
  else .error .parameterIncorrect

end VeraCrypt
