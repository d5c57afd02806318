import VeraCrypt.Common.Volumes
import VeraCrypt.Volume.HeaderChecksums
import VeraCrypt.Volume.HeaderCrypt

/-!
# The two header codecs agree

The C code and the C++ code read a decrypted header in the same way: they accept the same
plaintexts, except that the C code takes the version 0 too, and what they read of one is the
same (`readDecryptedHeader_eq_some_iff`, `headersAgree`). They also write alike: behind the salt
the C plaintext is the C++ one (`headerPlaintext_eq_serialize`). So a header goes from either
side to the other (`headerCodecs_agree`).
-/

set_option autoImplicit false

namespace VeraCrypt

open Lib

/-! ## Algorithms -/

/-- The row of an algorithm in the table of `Crypto.c`. -/
def AlgorithmId.ea : AlgorithmId → Nat
  | .aes => 1
  | .serpent => 2
  | .twofish => 3
  | .camellia => 4
  | .kuznyechik => 5
  | .aesTwofish => 6
  | .aesTwofishSerpent => 7
  | .serpentAES => 8
  | .serpentTwofishAES => 9
  | .twofishSerpent => 10
  | .camelliaKuznyechik => 11
  | .kuznyechikTwofish => 12
  | .camelliaSerpent => 13
  | .kuznyechikAES => 14
  | .kuznyechikSerpentCamellia => 15

namespace Common

@[simp] theorem eaCiphers_ea (a : AlgorithmId) : eaCiphers a.ea = a.ciphers := by
  cases a <;> rfl

/-- Every row of the table but the zero ones is an algorithm of the C++ code. -/
theorem exists_ea {ea : Nat} (h : eaCiphers ea ≠ []) : ∃ a : AlgorithmId, a.ea = ea := by
  have hlt : ea < 17 := by
    by_contra hge
    refine h ?_
    rw [eaCiphers, List.getD_eq_getElem?_getD, List.getElem?_eq_none (Nat.not_lt.mp hge)]
    rfl
  have hall : ∀ i < 17, eaCiphers i ≠ [] → ∃ a ∈ getAvailableAlgorithms, a.ea = i := by decide
  obtain ⟨a, -, ha⟩ := hall ea hlt h
  exact ⟨a, ha⟩

@[simp] theorem eaGetKeySize_ea (a : AlgorithmId) : eaGetKeySize a.ea = a.getKeySize := by
  cases a <;> rfl

/-- The schedule cut from two key buffers is that of the C++ algorithm whose keys begin them. -/
theorem eaInit_eq_keyed {a : AlgorithmId} {key key2 : Bytes} {o : UInt64} :
    eaInit a.ea key key2 =
      EncryptionAlgorithm.keyed
        { algorithm := a, key := slice key 0 a.getKeySize,
          secondaryKey := slice key2 0 a.getKeySize, sectorOffset := o } := by
  rw [eaInit, EncryptionAlgorithm.keyed, eaCiphers_ea]
  apply List.ext_getElem?
  intro i
  rw [List.getElem?_mapIdx, List.getElem?_mapIdx]
  cases hc : a.ciphers[i]? with
  | none => rfl
  | some c =>
    have hi : i < a.ciphers.length := (List.getElem?_eq_some_iff.mp hc).1
    have hin : i * cipherKeySize + cipherKeySize ≤ a.getKeySize := by
      have hmul := Nat.mul_le_mul_right cipherKeySize (Nat.succ_le_of_lt hi)
      rw [Nat.succ_mul] at hmul
      exact hmul
    simp only [Option.map_some, slice_slice hin, Nat.zero_add]

theorem slice_drop {xs : Bytes} {k off n : Nat} : slice (xs.drop k) off n = slice xs (k + off) n := by
  rw [slice, slice, List.drop_drop]

/-- The header key makes the same schedule on both sides. -/
theorem eaInit_eq_headerAlgorithm (a : AlgorithmId) (dk : Bytes) :
    eaInit a.ea dk (dk.drop (eaGetKeySize a.ea)) = (headerAlgorithm a dk).keyed := by
  rw [eaInit_eq_keyed (o := 0), headerAlgorithm, eaGetKeySize_ea, slice_drop, Nat.add_zero]

theorem encryptBuffer_eq (C : Ciphers) (a : AlgorithmId) (dk buf : Bytes) :
    encryptBuffer C (eaInit a.ea dk (dk.drop (eaGetKeySize a.ea))) buf =
      (headerAlgorithm a dk).encryptBuffer C buf 0 := by
  rw [eaInit_eq_headerAlgorithm]
  rfl

theorem decryptBuffer_eq (C : Ciphers) (a : AlgorithmId) (dk buf : Bytes) :
    decryptBuffer C (eaInit a.ea dk (dk.drop (eaGetKeySize a.ea))) buf =
      (headerAlgorithm a dk).decryptBuffer C buf 0 := by
  rw [eaInit_eq_headerAlgorithm]
  rfl

/-! ## Reading -/

section

variable {salt p : Bytes} (hsalt : salt.length = pkcs5SaltSize)

include hsalt

theorem slice_behind_salt {off n : Nat} (o : Nat) (ho : off = 64 + o) :
    slice (salt ++ p) off n = slice p o n := by
  have hs : salt.length = 64 := hsalt
  rw [slice_append_right (by omega), hs, ho, Nat.add_sub_cancel_left]

theorem getHeaderField16_behind_salt {off : Nat} (o : Nat) (ho : off = 64 + o) :
    getHeaderField16 (salt ++ p) off = entry16 p o := by
  rw [getHeaderField16, slice_behind_salt hsalt o ho, entry16]

theorem getHeaderField32_behind_salt {off : Nat} (o : Nat) (ho : off = 64 + o) :
    getHeaderField32 (salt ++ p) off = entry32 p o := by
  rw [getHeaderField32, slice_behind_salt hsalt o ho, entry32]

theorem getHeaderField64_behind_salt {off : Nat} (o : Nat) (ho : off = 64 + o) :
    getHeaderField64 (salt ++ p) off = entry64 p o := by
  rw [getHeaderField64, slice_behind_salt hsalt o ho, entry64]

theorem headerSectorSize_behind_salt : headerSectorSize (salt ++ p) = statedSectorSize p := by
  rw [headerSectorSize, statedSectorSize,
    getHeaderField16_behind_salt hsalt 4 (show headerOffsetVersion = 64 + 4 from rfl),
    getHeaderField32_behind_salt hsalt 64 (show headerOffsetSectorSize = 64 + 64 from rfl)]
  by_cases h : entry16 p 4 < 5
  · rw [if_pos h, if_neg (UInt16.not_le.mpr h)]
  · rw [if_neg h, if_pos (UInt16.not_lt.mp h)]

end

/-- The magic number is the four letters. -/
theorem magic_iff {p : Bytes} (hp : 4 ≤ p.length) :
    entry32 p 0 = headerMagicNumber ↔ slice p 0 4 = headerMagic := by
  have hlen : (slice p 0 4).length = 4 := length_slice (by omega)
  constructor
  · intro h
    have hlt := beNat_lt (slice p 0 4)
    rw [hlen] at hlt
    have hn : beNat (slice p 0 4) = 0x56455241 := by
      have h' := congrArg UInt32.toNat h
      rw [entry32, UInt32.toNat_ofNat'] at h'
      exact (Nat.mod_eq_of_lt hlt).symm.trans h'
    have hback := beBytes_beNat hlen
    rw [hn] at hback
    exact hback.symm
  · intro h
    rw [entry32, h]
    rfl

/-- The two ways to write the check of the sector size. -/
theorem sectorSizeValid_iff (s : UInt32) :
    SectorSizeValid s ↔ ¬ (s < 512 ∨ 4096 < s ∨ s % 512 ≠ 0) := by
  unfold SectorSizeValid
  rw [not_or, not_or, not_not, UInt32.not_lt, UInt32.not_lt]

/-- What the C code reads of a plaintext. -/
def statedInfo (ea : Nat) (p : Bytes) : CryptoInfo where
  ea := ea
  schedule := eaInit ea (slice p dataAreaKeyOffset dataKeyAreaMaxSize)
    ((slice p dataAreaKeyOffset dataKeyAreaMaxSize).drop (eaGetKeySize ea))
  masterKeydata := slice p dataAreaKeyOffset dataKeyAreaMaxSize
  k2 := slice (slice p dataAreaKeyOffset dataKeyAreaMaxSize) (eaGetKeySize ea) (eaGetKeySize ea)
  headerVersion := entry16 p 4
  requiredProgramVersion := entry16 p 6
  legacyVolume := entry16 p 6 < 0x10b
  hiddenVolumeSize := entry64 p 28
  hiddenVolume := entry64 p 28 ≠ 0
  volumeSize := entry64 p 36
  encryptedAreaStart := entry64 p 44
  encryptedAreaLength := entry64 p 52
  headerFlags := entry32 p 60
  sectorSize := statedSectorSize p
  bVulnerableMasterKey :=
    slice (slice p dataAreaKeyOffset dataKeyAreaMaxSize) 0 (eaGetKeySize ea) =
      slice (slice p dataAreaKeyOffset dataKeyAreaMaxSize) (eaGetKeySize ea) (eaGetKeySize ea)

theorem statedInfo_of_front_eq (ea : Nat) {b c : Bytes}
    (h : slice b 0 keyslotPayloadSize = slice c 0 keyslotPayloadSize) :
    statedInfo ea b = statedInfo ea c := by
  have hfields := statedFields_of_front_eq h
  have hkey := congrArg HeaderFields.dataAreaKey hfields
  have hversion := congrArg HeaderFields.headerVersion hfields
  have hrequired := congrArg HeaderFields.requiredMinProgramVersion hfields
  have hhidden := congrArg HeaderFields.hiddenVolumeDataSize hfields
  have hsize := congrArg HeaderFields.volumeDataSize hfields
  have hstart := congrArg HeaderFields.encryptedAreaStart hfields
  have hlength := congrArg HeaderFields.encryptedAreaLength hfields
  have hflags := congrArg HeaderFields.flags hfields
  have hsector := congrArg HeaderFields.sectorSize hfields
  simp only [statedFields] at hkey hversion hrequired hhidden hsize hstart hlength hflags hsector
  rw [statedInfo, statedInfo, hkey, hversion, hrequired, hhidden, hsize, hstart, hlength, hflags,
    hsector]

/-- **The C code accepts what the C++ code accepts**, of the versions from the C++ minimum on. -/
theorem readDecryptedHeader_eq_some_iff {salt p : Bytes} {ea : Nat} {info : CryptoInfo}
    (hsalt : salt.length = pkcs5SaltSize) (hp : keyslotPayloadSize ≤ p.length)
    (hver : minAllowedHeaderVersion ≤ entry16 p 4) :
    readDecryptedHeader false ea (salt ++ p) = .ok (some info) ↔
      HeaderAccepted p ∧ info = statedInfo ea p := by
  have hmagic := magic_iff (Nat.le_trans (by decide) hp)
  have hcrcpart : slice (salt ++ p) headerOffsetMagic
      (headerOffsetHeaderCrc - headerOffsetMagic) = slice p 0 headerCrcOffset :=
    slice_behind_salt hsalt 0 rfl
  have hkeypart : slice (salt ++ p) headerMasterKeydataOffset masterKeydataSize =
      slice p dataAreaKeyOffset dataKeyAreaMaxSize := slice_behind_salt hsalt 192 rfl
  unfold readDecryptedHeader
  rw [getHeaderField32_behind_salt hsalt 0 (show headerOffsetMagic = 64 + 0 from rfl),
    getHeaderField16_behind_salt hsalt 4 (show headerOffsetVersion = 64 + 4 from rfl),
    getHeaderField16_behind_salt hsalt 6 (show headerOffsetRequiredVersion = 64 + 6 from rfl),
    getHeaderField32_behind_salt hsalt 8 (show headerOffsetKeyAreaCrc = 64 + 8 from rfl),
    getHeaderField32_behind_salt hsalt headerCrcOffset
      (show headerOffsetHeaderCrc = 64 + headerCrcOffset from rfl),
    getHeaderField64_behind_salt hsalt 28 (show headerOffsetHiddenVolumeSize = 64 + 28 from rfl),
    getHeaderField64_behind_salt hsalt 36 (show headerOffsetVolumeSize = 64 + 36 from rfl),
    getHeaderField64_behind_salt hsalt 44 (show headerOffsetEncryptedAreaStart = 64 + 44 from rfl),
    getHeaderField64_behind_salt hsalt 52 (show headerOffsetEncryptedAreaLength = 64 + 52 from rfl),
    getHeaderField32_behind_salt hsalt 60 (show headerOffsetFlags = 64 + 60 from rfl),
    headerSectorSize_behind_salt hsalt, hcrcpart, hkeypart]
  constructor
  · intro h
    split at h
    · cases h
    rename_i hm
    split at h
    · cases h
    rename_i hmax
    split at h
    · cases h
    rename_i hcrc
    split at h
    · cases h
    rename_i hkey
    split at h
    · cases h
    rename_i hreq
    split at h
    · cases h
    rename_i hsector
    refine ⟨⟨hmagic.mp (not_not.mp hm), hver, UInt16.not_lt.mp hmax, ?_, UInt16.not_lt.mp hreq,
      (sectorSizeValid_iff _).mpr hsector, ?_⟩, ?_⟩
    · intro hfour
      by_contra hne
      exact hcrc ⟨rfl, hfour, fun h => hne h.symm⟩
    · by_contra hne
      exact hkey ⟨rfl, hne⟩
    · cases h
      rfl
  · rintro ⟨hb, rfl⟩
    have hmax : ¬ volumeHeaderVersion < entry16 p 4 := UInt16.not_lt.mpr hb.maxVersion
    rw [if_neg (not_not.mpr (hmagic.mpr hb.magic)), if_neg hmax,
      if_neg (fun hbad => hbad.2.2 (hb.crc hbad.2.1).symm),
      if_neg (fun hbad => hbad.2 hb.keyCrc), if_neg (UInt16.not_lt.mpr hb.required),
      if_neg ((sectorSizeValid_iff _).mp hb.sectorSize)]
    rfl

/-- What has to be the same in the two readings of one header. -/
structure HeadersAgree (info : CryptoInfo) (h : VolumeHeader) : Prop where
  headerVersion : info.headerVersion = h.headerVersion
  requiredVersion : info.requiredProgramVersion = h.requiredMinProgramVersion
  hiddenVolumeSize : info.hiddenVolumeSize = h.hiddenVolumeDataSize
  hiddenVolume : info.hiddenVolume = true ↔ h.volumeType = .hidden
  volumeSize : info.volumeSize = h.volumeDataSize
  encryptedAreaStart : info.encryptedAreaStart = h.encryptedAreaStart
  encryptedAreaLength : info.encryptedAreaLength = h.encryptedAreaLength
  flags : info.headerFlags = h.flags
  sectorSize : info.sectorSize = h.sectorSize
  masterKeys : info.masterKeydata = h.dataAreaKey
  schedule : info.schedule = h.ea.keyed
  secondaryKey : info.k2 = h.ea.secondaryKey
  vulnerable : info.bVulnerableMasterKey = h.xtsKeyVulnerable

theorem headersAgree_statedInfo {n : Nat} {p : Bytes} {a : AlgorithmId} {pkcs5 : Pkcs5Kdf}
    {h : VolumeHeader} (hd : deserialize n p a pkcs5 = .ok (some h)) :
    HeadersAgree (statedInfo a.ea p) h := by
  have hks := getKeySize_le a
  have hfields := (deserialize_accepted hd).2
  have hkey : slice p dataAreaKeyOffset a.getKeySize =
      slice (slice p dataAreaKeyOffset dataKeyAreaMaxSize) 0 a.getKeySize := by
    rw [slice_slice (by omega), Nat.add_zero]
  have hsecondary : slice p (dataAreaKeyOffset + a.getKeySize) a.getKeySize =
      slice (slice p dataAreaKeyOffset dataKeyAreaMaxSize) a.getKeySize a.getKeySize :=
    (slice_slice (by omega)).symm
  obtain ⟨htype, hea, hvuln⟩ := deserialize_derived hd
  refine
    { headerVersion := (congrArg HeaderFields.headerVersion hfields).symm
      requiredVersion := (congrArg HeaderFields.requiredMinProgramVersion hfields).symm
      hiddenVolumeSize := (congrArg HeaderFields.hiddenVolumeDataSize hfields).symm
      hiddenVolume := ?_
      volumeSize := (congrArg HeaderFields.volumeDataSize hfields).symm
      encryptedAreaStart := (congrArg HeaderFields.encryptedAreaStart hfields).symm
      encryptedAreaLength := (congrArg HeaderFields.encryptedAreaLength hfields).symm
      flags := (congrArg HeaderFields.flags hfields).symm
      sectorSize := (congrArg HeaderFields.sectorSize hfields).symm
      masterKeys := (congrArg HeaderFields.dataAreaKey hfields).symm
      schedule := ?_
      secondaryKey := ?_
      vulnerable := ?_ }
  · show decide (entry64 p 28 ≠ 0) = true ↔ _
    rw [decide_eq_true_iff, htype]
    by_cases h0 : entry64 p 28 ≠ 0
    · rw [if_pos h0]
      exact ⟨fun _ => rfl, fun _ => h0⟩
    · rw [if_neg h0]
      exact ⟨fun hne => absurd hne h0, fun heq => absurd heq (by decide)⟩
  · show eaInit a.ea _ _ = _
    rw [eaInit_eq_keyed (o := 0), eaGetKeySize_ea, slice_drop, Nat.add_zero, hea, hkey, hsecondary]
  · show slice _ (eaGetKeySize a.ea) (eaGetKeySize a.ea) = _
    rw [eaGetKeySize_ea, hea, hsecondary]
  · show decide _ = _
    rw [eaGetKeySize_ea, hvuln, hkey, hsecondary]
    exact decide_eq_decide.mpr eq_comm

/-- **One side accepts a plaintext if and only if the other does, and they read the same.** The
    C++ code reads it with whatever stands behind. -/
theorem headersAgree_of_plaintext {salt p tail : Bytes} {n : Nat} (a : AlgorithmId)
    (pkcs5 : Pkcs5Kdf) (hsalt : salt.length = pkcs5SaltSize) (hp : p.length = keyslotPayloadSize)
    (hlen : (p ++ tail).length = n - encryptedHeaderDataOffset)
    (hver : minAllowedHeaderVersion ≤ entry16 p 4) :
    ((∃ info, readDecryptedHeader false a.ea (salt ++ p) = .ok (some info)) ↔
      ∃ h, deserialize n (p ++ tail) a pkcs5 = .ok (some h)) ∧
    ∀ info h, readDecryptedHeader false a.ea (salt ++ p) = .ok (some info) →
      deserialize n (p ++ tail) a pkcs5 = .ok (some h) → HeadersAgree info h := by
  have hfront : slice (p ++ tail) 0 keyslotPayloadSize = slice p 0 keyslotPayloadSize :=
    slice_append_left (by omega)
  have hstated : statedInfo a.ea p = statedInfo a.ea (p ++ tail) :=
    statedInfo_of_front_eq a.ea hfront.symm
  constructor
  · constructor
    · rintro ⟨info, hread⟩
      have hb := ((readDecryptedHeader_eq_some_iff hsalt hp.ge hver).mp hread).1
      exact deserialize_of_headerAccepted a pkcs5 hlen (hb.of_front_eq hfront.symm)
    · rintro ⟨h, hd⟩
      have hb := (deserialize_accepted hd).1.of_front_eq hfront
      exact ⟨_, (readDecryptedHeader_eq_some_iff hsalt hp.ge hver).mpr ⟨hb, rfl⟩⟩
  · intro info h hread hd
    obtain ⟨-, rfl⟩ := (readDecryptedHeader_eq_some_iff hsalt hp.ge hver).mp hread
    rw [hstated]
    exact headersAgree_statedInfo hd

/-! ## Writing -/

/-- The fields that a request asks for. -/
def HeaderRequest.fields (r : HeaderRequest) : HeaderFields where
  headerVersion := volumeHeaderVersion
  requiredMinProgramVersion :=
    if r.requiredProgramVersion ≠ 0 then r.requiredProgramVersion
    else volumeMinRequiredProgramVersion
  hiddenVolumeDataSize := r.hiddenVolumeSize
  volumeDataSize := r.volumeSize
  encryptedAreaStart := r.encryptedAreaStart
  encryptedAreaLength := r.encryptedAreaLength
  flags := r.headerFlags
  sectorSize := r.sectorSize
  dataAreaKey := r.keydata

/-- A C++ header with the fields of a request. -/
def HeaderRequest.header (r : HeaderRequest) (a : AlgorithmId) (hs : SectorSizeValid r.sectorSize) :
    VolumeHeader where
  headerSize := volumeHeaderEffectiveSize
  ea := { algorithm := a, key := [], secondaryKey := [], sectorOffset := 0 }
  pkcs5 := .hmacSha512
  headerVersion := r.fields.headerVersion
  requiredMinProgramVersion := r.fields.requiredMinProgramVersion
  volumeKeyAreaCrc32 := 0
  volumeCreationTime := 0
  headerCreationTime := 0
  volumeType := .unknown
  hiddenVolumeDataSize := r.fields.hiddenVolumeDataSize
  volumeDataSize := r.fields.volumeDataSize
  encryptedAreaStart := r.fields.encryptedAreaStart
  encryptedAreaLength := r.fields.encryptedAreaLength
  flags := r.fields.flags
  sectorSize := r.sectorSize
  sectorSize_valid := hs
  dataAreaKey := r.fields.dataAreaKey
  xtsKeyVulnerable := false
  effectivePlaintext := []

theorem HeaderRequest.length_keydata (r : HeaderRequest) :
    r.keydata.length = dataKeyAreaMaxSize := by
  unfold HeaderRequest.keydata
  cases hm : r.masterKeydata with
  | none => exact r.length_drawn
  | some k => exact r.length_masterKeydata k hm

/-- **Both sides write the same plaintext.** -/
theorem headerPlaintext_eq_serialize (r : HeaderRequest) (a : AlgorithmId)
    (hs : SectorSizeValid r.sectorSize) :
    headerPlaintext r = serialize (r.header a hs) keyslotPayloadSize := by
  have hparts : (headerParts r).flatten = serializeFields (r.header a hs) := by
    have hmagic : beBytes 4 headerMagicNumber.toNat = headerMagic := by decide
    have hzero : List.replicate (2 * 8) (0 : UInt8) = beBytes 8 0 ++ beBytes 8 0 := by decide
    rw [headerParts, hmagic, hzero, serializeFields, VeraCrypt.headerParts]
    simp only [List.flatten_cons, List.append_assoc]
    rfl
  rw [headerPlaintext, hparts, serialize, Nat.sub_self, List.replicate_zero, List.append_nil]
  rfl

theorem createVolumeHeaderInMemory_ok {C : Ciphers} {r : HeaderRequest} {a : AlgorithmId}
    {dk header : Bytes} (hea : r.ea = a.ea)
    (hc : createVolumeHeaderInMemory C r dk = .ok header) :
    ∃ (hs : SectorSizeValid r.sectorSize) (encrypted : Bytes),
      (headerAlgorithm a dk).encryptBuffer C (serialize (r.header a hs) keyslotPayloadSize) 0 =
        some encrypted ∧
      header = r.salt ++ encrypted := by
  unfold createVolumeHeaderInMemory at hc
  split at hc
  · cases hc
  split at hc
  · cases hc
  rename_i hsector
  have hs : SectorSizeValid r.sectorSize := (sectorSizeValid_iff _).mpr hsector
  split at hc
  · cases hc
  rename_i encrypted henc
  rw [hea, encryptBuffer_eq, headerPlaintext_eq_serialize r a hs] at henc
  cases hc
  exact ⟨hs, encrypted, henc, rfl⟩

/-! ## From one side to the other -/

section

variable {C : Ciphers} {h : VolumeHeader} {a : AlgorithmId} {dk : Bytes}

/-- A header that either side has encrypted is read by both, in every header size, with the
    fields that were written. -/
theorem both_read {n m : Nat} {salt data image : Bytes} (pkcs5 : Pkcs5Kdf)
    (hkey : h.dataAreaKey.length = dataKeyAreaMaxSize)
    (hver : h.requiredMinProgramVersion ≤ versionNumber) (hn : keyslotPayloadSize ≤ n)
    (henc : (headerAlgorithm a dk).encryptBuffer C (serialize h n) 0 = some data)
    (hlong : a.getKeySize * 2 ≤ dk.length) (hok : HeaderSizeOk m)
    (hsalt : salt.length = pkcs5SaltSize) (himage : image.length = m)
    (hfront : slice image 0 volumeHeaderEffectiveSize =
      slice (salt ++ data) 0 volumeHeaderEffectiveSize) :
    ∃ h' info, decryptWithAlgorithm C m image dk pkcs5 a = .ok (some h') ∧
      readVolumeHeaderWith C false (slice image 0 volumeHeaderEffectiveSize) dk a.ea =
        .ok (some info) ∧
      h'.fields = { h.fields with headerVersion := currentHeaderVersion } ∧
      HeadersAgree info h' := by
  have hs64 : salt.length = 64 := hsalt
  have hser := length_serialize h n hkey hn
  have hm : 64 + 448 ≤ m := hok.1
  have hn' : 448 ≤ n := hn
  have hdlen := EncryptionAlgorithm.length_encryptBuffer henc
  have hin : slice (slice image 0 volumeHeaderEffectiveSize) 64 448 = slice data 0 448 := by
    have hboth : slice (slice (salt ++ data) 0 volumeHeaderEffectiveSize) 64 448 =
        slice (salt ++ data) (0 + 64) 448 := slice_slice (by decide)
    rw [hfront, hboth, Nat.zero_add, slice_append_right (by omega), hs64]
  have himg : slice image 64 448 = slice data 0 448 := by
    rw [← hin, slice_slice (show 64 + 448 ≤ volumeHeaderEffectiveSize by decide), Nat.zero_add]
  have hplain : keyslotPayloadSize ≤ (serialize h n).length := by rw [hser]; exact hn
  obtain ⟨part, hplen, hpfront, -, hread⟩ :=
    decryptWithAlgorithm_front pkcs5 henc hplain hok hlong himage himg
  have hheadlen : (slice image 0 volumeHeaderEffectiveSize).length = 512 :=
    length_slice (show 0 + 512 ≤ image.length by omega)
  obtain ⟨p, hclen, hcfront, hcdec, -⟩ := decryptWithAlgorithm_front (m := 512) pkcs5 henc hplain
    ⟨by decide, by decide⟩ hlong hheadlen hin
  have hp : p.length = keyslotPayloadSize := hclen
  have hcarriesP : CarriesHeader h p :=
    (carries_serialize n hkey).of_front_eq hcfront.symm
  have hcarries : CarriesHeader h part := (carries_serialize n hkey).of_front_eq hpfront.symm
  have hd := deserialize_of_carries a pkcs5 hcarries hver hplen (show 448 + 64 ≤ m by omega)
  have hdP := deserialize_of_carries a pkcs5 hcarriesP hver hclen
    (show keyslotPayloadSize + encryptedHeaderDataOffset ≤ 512 by decide)
  have hsaltlen : (slice (slice image 0 volumeHeaderEffectiveSize) 0
      headerEncryptedDataOffset).length = pkcs5SaltSize :=
    length_slice (show 0 + 64 ≤ _ by rw [hheadlen]; omega)
  have hverP : minAllowedHeaderVersion ≤ entry16 p 4 := by
    rw [hcarriesP.version]
    decide
  have hreadP := (readDecryptedHeader_eq_some_iff hsaltlen hp.ge hverP).mpr
    ⟨(deserialize_accepted hdP).1, Eq.refl (statedInfo a.ea p)⟩
  refine ⟨_, statedInfo a.ea p, hread.trans hd, ?_, ?_, ?_⟩
  · have hcdec' : (headerAlgorithm a dk).decryptBuffer C
        (slice (slice image 0 volumeHeaderEffectiveSize) headerEncryptedDataOffset
          headerEncryptedDataSize) 0 = some p := hcdec
    unfold readVolumeHeaderWith
    rw [decryptBuffer_eq, hcdec']
    exact hreadP
  · rfl
  · rw [statedInfo_of_front_eq a.ea (hcfront.trans hpfront.symm)]
    exact headersAgree_statedInfo hd

end

/-- A header that the C++ code may write: made by `Create`, or read from any accepted part. -/
inductive HeaderAtHand : VolumeHeader → Prop
  | create (l : VolumeLayout) (options : VolumeHeaderCreationOptions)
      (hkey : options.dataKey.length = options.ea.algorithm.getKeySize * 2)
      (hs : SectorSizeValid options.sectorSize) :
      HeaderAtHand (newHeader l.getHeaderSize options hs)
  | read {h : VolumeHeader} {l : VolumeLayout} {b : Bytes} {a : AlgorithmId} {pkcs5 : Pkcs5Kdf}
      (hd : deserialize l.getHeaderSize b a pkcs5 = .ok (some h)) : HeaderAtHand h

theorem HeaderAtHand.key_required {h : VolumeHeader} (hh : HeaderAtHand h) :
    h.dataAreaKey.length = dataKeyAreaMaxSize ∧ h.requiredMinProgramVersion ≤ versionNumber := by
  cases hh with
  | create l options hkey hs =>
    have hw := (ProgramHeader.create l options hkey hs).writable
    exact ⟨hw.key, hw.required⟩
  | @read _ l b a pkcs5 hd =>
    have hlarge := getHeaderSize_large l
    obtain ⟨hb, hfields⟩ := deserialize_accepted hd
    obtain ⟨hlen, -, -, hkey, -, -⟩ := deserialize_some hd
    constructor
    · rw [hkey]
      exact length_slice (show keyslotPayloadSize ≤ b.length by omega)
    · rw [show h.requiredMinProgramVersion = entry16 b 6 from
        congrArg HeaderFields.requiredMinProgramVersion hfields]
      exact hb.required

/-- **The two header codecs agree.** What the C code writes for a row of its table the C++ code
    reads, in a header area of any layout and with any bytes behind; what the C++ code writes
    the C code reads; and of one plaintext both read the same or nothing. -/
theorem headerCodecs_agree (C : Ciphers) (l : VolumeLayout) (pkcs5 : Pkcs5Kdf) :
    (∀ (r : HeaderRequest) (dk header tail : Bytes), eaCiphers r.ea ≠ [] →
      r.requiredProgramVersion ≤ versionNumber → eaGetKeySize r.ea * 2 ≤ dk.length →
      createVolumeHeaderInMemory C r dk = .ok header →
      (header ++ tail).length = l.getHeaderSize →
      ∃ a : AlgorithmId, a.ea = r.ea ∧ ∃ h info,
        decryptWithAlgorithm C l.getHeaderSize (header ++ tail) dk pkcs5 a = .ok (some h) ∧
        readVolumeHeaderWith C false header dk r.ea = .ok (some info) ∧
        h.fields = r.fields ∧ HeadersAgree info h) ∧
    (∀ (h : VolumeHeader) (salt dk buf : Bytes), HeaderAtHand h →
      encryptNew C h l.getHeaderSize salt dk = .ok buf →
      ∃ h' info,
        decryptWithAlgorithm C l.getHeaderSize buf dk pkcs5 h.ea.algorithm = .ok (some h') ∧
        readVolumeHeaderWith C false (slice buf 0 volumeHeaderEffectiveSize) dk
          h.ea.algorithm.ea = .ok (some info) ∧
        h'.fields = { h.fields with headerVersion := currentHeaderVersion } ∧
        HeadersAgree info h') ∧
    ∀ (a : AlgorithmId) (salt p tail : Bytes), salt.length = pkcs5SaltSize →
      p.length = keyslotPayloadSize →
      (p ++ tail).length = l.getHeaderSize - encryptedHeaderDataOffset →
      minAllowedHeaderVersion ≤ entry16 p 4 →
      ((∃ info, readDecryptedHeader false a.ea (salt ++ p) = .ok (some info)) ↔
        ∃ h, deserialize l.getHeaderSize (p ++ tail) a pkcs5 = .ok (some h)) ∧
      ∀ info h, readDecryptedHeader false a.ea (salt ++ p) = .ok (some info) →
        deserialize l.getHeaderSize (p ++ tail) a pkcs5 = .ok (some h) → HeadersAgree info h := by
  refine ⟨?_, ?_, ?_⟩
  · intro r dk header tail hrow hreq hlong hcreate hlen
    obtain ⟨a, ha⟩ := exists_ea hrow
    obtain ⟨hs, encrypted, henc, rfl⟩ := createVolumeHeaderInMemory_ok ha.symm hcreate
    rw [← ha, eaGetKeySize_ea] at hlong
    have helen : encrypted.length = keyslotPayloadSize := by
      rw [EncryptionAlgorithm.length_encryptBuffer henc]
      exact length_serialize _ _ r.length_keydata (Nat.le_refl _)
    have hwhole : (r.salt ++ encrypted).length = volumeHeaderEffectiveSize := by
      rw [List.length_append, r.length_salt, helen]
      rfl
    have hver : (r.header a hs).requiredMinProgramVersion ≤ versionNumber := by
      show (if r.requiredProgramVersion ≠ 0 then _ else _) ≤ _
      split
      · exact hreq
      · decide
    have hfront : slice (r.salt ++ encrypted ++ tail) 0 volumeHeaderEffectiveSize =
        r.salt ++ encrypted := by
      rw [slice_append_left (by omega), slice_all (by omega)]
    obtain ⟨h, info, hread, hreadC, hfields, hagree⟩ := both_read pkcs5 r.length_keydata hver
      (Nat.le_refl _) henc hlong (headerSizeOk_layout l) r.length_salt hlen
      (by rw [hfront, slice_all (by omega)])
    rw [hfront] at hreadC
    refine ⟨a, ha, h, info, hread, ?_, hfields, hagree⟩
    rw [← ha]
    exact hreadC
  · intro h salt dk buf hh henc
    obtain ⟨hkey, hver⟩ := hh.key_required
    obtain ⟨hsize, hsalt, hlong, data, hdata, rfl⟩ := encryptNew_ok henc
    have hlarge := getHeaderSize_large l
    have hn : keyslotPayloadSize ≤ h.headerSize - encryptedHeaderDataOffset := by omega
    have hlen : (salt ++ data).length = l.getHeaderSize := by
      rw [List.length_append, hsalt, EncryptionAlgorithm.length_encryptBuffer hdata,
        length_serialize h _ hkey hn, hsize]
      show 64 + (h.headerSize - 64) = h.headerSize
      have : 448 + 64 ≤ h.headerSize := hsize ▸ hlarge
      omega
    exact both_read pkcs5 hkey hver hn hdata hlong (headerSizeOk_layout l) hsalt hlen rfl
  · intro a salt p tail hsalt hp hlen hver
    exact headersAgree_of_plaintext a pkcs5 hsalt hp hlen hver

namespace HeaderInterchangeDemo

/-- A hidden volume of 1 MiB under a cascade of AES and Twofish. -/
def request : HeaderRequest where
  ea := 6
  masterKeydata := some (List.replicate 256 1)
  volumeSize := 1048576
  hiddenVolumeSize := 1048576
  encryptedAreaStart := 131072
  encryptedAreaLength := 1048576
  requiredProgramVersion := 0
  headerFlags := 0
  sectorSize := 512
  salt := List.replicate 64 2
  drawn := List.replicate 256 0
  length_masterKeydata := by
    intro k hk
    cases hk
    exact List.length_replicate
  length_salt := List.length_replicate
  length_drawn := List.length_replicate

/-- The header of the request is written, and read on both sides. -/
theorem headerCodecs_agree_demo :
    ∃ header h info,
      createVolumeHeaderInMemory .demo request (List.replicate 192 3) = .ok header ∧
      decryptWithAlgorithm .demo 512 (header ++ []) (List.replicate 192 3) .hmacSha512
        .aesTwofish = .ok (some h) ∧
      readVolumeHeaderWith .demo false header (List.replicate 192 3) 6 = .ok (some info) ∧
      h.fields = request.fields ∧ HeadersAgree info h := by
  have hs : SectorSizeValid request.sectorSize := by decide
  have hplain : (headerPlaintext request).length = keyslotPayloadSize := by
    rw [headerPlaintext_eq_serialize request .aesTwofish hs]
    exact length_serialize _ _ request.length_keydata (Nat.le_refl _)
  obtain ⟨data, hdata⟩ := EncryptionAlgorithm.encryptBuffer_isSome .demo
    (headerAlgorithm .aesTwofish (List.replicate 192 3))
    (show (headerPlaintext request).length % bytesPerXtsBlock = 0 by rw [hplain]; decide) 0
  have hcreate : createVolumeHeaderInMemory .demo request (List.replicate 192 3) =
      .ok (request.salt ++ data) := by
    unfold createVolumeHeaderInMemory
    rw [if_neg (fun h => Option.some_ne_none _ h.1), if_neg ((sectorSizeValid_iff _).mp hs),
      show request.ea = AlgorithmId.aesTwofish.ea from rfl, encryptBuffer_eq, hdata]
  have hlen : (request.salt ++ data ++ []).length = 512 := by
    rw [List.append_nil, List.length_append, EncryptionAlgorithm.length_encryptBuffer hdata,
      hplain, request.length_salt]
    rfl
  obtain ⟨a, ha, h, info, hread, hreadC, hfields, hagree⟩ :=
    (headerCodecs_agree .demo .v1Normal .hmacSha512).1 request (List.replicate 192 3) _ []
      (by decide) (by decide) (by rw [List.length_replicate]; decide) hcreate hlen
  have hcascade : ∀ a : AlgorithmId, a.ea = 6 → a = .aesTwofish := by
    intro a ha
    cases a <;> first | rfl | exact absurd ha (by decide)
  rw [hcascade a ha] at hread
  exact ⟨_, h, info, hcreate, hread, hreadC, hfields, hagree⟩

end HeaderInterchangeDemo

end Common

end VeraCrypt
