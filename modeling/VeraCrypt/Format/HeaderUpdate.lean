import VeraCrypt.Volume.HeaderInterchange

/-!
# Updating the backup header during in-place encryption (`FastVolumeHeaderUpdate`)

While a partition is encrypted or decrypted in place, the boundary of what is encrypted is kept in
the backup header. An update decrypts the header, puts the two numbers, the flags and the new
checksum into it and encrypts it again under the same key. A header that opened before opens
afterwards, and differs in these fields only (`updateHeader_opens`).
-/

set_option autoImplicit false

namespace VeraCrypt

open Lib

namespace Common

/-- `TC_HEADER_FLAG_NONSYS_INPLACE_ENC` -/
def headerFlagNonsysInplaceEnc : UInt32 := 0x2

/-- The fields that `FastVolumeHeaderUpdate` writes into a decrypted header. -/
def patchHeader (header : Bytes) (start length : UInt64) (flags : UInt32) : Bytes :=
  let header := patch header headerOffsetEncryptedAreaStart
    (beBytes 8 start.toNat ++ beBytes 8 length.toNat)
  let header := patch header headerOffsetFlags (beBytes 4 (flags ||| headerFlagNonsysInplaceEnc).toNat)
  let headerCrc32 := getCrc32 (slice header headerOffsetMagic (headerOffsetHeaderCrc - headerOffsetMagic))
  patch header headerOffsetHeaderCrc (beBytes 4 headerCrc32.toNat)

/-- `FastVolumeHeaderUpdate` between reading the header and writing it; `schedule` is that of
`headerCryptoInfo`. -/
def updateHeader (C : Ciphers) (schedule : List (Cipher × Bytes × Bytes)) (header : Bytes)
    (start length : UInt64) (flags : UInt32) : Except Status Bytes :=
  match decryptBuffer C schedule (slice header headerEncryptedDataOffset headerEncryptedDataSize) with
  | none => .error .fatal
  | some decrypted =>
    let plain := patch header headerEncryptedDataOffset decrypted
    if getHeaderField32 plain headerOffsetMagic ≠ headerMagicNumber then .error .parameterIncorrect
    else
      let plain := patchHeader plain start length flags
      match encryptBuffer C schedule (slice plain headerEncryptedDataOffset headerEncryptedDataSize) with
      | none => .error .fatal
      | some encrypted => .ok (patch plain headerEncryptedDataOffset encrypted)

/-! ## What a decrypted header has to hold -/

/-- The checks of `ReadVolumeHeader` on a decrypted header, but for the one of its checksum. -/
structure Legible (header : Bytes) : Prop where
  magic : getHeaderField32 header headerOffsetMagic = headerMagicNumber
  version : ¬volumeHeaderVersion < getHeaderField16 header headerOffsetVersion
  keyAreaCrc : getHeaderField32 header headerOffsetKeyAreaCrc =
    getCrc32 (slice header headerMasterKeydataOffset masterKeydataSize)
  requiredVersion : ¬versionNumber < getHeaderField16 header headerOffsetRequiredVersion
  sectorSize : ¬(headerSectorSize header < 512 ∨ 4096 < headerSectorSize header ∨
    headerSectorSize header % 512 ≠ 0)

/-- The checks of `ReadVolumeHeader` on a decrypted header. -/
structure Readable (header : Bytes) : Prop extends Legible header where
  headerCrc : 4 ≤ getHeaderField16 header headerOffsetVersion →
    getHeaderField32 header headerOffsetHeaderCrc =
      getCrc32 (slice header headerOffsetMagic (headerOffsetHeaderCrc - headerOffsetMagic))

/-- What `ReadVolumeHeader` reads of a decrypted header. -/
def readInfo (ea : Nat) (header : Bytes) : CryptoInfo :=
  let masterKeydata := slice header headerMasterKeydataOffset masterKeydataSize
  let keySize := eaGetKeySize ea
  { ea := ea
    schedule := eaInit ea masterKeydata (masterKeydata.drop keySize)
    masterKeydata := masterKeydata
    k2 := slice masterKeydata keySize keySize
    headerVersion := getHeaderField16 header headerOffsetVersion
    requiredProgramVersion := getHeaderField16 header headerOffsetRequiredVersion
    legacyVolume := getHeaderField16 header headerOffsetRequiredVersion < 0x10b
    hiddenVolumeSize := getHeaderField64 header headerOffsetHiddenVolumeSize
    hiddenVolume := getHeaderField64 header headerOffsetHiddenVolumeSize ≠ 0
    volumeSize := getHeaderField64 header headerOffsetVolumeSize
    encryptedAreaStart := getHeaderField64 header headerOffsetEncryptedAreaStart
    encryptedAreaLength := getHeaderField64 header headerOffsetEncryptedAreaLength
    headerFlags := getHeaderField32 header headerOffsetFlags
    sectorSize := headerSectorSize header
    bVulnerableMasterKey := slice masterKeydata 0 keySize = slice masterKeydata keySize keySize }

/-- The same header with other numbers of the encrypted area and other flags. -/
def CryptoInfo.withArea (info : CryptoInfo) (start length : UInt64) (flags : UInt32) : CryptoInfo :=
  { info with
    encryptedAreaStart := start
    encryptedAreaLength := length
    headerFlags := flags }

section

variable (info : CryptoInfo) (start length : UInt64) (flags : UInt32)

@[simp] theorem withArea_schedule :
    (info.withArea start length flags).schedule = info.schedule := rfl
@[simp] theorem withArea_masterKeydata :
    (info.withArea start length flags).masterKeydata = info.masterKeydata := rfl
@[simp] theorem withArea_requiredProgramVersion :
    (info.withArea start length flags).requiredProgramVersion = info.requiredProgramVersion := rfl
@[simp] theorem withArea_legacyVolume :
    (info.withArea start length flags).legacyVolume = info.legacyVolume := rfl
@[simp] theorem withArea_hiddenVolume :
    (info.withArea start length flags).hiddenVolume = info.hiddenVolume := rfl
@[simp] theorem withArea_volumeSize :
    (info.withArea start length flags).volumeSize = info.volumeSize := rfl
@[simp] theorem withArea_sectorSize :
    (info.withArea start length flags).sectorSize = info.sectorSize := rfl
@[simp] theorem withArea_encryptedAreaStart :
    (info.withArea start length flags).encryptedAreaStart = start := rfl
@[simp] theorem withArea_encryptedAreaLength :
    (info.withArea start length flags).encryptedAreaLength = length := rfl
@[simp] theorem withArea_withArea (start' length' : UInt64) (flags' : UInt32) :
    (info.withArea start' length' flags').withArea start length flags =
      info.withArea start length flags := rfl
@[simp] theorem withArea_self :
    info.withArea info.encryptedAreaStart info.encryptedAreaLength info.headerFlags = info := rfl

end

theorem readDecryptedHeader_iff {ea : Nat} {header : Bytes} {info : CryptoInfo} :
    readDecryptedHeader false ea header = .ok (some info) ↔
      Readable header ∧ info = readInfo ea header := by
  unfold readDecryptedHeader
  constructor
  · intro h
    split at h
    · cases h
    rename_i hmagic
    split at h
    · cases h
    rename_i hversion
    split at h
    · cases h
    rename_i hcrc
    split at h
    · cases h
    rename_i hkey
    split at h
    · cases h
    rename_i hrequired
    split at h
    · cases h
    rename_i hsector
    cases h
    refine ⟨⟨⟨not_not.mp hmagic, hversion, ?_, hrequired, hsector⟩, ?_⟩, rfl⟩
    · by_contra hne
      exact hkey ⟨rfl, hne⟩
    · intro hfour
      by_contra hne
      exact hcrc ⟨rfl, hfour, hne⟩
  · rintro ⟨hr, rfl⟩
    rw [if_neg (not_not_intro hr.magic), if_neg hr.version,
      if_neg (fun hbad => hbad.2.2 (hr.headerCrc hbad.2.1)),
      if_neg (fun hbad => hbad.2 hr.keyAreaCrc), if_neg hr.requiredVersion, if_neg hr.sectorSize]
    rfl

/-! ## The patched header -/

/-- What the fields of a patched header are; all others are as before. -/
structure Patched (header patched : Bytes) (start length : UInt64) (flags : UInt32) : Prop where
  length_eq : patched.length = volumeHeaderEffectiveSize
  frame : ∀ off n, (off + n ≤ 108 ∨ 128 ≤ off) → (off + n ≤ 252 ∨ 256 ≤ off) →
    slice patched off n = slice header off n
  start_eq : slice patched headerOffsetEncryptedAreaStart 8 = beBytes 8 start.toNat
  length_field : slice patched headerOffsetEncryptedAreaLength 8 = beBytes 8 length.toNat
  flags_eq : slice patched headerOffsetFlags 4 =
    beBytes 4 (flags ||| headerFlagNonsysInplaceEnc).toNat
  crc_eq : slice patched headerOffsetHeaderCrc 4 = beBytes 4 (getCrc32
    (slice patched headerOffsetMagic (headerOffsetHeaderCrc - headerOffsetMagic))).toNat

theorem patched_patchHeader {header : Bytes} (hlen : header.length = volumeHeaderEffectiveSize)
    (start length : UInt64) (flags : UInt32) :
    Patched header (patchHeader header start length flags) start length flags := by
  have hsize : header.length = 512 := hlen
  have hnew : (beBytes 8 start.toNat ++ beBytes 8 length.toNat).length = 16 := by simp
  have hflags := length_beBytes 4 (flags ||| headerFlagNonsysInplaceEnc).toNat
  simp only [patchHeader, headerOffsetEncryptedAreaStart, headerOffsetFlags, headerOffsetHeaderCrc,
    headerOffsetMagic]
  -- the three writes, one after the other
  generalize harea : patch header 108 (beBytes 8 start.toNat ++ beBytes 8 length.toNat) = area
  have hareaLen : area.length = 512 := by
    rw [← harea, length_patch (by omega), hsize]
  have hareaFrame : ∀ off n, (off + n ≤ 108 ∨ 124 ≤ off) →
      slice area off n = slice header off n := by
    intro off n h
    rw [← harea, slice_patch_disjoint (by omega) (by omega)]
  generalize hmid : patch area 124 (beBytes 4 (flags ||| headerFlagNonsysInplaceEnc).toNat) = mid
  have hmidLen : mid.length = 512 := by
    rw [← hmid, length_patch (by omega), hareaLen]
  have hmidFrame : ∀ off n, (off + n ≤ 124 ∨ 128 ≤ off) → slice mid off n = slice area off n := by
    intro off n h
    rw [← hmid, slice_patch_disjoint (by omega) (by omega)]
  have hcrc := length_beBytes 4 (getCrc32 (slice mid 64 (252 - 64))).toNat
  have hlastFrame : ∀ off n, (off + n ≤ 252 ∨ 256 ≤ off) →
      slice (patch mid 252 (beBytes 4 (getCrc32 (slice mid 64 (252 - 64))).toNat)) off n =
        slice mid off n := by
    intro off n h
    rw [slice_patch_disjoint (by omega) (by omega)]
  have hareaNew : slice area 108 16 = beBytes 8 start.toNat ++ beBytes 8 length.toNat := by
    rw [← harea, slice_patch_self (by omega) hnew.symm]
  refine
    { length_eq := ?_
      frame := ?_
      start_eq := ?_
      length_field := ?_
      flags_eq := ?_
      crc_eq := ?_ }
  · rw [length_patch (by omega)]
    exact hmidLen
  · intro off n h1 h2
    rw [hlastFrame off n h2, hmidFrame off n (by omega), hareaFrame off n (by omega)]
  · have hpart : slice (slice area 108 16) 0 8 = slice area (108 + 0) 8 := slice_slice (by omega)
    rw [headerOffsetEncryptedAreaStart, hlastFrame 108 8 (by omega), hmidFrame 108 8 (by omega),
      ← Nat.add_zero 108, ← hpart, hareaNew, slice_append_left (by simp), slice_all (by simp)]
  · have hpart : slice (slice area 108 16) 8 8 = slice area (108 + 8) 8 := slice_slice (by omega)
    rw [headerOffsetEncryptedAreaLength, hlastFrame 116 8 (by omega), hmidFrame 116 8 (by omega),
      show 116 = 108 + 8 from rfl, ← hpart, hareaNew, slice_append_right (by simp),
      length_beBytes, Nat.sub_self, slice_all (by simp)]
  · rw [headerOffsetFlags, hlastFrame 124 4 (by omega), ← hmid,
      slice_patch_self (by omega) hflags.symm]
  · rw [headerOffsetHeaderCrc, headerOffsetMagic, hlastFrame 64 (252 - 64) (by omega),
      slice_patch_self (by omega) hcrc.symm]

section

variable {header patched : Bytes} {start length : UInt64} {flags : UInt32}

theorem Patched.field16 (hp : Patched header patched start length flags) {off : Nat}
    (h1 : off + 2 ≤ 108 ∨ 128 ≤ off) (h2 : off + 2 ≤ 252 ∨ 256 ≤ off) :
    getHeaderField16 patched off = getHeaderField16 header off := by
  rw [getHeaderField16, getHeaderField16, hp.frame off 2 h1 h2]

theorem Patched.field32 (hp : Patched header patched start length flags) {off : Nat}
    (h1 : off + 4 ≤ 108 ∨ 128 ≤ off) (h2 : off + 4 ≤ 252 ∨ 256 ≤ off) :
    getHeaderField32 patched off = getHeaderField32 header off := by
  rw [getHeaderField32, getHeaderField32, hp.frame off 4 h1 h2]

theorem Patched.field64 (hp : Patched header patched start length flags) {off : Nat}
    (h1 : off + 8 ≤ 108 ∨ 128 ≤ off) (h2 : off + 8 ≤ 252 ∨ 256 ≤ off) :
    getHeaderField64 patched off = getHeaderField64 header off := by
  rw [getHeaderField64, getHeaderField64, hp.frame off 8 h1 h2]

theorem Patched.version (hp : Patched header patched start length flags) :
    getHeaderField16 patched headerOffsetVersion = getHeaderField16 header headerOffsetVersion :=
  hp.field16 (Or.inl (by decide)) (Or.inl (by decide))

theorem Patched.requiredVersion (hp : Patched header patched start length flags) :
    getHeaderField16 patched headerOffsetRequiredVersion =
      getHeaderField16 header headerOffsetRequiredVersion :=
  hp.field16 (Or.inl (by decide)) (Or.inl (by decide))

theorem Patched.sectorSize (hp : Patched header patched start length flags) :
    headerSectorSize patched = headerSectorSize header := by
  have hfield : getHeaderField32 patched headerOffsetSectorSize =
      getHeaderField32 header headerOffsetSectorSize :=
    hp.field32 (Or.inr (by decide)) (Or.inl (by decide))
  rw [headerSectorSize, headerSectorSize, hp.version, hfield]

theorem Patched.masterKeydata (hp : Patched header patched start length flags) :
    slice patched headerMasterKeydataOffset masterKeydataSize =
      slice header headerMasterKeydataOffset masterKeydataSize :=
  hp.frame _ _ (Or.inr (by decide)) (Or.inr (by decide))

/-- A patched header passes the checks that the header passed, and that of its checksum. -/
theorem Legible.readable_patched (h : Legible header)
    (hp : Patched header patched start length flags) : Readable patched := by
  refine
    { magic := ?_
      version := ?_
      keyAreaCrc := ?_
      requiredVersion := ?_
      sectorSize := ?_
      headerCrc := ?_ }
  · rw [hp.field32 (Or.inl (by decide)) (Or.inl (by decide))]
    exact h.magic
  · rw [hp.version]
    exact h.version
  · rw [hp.field32 (Or.inl (by decide)) (Or.inl (by decide)), hp.masterKeydata]
    exact h.keyAreaCrc
  · rw [hp.requiredVersion]
    exact h.requiredVersion
  · rw [hp.sectorSize]
    exact h.sectorSize
  · intro _
    rw [getHeaderField32, hp.crc_eq, ofNat_beNat_beBytes32]

/-- What is read of it: the new numbers and flags, and the rest as before. -/
theorem readInfo_patched (hp : Patched header patched start length flags) (ea : Nat) :
    readInfo ea patched =
      (readInfo ea header).withArea start length (flags ||| headerFlagNonsysInplaceEnc) := by
  have hhidden : getHeaderField64 patched headerOffsetHiddenVolumeSize =
      getHeaderField64 header headerOffsetHiddenVolumeSize :=
    hp.field64 (Or.inl (by decide)) (Or.inl (by decide))
  have hvolume : getHeaderField64 patched headerOffsetVolumeSize =
      getHeaderField64 header headerOffsetVolumeSize :=
    hp.field64 (Or.inl (by decide)) (Or.inl (by decide))
  have hstart : getHeaderField64 patched headerOffsetEncryptedAreaStart = start := by
    rw [getHeaderField64, hp.start_eq, ofNat_beNat_beBytes64]
  have hlength : getHeaderField64 patched headerOffsetEncryptedAreaLength = length := by
    rw [getHeaderField64, hp.length_field, ofNat_beNat_beBytes64]
  have hflags : getHeaderField32 patched headerOffsetFlags =
      flags ||| headerFlagNonsysInplaceEnc := by
    rw [getHeaderField32, hp.flags_eq, ofNat_beNat_beBytes32]
  simp only [readInfo, CryptoInfo.withArea, hp.version, hp.requiredVersion, hp.masterKeydata,
    hhidden, hvolume, hstart, hlength, hflags, hp.sectorSize]

end

/-! ## The update -/

/-- The header opens with the derived key `dk` and says `info`. -/
structure OpensAs (C : Ciphers) (a : AlgorithmId) (dk header : Bytes) (info : CryptoInfo) : Prop where
  length_eq : header.length = volumeHeaderEffectiveSize
  read : readVolumeHeaderWith C false header dk a.ea = .ok (some info)

/-- An update mends the header: it decrypts with `dk` to what opens, but for the fields that an
update writes. -/
structure Mendable (C : Ciphers) (a : AlgorithmId) (dk header : Bytes) (info : CryptoInfo) :
    Prop where
  length_eq : header.length = volumeHeaderEffectiveSize
  plain : ∃ decrypted, (headerAlgorithm a dk).decryptBuffer C
      (slice header headerEncryptedDataOffset headerEncryptedDataSize) 0 = some decrypted ∧
    Legible (slice header 0 headerEncryptedDataOffset ++ decrypted) ∧
    ∃ start length flags,
      readInfo a.ea (slice header 0 headerEncryptedDataOffset ++ decrypted) =
        info.withArea start length flags

theorem OpensAs.mendable {C : Ciphers} {a : AlgorithmId} {dk header : Bytes} {info : CryptoInfo}
    (h : OpensAs C a dk header info) : Mendable C a dk header info := by
  rcases h with ⟨hlen, hread⟩
  refine ⟨hlen, ?_⟩
  rw [readVolumeHeaderWith, decryptBuffer_eq] at hread
  rcases hdec : (headerAlgorithm a dk).decryptBuffer C
      (slice header headerEncryptedDataOffset headerEncryptedDataSize) 0 with _ | decrypted
  · rw [hdec] at hread
    exact absurd hread (by simp)
  · rw [hdec] at hread
    rcases readDecryptedHeader_iff.mp hread with ⟨hreadable, hinfo⟩
    refine ⟨decrypted, rfl, hreadable.toLegible, info.encryptedAreaStart,
      info.encryptedAreaLength, info.headerFlags, ?_⟩
    exact hinfo.symm

/-- A header in its two parts. -/
theorem header_split {header : Bytes} (h : header.length = volumeHeaderEffectiveSize) :
    header = slice header 0 headerEncryptedDataOffset ++
      slice header headerEncryptedDataOffset headerEncryptedDataSize := by
  have h512 : header.length = 512 := h
  have hrest : (header.drop 64).take 448 = header.drop 64 :=
    List.take_of_length_le (by rw [List.length_drop]; omega)
  show header = (header.drop 0).take 64 ++ (header.drop 64).take 448
  rw [hrest, List.drop_zero, List.take_append_drop]

/-- **An update gives a header that opens**, under the same salt and key, with the new numbers. -/
theorem updateHeader_opens {C : Ciphers} {a : AlgorithmId} {dk header : Bytes} {info : CryptoInfo}
    (h : Mendable C a dk header info) (start length : UInt64) (flags : UInt32) :
    ∃ updated, updateHeader C (eaInit a.ea dk (dk.drop (eaGetKeySize a.ea))) header start length
        flags = .ok updated ∧
      slice updated 0 headerEncryptedDataOffset = slice header 0 headerEncryptedDataOffset ∧
      OpensAs C a dk updated
        (info.withArea start length (flags ||| headerFlagNonsysInplaceEnc)) := by
  rcases h with ⟨hlen, decrypted, hdec, hlegible, start', length', flags', hinfo⟩
  have h512 : header.length = 512 := hlen
  have hdecLen : decrypted.length = 448 := by
    rw [EncryptionAlgorithm.length_decryptBuffer hdec]
    exact length_slice (by rw [h512]; decide)
  have hplain : patch header headerEncryptedDataOffset decrypted =
      slice header 0 headerEncryptedDataOffset ++ decrypted := by
    have hdrop : header.drop (64 + decrypted.length) = [] := List.drop_eq_nil_of_le (by omega)
    show header.take 64 ++ decrypted ++ header.drop (64 + decrypted.length) = _
    rw [hdrop, List.append_nil]
    rfl
  have hsalt : (slice header 0 headerEncryptedDataOffset).length = 64 :=
    length_slice (by rw [h512]; decide)
  have hplainLen : (slice header 0 headerEncryptedDataOffset ++ decrypted).length =
      volumeHeaderEffectiveSize := by
    rw [List.length_append, hsalt, hdecLen]
    rfl
  have hp := patched_patchHeader hplainLen start length flags
  generalize hpatched : patchHeader (slice header 0 headerEncryptedDataOffset ++ decrypted) start
    length flags = patched at hp
  have hpLen : patched.length = 512 := hp.length_eq
  have hbodyLen : (slice patched headerEncryptedDataOffset headerEncryptedDataSize).length = 448 :=
    length_slice (by rw [hpLen]; decide)
  rcases EncryptionAlgorithm.encryptBuffer_isSome C (headerAlgorithm a dk)
    (show (slice patched headerEncryptedDataOffset headerEncryptedDataSize).length %
      bytesPerXtsBlock = 0 by rw [hbodyLen]; decide) 0 with ⟨encrypted, henc⟩
  have hencLen : encrypted.length = 448 := by
    rw [EncryptionAlgorithm.length_encryptBuffer henc, hbodyLen]
  have hsize : headerEncryptedDataSize = encrypted.length := hencLen.symm
  have hfront : slice patched 0 headerEncryptedDataOffset =
      slice header 0 headerEncryptedDataOffset := by
    rw [hp.frame 0 headerEncryptedDataOffset (Or.inl (by decide)) (Or.inl (by decide)),
      slice_append_left (by rw [hsalt]; decide), slice_all (by rw [hsalt]; decide)]
  refine ⟨patch patched headerEncryptedDataOffset encrypted, ?_, ?_, ?_, ?_⟩
  · rw [updateHeader, decryptBuffer_eq, hdec]
    simp only [hplain, hpatched]
    rw [if_neg (not_not_intro hlegible.magic), encryptBuffer_eq, henc]
  · rw [slice_patch_disjoint (by rw [hpLen]; decide) (Or.inl (by decide)), hfront]
  · rw [length_patch (by rw [hpLen, hencLen]; decide), hpLen]
    rfl
  · rw [readVolumeHeaderWith, slice_patch_self (by rw [hpLen]; decide) hsize,
      decryptBuffer_eq, EncryptionAlgorithm.decryptBuffer_encryptBuffer henc,
      slice_patch_disjoint (by rw [hpLen]; decide) (Or.inl (by decide))]
    show readDecryptedHeader false a.ea (slice patched 0 headerEncryptedDataOffset ++
      slice patched headerEncryptedDataOffset headerEncryptedDataSize) = _
    rw [← header_split hp.length_eq]
    apply readDecryptedHeader_iff.mpr
    refine ⟨hlegible.readable_patched hp, ?_⟩
    rw [readInfo_patched hp, hinfo, withArea_withArea]

/-! ## New headers -/

theorem OpensAs.info_eq {C : Ciphers} {a : AlgorithmId} {dk header : Bytes} {info : CryptoInfo}
    (h : OpensAs C a dk header info) :
    info.ea = a.ea ∧ info.masterKeydata.length = masterKeydataSize ∧
      info.schedule =
        eaInit a.ea info.masterKeydata (info.masterKeydata.drop (eaGetKeySize a.ea)) ∧
      ¬versionNumber < info.requiredProgramVersion ∧
      ¬(info.sectorSize < 512 ∨ 4096 < info.sectorSize ∨ info.sectorSize % 512 ≠ 0) ∧
      (info.legacyVolume = true ↔ info.requiredProgramVersion < 0x10b) ∧
      (info.hiddenVolume = true ↔ info.hiddenVolumeSize ≠ 0) := by
  have hlen : header.length = 512 := h.length_eq
  have hread := h.read
  rw [readVolumeHeaderWith, decryptBuffer_eq] at hread
  rcases hdec : (headerAlgorithm a dk).decryptBuffer C
      (slice header headerEncryptedDataOffset headerEncryptedDataSize) 0 with _ | decrypted
  · rw [hdec] at hread
    exact absurd hread (by simp)
  · rw [hdec] at hread
    rcases readDecryptedHeader_iff.mp hread with ⟨hreadable, rfl⟩
    have hsalt : (slice header 0 headerEncryptedDataOffset).length = 64 :=
      length_slice (by rw [hlen]; decide)
    have hdecLen : decrypted.length = 448 := by
      rw [EncryptionAlgorithm.length_decryptBuffer hdec]
      exact length_slice (by rw [hlen]; decide)
    refine ⟨rfl, ?_, rfl, hreadable.requiredVersion, hreadable.sectorSize, decide_eq_true_iff,
      decide_eq_true_iff⟩
    apply length_slice
    rw [List.length_append, hsalt, hdecLen]
    decide

/-- For given master keys and a valid sector size a header is created. -/
theorem createVolumeHeaderInMemory_isOk {C : Ciphers} {r : HeaderRequest} {a : AlgorithmId}
    {dk keydata : Bytes} (hea : r.ea = a.ea) (hkeys : r.masterKeydata = some keydata)
    (hsector : ¬(r.sectorSize < 512 ∨ 4096 < r.sectorSize ∨ r.sectorSize % 512 ≠ 0)) :
    ∃ header, createVolumeHeaderInMemory C r dk = .ok header := by
  have hs : SectorSizeValid r.sectorSize := (sectorSizeValid_iff _).mpr hsector
  have hlen : (headerPlaintext r).length % bytesPerXtsBlock = 0 := by
    rw [headerPlaintext_eq_serialize r a hs, length_serialize _ _ r.length_keydata le_rfl]
    rfl
  rcases EncryptionAlgorithm.encryptBuffer_isSome C (headerAlgorithm a dk) hlen 0 with
    ⟨encrypted, henc⟩
  refine ⟨r.salt ++ encrypted, ?_⟩
  have hnew : ¬(r.masterKeydata = none ∧ slice r.drawn 0 (eaGetKeySize r.ea) =
      slice r.drawn (eaGetKeySize r.ea) (eaGetKeySize r.ea)) := by
    rw [hkeys]
    exact fun h => nomatch h.1
  rw [createVolumeHeaderInMemory, if_neg hnew, if_neg hsector, hea, encryptBuffer_eq, henc]

/-- A header that was created opens, and says what was asked for. -/
theorem createVolumeHeaderInMemory_opens {C : Ciphers} {r : HeaderRequest} {a : AlgorithmId}
    {dk header : Bytes} (hea : r.ea = a.ea) (hlong : a.getKeySize * 2 ≤ dk.length)
    (hver : r.requiredProgramVersion ≤ versionNumber)
    (hc : createVolumeHeaderInMemory C r dk = .ok header) :
    slice header 0 headerEncryptedDataOffset = r.salt ∧
      ∃ info, OpensAs C a dk header info ∧ info.masterKeydata = r.keydata ∧
        info.requiredProgramVersion =
          (if r.requiredProgramVersion ≠ 0 then r.requiredProgramVersion
            else volumeMinRequiredProgramVersion) ∧
        info.hiddenVolumeSize = r.hiddenVolumeSize ∧ info.volumeSize = r.volumeSize ∧
        info.encryptedAreaStart = r.encryptedAreaStart ∧
        info.encryptedAreaLength = r.encryptedAreaLength := by
  rcases createVolumeHeaderInMemory_ok hea hc with ⟨hs, encrypted, henc, rfl⟩
  have hsalt : r.salt.length = 64 := r.length_salt
  have hkeydata : (r.header a hs).dataAreaKey.length = dataKeyAreaMaxSize := r.length_keydata
  have hencLen : encrypted.length = 448 := by
    rw [EncryptionAlgorithm.length_encryptBuffer henc, length_serialize _ _ hkeydata le_rfl]
    rfl
  have himage : (r.salt ++ encrypted).length = 512 := by
    rw [List.length_append, hsalt, hencLen]
  have hwhole : slice (r.salt ++ encrypted) 0 volumeHeaderEffectiveSize = r.salt ++ encrypted :=
    slice_all (by rw [himage]; decide)
  have hrequired : (r.header a hs).requiredMinProgramVersion ≤ versionNumber := by
    show (if r.requiredProgramVersion ≠ 0 then r.requiredProgramVersion
      else volumeMinRequiredProgramVersion) ≤ versionNumber
    split
    · exact hver
    · decide
  rcases both_read .hmacSha512 hkeydata hrequired le_rfl henc hlong
    (show HeaderSizeOk 512 from ⟨by decide, by decide⟩) r.length_salt himage rfl with
    ⟨h', info, -, hread, hfields, hagree⟩
  rw [hwhole] at hread
  refine ⟨?_, info, ⟨himage, hread⟩, ?_, ?_, ?_, ?_, ?_, ?_⟩
  · rw [slice_append_left (by rw [hsalt]; decide), slice_all (by rw [hsalt]; decide)]
  · exact hagree.masterKeys.trans (congrArg HeaderFields.dataAreaKey hfields)
  · exact hagree.requiredVersion.trans (congrArg HeaderFields.requiredMinProgramVersion hfields)
  · exact hagree.hiddenVolumeSize.trans (congrArg HeaderFields.hiddenVolumeDataSize hfields)
  · exact hagree.volumeSize.trans (congrArg HeaderFields.volumeDataSize hfields)
  · exact hagree.encryptedAreaStart.trans (congrArg HeaderFields.encryptedAreaStart hfields)
  · exact hagree.encryptedAreaLength.trans (congrArg HeaderFields.encryptedAreaLength hfields)

/-! ## The plaintext of a header -/

section

variable (C : Ciphers) (a : AlgorithmId) (dk : Bytes)

/-- A header with its encrypted part decrypted under the header key. -/
def decryptStoredHeader (header : Bytes) : Option Bytes :=
  (decryptBuffer C (eaInit a.ea dk (dk.drop (eaGetKeySize a.ea)))
    (slice header headerEncryptedDataOffset headerEncryptedDataSize)).map
      (patch header headerEncryptedDataOffset)

def encryptStoredHeader (header : Bytes) : Option Bytes :=
  (encryptBuffer C (eaInit a.ea dk (dk.drop (eaGetKeySize a.ea)))
    (slice header headerEncryptedDataOffset headerEncryptedDataSize)).map
      (patch header headerEncryptedDataOffset)

end

section

variable {C : Ciphers} {a : AlgorithmId} {dk header plain : Bytes}

theorem length_decryptStoredHeader (hlen : header.length = volumeHeaderEffectiveSize)
    (h : decryptStoredHeader C a dk header = some plain) : plain.length = volumeHeaderEffectiveSize := by
  have h512 : header.length = 512 := hlen
  rw [decryptStoredHeader, decryptBuffer_eq] at h
  obtain ⟨decrypted, hdec, rfl⟩ := Option.map_eq_some_iff.mp h
  have hdecLen : decrypted.length = 448 := by
    rw [EncryptionAlgorithm.length_decryptBuffer hdec]
    exact length_slice (by rw [h512]; decide)
  rw [length_patch (by rw [h512, hdecLen]; decide), hlen]

/-- A decrypted header is encrypted, and decrypts to itself. -/
theorem encryptStoredHeader_some (C : Ciphers) (a : AlgorithmId) (dk : Bytes)
    (hlen : plain.length = volumeHeaderEffectiveSize) :
    ∃ out, encryptStoredHeader C a dk plain = some out ∧ out.length = volumeHeaderEffectiveSize ∧
      decryptStoredHeader C a dk out = some plain := by
  have h512 : plain.length = 512 := hlen
  have hbody : (slice plain headerEncryptedDataOffset headerEncryptedDataSize).length = 448 :=
    length_slice (by rw [h512]; decide)
  have hblocks : (slice plain headerEncryptedDataOffset headerEncryptedDataSize).length %
      bytesPerXtsBlock = 0 := by
    rw [hbody]
    decide
  obtain ⟨encrypted, henc⟩ := EncryptionAlgorithm.encryptBuffer_isSome C (headerAlgorithm a dk)
    hblocks 0
  have hencLen : encrypted.length = 448 := by
    rw [EncryptionAlgorithm.length_encryptBuffer henc, hbody]
  have hsame : (slice plain headerEncryptedDataOffset headerEncryptedDataSize).length =
      encrypted.length := by rw [hbody, hencLen]
  refine ⟨patch plain headerEncryptedDataOffset encrypted, ?_, ?_, ?_⟩
  · rw [encryptStoredHeader, encryptBuffer_eq, henc]
    rfl
  · rw [length_patch (by rw [h512, hencLen]; decide), hlen]
  · have hread : slice (patch plain headerEncryptedDataOffset encrypted)
        headerEncryptedDataOffset headerEncryptedDataSize = encrypted :=
      slice_patch_self (by rw [h512]; decide) hencLen.symm
    rw [decryptStoredHeader, hread, decryptBuffer_eq,
      EncryptionAlgorithm.decryptBuffer_encryptBuffer henc, Option.map_some,
      patch_patch_same (by rw [h512, hencLen]; decide) hsame,
      patch_slice_self (by rw [h512]; decide)]

end

end Common

end VeraCrypt
