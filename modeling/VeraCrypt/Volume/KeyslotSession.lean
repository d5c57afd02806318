import VeraCrypt.Volume.Container

/-!
# A session opened by a keyslot

The native open and the open by a keyslot end in the same fields: `IoState` lists those that
reads and writes depend on. A keyslot gives the decrypted header back as it was, whatever the
layout it came from (`header_of_keyslot`), so the two sessions agree on the key, the algorithm
and the flags. What they do not agree on is the MAC table: the native open looks for one, and
the keyslot open never does (`v2Mac_of_openKeyslot`). So the two sessions are the same exactly
on the volumes that carry no table (`sameSession_iff`), and on the others the keyslot session
reads without verifying and writes without a new tag.
-/

set_option autoImplicit false

namespace VeraCrypt

open Lib

/-- The members of a `Volume` that its reads and writes depend on. -/
structure IoState where
  sectorSize : UInt64
  volumeDataOffset : UInt64
  volumeDataSize : UInt64
  encryptedDataSize : UInt64
  encryptionNotCompleted : Bool
  ea : EncryptionAlgorithm
  headerFlags : UInt32
  v2Mac : V2SectorMacIo
  deriving DecidableEq

def Volume.ioState (v : Volume) : IoState where
  sectorSize := v.sectorSize
  volumeDataOffset := v.volumeDataOffset
  volumeDataSize := v.volumeDataSize
  encryptedDataSize := v.encryptedDataSize
  encryptionNotCompleted := v.encryptionNotCompleted
  ea := v.ea
  headerFlags := v.header.flags
  v2Mac := v.v2Mac

theorem v2Mac_of_ioState_eq {v w : Volume} (h : v.ioState = w.ioState) : v.v2Mac = w.v2Mac :=
  congrArg IoState.v2Mac h

/-- The same open under other credentials. -/
def OpenRequest.withCredentials (req : OpenRequest) (password : Bytes) (pim : Int)
    (kdf : Option Pkcs5Kdf) (hasKeyfiles : Bool) : OpenRequest :=
  { req with password := password, pim := pim, kdf := kdf, hasKeyfiles := hasKeyfiles }

/-- The payload of a slot that was enrolled for a header: the index of its algorithm in the
    list, and the first bytes of its decrypted part. -/
def WrapsHeader (vmk : Bytes) (header : VolumeHeader) : Prop :=
  ∃ index, vmk = index :: header.effectivePlaintext ∧
    getAvailableAlgorithms[index.toNat]? = some header.ea.algorithm

/-! ## The header of a slot -/

/-- **The header of a slot is the header it was enrolled for**, at the size of the version 2
    layout. -/
theorem header_of_keyslot {env : OpenEnv} {req : OpenRequest} {layout : VolumeLayout}
    {header : VolumeHeader} {vmk : Bytes}
    (hfind : env.findHeader req = .ok (some (layout, header))) (hwraps : WrapsHeader vmk header) :
    OpenEnv.headerOfPayload vmk =
      .ok (some (header.rehoused volumeHeaderSize .hmacSha512)) := by
  obtain ⟨tried, part, a, pkcs5, found, hd, hsettle, -⟩ := OpenEnv.findHeader_some hfind
  obtain ⟨-, -, halg, -, hsize, -⟩ := deserialize_some hd
  obtain ⟨hheader, -⟩ := OpenEnv.settleLayout_eq hsettle hsize
  obtain ⟨index, rfl, hindex⟩ := hwraps
  have hplain : header.effectivePlaintext = found.effectivePlaintext := by rw [hheader]
  have hea : header.ea.algorithm = a := by rw [hheader]; exact halg
  have hrebuilt := rebuildFromKeyslot_effectivePlaintext hd
    (OpenEnv.keyslotPayloadSize_le_headerSize tried)
    (OpenEnv.keyslotPayloadSize_le_headerSize .v2Normal)
    .hmacSha512
  have hsame : found.rehoused volumeHeaderSize .hmacSha512 =
      header.rehoused volumeHeaderSize .hmacSha512 := by
    rw [hheader]
    rfl
  rw [OpenEnv.headerOfPayload, List.headD_cons, hindex, List.tail_cons, hplain, hea]
  exact hrebuilt.trans (by rw [← hsame]; rfl)

/-! ## The MAC table -/

/-- `V2FormatDiscoverMode` finds a mode exactly when the tag verifies under the key of one. -/
theorem v2FormatDiscoverMode_isSome_iff (P : Primitives) (masterKey sector0 tag0 : Bytes) :
    (v2FormatDiscoverMode P masterKey sector0 tag0).isSome ↔
      ∃ mode, v2FormatSectorVerify P (v2FormatDeriveModeKey P masterKey mode) 0 sector0 tag0 := by
  unfold v2FormatDiscoverMode
  simp only [List.foldl_cons, List.foldl_nil]
  constructor
  · intro h
    split at h
    · rename_i hv
      exact ⟨_, hv⟩
    · split at h
      · rename_i hv
        exact ⟨_, hv⟩
      · exact absurd h (by simp)
  · rintro ⟨mode, hv⟩
    cases mode with
    | hctr2 =>
      rw [if_pos hv]
      split <;> rfl
    | adiantum =>
      rw [if_pos hv]
      rfl

/-- The volume of a header carries a MAC table: it has a sector, and the bytes behind its data
    are the tag of its first sector under the key of a mode. -/
def HasMacTable (env : OpenEnv) (mem : OpenMemory) (layout : VolumeLayout)
    (header : VolumeHeader) : Prop :=
  let dataOffset := layout.getDataOffset header
  let dataSize := layout.getDataSize header env.volumeHostSize
  dataSize / header.sectorSize.toUInt64 ≠ 0 ∧
    ∃ sector0 tag0 mode,
      File.readInto env.host dataOffset header.sectorSize.toUInt64.toNat
        (env.readFails dataOffset) mem.sector0 = some sector0 ∧
      File.readInto env.host (dataOffset + dataSize + v2FormatSlotOffset 0) v2MacTagLen
        (env.readFails (dataOffset + dataSize + v2FormatSlotOffset 0)) mem.tag0 = some tag0 ∧
      v2FormatSectorVerify env.P
        (v2FormatDeriveModeKey env.P (OpenEnv.macMasterKey header) mode) 0 sector0 tag0

theorem discoverMode_of_reads {env : OpenEnv} {mem : OpenMemory} {v : Volume}
    {sector0 tag0 : Bytes} (hsome : v.volumeDataSize / v.sectorSize ≠ 0)
    (hsector : File.readInto env.host v.volumeDataOffset v.sectorSize.toNat
      (env.readFails v.volumeDataOffset) mem.sector0 = some sector0)
    (htag : File.readInto env.host (v.volumeDataOffset + v.volumeDataSize + v2FormatSlotOffset 0)
      v2MacTagLen (env.readFails (v.volumeDataOffset + v.volumeDataSize + v2FormatSlotOffset 0))
      mem.tag0 = some tag0)
    (hmk : 0 < v.header.ea.algorithm.getKeySize * 2 ∧
      v.header.ea.algorithm.getKeySize * 2 ≤ v.header.dataAreaKey.length) :
    env.discoverMode mem v =
      some (v2FormatDiscoverMode env.P (OpenEnv.macMasterKey v.header) sector0 tag0) := by
  unfold OpenEnv.discoverMode
  simp only
  rw [if_neg hsome, hsector]
  simp only
  rw [htag]
  exact if_pos hmk

theorem discoverMode_iff {env : OpenEnv} {mem : OpenMemory} {req : OpenRequest}
    {layout : VolumeLayout} {header : VolumeHeader}
    (hkey : header.dataAreaKey.length = dataKeyAreaMaxSize) :
    (∃ mode, env.discoverMode mem (env.volumeOf mem req layout header) = some (some mode)) ↔
      HasMacTable env mem layout header := by
  have hmk : 0 < header.ea.algorithm.getKeySize * 2 ∧
      header.ea.algorithm.getKeySize * 2 ≤ header.dataAreaKey.length := by
    rw [hkey]
    cases header.ea.algorithm <;> decide
  have hiff := v2FormatDiscoverMode_isSome_iff env.P (OpenEnv.macMasterKey header)
  unfold HasMacTable
  constructor
  · rintro ⟨mode, h⟩
    unfold OpenEnv.discoverMode at h
    split at h
    · exact absurd h (by simp)
    · rename_i hsome
      split at h
      · exact absurd h (by simp)
      · rename_i sector0 hsector
        simp only at h
        split at h
        · exact absurd h (by simp)
        · rename_i tag0 htag
          split at h
          · have hfound : (v2FormatDiscoverMode env.P (OpenEnv.macMasterKey header) sector0
                tag0).isSome := Option.isSome_iff_exists.mpr ⟨mode, Option.some.inj h⟩
            obtain ⟨mode', hv⟩ := (hiff sector0 tag0).mp hfound
            exact ⟨hsome, sector0, tag0, mode', hsector, htag, hv⟩
          · rename_i hno
            exact absurd hmk hno
  · rintro ⟨hsome, sector0, tag0, mode, hsector, htag, hv⟩
    obtain ⟨found, hfound⟩ := Option.isSome_iff_exists.mp ((hiff sector0 tag0).mpr ⟨mode, hv⟩)
    have hread := discoverMode_of_reads (v := env.volumeOf mem req layout header) hsome hsector
      htag hmk
    exact ⟨found, hread.trans (congrArg some hfound)⟩

/-- What the search for a table leaves in the state: a table found arms it, and nothing else
    changes it. -/
theorem ioState_discover (env : OpenEnv) (mem : OpenMemory) (v : Volume) :
    (env.discover mem v).ioState =
      { v.ioState with
        v2Mac := match env.discoverMode mem v with
          | some (some mode) =>
            v.v2Mac.configure env.P (some mode) (OpenEnv.macMasterKey v.header) v.sectorSize
              (v.volumeDataOffset + v.volumeDataSize) (v.volumeDataSize / v.sectorSize)
          | _ => v.v2Mac } := by
  unfold OpenEnv.discover
  split <;> rename_i h <;> rw [h] <;> rfl

theorem macMasterKey_reread (h : VolumeHeader) (size : Nat) (front : Bytes) (pkcs5 : Pkcs5Kdf) :
    OpenEnv.macMasterKey (rereadHeader h size front h.ea.algorithm pkcs5) =
      OpenEnv.macMasterKey h := rfl

/-- A table found is armed. -/
theorem mode_of_discover {env : OpenEnv} {mem : OpenMemory} {v : Volume} {mode : V2Mode}
    (h : env.discoverMode mem v = some (some mode)) :
    (env.discover mem v).v2Mac.mode = some mode := by
  unfold OpenEnv.discover
  rw [h]
  rfl

/-! ## The two sessions -/

theorem v2Mac_volumeOf (env : OpenEnv) (mem : OpenMemory) (req : OpenRequest)
    (layout : VolumeLayout) (header : VolumeHeader) :
    (env.volumeOf mem req layout header).v2Mac = V2SectorMacIo.init := rfl

/-- No keyslot session has a MAC table: its reads verify nothing and its writes leave the tags
    as they are. -/
theorem v2Mac_of_openKeyslot {env : OpenEnv} {mem : OpenMemory} {req : OpenRequest} {v : Volume}
    (h : env.openKeyslot mem req = .ok (some v)) : v.v2Mac.isActive = false := by
  obtain ⟨opened, header, -, -, rfl⟩ := OpenEnv.openKeyslot_some h
  rfl

/-- A header found outside the scope of an encrypted drive is not the drive's. -/
theorem hasDriveHeader_of_findHeader {env : OpenEnv} {req : OpenRequest} {layout : VolumeLayout}
    {header : VolumeHeader} (hfind : env.findHeader req = .ok (some (layout, header)))
    (hscope : req.partitionInSystemEncryptionScope = false) :
    layout.hasDriveHeader = false := by
  obtain ⟨tried, part, a, pkcs5, found, hd, hsettle, htried⟩ := OpenEnv.findHeader_some hfind
  obtain ⟨-, hl⟩ := OpenEnv.settleLayout_eq hsettle (OpenEnv.headerFits_of_deserialize hd).1
  rcases hl with rfl | rfl
  · rw [htried, hscope]
  · rfl

theorem ioState_of_protectRange {env : OpenEnv} {req : OpenRequest} {w v : Volume}
    (h : env.protectRange req w = .ok v) : v.ioState = w.ioState := by
  unfold OpenEnv.protectRange at h
  split at h
  · split at h
    · exact absurd h (by simp)
    · split at h
      · split at h <;> exact absurd h (by simp)
      · rw [← Except.ok.inj h]
        rfl
  · rw [Except.ok.inj h]

/-- The session of a native open outside the scope of an encrypted drive. -/
theorem ioState_of_openNative {env : OpenEnv} {mem : OpenMemory} {req : OpenRequest}
    {layout : VolumeLayout} {header : VolumeHeader} {v : Volume}
    (hfind : env.findHeader req = .ok (some (layout, header)))
    (hopen : openVolume env mem req = .ok v) (hscope : layout.hasDriveHeader = false) :
    v.ioState = (env.discover mem (env.volumeOf mem req layout header)).ioState := by
  rcases OpenEnv.openWith_ok hopen with ⟨layout', header', w, hfind', hw, hv⟩ | ⟨hnone, -⟩
  · obtain ⟨hl, hh⟩ := Prod.mk.inj (Option.some.inj (Except.ok.inj (hfind.symm.trans hfind')))
    subst hl
    subst hh
    obtain ⟨placed, hplaced, rfl⟩ := OpenEnv.openNative_ok hw
    have hsame : env.volumeOf mem req layout header = placed := Except.ok.inj
      ((OpenEnv.placeOnDrive_of_not_drive env hscope).symm.trans hplaced)
    rw [← hsame] at hv
    rw [ioState_of_protectRange hv]
  · exact absurd (hfind.symm.trans hnone) (by simp)

/-- **When a keyslot gives the session of the native open.** A version 1 volume ignores what its
    header says of the place of the data, so there the two must agree. -/
theorem sameSession_iff {env : OpenEnv} {mem₁ mem₂ : OpenMemory} {req : OpenRequest}
    {password : Bytes} {pim : Int} {kdf : Option Pkcs5Kdf} {hasKeyfiles : Bool}
    {layout : VolumeLayout} {header : VolumeHeader} {opened : Opened} {v₁ : Volume}
    (hfind : env.findHeader req = .ok (some (layout, header)))
    (hnative : openVolume env mem₁ req = .ok v₁)
    (htype : req.volumeType ≠ .hidden) (hscope : req.partitionInSystemEncryptionScope = false)
    (hbackup : req.useBackupHeaders = false)
    (hnone : env.findHeader (req.withCredentials password pim kdf hasKeyfiles) = .ok none)
    (hslot : env.openSlot mem₂ (req.withCredentials password pim kdf hasKeyfiles) = some opened)
    (hduress : opened.flags &&& OpenEnv.keyslotFlagDuress = 0)
    (hwraps : WrapsHeader opened.vmk header) :
    ∃ v₂, openVolume env mem₂ (req.withCredentials password pim kdf hasKeyfiles) = .ok v₂ ∧
      (v₁.ioState = v₂.ioState ↔
        (layout = .v1Normal → header.encryptedAreaStart = UInt64.ofNat volumeHeaderSizeLegacy ∧
          header.volumeDataSize = env.volumeHostSize - UInt64.ofNat volumeHeaderSizeLegacy) ∧
        ¬ HasMacTable env mem₁ layout header) := by
  refine ⟨_, OpenEnv.openVolume_of_openSlot hnone hslot hduress (header_of_keyslot hfind hwraps)
    htype hscope hbackup, ?_⟩
  have hdrive := hasDriveHeader_of_findHeader hfind hscope
  rw [ioState_of_openNative hfind hnative hdrive, ioState_discover,
    ← @discoverMode_iff env mem₁ req layout header (OpenEnv.headerFits_of_findHeader hfind).2]
  constructor
  · intro heq
    constructor
    · rintro rfl
      exact ⟨(congrArg IoState.volumeDataOffset heq).symm,
        (congrArg IoState.volumeDataSize heq).symm⟩
    · rintro ⟨mode, hmode⟩
      have hmac := congrArg (fun s => s.v2Mac.mode) heq
      simp only [hmode] at hmac
      exact absurd hmac (by simp [V2SectorMacIo.configure, Volume.ioState, OpenEnv.volumeOf,
        V2SectorMacIo.init])
  · rintro ⟨hv1, hno⟩
    have hmac : ∀ found, env.discoverMode mem₁ (env.volumeOf mem₁ req layout header) = found →
        ∀ mode, found ≠ some (some mode) := by
      rintro found hfound mode rfl
      exact hno ⟨mode, hfound⟩
    have hplace : layout.getDataOffset header = header.encryptedAreaStart ∧
        layout.getDataSize header env.volumeHostSize = header.volumeDataSize := by
      cases layout with
      | v1Normal => exact ⟨(hv1 rfl).1.symm, (hv1 rfl).2.symm⟩
      | v2Normal => exact ⟨rfl, rfl⟩
      | v2Hidden => exact ⟨rfl, rfl⟩
      | systemEncryption => exact absurd hdrive (by decide)
    split
    · rename_i mode hmode
      exact absurd rfl (hmac _ hmode mode)
    · simp only [Volume.ioState, OpenEnv.volumeOf, hplace.1, hplace.2]
      rfl

/-! ## A container with a MAC table -/

namespace SlotContainer

/-- The mount with the passphrase of the slot. -/
def slotRequest : OpenRequest := request.withCredentials [9] 0 (some .hmacSha512) false

theorem wrapsHeader : WrapsHeader payload header := ⟨0, rfl, rfl⟩

theorem hasMacTable : HasMacTable env memory .v2Normal header := by
  have hfront := length_front
  have hrec := length_record
  have hsector : slice host 131072 512 = List.replicate 512 0 := by
    rw [host, slice_append_right (by omega), slice_append_right (by omega),
      slice_append_left (by rw [List.length_replicate]; omega)]
    exact slice_replicate (by omega)
  have htag : slice host 893440 16 = tag := by
    rw [host, slice_append_right (by omega), slice_append_right (by omega),
      slice_append_right (by rw [List.length_replicate]; omega), List.length_replicate,
      slice_append_left (by rw [length_tag]; omega), hfront, hrec]
    exact slice_all (by rw [length_tag])
  have hread : File.readInto host 131072 512 false memory.sector0 = some (slice host 131072 512) :=
    File.readInto_whole memory.sector0 (by rw [length_host]; decide) (by decide)
  have hread' : File.readInto host 893440 16 false memory.tag0 = some (slice host 893440 16) :=
    File.readInto_whole memory.tag0 (by rw [length_host]; decide) (by decide)
  refine ⟨by decide, List.replicate 512 0, tag, .hctr2, ?_, ?_, ?_⟩
  · exact hread.trans (congrArg some hsector)
  · exact hread'.trans (congrArg some htag)
  · have hkey : OpenEnv.macMasterKey header = OpenEnv.macMasterKey Volume.outerHeader :=
      macMasterKey_reread Volume.outerHeader _ _ _
    rw [hkey]
    unfold v2FormatSectorVerify
    exact ctEqual_self tag

def nativeVolume : Volume := env.discover memory (env.volumeOf memory request .v2Normal header)

def slotVolume (req : OpenRequest) : Volume :=
  env.volumeOf memory req .v2Normal (header.rehoused volumeHeaderSize .hmacSha512)

theorem openVolume_password : openVolume env memory request = .ok nativeVolume :=
  OpenEnv.openVolume_of_findHeader findHeader_request rfl (by decide)

theorem headerOfPayload_eq : OpenEnv.headerOfPayload payload =
    .ok (some (header.rehoused volumeHeaderSize .hmacSha512)) :=
  header_of_keyslot findHeader_request wrapsHeader

/-- The passphrase of the slot opens the container whatever protection is asked for. -/
theorem openKeyslot_passphrase {req : OpenRequest} (hpw : req.password = [9])
    (htype : req.volumeType = .normal) (hscope : req.partitionInSystemEncryptionScope = false)
    (hbackup : req.useBackupHeaders = false) :
    env.openKeyslot memory req = .ok (some (slotVolume req)) :=
  OpenEnv.openKeyslot_of_openSlot (openSlot_passphrase hpw memory) (by decide) headerOfPayload_eq
    (by rw [htype]; decide) hscope hbackup

theorem sameSession_iff_demo :
    ∃ v₂, openVolume env memory slotRequest = .ok v₂ ∧
      (nativeVolume.ioState = v₂.ioState ↔
        (VolumeLayout.v2Normal = .v1Normal →
          header.encryptedAreaStart = UInt64.ofNat volumeHeaderSizeLegacy ∧
          header.volumeDataSize = env.volumeHostSize - UInt64.ofNat volumeHeaderSizeLegacy) ∧
        ¬ HasMacTable env memory .v2Normal header) :=
  sameSession_iff findHeader_request openVolume_password (by decide) rfl rfl
    (findHeader_passphrase rfl rfl rfl rfl rfl) (openSlot_passphrase rfl memory) (by decide)
    wrapsHeader

/-- **The integrity is gone.** A container whose sectors carry tags opens by its password with
    the table armed, and by its keyslot without it. -/
theorem sessions_differ :
    ¬ ∀ (env : OpenEnv) (mem₁ mem₂ : OpenMemory) (req : OpenRequest) (password : Bytes)
        (pim : Int) (kdf : Option Pkcs5Kdf) (hasKeyfiles : Bool) (layout : VolumeLayout)
        (header : VolumeHeader) (opened : Opened) (v₁ v₂ : Volume),
      env.findHeader req = .ok (some (layout, header)) →
      openVolume env mem₁ req = .ok v₁ →
      env.findHeader (req.withCredentials password pim kdf hasKeyfiles) = .ok none →
      env.openSlot mem₂ (req.withCredentials password pim kdf hasKeyfiles) = some opened →
      WrapsHeader opened.vmk header →
      openVolume env mem₂ (req.withCredentials password pim kdf hasKeyfiles) = .ok v₂ →
      v₁.ioState = v₂.ioState := by
  intro h
  have hsame := h env memory memory request [9] 0 (some .hmacSha512) false .v2Normal header _ _ _
    findHeader_request openVolume_password
    (findHeader_passphrase rfl rfl rfl rfl rfl) (openSlot_passphrase rfl memory) wrapsHeader
    (OpenEnv.openVolume_of_openSlot (findHeader_passphrase rfl rfl rfl rfl rfl)
      (openSlot_passphrase rfl memory) (by decide) headerOfPayload_eq (by decide) rfl rfl)
  obtain ⟨mode, hmode⟩ := (@discoverMode_iff env memory request .v2Normal header
    (OpenEnv.headerFits_of_findHeader
    findHeader_request).2).mpr
    hasMacTable
  have harmed : nativeVolume.v2Mac.mode = some mode := by
    rw [nativeVolume, mode_of_discover hmode]
  have hunarmed : nativeVolume.v2Mac.mode = none := by
    rw [v2Mac_of_ioState_eq hsame, v2Mac_volumeOf]
    rfl
  exact absurd (harmed.symm.trans hunarmed) (by simp)

end SlotContainer

end VeraCrypt
