import VeraCrypt.Keyslot.Store
import VeraCrypt.Volume.Volume

/-!
# Opening a volume (`Volume::Open`)

The header layouts are tried in turn. A layout whose header decrypts under the password gives
the native open: geometry and keys from the header, then the search for the MAC mode, then,
when a hidden volume is to be protected, a second open of the same file for its range. If no
layout does, the keyslots in the slack of the primary header are searched; a slot holds the
first bytes of a decrypted header, from which a header is rebuilt. If that fails too, the
exception says which password was wrong.

What the machine holds where the code does not write, which reads fail and what the devices
behind a partition hold are an `OpenEnv`.
-/

set_option autoImplicit false

namespace VeraCrypt

open Lib

/-- What fresh memory holds when one `Open` runs. -/
structure OpenMemory where
  protectedRangeStart : UInt64
  protectedRangeEnd : UInt64
  sector0 : RandStream
  tag0 : RandStream
  /-- What a read of the keyslot area past the end of the file leaves in its buffer. -/
  keyslotArea : RandStream
  keyslotBatch : Nat → UInt8

structure OpenEnv where
  C : Ciphers
  P : Primitives
  K : KeyDerivation
  /-- `KeyslotKdfSha512`. -/
  keyslotKdf : KeyslotKdfFn
  /-- `VolumeKeyslotParallelFor`. -/
  parallelFor : KeyslotParallelFor
  /-- The file behind `VolumeFile`, and the reads of it that fail. -/
  host : Bytes
  readFails : (position : UInt64) → Bool
  /-- `GetPath().IsDevice()`, the drive of the partition (`none` when it cannot be opened),
      where the partition starts on it, and its sector size. -/
  isDevice : Bool
  driveDevice : Option Bytes
  partitionDeviceStartOffset : UInt64
  deviceSectorSize : Nat
  /-- The memory of the open of the volume to protect. -/
  protectedMemory : OpenMemory

/-- The arguments of `Volume::Open`. The passwords are those after
    `Keyfile::ApplyListToPassword`. -/
structure OpenRequest where
  password : Bytes
  pim : Int
  kdf : Option Pkcs5Kdf
  hasKeyfiles : Bool
  protection : VolumeProtection
  protectionPassword : Bytes
  protectionPim : Int
  protectionKdf : Option Pkcs5Kdf
  protectionHasKeyfiles : Bool
  volumeType : VolumeType
  useBackupHeaders : Bool
  partitionInSystemEncryptionScope : Bool

namespace OpenEnv

def volumeHostSize (env : OpenEnv) : UInt64 := UInt64.ofNat env.host.length

/-! ## The headers -/

/-- The read of one header: `none` where the layout is passed over. -/
def readHeader (env : OpenEnv) (req : OpenRequest) (layout : VolumeLayout) :
    Except Exception (Option Bytes) :=
  let whole (headerBuffer : Bytes) : Option Bytes :=
    if headerBuffer.length = layout.getHeaderSize then some headerBuffer else none
  let readHost (position : Nat) : Except Exception (Option Bytes) :=
    match File.readAt env.host (UInt64.ofNat position) layout.getHeaderSize
        (env.readFails (UInt64.ofNat position)) with
    | none => .error .systemException
    | some headerBuffer => .ok (whole headerBuffer)
  if layout.hasDriveHeader then
    if !req.partitionInSystemEncryptionScope then .ok none
    else if !env.isDevice then .error .partitionDeviceRequired
    else
      match env.driveDevice with
      | none => .error .systemException
      | some drive => .ok (whole (slice drive layout.getHeaderOffset layout.getHeaderSize))
  else if req.partitionInSystemEncryptionScope then .ok none
  else if req.useBackupHeaders then
    match layout.getBackupHeaderOffset with
    | none => .ok none
    | some back =>
      if env.host.length < back then .error .systemException
      else readHost (env.host.length - back)
  else readHost layout.getHeaderOffset

/-- The algorithms tried on a header: a version 1 volume shares the header of version 2. -/
def headerAlgorithms (layout : VolumeLayout) : List AlgorithmId :=
  if layout = .v2Normal then getAvailableAlgorithms
  else layout.getSupportedEncryptionAlgorithms

/-- A header that decrypted as version 2 but asks for an older program is of version 1. -/
def settleLayout (layout : VolumeLayout) (header : VolumeHeader) : VolumeLayout × VolumeHeader :=
  if layout = .v2Normal ∧ header.requiredMinProgramVersion < 0x10b then
    (.v1Normal, { header with headerSize := VolumeLayout.getHeaderSize .v1Normal })
  else (layout, header)

/-- One round of the loop over the layouts. -/
def tryLayout (env : OpenEnv) (req : OpenRequest) (layout : VolumeLayout) :
    Except Exception (Bool × Option (VolumeLayout × VolumeHeader)) :=
  if req.useBackupHeaders ∧ !layout.hasBackupHeader then .ok (false, none)
  else
    match env.readHeader req layout with
    | .error e => .error e
    | .ok none => .ok (false, none)
    | .ok (some headerBuffer) =>
      match decryptHeader env.C env.K layout.getHeaderSize headerBuffer req.password req.pim
          req.kdf layout.getSupportedKeyDerivationFunctions (headerAlgorithms layout)
          (env.K.hkfShouldApply (layout.getType = .hidden)) with
      | .error e => .error e
      | .ok header => .ok (true, header.map (settleLayout layout))

/-- The loop over the layouts: once the header of version 2 has been tried, that of version 1
    in the same place is skipped. -/
def searchLayouts (env : OpenEnv) (req : OpenRequest) :
    (skipLayoutV1Normal : Bool) → List VolumeLayout →
      Except Exception (Option (VolumeLayout × VolumeHeader))
  | _, [] => .ok none
  | skip, layout :: layouts =>
    if skip ∧ layout = .v1Normal then env.searchLayouts req skip layouts
    else
      match env.tryLayout req layout with
      | .error e => .error e
      | .ok (_, some found) => .ok (some found)
      | .ok (tried, none) =>
        env.searchLayouts req (skip || (tried && layout = .v2Normal)) layouts

/-- The native search of an open. -/
def findHeader (env : OpenEnv) (req : OpenRequest) :
    Except Exception (Option (VolumeLayout × VolumeHeader)) :=
  env.searchLayouts req false (VolumeLayout.getAvailableLayouts req.volumeType)

/-! ## The volume of a header -/

/-- The fields both ways of opening set from a header, over the constructor's. -/
def volumeOf (env : OpenEnv) (mem : OpenMemory) (req : OpenRequest) (layout : VolumeLayout)
    (header : VolumeHeader) : Volume where
  type := layout.getType
  protection := req.protection
  hiddenVolumeProtectionTriggered := false
  protectedRangeStart := mem.protectedRangeStart
  protectedRangeEnd := mem.protectedRangeEnd
  systemEncryption := req.partitionInSystemEncryptionScope
  sectorSize := header.sectorSize.toUInt64
  volumeHostSize := env.volumeHostSize
  volumeDataOffset := layout.getDataOffset header
  volumeDataSize := layout.getDataSize header env.volumeHostSize
  encryptedDataSize := header.encryptedAreaLength
  encryptionNotCompleted := false
  topWriteOffset := 0
  totalDataRead := 0
  totalDataWritten := 0
  pim := req.pim
  ea := header.ea
  header := header
  layout := layout
  v2Mac := V2SectorMacIo.init
  v2DiscoveryReadError := false

/-- The part of the native open for a partition of an encrypted drive: where the partition
    lies in the encrypted area. -/
def placeOnDrive (env : OpenEnv) (v : Volume) : Except Exception Volume :=
  let areaStart := v.header.encryptedAreaStart
  let areaLength := v.header.encryptedAreaLength
  let start := env.partitionDeviceStartOffset
  let partly : Bool := areaLength ≠ v.header.volumeDataSize
  if !v.layout.hasDriveHeader then .ok v
  else if start < areaStart ∨ areaStart + areaLength ≤ start then .error .passwordIncorrect
  else
    .ok { v with
      encryptionNotCompleted := partly
      protection := if partly then .readOnly else v.protection
      encryptedDataSize := v.encryptedDataSize - (start - areaStart)
      ea := { v.ea with sectorOffset := start / encryptionDataUnitSize } }

/-- The master key the tags are derived from: the key area cut to the length in use. -/
def macMasterKey (header : VolumeHeader) : Bytes :=
  slice header.dataAreaKey 0 (header.ea.algorithm.getKeySize * 2)

/-- What the search for the MAC mode finds; `none` where a read fails. -/
def discoverMode (env : OpenEnv) (mem : OpenMemory) (v : Volume) : Option (Option V2Mode) :=
  let mkLen := v.header.ea.algorithm.getKeySize * 2
  let tagPosition := v.volumeDataOffset + v.volumeDataSize + v2FormatSlotOffset 0
  if v.volumeDataSize / v.sectorSize = 0 then some none
  else
    match File.readInto env.host v.volumeDataOffset v.sectorSize.toNat
        (env.readFails v.volumeDataOffset) mem.sector0 with
    | none => none
    | some sector0 =>
      match File.readInto env.host tagPosition v2MacTagLen (env.readFails tagPosition)
          mem.tag0 with
      | none => none
      | some tag0 =>
        if 0 < mkLen ∧ mkLen ≤ v.header.dataAreaKey.length then
          some (v2FormatDiscoverMode env.P (macMasterKey v.header) sector0 tag0)
        else some none

/-- The search for the MAC mode, which never fails the open. -/
def discover (env : OpenEnv) (mem : OpenMemory) (v : Volume) : Volume :=
  match env.discoverMode mem v with
  | none => { v with v2DiscoveryReadError := true }
  | some none => v
  | some (some mode) =>
    { v with
      v2Mac := v.v2Mac.configure env.P (some mode) (macMasterKey v.header) v.sectorSize
        (v.volumeDataOffset + v.volumeDataSize) (v.volumeDataSize / v.sectorSize) }

/-- The native open of a header, up to the protection of a hidden volume. -/
def openNative (env : OpenEnv) (mem : OpenMemory) (req : OpenRequest) (layout : VolumeLayout)
    (header : VolumeHeader) : Except Exception Volume :=
  match env.placeOnDrive (env.volumeOf mem req layout header) with
  | .error e => .error e
  | .ok v => .ok (env.discover mem v)

/-! ## Keyslots -/

/-- The header slack as a keyslot area. -/
def keyslotArea (env : OpenEnv) (mem : OpenMemory) : KeyslotArea where
  bytes :=
    let onDisk := slice env.host 512 (volumeHeaderSize - 512)
    onDisk ++ mem.keyslotArea.bytes onDisk.length (volumeHeaderSize - 512 - onDisk.length)
  readFails off := env.readFails (UInt64.ofNat (512 + off))
  writeFault _ := some 0

def keyslotCfg (env : OpenEnv) : KeyslotStoreCfg where
  backend := .header
  kdf := env.keyslotKdf
  cost := 500000
  vmkLen := 1 + keyslotPayloadSize
  maxSlots := 63
  afStripes := 0
  policy := 0

/-- `KEYSLOT_FLAG_DURESS` -/
def keyslotFlagDuress : UInt8 := 0x01

/-- The header that a slot's payload describes: an algorithm index, then the decrypted
    header. -/
def headerOfPayload (vmk : Bytes) : Except Exception (Option VolumeHeader) :=
  match getAvailableAlgorithms[(vmk.headD 0).toNat]? with
  | none => .ok none
  | some ea => rebuildFromKeyslot (VolumeLayout.getHeaderSize .v2Normal) vmk.tail ea .hmacSha512

/-- The search of the keyslots under the password. -/
def openSlot (env : OpenEnv) (mem : OpenMemory) (req : OpenRequest) : Option Opened :=
  keyslotOpenParallel env.P env.keyslotCfg (env.keyslotArea mem) req.password env.parallelFor
    mem.keyslotBatch

/-- The open by a keyslot. -/
def openKeyslot (env : OpenEnv) (mem : OpenMemory) (req : OpenRequest) :
    Except Exception (Option Volume) :=
  if req.volumeType = .hidden ∨ req.partitionInSystemEncryptionScope ∨ req.useBackupHeaders then
    .ok none
  else
    match env.openSlot mem req with
    | none => .ok none
    | some opened =>
      if opened.flags &&& keyslotFlagDuress ≠ 0 then .error .keyslotDuress
      else
        match headerOfPayload opened.vmk with
        | .error e => .error e
        | .ok header => .ok (header.map (env.volumeOf mem req .v2Normal))

/-! ## Open -/

/-- "VeraCrypt" in the first sector of the drive. -/
def hasBootLoader (env : OpenEnv) : Bool :=
  let name : Bytes := [0x56, 0x65, 0x72, 0x61, 0x43, 0x72, 0x79, 0x70, 0x74]
  match env.driveDevice with
  | none => false
  | some drive =>
    let mbr := slice drive 0 env.deviceSectorSize
    (List.range (env.deviceSectorSize - name.length)).any
      (fun i => slice mbr i name.length = name)

/-- The exception when nothing accepted the password. -/
def wrongPassword (env : OpenEnv) (req : OpenRequest) : Exception :=
  if req.partitionInSystemEncryptionScope then .passwordOrKeyboardLayoutIncorrect
  else if env.isDevice && env.hasBootLoader then .passwordOrMountOptionsIncorrect
  else if req.hasKeyfiles then .passwordKeyfilesIncorrect
  else .passwordIncorrect

/-- `Volume::Open`, with what it does at the end of a native open as a parameter. -/
def openWith (env : OpenEnv) (mem : OpenMemory) (req : OpenRequest)
    (protect : Volume → Except Exception Volume) : Except Exception Volume :=
  match env.findHeader req with
  | .error e => .error e
  | .ok (some (layout, header)) =>
    match env.openNative mem req layout header with
    | .error e => .error e
    | .ok v => protect v
  | .ok none =>
    match env.openKeyslot mem req with
    | .error e => .error e
    | .ok (some v) => .ok v
    | .ok none => .error (env.wrongPassword req)

/-- The arguments of the open of the volume to protect. -/
def hiddenRequest (req : OpenRequest) : OpenRequest where
  password := req.protectionPassword
  pim := req.protectionPim
  kdf := req.protectionKdf
  hasKeyfiles := req.protectionHasKeyfiles
  protection := .readOnly
  protectionPassword := []
  protectionPim := 0
  protectionKdf := none
  protectionHasKeyfiles := false
  volumeType := .hidden
  useBackupHeaders := req.useBackupHeaders
  partitionInSystemEncryptionScope := false

/-- The open of the volume to protect. It asks for read-only protection itself, so the branch
    that opens a third volume is not taken. -/
def openHidden (env : OpenEnv) (req : OpenRequest) : Except Exception Volume :=
  env.openWith env.protectedMemory (hiddenRequest req) .ok

/-- The end of a native open: the range of the volume to protect. The type of the volume found
    is compared, but the exception for a mismatch is built and not thrown. -/
def protectRange (env : OpenEnv) (req : OpenRequest) (v : Volume) : Except Exception Volume :=
  if v.protection = .hiddenVolumeReadOnly then
    if v.type = .hidden then .error .passwordIncorrect
    else
      match env.openHidden req with
      | .error e =>
        if e.isPasswordException then
          .error (if req.protectionHasKeyfiles then .protectionPasswordKeyfilesIncorrect
            else .protectionPasswordIncorrect)
        else .error e
      | .ok p =>
        .ok { v with
          protectedRangeStart := p.volumeDataOffset
          protectedRangeEnd := p.volumeDataOffset + p.volumeDataSize }
  else .ok v

end OpenEnv

/-- `Volume::Open`. -/
def openVolume (env : OpenEnv) (mem : OpenMemory) (req : OpenRequest) :
    Except Exception Volume :=
  env.openWith mem req (env.protectRange req)

/-! ## What an open gives -/

namespace OpenEnv

/-- The drive's header is looked for in its own scope only. -/
theorem scope_of_readHeader {env : OpenEnv} {req : OpenRequest} {layout : VolumeLayout}
    {headerBuffer : Bytes} (h : env.readHeader req layout = .ok (some headerBuffer)) :
    layout.hasDriveHeader = req.partitionInSystemEncryptionScope := by
  unfold readHeader at h
  simp only at h
  split at h
  · rename_i hdrive
    split at h
    · exact absurd h (by simp)
    · rename_i hscope
      rw [hdrive]
      simpa using hscope
  · rename_i hdrive
    split at h
    · exact absurd h (by simp)
    · rename_i hscope
      rw [Bool.eq_false_iff.mpr hdrive, Bool.eq_false_iff.mpr hscope]

/-- **Where the header of a native open comes from**: a decrypted part that was accepted at
    the header size of a layout of the scope asked for. -/
theorem findHeader_some {env : OpenEnv} {req : OpenRequest} {layout : VolumeLayout}
    {header : VolumeHeader} (h : env.findHeader req = .ok (some (layout, header))) :
    ∃ tried part a pkcs5 found,
      deserialize (VolumeLayout.getHeaderSize tried) part a pkcs5 = .ok (some found) ∧
      (layout, header) = settleLayout tried found ∧
      tried.hasDriveHeader = req.partitionInSystemEncryptionScope := by
  have hsearch : ∀ layouts skip,
      env.searchLayouts req skip layouts = .ok (some (layout, header)) →
      ∃ tried b, env.tryLayout req tried = .ok (b, some (layout, header)) := by
    intro layouts
    induction layouts with
    | nil => intro skip hs; exact absurd hs (by simp [searchLayouts])
    | cons l ls ih =>
      intro skip hs
      unfold searchLayouts at hs
      split at hs
      · exact ih _ hs
      · split at hs
        · exact absurd hs (by simp)
        · rename_i b found htry
          rw [← Option.some.inj (Except.ok.inj hs)]
          exact ⟨l, b, htry⟩
        · exact ih _ hs
  obtain ⟨tried, b, htry⟩ := hsearch _ _ h
  unfold tryLayout at htry
  split at htry
  · exact absurd htry (by simp)
  · split at htry
    · exact absurd htry (by simp)
    · exact absurd htry (by simp)
    · rename_i headerBuffer hread
      split at htry
      · exact absurd htry (by simp)
      · rename_i found hdec
        obtain ⟨-, hmap⟩ := Prod.mk.inj (Except.ok.inj htry)
        obtain ⟨h0, hfound, hsettle⟩ := Option.map_eq_some_iff.mp hmap
        subst hfound
        obtain ⟨part, a, pkcs5, -, hd⟩ := decryptHeader_some hdec
        exact ⟨tried, part, a, pkcs5, h0, hd, hsettle.symm, scope_of_readHeader hread⟩

/-- A native open inverted. -/
theorem openNative_ok {env : OpenEnv} {mem : OpenMemory} {req : OpenRequest}
    {layout : VolumeLayout} {header : VolumeHeader} {v : Volume}
    (h : env.openNative mem req layout header = .ok v) :
    ∃ w, env.placeOnDrive (env.volumeOf mem req layout header) = .ok w ∧
      v = env.discover mem w := by
  unfold openNative at h
  split at h
  · exact absurd h (by simp)
  · rename_i w hw
    exact ⟨w, hw, (Except.ok.inj h).symm⟩

theorem placeOnDrive_of_not_drive (env : OpenEnv) {v : Volume}
    (h : v.layout.hasDriveHeader = false) : env.placeOnDrive v = .ok v := by
  unfold placeOnDrive
  exact if_pos (by rw [h]; rfl)

theorem protection_discover (env : OpenEnv) (mem : OpenMemory) (v : Volume) :
    (env.discover mem v).protection = v.protection := by
  unfold discover
  split <;> rfl

theorem layout_discover (env : OpenEnv) (mem : OpenMemory) (v : Volume) :
    (env.discover mem v).layout = v.layout := by
  unfold discover
  split <;> rfl

theorem header_discover (env : OpenEnv) (mem : OpenMemory) (v : Volume) :
    (env.discover mem v).header = v.header := by
  unfold discover
  split <;> rfl

/-- The protection of a volume opened natively is the one asked for, or read-only. -/
theorem protection_of_openNative {env : OpenEnv} {mem : OpenMemory} {req : OpenRequest}
    {layout : VolumeLayout} {header : VolumeHeader} {v : Volume}
    (h : env.openNative mem req layout header = .ok v) :
    v.protection = req.protection ∨ v.protection = .readOnly := by
  obtain ⟨w, hw, rfl⟩ := openNative_ok h
  rw [protection_discover]
  unfold placeOnDrive at hw
  simp only at hw
  split at hw
  · rw [← Except.ok.inj hw]
    exact Or.inl rfl
  · split at hw
    · exact absurd hw (by simp)
    · rw [← Except.ok.inj hw]
      simp only
      split
      · exact Or.inr rfl
      · exact Or.inl rfl

/-- The open of the volume to protect is `Volume::Open` itself on its arguments. -/
theorem openHidden_eq (env : OpenEnv) (req : OpenRequest) :
    env.openHidden req = openVolume env env.protectedMemory (hiddenRequest req) := by
  have hprot : ∀ layout header v,
      env.openNative env.protectedMemory (hiddenRequest req) layout header = .ok v →
      env.protectRange (hiddenRequest req) v = .ok v := by
    intro layout header v hv
    unfold protectRange
    rw [if_neg]
    rcases protection_of_openNative hv with h | h <;> rw [h] <;> simp [hiddenRequest]
  unfold openHidden openVolume openWith
  split
  · rfl
  · split
    · rfl
    · rename_i hv
      exact (hprot _ _ _ hv).symm
  · rfl

/-- **An open inverted.** A volume comes from a header that decrypted, or from a keyslot when
    none did. -/
theorem openWith_ok {env : OpenEnv} {mem : OpenMemory} {req : OpenRequest}
    {protect : Volume → Except Exception Volume} {v : Volume}
    (h : env.openWith mem req protect = .ok v) :
    (∃ layout header w, env.findHeader req = .ok (some (layout, header)) ∧
      env.openNative mem req layout header = .ok w ∧ protect w = .ok v) ∨
    (env.findHeader req = .ok none ∧ env.openKeyslot mem req = .ok (some v)) := by
  unfold openWith at h
  split at h
  · exact absurd h (by simp)
  · rename_i layout header hf
    split at h
    · exact absurd h (by simp)
    · rename_i w hw
      exact Or.inl ⟨layout, header, w, hf, hw, h⟩
  · rename_i hf
    split at h
    · exact absurd h (by simp)
    · rename_i w hw
      rw [← Except.ok.inj h]
      exact Or.inr ⟨hf, hw⟩
    · exact absurd h (by simp)

/-- A keyslot open inverted: the slot found, the header rebuilt from it, and the volume of
    that header. -/
theorem openKeyslot_some {env : OpenEnv} {mem : OpenMemory} {req : OpenRequest} {v : Volume}
    (h : env.openKeyslot mem req = .ok (some v)) :
    ∃ opened header, env.openSlot mem req = some opened ∧
      headerOfPayload opened.vmk = .ok (some header) ∧
      v = env.volumeOf mem req .v2Normal header := by
  unfold openKeyslot at h
  split at h
  · exact absurd h (by simp)
  · split at h
    · exact absurd h (by simp)
    · rename_i opened hslot
      split at h
      · exact absurd h (by simp)
      · split at h
        · exact absurd h (by simp)
        · rename_i found hheader
          obtain ⟨header, hfound, hv⟩ := Option.map_eq_some_iff.mp (Except.ok.inj h)
          subst hfound
          exact ⟨opened, header, hslot, hheader, hv.symm⟩

/-- A volume never comes from a duress slot. -/
theorem openKeyslot_not_duress {env : OpenEnv} {mem : OpenMemory} {req : OpenRequest} {v : Volume}
    (h : env.openKeyslot mem req = .ok (some v)) {opened : Opened}
    (hslot : env.openSlot mem req = some opened) : opened.flags &&& keyslotFlagDuress = 0 := by
  by_contra hflag
  unfold openKeyslot at h
  rw [hslot] at h
  simp only [if_pos hflag] at h
  split at h
  · exact absurd h (by simp)
  · exact absurd h (by simp)

end OpenEnv

end VeraCrypt
