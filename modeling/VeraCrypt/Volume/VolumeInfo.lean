import VeraCrypt.Platform.Serializable

/-!
# What is said of a mounted volume (`Volume/VolumeInfo.cpp`)

The record that the process that holds a volume gives to the others. It is written and read field by
field, in two lists that must match.
-/

set_option autoImplicit false

namespace VeraCrypt

open Lib Lib.ByteReader Serializer

/-- What is compiled in: `TC_LINUX` and `VC_ENABLE_V2FORMAT`. -/
structure Build where
  linux : Bool
  v2Format : Bool

/-- Paths are the strings they hold, and an enumeration is the number it is sent as: a cast to one
    does not test it. The last four fields are compiled in with version 2. -/
structure VolumeInfo where
  programVersion : UInt32
  auxMountPoint : WString
  encryptionAlgorithmBlockSize : UInt32
  encryptionAlgorithmKeySize : UInt32
  encryptionAlgorithmMinBlockSize : UInt32
  encryptionAlgorithmName : WString
  encryptionModeName : WString
  headerCreationTime : UInt64
  hiddenVolumeProtectionTriggered : Bool
  loopDevice : WString
  minRequiredProgramVersion : UInt32
  mountPoint : WString
  path : WString
  pkcs5IterationCount : UInt32
  pkcs5PrfName : WString
  protection : Int32
  serialInstanceNumber : UInt64
  size : UInt64
  slotNumber : UInt32
  systemEncryption : Bool
  topWriteOffset : UInt64
  totalDataRead : UInt64
  totalDataWritten : UInt64
  type : Int32
  virtualDevice : WString
  volumeCreationTime : UInt64
  pim : Int32
  masterKeyVulnerable : Bool
  v2Format : Bool
  v2IgnoreTags : Bool
  v2IgnoredMismatchCount : UInt64
  v2FirstIgnoredSector : UInt64

namespace VolumeInfo

/-- `VERSION_NUM` -/
def versionNum : UInt32 := 0x0126

/-- `Deserialize`, into the object `target`. -/
def deserialize (build : Build) (mem : Memory) (target : VolumeInfo) :
    Serializer.Reader VolumeInfo := do
  let programVersion ← read mem "ProgramVersion" .uint32
  let auxMountPoint ← read mem "AuxMountPoint" .wstring
  let encryptionAlgorithmBlockSize ← read mem "EncryptionAlgorithmBlockSize" .uint32
  let encryptionAlgorithmKeySize ← read mem "EncryptionAlgorithmKeySize" .uint32
  let encryptionAlgorithmMinBlockSize ← read mem "EncryptionAlgorithmMinBlockSize" .uint32
  let encryptionAlgorithmName ← read mem "EncryptionAlgorithmName" .wstring
  let encryptionModeName ← read mem "EncryptionModeName" .wstring
  let headerCreationTime ← read mem "HeaderCreationTime" .uint64
  let hiddenVolumeProtectionTriggered ← read mem "HiddenVolumeProtectionTriggered" .bool
  let loopDevice ← read mem "LoopDevice" .wstring
  let minRequiredProgramVersion ← (
    if 0x10b ≤ programVersion then read mem "MinRequiredProgramVersion" .uint32
    else pure target.minRequiredProgramVersion)
  let mountPoint ← read mem "MountPoint" .wstring
  let path ← read mem "Path" .wstring
  let pkcs5IterationCount ← read mem "Pkcs5IterationCount" .uint32
  let pkcs5PrfName ← read mem "Pkcs5PrfName" .wstring
  let protection ← read mem "Protection" .int32
  let serialInstanceNumber ← read mem "SerialInstanceNumber" .uint64
  let size ← read mem "Size" .uint64
  let slotNumber ← read mem "SlotNumber" .uint32
  let systemEncryption ← (
    if 0x10b ≤ programVersion then read mem "SystemEncryption" .bool
    else pure target.systemEncryption)
  let topWriteOffset ← (
    if 0x10b ≤ programVersion then read mem "TopWriteOffset" .uint64
    else pure target.topWriteOffset)
  let totalDataRead ← read mem "TotalDataRead" .uint64
  let totalDataWritten ← read mem "TotalDataWritten" .uint64
  let type ← read mem "Type" .int32
  let virtualDevice ← read mem "VirtualDevice" .wstring
  let volumeCreationTime ← read mem "VolumeCreationTime" .uint64
  let pim ← read mem "Pim" .int32
  let masterKeyVulnerable ← read mem "MasterKeyVulnerable" .bool
  let v2Format ← (
    if build.v2Format = true then read mem "V2Format" .bool
    else pure target.v2Format)
  let v2IgnoreTags ← (
    if build.v2Format = true then read mem "V2IgnoreTags" .bool
    else pure target.v2IgnoreTags)
  let v2IgnoredMismatchCount ← (
    if build.v2Format = true then read mem "V2IgnoredMismatchCount" .uint64
    else pure target.v2IgnoredMismatchCount)
  let v2FirstIgnoredSector ← (
    if build.v2Format = true then read mem "V2FirstIgnoredSector" .uint64
    else pure target.v2FirstIgnoredSector)
  pure
    { programVersion, auxMountPoint, encryptionAlgorithmBlockSize, encryptionAlgorithmKeySize,
      encryptionAlgorithmMinBlockSize, encryptionAlgorithmName, encryptionModeName,
      headerCreationTime, hiddenVolumeProtectionTriggered, loopDevice, minRequiredProgramVersion,
      mountPoint, path, pkcs5IterationCount, pkcs5PrfName, protection, serialInstanceNumber, size,
      slotNumber, systemEncryption, topWriteOffset, totalDataRead, totalDataWritten, type,
      virtualDevice, volumeCreationTime, pim, masterKeyVulnerable, v2Format, v2IgnoreTags,
      v2IgnoredMismatchCount, v2FirstIgnoredSector }

/-- The fields as `Serialize` writes them, behind the header. -/
def serializeFields (build : Build) (info : VolumeInfo) : Bytes :=
  List.flatten [
    write "ProgramVersion" .uint32 versionNum,
    write "AuxMountPoint" .wstring info.auxMountPoint,
    write "EncryptionAlgorithmBlockSize" .uint32 info.encryptionAlgorithmBlockSize,
    write "EncryptionAlgorithmKeySize" .uint32 info.encryptionAlgorithmKeySize,
    write "EncryptionAlgorithmMinBlockSize" .uint32 info.encryptionAlgorithmMinBlockSize,
    write "EncryptionAlgorithmName" .wstring info.encryptionAlgorithmName,
    write "EncryptionModeName" .wstring info.encryptionModeName,
    write "HeaderCreationTime" .uint64 info.headerCreationTime,
    write "HiddenVolumeProtectionTriggered" .bool info.hiddenVolumeProtectionTriggered,
    write "LoopDevice" .wstring info.loopDevice,
    write "MinRequiredProgramVersion" .uint32 info.minRequiredProgramVersion,
    write "MountPoint" .wstring info.mountPoint,
    write "Path" .wstring info.path,
    write "Pkcs5IterationCount" .uint32 info.pkcs5IterationCount,
    write "Pkcs5PrfName" .wstring info.pkcs5PrfName,
    write "Protection" .uint32 info.protection.toUInt32,
    write "SerialInstanceNumber" .uint64 info.serialInstanceNumber,
    write "Size" .uint64 info.size,
    write "SlotNumber" .uint32 info.slotNumber,
    write "SystemEncryption" .bool info.systemEncryption,
    write "TopWriteOffset" .uint64 info.topWriteOffset,
    write "TotalDataRead" .uint64 info.totalDataRead,
    write "TotalDataWritten" .uint64 info.totalDataWritten,
    write "Type" .uint32 info.type.toUInt32,
    write "VirtualDevice" .wstring info.virtualDevice,
    write "VolumeCreationTime" .uint64 info.volumeCreationTime,
    write "Pim" .uint32 info.pim.toUInt32,
    write "MasterKeyVulnerable" .bool info.masterKeyVulnerable,
    if build.v2Format = true then write "V2Format" .bool info.v2Format
      else [],
    if build.v2Format = true then write "V2IgnoreTags" .bool info.v2IgnoreTags
      else [],
    if build.v2Format = true then write "V2IgnoredMismatchCount" .uint64 info.v2IgnoredMismatchCount
      else [],
    if build.v2Format = true then write "V2FirstIgnoredSector" .uint64 info.v2FirstIgnoredSector
      else []]

/-- `Serialize` -/
def serialize (build : Build) (info : VolumeInfo) : Bytes :=
  serializeHeader "VolumeInfo" ++ serializeFields build info

/-- The memory that the strings take. -/
def footprint (info : VolumeInfo) : Nat :=
  64 + Serializer.footprint .wstring info.auxMountPoint +
    Serializer.footprint .wstring info.encryptionAlgorithmName +
    Serializer.footprint .wstring info.encryptionModeName +
    Serializer.footprint .wstring info.loopDevice +
    Serializer.footprint .wstring info.mountPoint +
    Serializer.footprint .wstring info.path +
    Serializer.footprint .wstring info.pkcs5PrfName +
    Serializer.footprint .wstring info.virtualDevice

/-- What comes back, read into `target`. -/
def received (build : Build) (target info : VolumeInfo) : VolumeInfo :=
  { info with
    programVersion := versionNum
    auxMountPoint := cut .wstring info.auxMountPoint
    encryptionAlgorithmName := cut .wstring info.encryptionAlgorithmName
    encryptionModeName := cut .wstring info.encryptionModeName
    loopDevice := cut .wstring info.loopDevice
    mountPoint := cut .wstring info.mountPoint
    path := cut .wstring info.path
    pkcs5PrfName := cut .wstring info.pkcs5PrfName
    virtualDevice := cut .wstring info.virtualDevice
    v2Format := if build.v2Format = true then info.v2Format
      else target.v2Format
    v2IgnoreTags := if build.v2Format = true then info.v2IgnoreTags
      else target.v2IgnoreTags
    v2IgnoredMismatchCount := if build.v2Format = true then info.v2IgnoredMismatchCount
      else target.v2IgnoredMismatchCount
    v2FirstIgnoredSector := if build.v2Format = true then info.v2FirstIgnoredSector
      else target.v2FirstIgnoredSector }

theorem reads_deserialize {mem : Memory} (build : Build) (target : VolumeInfo) {info : VolumeInfo}
    (h : Ample mem info.footprint) :
    Reads (deserialize build mem target) (serializeFields build info)
      (received build target info) := by
  have hfoot := footprint.eq_1 info
  have hversion : (0x10b : UInt32) ≤ versionNum := by decide
  simp only [serializeFields, List.flatten_cons, List.flatten_nil]
  rw [deserialize]
  refine reads_then h (by decide) (Nat.zero_le _) ?_
  refine reads_then h (by decide) (by omega) ?_
  refine reads_then h (by decide) (Nat.zero_le _) ?_
  refine reads_then h (by decide) (Nat.zero_le _) ?_
  refine reads_then h (by decide) (Nat.zero_le _) ?_
  refine reads_then h (by decide) (by omega) ?_
  refine reads_then h (by decide) (by omega) ?_
  refine reads_then h (by decide) (Nat.zero_le _) ?_
  refine reads_then h (by decide) (Nat.zero_le _) ?_
  refine reads_then h (by decide) (by omega) ?_
  refine Reads.bind (Reads.of_pos hversion (reads_field h (by decide) _ _ (Nat.zero_le _))) ?_
  refine reads_then h (by decide) (by omega) ?_
  refine reads_then h (by decide) (by omega) ?_
  refine reads_then h (by decide) (Nat.zero_le _) ?_
  refine reads_then h (by decide) (by omega) ?_
  refine reads_then h (by decide) (Nat.zero_le _) ?_
  refine reads_then h (by decide) (Nat.zero_le _) ?_
  refine reads_then h (by decide) (Nat.zero_le _) ?_
  refine reads_then h (by decide) (Nat.zero_le _) ?_
  refine Reads.bind (Reads.of_pos hversion (reads_field h (by decide) _ _ (Nat.zero_le _))) ?_
  refine Reads.bind (Reads.of_pos hversion (reads_field h (by decide) _ _ (Nat.zero_le _))) ?_
  refine reads_then h (by decide) (Nat.zero_le _) ?_
  refine reads_then h (by decide) (Nat.zero_le _) ?_
  refine reads_then h (by decide) (Nat.zero_le _) ?_
  refine reads_then h (by decide) (by omega) ?_
  refine reads_then h (by decide) (Nat.zero_le _) ?_
  refine reads_then h (by decide) (Nat.zero_le _) ?_
  refine reads_then h (by decide) (Nat.zero_le _) ?_
  refine Reads.bind (Reads.when (reads_field h (by decide) _ _ (Nat.zero_le _))) ?_
  refine Reads.bind (Reads.when (reads_field h (by decide) _ _ (Nat.zero_le _))) ?_
  refine Reads.bind (Reads.when (reads_field h (by decide) _ _ (Nat.zero_le _))) ?_
  refine Reads.bind (Reads.when (reads_field h (by decide) _ _ (Nat.zero_le _))) ?_
  exact reads_pure _

/-- Two records agree on every field but the version, which is that of the program that writes. -/
structure Agree (build : Build) (a b : VolumeInfo) : Prop where
  auxMountPoint : a.auxMountPoint = b.auxMountPoint
  encryptionAlgorithmBlockSize : a.encryptionAlgorithmBlockSize = b.encryptionAlgorithmBlockSize
  encryptionAlgorithmKeySize : a.encryptionAlgorithmKeySize = b.encryptionAlgorithmKeySize
  encryptionAlgorithmMinBlockSize :
    a.encryptionAlgorithmMinBlockSize = b.encryptionAlgorithmMinBlockSize
  encryptionAlgorithmName : a.encryptionAlgorithmName = b.encryptionAlgorithmName
  encryptionModeName : a.encryptionModeName = b.encryptionModeName
  headerCreationTime : a.headerCreationTime = b.headerCreationTime
  hiddenVolumeProtectionTriggered :
    a.hiddenVolumeProtectionTriggered = b.hiddenVolumeProtectionTriggered
  loopDevice : a.loopDevice = b.loopDevice
  minRequiredProgramVersion : a.minRequiredProgramVersion = b.minRequiredProgramVersion
  mountPoint : a.mountPoint = b.mountPoint
  path : a.path = b.path
  pkcs5IterationCount : a.pkcs5IterationCount = b.pkcs5IterationCount
  pkcs5PrfName : a.pkcs5PrfName = b.pkcs5PrfName
  protection : a.protection = b.protection
  serialInstanceNumber : a.serialInstanceNumber = b.serialInstanceNumber
  size : a.size = b.size
  slotNumber : a.slotNumber = b.slotNumber
  systemEncryption : a.systemEncryption = b.systemEncryption
  topWriteOffset : a.topWriteOffset = b.topWriteOffset
  totalDataRead : a.totalDataRead = b.totalDataRead
  totalDataWritten : a.totalDataWritten = b.totalDataWritten
  type : a.type = b.type
  virtualDevice : a.virtualDevice = b.virtualDevice
  volumeCreationTime : a.volumeCreationTime = b.volumeCreationTime
  pim : a.pim = b.pim
  masterKeyVulnerable : a.masterKeyVulnerable = b.masterKeyVulnerable
  v2Format : build.v2Format = true → a.v2Format = b.v2Format
  v2IgnoreTags : build.v2Format = true → a.v2IgnoreTags = b.v2IgnoreTags
  v2IgnoredMismatchCount :
    build.v2Format = true → a.v2IgnoredMismatchCount = b.v2IgnoredMismatchCount
  v2FirstIgnoredSector : build.v2Format = true → a.v2FirstIgnoredSector = b.v2FirstIgnoredSector

/-- No string of a record holds a terminator. -/
structure Whole (info : VolumeInfo) : Prop where
  auxMountPoint : 0 ∉ info.auxMountPoint
  encryptionAlgorithmName : 0 ∉ info.encryptionAlgorithmName
  encryptionModeName : 0 ∉ info.encryptionModeName
  loopDevice : 0 ∉ info.loopDevice
  mountPoint : 0 ∉ info.mountPoint
  path : 0 ∉ info.path
  pkcs5PrfName : 0 ∉ info.pkcs5PrfName
  virtualDevice : 0 ∉ info.virtualDevice

theorem received_agree_iff (build : Build) (target info : VolumeInfo) :
    Agree build (received build target info) info ↔ Whole info := by
  have hcut := cut_eq_self_iff .wstring
  constructor
  · intro h
    constructor
    case auxMountPoint => exact (hcut _).mp h.auxMountPoint
    case encryptionAlgorithmName => exact (hcut _).mp h.encryptionAlgorithmName
    case encryptionModeName => exact (hcut _).mp h.encryptionModeName
    case loopDevice => exact (hcut _).mp h.loopDevice
    case mountPoint => exact (hcut _).mp h.mountPoint
    case path => exact (hcut _).mp h.path
    case pkcs5PrfName => exact (hcut _).mp h.pkcs5PrfName
    case virtualDevice => exact (hcut _).mp h.virtualDevice
  · intro h
    constructor
    case auxMountPoint => exact (hcut _).mpr h.auxMountPoint
    case encryptionAlgorithmName => exact (hcut _).mpr h.encryptionAlgorithmName
    case encryptionModeName => exact (hcut _).mpr h.encryptionModeName
    case loopDevice => exact (hcut _).mpr h.loopDevice
    case mountPoint => exact (hcut _).mpr h.mountPoint
    case path => exact (hcut _).mpr h.path
    case pkcs5PrfName => exact (hcut _).mpr h.pkcs5PrfName
    case virtualDevice => exact (hcut _).mpr h.virtualDevice
    case v2Format => exact fun h => if_pos h
    case v2IgnoreTags => exact fun h => if_pos h
    case v2IgnoredMismatchCount => exact fun h => if_pos h
    case v2FirstIgnoredSector => exact fun h => if_pos h
    all_goals rfl

theorem deserialize_agree_iff {mem : Memory} (build : Build) (target : VolumeInfo)
    {info : VolumeInfo} (h : Ample mem info.footprint) (rest : Bytes) :
    (∃ copy, (deserializeNew mem "VolumeInfo" (deserialize build mem target)).run
        (serialize build info ++ rest) = .ok (copy, rest) ∧ Agree build copy info) ↔ Whole info := by
  have hread := reads_object h "VolumeInfo" (by decide)
    (reads_deserialize build target h)
  rw [← received_agree_iff build target]
  constructor
  · rintro ⟨copy, hcopy, hagree⟩
    rw [serialize, hread rest] at hcopy
    cases hcopy
    exact hagree
  · intro hagree
    exact ⟨_, hread rest, hagree⟩

/-- A record with nothing in it. -/
def demo : VolumeInfo where
  programVersion := 0
  auxMountPoint := []
  encryptionAlgorithmBlockSize := 0
  encryptionAlgorithmKeySize := 0
  encryptionAlgorithmMinBlockSize := 0
  encryptionAlgorithmName := []
  encryptionModeName := []
  headerCreationTime := 0
  hiddenVolumeProtectionTriggered := false
  loopDevice := []
  minRequiredProgramVersion := 0
  mountPoint := []
  path := []
  pkcs5IterationCount := 0
  pkcs5PrfName := []
  protection := 0
  serialInstanceNumber := 0
  size := 0
  slotNumber := 0
  systemEncryption := false
  topWriteOffset := 0
  totalDataRead := 0
  totalDataWritten := 0
  type := 0
  virtualDevice := []
  volumeCreationTime := 0
  pim := 0
  masterKeyVulnerable := false
  v2Format := false
  v2IgnoreTags := false
  v2IgnoredMismatchCount := 0
  v2FirstIgnoredSector := 0

theorem ample_demo : Ample demoMemory demo.footprint := by
  have hfoot : demo.footprint = 96 := rfl
  rw [hfoot]
  refine ⟨by decide, by decide, fun bytes hbytes => ?_⟩
  exact decide_eq_true (by omega)

end VolumeInfo

end VeraCrypt
