import VeraCrypt.Volume.VolumeHeader

/-!
# Volume layouts (`Volume/VolumeLayout.cpp`)

Where a volume keeps its header and its data. The two version 2 layouts read the place of the
data from the header; a version 1 volume starts right behind its 512-byte header.
-/

set_option autoImplicit false

namespace VeraCrypt

inductive VolumeLayout where
  | v1Normal | v2Normal | v2Hidden | systemEncryption
  deriving DecidableEq

/-- `TC_VOLUME_HEADER_SIZE`. -/
def volumeHeaderSize : Nat := 64 * 1024
/-- `TC_VOLUME_HEADER_SIZE_LEGACY`, `TC_BOOT_ENCRYPTION_VOLUME_HEADER_SIZE`. -/
def volumeHeaderSizeLegacy : Nat := 512
/-- `TC_BOOT_VOLUME_HEADER_SECTOR_OFFSET`. -/
def bootVolumeHeaderSectorOffset : Nat := 62 * 512

/-- `TC_VOLUME_HEADER_GROUP_SIZE`, `TC_TOTAL_VOLUME_HEADERS_SIZE`. -/
def volumeHeaderGroupSize : Nat := 2 * volumeHeaderSize
def totalVolumeHeadersSize : UInt64 := 4 * 65536
def volumeSmallSizeThreshold : UInt64 := 2 * 1048576
/-- `TC_HIDDEN_VOLUME_HOST_FS_RESERVED_END_AREA_SIZE` and its `_HIGH`. -/
def hiddenVolumeHostFsReservedEndAreaSize : UInt64 := 4096
def hiddenVolumeHostFsReservedEndAreaSizeHigh : UInt64 := 131072

namespace VolumeLayout

def getType : VolumeLayout → VolumeType
  | v1Normal | v2Normal | systemEncryption => .normal
  | v2Hidden => .hidden

def getHeaderSize : VolumeLayout → Nat
  | v1Normal | systemEncryption => volumeHeaderSizeLegacy
  | v2Normal | v2Hidden => volumeHeaderSize

/-- From the start of the host. -/
def getHeaderOffset : VolumeLayout → Nat
  | v1Normal | v2Normal => 0
  | v2Hidden => volumeHeaderSize
  | systemEncryption => bootVolumeHeaderSectorOffset

/-- Back from the end of the host; `none` where there is no backup header (`NotApplicable`). -/
def getBackupHeaderOffset : VolumeLayout → Option Nat
  | v2Normal => some (2 * volumeHeaderSize)
  | v2Hidden => some volumeHeaderSize
  | v1Normal | systemEncryption => none

def hasBackupHeader (l : VolumeLayout) : Bool := l.getBackupHeaderOffset.isSome

def hasDriveHeader : VolumeLayout → Bool
  | systemEncryption => true
  | _ => false

/-- The order of the lists in the constructors. -/
def getSupportedEncryptionAlgorithms : VolumeLayout → List AlgorithmId
  | v1Normal =>
    [.aes, .serpent, .twofish, .camellia, .aesTwofish, .aesTwofishSerpent, .serpentAES,
      .serpentTwofishAES, .twofishSerpent]
  | v2Normal | v2Hidden | systemEncryption => getAvailableAlgorithms

def getSupportedKeyDerivationFunctions : VolumeLayout → List Pkcs5Kdf
  | systemEncryption =>
    [.hmacSha256Boot, .hmacSha512, .hmacBlake2sBoot, .hmacWhirlpool, .hmacStreebog]
  | _ => getAvailableKdfs

def getDataOffset (l : VolumeLayout) (h : VolumeHeader) : UInt64 :=
  match l with
  | v1Normal => UInt64.ofNat volumeHeaderSizeLegacy
  | v2Normal | v2Hidden => h.encryptedAreaStart
  | systemEncryption => 0

def getDataSize (l : VolumeLayout) (h : VolumeHeader) (volumeHostSize : UInt64) : UInt64 :=
  match l with
  | v1Normal => volumeHostSize - UInt64.ofNat volumeHeaderSizeLegacy
  | v2Normal | v2Hidden => h.volumeDataSize
  | systemEncryption => volumeHostSize

/-- `GetMaxDataSize`: what a volume of a size may hold. A hidden volume leaves an area at the
    end of its host to the file system there. -/
def getMaxDataSize (l : VolumeLayout) (volumeSize : UInt64) : Except Exception UInt64 :=
  match l with
  | v2Normal =>
    .ok (if volumeSize < totalVolumeHeadersSize then 0 else volumeSize - totalVolumeHeadersSize)
  | v2Hidden =>
    let reservedSize : UInt64 :=
      if volumeSize < volumeSmallSizeThreshold then hiddenVolumeHostFsReservedEndAreaSize
      else hiddenVolumeHostFsReservedEndAreaSizeHigh
    .ok (if volumeSize < reservedSize then 0 else volumeSize - reservedSize)
  | v1Normal | systemEncryption => .error .notApplicable

/-- `VolumeLayout::GetAvailableLayouts`. -/
def getAvailableLayouts (type : VolumeType) : List VolumeLayout :=
  let layouts := [v2Normal, v1Normal, v2Hidden, systemEncryption]
  if type ≠ .unknown then layouts.filter (fun l => l.getType = type) else layouts

end VolumeLayout

end VeraCrypt
