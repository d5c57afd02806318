import VeraCrypt.Volume.V2SectorMacIo
import VeraCrypt.Volume.VolumeLayout

/-!
# Creating a volume (`Core/VolumeCreator.cpp`)

`CreateVolume` settles sector size, layout and header and writes the headers at the front;
`CreationThread` writes the file system and the rest of the data area, populates the table of a
version 2 volume, and writes the backup headers. A creation that is not aborted either throws or
ends with the file as it is then.

The file-system formatter is a parameter: the sectors it hands over for a size.
-/

set_option autoImplicit false

namespace VeraCrypt

open Lib

/-- `VolumeCreationOptions`, with what `CreateVolume` asks the device for. The keyfiles have
    been applied to the password. -/
structure VolumeCreationOptions where
  isDevice : Bool
  deviceSectorSize : UInt32
  type : VolumeType
  size : UInt64
  ea : AlgorithmId
  volumeHeaderKdf : Pkcs5Kdf
  password : Bytes
  pim : Int
  /-- `FilesystemType::FAT`. -/
  fat : Bool
  filesystemClusterSize : UInt32
  quick : Bool
  v2Format : Bool

/-- What the random number generator gives, a stream for each draw. -/
structure CreationDraws where
  masterKey : RandStream
  salt : RandStream
  hiddenMasterKey : RandStream
  hiddenSalt : RandStream
  hiddenHeaderKey : RandStream
  fillKey : RandStream
  fillModeKey : RandStream
  backupSalt : RandStream
  backupHiddenMasterKey : RandStream
  backupHiddenSalt : RandStream
  backupHiddenHeaderKey : RandStream

/-- `FatFormatter::Format`: the sectors handed to the callback. -/
abbrev FatFormat :=
  (deviceSize : UInt64) → (clusterSize sectorSize : UInt32) → Except Exception (List Bytes)

/-- `TC_MIN_HIDDEN_VOLUME_HOST_SIZE`. -/
def minHiddenVolumeHostSize : UInt64 := 262144 + 36864 + (36864 + 4096) + 2 * 4096
/-- `TC_MIN_FAT_FS_SIZE`. -/
def minFatFsSize : UInt64 := 9 * 4096
/-- `TC_MAX_FAT_SECTOR_COUNT`. -/
def maxFatSectorCount : UInt64 := 0x100000000
/-- `ARGON2_HEADER_KEYDATA_SIZE`. -/
def argon2HeaderKeydataSize : Nat := 192
/-- `VolumeHeader::GetLargestSerializedKeySize`. -/
def largestSerializedKeySize : Nat := 192
/-- `File::OptimalWriteSize`. -/
def optimalWriteSize : Nat := 256 * 1024

namespace VolumeCreator

/-! ## What `CreateVolume` settles -/

/-- The sector size: that of the device, or the one of all file-hosted volumes. -/
def selectSectorSize (options : VolumeCreationOptions) (hostSize : UInt64) :
    Except Exception UInt32 :=
  if !options.isDevice then .ok 512
  else if ¬ SectorSizeValid options.deviceSectorSize then .error .unsupportedSectorSize
  else if hostSize % options.deviceSectorSize.toUInt64 ≠ 0 then .error .parameterIncorrect
  else .ok options.deviceSectorSize

def selectLayout (options : VolumeCreationOptions) (hostSize : UInt64) :
    Except Exception VolumeLayout :=
  match options.type with
  | .normal => .ok .v2Normal
  | .hidden =>
    if hostSize < minHiddenVolumeHostSize then .error .parameterIncorrect
    else if hostSize ≤ totalVolumeHeadersSize ∨
        hostSize - totalVolumeHeadersSize < options.size then .error .parameterIncorrect
    else .ok .v2Hidden
  | .unknown => .error .parameterIncorrect

/-- `VolumeDataStart` of the header. -/
def volumeDataStart (options : VolumeCreationOptions) (layout : VolumeLayout)
    (hostSize : UInt64) : UInt64 :=
  if options.type = .hidden then
    hostSize - UInt64.ofNat (layout.getHeaderSize * 2) - options.size
  else UInt64.ofNat (layout.getHeaderSize * 2)

/-- What a version 2 volume leaves of its data area in front of the table. A quick format leaves
    nothing that could be authenticated. -/
def usableDataSize (options : VolumeCreationOptions) (area : UInt64) (sectorSize : UInt32) :
    Except Exception UInt64 :=
  if !options.v2Format then .ok area
  else if options.quick then .error .parameterIncorrect
  else
    match v2FormatSplitDataArea area sectorSize with
    | none => .error .parameterIncorrect
    | some (usable, _) => .ok usable

/-- `VolumeDataSize` of the header. -/
def volumeDataSize (options : VolumeCreationOptions) (layout : VolumeLayout)
    (sectorSize : UInt32) : Except Exception UInt64 := do
  let area ← layout.getMaxDataSize options.size
  let size ← usableDataSize options area sectorSize
  if size < 1 then .error .parameterIncorrect else .ok size

/-- The master key drawn: the two halves, the keys of the ciphers and of the mode, differ. -/
def drawMasterKey (options : VolumeCreationOptions) (draws : CreationDraws) :
    Except Exception Bytes :=
  let keySize := options.ea.getKeySize
  let masterKey := draws.masterKey.bytes 0 (keySize * 2)
  if options.volumeHeaderKdf = .argon2 ∧ argon2HeaderKeydataSize < keySize * 2 then
    .error .parameterIncorrect
  else if slice masterKey 0 keySize = slice masterKey keySize keySize then
    .error .assertionFailed
  else .ok masterKey

/-- The password of a header with a salt: with a hardware factor it is mixed with the response
    of the token, in the version that a mount tries first. -/
def creatorPassword (K : KeyDerivation) (options : VolumeCreationOptions) (salt : Bytes) :
    Except Exception Bytes :=
  if K.hkfShouldApply (options.type = .hidden) then
    match K.effectivePasswords options.password salt with
    | some (first :: _) => .ok first
    | _ => .error .externalException
  else .ok options.password

def deriveHeaderKey (K : KeyDerivation) (options : VolumeCreationOptions) (salt : Bytes) :
    Except Exception Bytes := do
  let password ← creatorPassword K options salt
  match K.deriveKey options.volumeHeaderKdf password options.pim salt with
  | none => .error .externalException
  | some headerKey => .ok headerKey

/-- The algorithm object with the master key in it. -/
def dataAlgorithm (options : VolumeCreationOptions) (masterKey : Bytes) : EncryptionAlgorithm where
  algorithm := options.ea
  key := slice masterKey 0 options.ea.getKeySize
  secondaryKey := slice masterKey options.ea.getKeySize options.ea.getKeySize
  sectorOffset := 0

/-- The random header in the place of the header of a hidden volume. -/
def fakeHiddenHeader (C : Ciphers) (options : VolumeCreationOptions) (sectorSize : UInt32)
    (hostSize : UInt64) (masterKey salt headerKey : RandStream) : Except Exception Bytes := do
  let layout := VolumeLayout.v2Hidden
  let size ← layout.getMaxDataSize options.size
  let (_, headerBuffer) ← createHeader C layout.getHeaderSize
    { ea := dataAlgorithm options (masterKey.bytes 0 (options.ea.getKeySize * 2))
      kdf := options.volumeHeaderKdf
      type := .hidden
      sectorSize := sectorSize
      volumeDataStart := hostSize - UInt64.ofNat (layout.getHeaderSize * 2) - options.size
      volumeDataSize := size
      dataKey := masterKey.bytes 0 (options.ea.getKeySize * 2)
      salt := salt.bytes 0 saltSize
      headerKey := headerKey.bytes 0 largestSerializedKeySize }
  .ok headerBuffer

/-- A header, and behind the header of a normal volume the one in the place of a hidden one. -/
def writeHeaderGroup (options : VolumeCreationOptions) (io : HostIo) (header : Bytes)
    (fake : Except Exception Bytes) (file : OpenFile) : Except Exception OpenFile := do
  let file ← file.write io header
  if options.type = .normal then do
    let hidden ← fake
    file.write io hidden
  else .ok file

/-- What `CreateVolume` leaves to the thread. -/
structure Creation where
  hostSize : UInt64
  sectorSize : UInt32
  layout : VolumeLayout
  header : VolumeHeader
  masterKey : Bytes
  file : OpenFile

/-- The host file: a new one for a file-hosted normal volume, and `HostSize`. -/
def openHost (options : VolumeCreationOptions) (disk : Bytes) : OpenFile × UInt64 :=
  if !options.isDevice ∧ options.type = .normal then
    ({ bytes := if options.quick then List.replicate options.size.toNat 0 else []
       position := 0
       isDevice := false }, options.size)
  else
    ({ bytes := disk, position := 0, isDevice := options.isDevice },
      UInt64.ofNat disk.length)

/-- `CreateVolume`, up to the start of the thread. -/
def createVolume (C : Ciphers) (K : KeyDerivation) (options : VolumeCreationOptions)
    (draws : CreationDraws) (io : HostIo) (disk : Bytes) : Except Exception Creation := do
  let (file, hostSize) := openHost options disk
  let sectorSize ← selectSectorSize options hostSize
  let layout ← selectLayout options hostSize
  let dataSize ← volumeDataSize options layout sectorSize
  let masterKey ← drawMasterKey options draws
  let salt := draws.salt.bytes 0 saltSize
  let headerKey ← deriveHeaderKey K options salt
  let (header, headerBuffer) ← createHeader C layout.getHeaderSize
    { ea := dataAlgorithm options masterKey
      kdf := options.volumeHeaderKdf
      type := options.type
      sectorSize := sectorSize
      volumeDataStart := volumeDataStart options layout hostSize
      volumeDataSize := dataSize
      dataKey := masterKey
      salt := salt
      headerKey := headerKey }
  let file ← file.seekAt (UInt64.ofNat layout.getHeaderOffset)
  let file ← writeHeaderGroup options io headerBuffer
    (fakeHiddenHeader C options sectorSize hostSize draws.hiddenMasterKey draws.hiddenSalt
      draws.hiddenHeaderKey) file
  .ok { hostSize, sectorSize, layout, header, masterKey, file }

/-! ## What `CreationThread` writes -/

/-- The state of the writes to the data area: `writeOffset` is `WriteOffset`. -/
structure DataPass where
  file : OpenFile
  writeOffset : Nat

/-- `EncryptSectors` of a buffer that is written at `writeOffset`, and the write. -/
def DataPass.writeEncrypted (C : Ciphers) (ea : EncryptionAlgorithm) (io : HostIo)
    (pass : DataPass) (buffer : Bytes) (n : Nat) : Except Exception DataPass :=
  match ea.encryptSectors C buffer (UInt64.ofNat pass.writeOffset / encryptionDataUnitSize)
      (UInt64.ofNat n / encryptionDataUnitSize) encryptionDataUnitSize with
  | none => .error .fatal
  | some ct => do
    let file ← pass.file.write io (ct.take n)
    .ok { file := file, writeOffset := pass.writeOffset + n }

/-- `FlushOutputBuffer`. -/
def flushOutputBuffer (C : Ciphers) (ea : EncryptionAlgorithm) (io : HostIo) (pass : DataPass)
    (outputBuffer : Bytes) : Except Exception DataPass :=
  if 0 < outputBuffer.length then
    pass.writeEncrypted C ea io outputBuffer outputBuffer.length
  else .ok pass

/-- The callback of the formatter, on each of the sectors left; at the end the flush. A sector
    that the buffer has no room for makes `GetRange` throw. -/
def writeSectors (C : Ciphers) (ea : EncryptionAlgorithm) (io : HostIo) :
    DataPass → (outputBuffer : Bytes) → List Bytes → Except Exception DataPass
  | pass, outputBuffer, [] => flushOutputBuffer C ea io pass outputBuffer
  | pass, outputBuffer, sector :: sectors =>
    let filled := outputBuffer ++ sector
    if optimalWriteSize < filled.length then .error .parameterIncorrect
    else if optimalWriteSize ≤ filled.length then do
      let pass ← flushOutputBuffer C ea io pass filled
      writeSectors C ea io pass [] sectors
    else writeSectors C ea io pass filled sectors

def formatFilesystem (C : Ciphers) (fatFormat : FatFormat) (options : VolumeCreationOptions)
    (io : HostIo) (c : Creation) (filesystemSize : UInt64) (pass : DataPass) :
    Except Exception DataPass :=
  if !options.fat then .ok pass
  else if filesystemSize < minFatFsSize ∨
      maxFatSectorCount * c.sectorSize.toUInt64 < filesystemSize then .error .parameterIncorrect
  else do
    let sectors ← fatFormat filesystemSize options.filesystemClusterSize c.sectorSize
    writeSectors C (dataAlgorithm options c.masterKey) io pass [] sectors

/-- The loop that fills the rest of the data area with encrypted zeros. -/
def fillFrom (C : Ciphers) (ea : EncryptionAlgorithm) (io : HostIo) (endOffset : Nat)
    (pass : DataPass) : (rounds : Nat) → Except Exception DataPass
  | 0 => .ok pass
  | rounds + 1 =>
    if pass.writeOffset < endOffset then do
      let pass ← pass.writeEncrypted C ea io (List.replicate optimalWriteSize 0)
        (min optimalWriteSize (endOffset - pass.writeOffset))
      fillFrom C ea io endOffset pass rounds
    else .ok pass

/-- Enough rounds of that loop for what is left. -/
def fillRounds (endOffset : Nat) (pass : DataPass) : Nat :=
  (endOffset - pass.writeOffset + optimalWriteSize - 1) / optimalWriteSize

/-- `RandomizeEncryptionAlgorithmKey`. -/
def fillAlgorithm (options : VolumeCreationOptions) (draws : CreationDraws) :
    EncryptionAlgorithm where
  algorithm := options.ea
  key := draws.fillKey.bytes 0 options.ea.getKeySize
  secondaryKey := draws.fillModeKey.bytes 0 options.ea.getKeySize
  sectorOffset := 0

/-- The pass over the data area: the file system, and what a full format fills. -/
def writeDataArea (C : Ciphers) (fatFormat : FatFormat) (options : VolumeCreationOptions)
    (draws : CreationDraws) (io : HostIo) (c : Creation) (filesystemSize : UInt64)
    (endOffset : Nat) (pass : DataPass) : Except Exception DataPass := do
  let pass ← formatFilesystem C fatFormat options io c filesystemSize pass
  if options.quick then .ok pass
  else fillFrom C (fillAlgorithm options draws) io endOffset pass (fillRounds endOffset pass)

/-- `Configure` of the creation: the table lies behind the usable data. -/
def creationMac (P : Primitives) (c : Creation) : V2SectorMacIo :=
  let usableBytes := c.layout.getDataSize c.header c.hostSize
  V2SectorMacIo.init.configure P (some .adiantum) c.masterKey c.sectorSize.toUInt64
    (c.layout.getDataOffset c.header + usableBytes) (usableBytes / c.sectorSize.toUInt64)

/-- The calls of `PopulateTable` on the file. -/
def populateIo (mac : V2SectorMacIo) (dataStart : UInt64) (file : OpenFile) (io : HostIo) :
    V2SectorMacIo.PopulateIo :=
  let sectors (done : Nat) := min V2SectorMacIo.sectorsPerChunk (mac.dataSectors.toNat - done)
  { readFails := fun done =>
      !io.read (dataStart + UInt64.ofNat done * mac.sectorSize).toNat
        (sectors done * mac.sectorSize.toNat)
    accepts := fun done =>
      if file.takes io (mac.slotPosition (UInt64.ofNat done)).toNat (sectors done * v2MacTagLen)
      then none else some 0 }

/-- Where the creator continues to write behind the table. -/
def behindTable (c : Creation) : UInt64 :=
  let usableBytes := c.layout.getDataSize c.header c.hostSize
  c.layout.getDataOffset c.header + usableBytes +
    v2FormatMacTableBytes (usableBytes / c.sectorSize.toUInt64) c.sectorSize

/-- The step that arms a version 2 volume. -/
def populateV2 (P : Primitives) (options : VolumeCreationOptions) (io : HostIo) (c : Creation)
    (file : OpenFile) : Except Exception OpenFile :=
  if !options.v2Format then .ok file
  else
    let dataStart := c.layout.getDataOffset c.header
    let mac := creationMac P c
    match mac.populateTable P file.bytes dataStart (populateIo mac dataStart file io) with
    | (_, .error e) => .error e
    | (bytes, .ok ()) => { file with bytes := bytes }.seekAt (behindTable c)

/-- Where the backup headers of a full format are written the file already stands. -/
def seekBackup (options : VolumeCreationOptions) (c : Creation) (file : OpenFile) :
    Except Exception OpenFile :=
  if options.quick ∨ options.type = .hidden then
    match c.layout.getBackupHeaderOffset with
    | none => .error .notApplicable
    | some back => file.seekEnd back
  else .ok file

def writeBackupHeaders (C : Ciphers) (K : KeyDerivation) (options : VolumeCreationOptions)
    (draws : CreationDraws) (io : HostIo) (c : Creation) (file : OpenFile) :
    Except Exception OpenFile := do
  let salt := draws.backupSalt.bytes 0 saltSize
  let headerKey ← deriveHeaderKey K options salt
  let backupHeader ← encryptNew C c.header c.layout.getHeaderSize salt headerKey
  let file ← seekBackup options c file
  writeHeaderGroup options io backupHeader
    (fakeHiddenHeader C options c.sectorSize c.hostSize draws.backupHiddenMasterKey
      draws.backupHiddenSalt draws.backupHiddenHeaderKey) file

/-- `CreationThread`, not aborted: the file at its end. -/
def creationThread (C : Ciphers) (P : Primitives) (K : KeyDerivation) (fatFormat : FatFormat)
    (options : VolumeCreationOptions) (draws : CreationDraws) (io : HostIo) (c : Creation) :
    Except Exception OpenFile :=
  let filesystemSize := c.layout.getDataSize c.header c.hostSize
  let dataStart := c.layout.getDataOffset c.header
  if filesystemSize < 1 then .error .parameterIncorrect
  else do
    let file ← c.file.seekAt dataStart
    let pass ← writeDataArea C fatFormat options draws io c filesystemSize
      (dataStart + filesystemSize).toNat { file := file, writeOffset := dataStart.toNat }
    let file ← populateV2 P options io c pass.file
    writeBackupHeaders C K options draws io c file

end VolumeCreator

end VeraCrypt
