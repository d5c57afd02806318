import VeraCrypt.Volume.V2SectorMacIo
import VeraCrypt.Volume.VolumeLayout

/-!
# An open volume (`Volume/Volume.cpp`)

The state of an open `Volume`, and the calls that read and write sectors through it. A write
reaches the host on two ways: the ciphertext at the offset of the data, and, on a version 2
volume, the tags of its sectors at their slots. Hidden volume protection is a test of the
range of the ciphertext against `[ProtectedRangeStart, ProtectedRangeEnd)`.

All offsets and sizes are `uint64` and wrap.
-/

set_option autoImplicit false

namespace VeraCrypt

open Lib

inductive VolumeProtection where
  | none | readOnly | hiddenVolumeReadOnly
  deriving DecidableEq

structure Volume where
  type : VolumeType
  protection : VolumeProtection
  hiddenVolumeProtectionTriggered : Bool
  protectedRangeStart : UInt64
  protectedRangeEnd : UInt64
  systemEncryption : Bool
  sectorSize : UInt64
  volumeHostSize : UInt64
  volumeDataOffset : UInt64
  volumeDataSize : UInt64
  encryptedDataSize : UInt64
  encryptionNotCompleted : Bool
  topWriteOffset : UInt64
  totalDataRead : UInt64
  totalDataWritten : UInt64
  pim : Int
  ea : EncryptionAlgorithm
  header : VolumeHeader
  layout : VolumeLayout
  v2Mac : V2SectorMacIo
  v2DiscoveryReadError : Bool

/-- A buffer handed to `WriteSectors`, with the offset and with what the system makes of the
    two writes. An object in memory is smaller than half the address space. -/
structure WriteRequest where
  buffer : Bytes
  byteOffset : UInt64
  dataAccepts : Option Nat
  tagsAccept : Option Nat
  length_buffer : buffer.length < 2 ^ 63

namespace WriteRequest

def length (op : WriteRequest) : UInt64 := UInt64.ofNat op.buffer.length

theorem toNat_length (op : WriteRequest) : op.length.toNat = op.buffer.length := by
  have hlt := op.length_buffer
  rw [length, UInt64.toNat_ofNat']
  omega

end WriteRequest

namespace Volume

/-- Where a byte of the data lies in the host. -/
def hostOffset (v : Volume) (byteOffset : UInt64) : UInt64 := v.volumeDataOffset + byteOffset

/-- The test of `CheckProtectedRange`. -/
def hitsProtectedRange (v : Volume) (writeHostOffset writeLength : UInt64) : Bool :=
  let writeHostEndOffset := writeHostOffset + writeLength - 1
  if writeHostOffset < v.protectedRangeStart then v.protectedRangeStart ≤ writeHostEndOffset
  else writeHostOffset ≤ v.protectedRangeEnd - 1

/-- `CheckProtectedRange`: the state it leaves when it throws. -/
def triggerProtection (v : Volume) : Volume :=
  { v with hiddenVolumeProtectionTriggered := true }

/-- What `WriteSectors` checks before it writes; an error leaves the state given with it. -/
def checkWrite (v : Volume) (op : WriteRequest) : Volume × Except Exception Unit :=
  if op.length % v.sectorSize ≠ 0 ∨ op.byteOffset % v.sectorSize ≠ 0 ∨
      v.volumeDataSize < op.byteOffset + op.length then (v, .error .parameterIncorrect)
  else if v.protection = .readOnly then (v, .error .volumeReadOnly)
  else if v.hiddenVolumeProtectionTriggered then (v, .error .volumeProtected)
  else if v.protection = .hiddenVolumeReadOnly ∧
      v.hitsProtectedRange (v.hostOffset op.byteOffset) op.length then
    (v.triggerProtection, .error .volumeProtected)
  -- `SecureBuffer::Allocate` refuses a buffer of size 0
  else if op.length < 1 then (v, .error .parameterIncorrect)
  else (v, .ok ())

/-- The ciphertext of a write. -/
def writeCt (C : Ciphers) (v : Volume) (op : WriteRequest) : Option Bytes :=
  v.ea.encryptSectors C op.buffer (v.hostOffset op.byteOffset / v.sectorSize)
    (op.length / v.sectorSize) v.sectorSize

/-- The counters after a write. -/
def countWrite (v : Volume) (op : WriteRequest) : Volume :=
  let writeEndOffset := op.byteOffset + op.length
  { v with
    totalDataWritten := v.totalDataWritten + op.length
    topWriteOffset :=
      if v.topWriteOffset < writeEndOffset then writeEndOffset else v.topWriteOffset }

/-- `Volume::WriteSectors`: the volume and the host afterwards. The data is written first and
    the tags second, and what a failed call has stored stays. -/
def writeSectors (C : Ciphers) (P : Primitives) (s : Volume × Bytes) (op : WriteRequest) :
    (Volume × Bytes) × Except Exception Unit :=
  let (v, host) := s
  match v.checkWrite op with
  | (v', .error e) => ((v', host), .error e)
  | (_, .ok ()) =>
    match v.writeCt C op with
    | none => ((v, host), .error .fatal)
    | some ct =>
      let (host1, written) :=
        File.writeAt host (v.hostOffset op.byteOffset) ct op.dataAccepts
      if !written then ((v, host1), .error .systemException)
      else
        match v.v2Mac.updateRange P host1 ct (op.byteOffset / v.sectorSize)
            (op.length / v.sectorSize) op.tagsAccept with
        | (host2, .error e) => ((v, host2), .error e)
        | (host2, .ok ()) => ((v.countWrite op, host2), .ok ())

/-! ## Reading -/

/-- What the host does with the two reads of `ReadSectors`. -/
structure ReadFaults where
  data : Bool
  tags : Bool
  uninit : RandStream

/-- Whether the first sector is left alone: an NTFS boot sector in the clear on a system
    partition. -/
def skipsFirstSector (v : Volume) (hostOffset : UInt64) (buffer : Bytes) : Bool :=
  v.systemEncryption && hostOffset = 0 && beNat (slice buffer 0 8) = 0xEB52904E54465320

/-- The decryption of what was read. While a partition is being encrypted only its encrypted
    part is decrypted. -/
def readDecrypt (C : Ciphers) (v : Volume) (buffer : Bytes) (bufferOffset : Nat)
    (hostOffset length : UInt64) : Option Bytes :=
  let decrypt (n : UInt64) : Option Bytes :=
    (v.ea.decryptSectors C (slice buffer bufferOffset n.toNat) (hostOffset / v.sectorSize)
      (n / v.sectorSize) v.sectorSize).map (patch buffer bufferOffset)
  if length = 0 then some buffer
  else if v.encryptionNotCompleted then
    if hostOffset < v.encryptedDataSize then
      decrypt (min length (v.encryptedDataSize - hostOffset))
    else some buffer
  else decrypt length

/-- `Volume::ReadSectors` of `size` bytes: the volume afterwards and the bytes read. -/
def readSectors (C : Ciphers) (P : Primitives) (v : Volume) (host : Bytes) (size : Nat)
    (byteOffset : UInt64) (faults : ReadFaults) : Except Exception (Volume × Bytes) :=
  let length := UInt64.ofNat size
  let hostOffset := v.hostOffset byteOffset
  if length % v.sectorSize ≠ 0 ∨ byteOffset % v.sectorSize ≠ 0 then .error .parameterIncorrect
  else
    match File.readAt host hostOffset size faults.data with
    | none => .error .systemException
    | some buffer =>
      if buffer.length ≠ size then .error .missingVolumeData
      else
        let skip := if v.skipsFirstSector hostOffset buffer then v.sectorSize else 0
        let length := length - skip
        let verified : Except Exception V2SectorMacIo :=
          if length ≠ 0 ∧ v.v2Mac.isActive then
            v.v2Mac.verifyRange P host (buffer.drop skip.toNat)
              ((byteOffset + skip) / v.sectorSize) (length / v.sectorSize) faults.tags
              faults.uninit
          else .ok v.v2Mac
        match verified with
        | .error e => .error e
        | .ok mac =>
          match v.readDecrypt C buffer skip.toNat (hostOffset + skip) length with
          | none => .error .fatal
          | some out =>
            .ok ({ v with v2Mac := mac, totalDataRead := v.totalDataRead + length }, out)

/-- `Volume::ReEncryptHeader`: the host afterwards. The new header takes the whole header size
    of the layout, at the place of the header or of its backup. -/
def reEncryptHeader (C : Ciphers) (v : Volume) (host : Bytes) (backupHeader : Bool)
    (newSalt newHeaderKey : Bytes) (accepts : Option Nat) : Bytes × Except Exception Unit :=
  if v.protection = .readOnly then (host, .error .volumeReadOnly)
  else
    match encryptNew C v.header v.layout.getHeaderSize newSalt newHeaderKey with
    | .error e => (host, .error e)
    | .ok newHeaderBuffer =>
      let write (position : Nat) : Bytes × Except Exception Unit :=
        let (host', done) := File.writeAt host (UInt64.ofNat position) newHeaderBuffer accepts
        (host', if done then .ok () else .error .systemException)
      if !backupHeader then write v.layout.getHeaderOffset
      else
        match v.layout.getBackupHeaderOffset with
        | none => (host, .error .notApplicable)
        | some back =>
          -- `SeekEnd` fails in front of the start of the file
          if host.length < back then (host, .error .systemException)
          else write (host.length - back)

end Volume

end VeraCrypt
