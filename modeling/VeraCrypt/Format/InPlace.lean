import VeraCrypt.Common.DataUnits
import VeraCrypt.Format.HeaderUpdate
import VeraCrypt.Lib.Run

/-!
# Encrypting and decrypting a partition in place (`Format/InPlace.c`)

A partition that is encrypted in place is shifted by the size of the volume headers while it is
encrypted, from its end backwards, chunk by chunk. The backup header behind it records how far
the encryption has got. The beginning of the file system stays concealed until it is encrypted.
Decrypting goes forwards and shifts back.

The runs are a machine here. Its steps are the start of a run, one turn of a core loop, and what
follows the loop; each carries what the reads and writes of that part come to. A failing write
leaves any bytes in its range. The write that undoes a failed one succeeds.

Not modelled: the prompts before a decryption, zeroing or discarding unreadable sectors, and the
configuration files.
-/

set_option autoImplicit false

namespace VeraCrypt
namespace Format

open Lib Common

abbrev Device : Type := Nat → UInt8
abbrev Buffer : Type := Nat → UInt8

/-- `TC_VOLUME_HEADER_GROUP_SIZE` -/
def volumeHeaderGroupSize : Nat := 131072
/-- `TC_VOLUME_DATA_OFFSET` -/
def volumeDataOffset : Nat := volumeHeaderGroupSize
/-- `TC_HIDDEN_VOLUME_HEADER_OFFSET` -/
def hiddenVolumeHeaderOffset : Nat := 65536
/-- `TC_MAX_NONSYS_INPLACE_ENC_WORK_CHUNK_SIZE` -/
def maxWorkChunkSize : Nat := 2048 * 1024
/-- `TC_INITIAL_NTFS_CONCEAL_PORTION_SIZE` -/
def initialConcealPortionSize : Nat := 2 * 4096
/-- `TC_NTFS_CONCEAL_CONSTANT` -/
def concealConstant : UInt8 := 0xFF
/-- `TC_NONSYS_INPLACE_ENC_HEADER_UPDATE_INTERVAL` -/
def headerUpdateInterval : Nat := 64 * 1024 * 1024

/-- A partition, and what the password makes of a salt. -/
structure Partition where
  C : Ciphers
  a : AlgorithmId
  headerKey : Bytes → Bytes
  length_headerKey : ∀ salt, a.getKeySize * 2 ≤ (headerKey salt).length
  sectorSize : Nat
  deviceSize : Nat
  whole : deviceSize % dataUnitSize = 0
  large : 2 * volumeHeaderGroupSize < deviceSize
  fits : deviceSize < 2 ^ 64

namespace Partition

/-- The size of the data area. -/
def volumeSize (P : Partition) : Nat := P.deviceSize - 2 * volumeHeaderGroupSize

def backupHeaderOffset (P : Partition) : Nat := P.deviceSize - volumeHeaderGroupSize

end Partition

/-! ## The backup header -/

/-- `ReadEffectiveVolumeHeader` at the offset of the backup header. -/
def headerAt (P : Partition) (d : Device) : Bytes :=
  bytesOf (readAt d P.backupHeaderOffset) volumeHeaderEffectiveSize

def headerSchedule (P : Partition) (dk : Bytes) : List (Cipher × Bytes × Bytes) :=
  eaInit P.a.ea dk (dk.drop (eaGetKeySize P.a.ea))

/-- `OpenBackupHeader`: the header key, and what the header says. -/
def openBackupHeader (P : Partition) (d : Device) : Option (Bytes × CryptoInfo) :=
  let dk := P.headerKey (slice (headerAt P d) 0 pkcs5SaltSize)
  match readVolumeHeaderWith P.C false (headerAt P d) dk P.a.ea with
  | .ok (some info) => some (dk, info)
  | _ => none

/-- What a run keeps: the header key, what it read of the header, and the variables of the core
loops. -/
structure Session where
  dk : Bytes
  info : CryptoInfo
  encryptedAreaStart : Nat
  encryptedAreaLength : Nat
  remainingBytes : Nat
  lastHeaderUpdateDistance : Nat
  encryptedAreaSizeChanged : Bool

/-- What becomes of the reading and the writing of a header update. -/
inductive HeaderIO where
  | ok
  | readError
  | writeError (torn : Buffer)

/-- The write of an updated header, if there is one. -/
def writeHeader (P : Partition) (d : Device) : HeaderIO → Except Status Bytes → Device × Bool
  | .readError, _ => (d, false)
  | _, .error _ => (d, false)
  | .writeError torn, .ok _ =>
    (writeAt d P.backupHeaderOffset volumeHeaderEffectiveSize torn, false)
  | .ok, .ok header =>
    (writeAt d P.backupHeaderOffset volumeHeaderEffectiveSize (bufferOf header), true)

/-- `FastVolumeHeaderUpdate` under the key schedule of `headerCryptoInfo`. -/
def headerUpdate (P : Partition) (schedule : List (Cipher × Bytes × Bytes)) (s : Session)
    (io : HeaderIO) (d : Device) : Device × Bool :=
  writeHeader P d io (updateHeader P.C schedule (headerAt P d)
    (UInt64.ofNat s.encryptedAreaStart) (UInt64.ofNat s.encryptedAreaLength) s.info.headerFlags)

def fastVolumeHeaderUpdate (P : Partition) (s : Session) (io : HeaderIO) (d : Device) :
    Device × Bool :=
  headerUpdate P (headerSchedule P s.dk) s io d

/-- The update of `closing_seq`. -/
def closing (P : Partition) (s : Session) (io : HeaderIO) (d : Device) : Device :=
  if s.encryptedAreaSizeChanged then (fastVolumeHeaderUpdate P s io d).1 else d

/-! ## States -/

/-- How the last run has ended. -/
inductive Ended where
  | begun | halted | encrypted | decrypted | zeroingFailed
  deriving DecidableEq

inductive Phase where
  | idle (last : Ended)
  | encrypting (s : Session)
  | decrypting (s : Session)

structure State where
  disk : Device
  phase : Phase

def idle (last : Ended) (d : Device) : State := { disk := d, phase := .idle last }

/-! ## Encrypting (`EncryptPartitionInPlaceResume`) -/

/-- The XOR loop behind a read: `below` bytes of the file system lie before the chunk. -/
def undoConcealing (below : Nat) (buf : Buffer) : Buffer :=
  if below < initialConcealPortionSize then
    fun i => if i < initialConcealPortionSize - below then buf i ^^^ concealConstant else buf i
  else buf

def Session.workChunkSize (s : Session) : Nat := min s.remainingBytes maxWorkChunkSize

/-- The chunk that a turn encrypts, in RAM: read, revealed and encrypted. -/
def encryptedChunk (P : Partition) (s : Session) (d : Device) : Buffer :=
  let w := s.workChunkSize
  let unitNo := (s.remainingBytes - w + volumeDataOffset) / dataUnitSize
  let buf := readAt d (s.encryptedAreaStart - w - volumeDataOffset)
  onBuffer (dataUnitSize * (w / dataUnitSize))
    (encryptDataUnits P.C s.info.schedule (UInt64.ofNat unitNo))
    (undoConcealing (s.remainingBytes - w) buf)

/-- "Undo failed write operation" -/
def undoFailedWrite (P : Partition) (s : Session) (buf : Buffer) (d : Device) : Device :=
  let w := s.workChunkSize
  let unitNo := (s.remainingBytes - w + volumeDataOffset) / dataUnitSize
  if volumeDataOffset < w then
    let buf := onBuffer (dataUnitSize * (w / dataUnitSize))
      (decryptDataUnits P.C s.info.schedule (UInt64.ofNat unitNo)) buf
    writeAt d (s.encryptedAreaStart - w) (w - volumeDataOffset) (readAt buf volumeDataOffset)
  else d

/-- What becomes of a turn. `wipes` are the wiping passes that were written; a failing write is
one more of them, or that of the ciphertext. `pause` is the update behind the loop when the user
has cancelled. -/
inductive EncryptIO where
  | readError (close : HeaderIO)
  | writeError (wipes : List Buffer) (torn : Buffer) (close : HeaderIO)
  | written (wipes : List Buffer) (update : HeaderIO) (pause : Option HeaderIO) (close : HeaderIO)

/-- The session behind a chunk of an encryption. -/
def Session.encryptedBy (s : Session) (w : Nat) : Session :=
  { s with
    encryptedAreaStart := s.encryptedAreaStart - w
    encryptedAreaLength := s.encryptedAreaLength + w
    remainingBytes := s.remainingBytes - w
    lastHeaderUpdateDistance := s.lastHeaderUpdateDistance + w
    encryptedAreaSizeChanged := true }

/-- The header update of a turn, when it is due. -/
def updateWhenDue (P : Partition) (s : Session) (io : HeaderIO) (d : Device) :
    Device × Bool × Session :=
  if headerUpdateInterval ≤ s.lastHeaderUpdateDistance then
    let r := fastVolumeHeaderUpdate P s io d
    (r.1, r.2, { s with lastHeaderUpdateDistance := 0 })
  else (d, true, s)

/-- One turn of the core loop. -/
def encryptTurn (P : Partition) (s : Session) (io : EncryptIO) (d : Device) : State :=
  let w := s.workChunkSize
  match io with
  | .readError close => idle .halted (closing P s close d)
  | .writeError wipes torn close =>
    if w % dataUnitSize ≠ 0 then idle .halted (closing P s close d)
    else
      let off := s.encryptedAreaStart - w
      let d' := writeAt (overwrite d off w wipes) off w torn
      idle .halted (closing P s close (undoFailedWrite P s (encryptedChunk P s d) d'))
  | .written wipes update pause close =>
    if w % dataUnitSize ≠ 0 then idle .halted (closing P s close d)
    else
      let off := s.encryptedAreaStart - w
      let d' := writeAt (overwrite d off w wipes) off w (encryptedChunk P s d)
      let r := updateWhenDue P (s.encryptedBy w) update d'
      if r.2.1 = false then idle .halted (closing P (s.encryptedBy w) close r.1)
      else
        match pause with
        | none => { disk := r.1, phase := .encrypting r.2.2 }
        | some pause =>
          idle .halted (closing P r.2.2 close (fastVolumeHeaderUpdate P r.2.2 pause r.1).1)

/-- A salt, and what is written to the rest of the header area. -/
structure FinalPass where
  salt : Bytes
  length_salt : salt.length = pkcs5SaltSize
  drawn : Bytes
  length_drawn : drawn.length = masterKeydataSize
  reserved : Buffer
  hidden : Buffer

/-- What the primary header is asked to say. -/
def finalRequest (P : Partition) (s : Session) (p : FinalPass)
    (h : s.info.masterKeydata.length = masterKeydataSize) : HeaderRequest where
  ea := P.a.ea
  masterKeydata := some s.info.masterKeydata
  volumeSize := s.info.volumeSize
  hiddenVolumeSize := 0
  encryptedAreaStart := UInt64.ofNat s.encryptedAreaStart
  encryptedAreaLength := UInt64.ofNat s.encryptedAreaLength
  requiredProgramVersion := s.info.requiredProgramVersion
  headerFlags := s.info.headerFlags ||| headerFlagNonsysInplaceEnc
  sectorSize := s.info.sectorSize
  salt := p.salt
  drawn := p.drawn
  length_masterKeydata := fun _ hk => Option.some.inj hk ▸ h
  length_salt := p.length_salt
  length_drawn := p.length_drawn

/-- The primary header. -/
def finalHeader (P : Partition) (s : Session) (p : FinalPass) : Except Status Bytes :=
  if h : s.info.masterKeydata.length = masterKeydataSize then
    createVolumeHeaderInMemory P.C (finalRequest P s p h) (P.headerKey p.salt)
  else .error .fatal

/-- One pass over the header area at the front: the primary header, `WriteRandomDataToReservedHeaderAreas`,
which keeps it, and the fake header of a hidden volume. -/
def writePrimaryHeaders (p : FinalPass) (header : Bytes) (d : Device) : Device :=
  let d := writeAt d 0 volumeHeaderEffectiveSize (bufferOf header)
  let d := writeAt d volumeHeaderEffectiveSize (volumeHeaderGroupSize - volumeHeaderEffectiveSize)
    p.reserved
  writeAt d hiddenVolumeHeaderOffset volumeHeaderEffectiveSize p.hidden

/-- What becomes of the finalisation, and the schedule that it leaves in `headerCryptoInfo`:
`WriteRandomDataToReservedHeaderAreas` replaces it, unless RAM encryption has it work on a copy.
A fault leaves any bytes in the header area. -/
inductive FinalIO where
  | fault (schedule : List (Cipher × Bytes × Bytes)) (torn : Buffer)
  | done (schedule : List (Cipher × Bytes × Bytes)) (passes : List FinalPass) (last : FinalPass)

def finalPass (P : Partition) (s : Session) (d : Device) (p : FinalPass) : Option Device :=
  (finalHeader P s p).toOption.map (fun header => writePrimaryHeaders p header d)

/-- "The data area has been fully encrypted; create and write the primary volume header", and the
closing update. -/
def finalise (P : Partition) (s : Session) (close : HeaderIO) (d : Device) : FinalIO → State
  | .fault schedule torn =>
    let d := writeAt d 0 volumeHeaderGroupSize torn
    idle .halted (if s.encryptedAreaSizeChanged then (headerUpdate P schedule s close d).1 else d)
  | .done schedule passes last =>
    ((passes ++ [last]).foldlM (finalPass P s) d).elim (idle .halted (closing P s close d)) (fun d =>
      idle .encrypted
        (if s.encryptedAreaSizeChanged then (headerUpdate P schedule s close d).1 else d))

/-- What follows the loop that was not cancelled. -/
def encryptEnd (P : Partition) (s : Session) (update : HeaderIO) (final : FinalIO)
    (close : HeaderIO) (d : Device) : State :=
  let r := fastVolumeHeaderUpdate P s update d
  if r.2 = false then idle .halted (closing P s close r.1)
  else finalise P s close r.1 final

/-! ## Decrypting (`DecryptPartitionInPlace`) -/

/-- "Conceal initial portion of the filesystem": `below` bytes of it lie before the chunk. -/
def concealChunk (below w : Nat) (buf : Buffer) : Buffer :=
  if below < initialConcealPortionSize then
    fun i => if i < min initialConcealPortionSize (below + w) then buf i ^^^ concealConstant
      else buf i
  else buf

/-- The chunk that a turn decrypts, in RAM. -/
def decryptedChunk (P : Partition) (s : Session) (d : Device) : Buffer :=
  let w := s.workChunkSize
  let unitNo := s.encryptedAreaStart / dataUnitSize
  concealChunk (s.encryptedAreaStart - volumeDataOffset) w
    (onBuffer (dataUnitSize * (w / dataUnitSize))
      (decryptDataUnits P.C s.info.schedule (UInt64.ofNat unitNo))
      (readAt d s.encryptedAreaStart))

inductive DecryptIO where
  | readError (close : HeaderIO)
  | writeError (torn : Buffer) (close : HeaderIO)
  | written (update : HeaderIO) (pause : Option HeaderIO) (close : HeaderIO)

/-- The session behind a chunk of a decryption. -/
def Session.decryptedBy (s : Session) (w : Nat) : Session :=
  { s with
    encryptedAreaStart := s.encryptedAreaStart + w
    encryptedAreaLength := s.encryptedAreaLength - w
    remainingBytes := s.remainingBytes - w
    lastHeaderUpdateDistance := s.lastHeaderUpdateDistance + w
    encryptedAreaSizeChanged := true }

def decryptTurn (P : Partition) (s : Session) (io : DecryptIO) (d : Device) : State :=
  let w := s.workChunkSize
  let off := s.encryptedAreaStart - volumeDataOffset
  match io with
  | .readError close => idle .halted (closing P s close d)
  | .writeError torn close =>
    if w % dataUnitSize ≠ 0 then idle .halted (closing P s close d)
    else idle .halted (closing P s close (writeAt d off w torn))
  | .written update pause close =>
    if w % dataUnitSize ≠ 0 then idle .halted (closing P s close d)
    else
      let d' := writeAt d off w (decryptedChunk P s d)
      let r := updateWhenDue P (s.decryptedBy w) update d'
      if r.2.1 = false then idle .halted (closing P (s.decryptedBy w) close r.1)
      else
        match pause with
        | none => { disk := r.1, phase := .decrypting r.2.2 }
        | some pause =>
          -- the device is closed before `closing_seq` unless this update fails
          let r' := fastVolumeHeaderUpdate P r.2.2 pause r.1
          idle .halted (if r'.2 then r'.1 else closing P r.2.2 close r'.1)

/-- `ConcealNTFS`, which undoes itself too. -/
def concealNTFS (d : Device) : Device :=
  writeAt d 0 initialConcealPortionSize (fun i => d i ^^^ concealConstant)

/-- The first `n` turns of the loop that overwrites what lies behind the file system. -/
def zeroSectors (P : Partition) : (n : Nat) → Device → Device
  | 0, d => d
  | n + 1, d =>
    writeAt (zeroSectors P n d) (P.volumeSize + n * P.sectorSize) P.sectorSize (fun _ => 0)

/-- What becomes of the end of a decryption: `ConcealNTFS` may fail, and leaves the disk as it
was then; so may a write of the last loop, behind `n` that did not. -/
inductive DecryptEndIO where
  | concealError
  | zeroError (n : Nat) (torn : Buffer)
  | done

/-- What follows the loop that was not cancelled. -/
def decryptEnd (P : Partition) (s : Session) (update : HeaderIO) (final : DecryptEndIO)
    (close : HeaderIO) (d : Device) : State :=
  let r := fastVolumeHeaderUpdate P s update d
  if r.2 = false then idle .halted (closing P s close r.1)
  else
    match final with
    | .concealError => idle .halted r.1
    | .zeroError n torn =>
      idle .zeroingFailed
        (writeAt (zeroSectors P n (concealNTFS r.1)) (P.volumeSize + n * P.sectorSize) P.sectorSize
          torn)
    | .done =>
      idle .decrypted
        (zeroSectors P ((P.deviceSize - P.volumeSize) / P.sectorSize) (concealNTFS r.1))

/-! ## Runs -/

inductive Event where
  | encrypt
  | decrypt
  | encryptTurn (io : EncryptIO)
  | encryptEnd (update : HeaderIO) (final : FinalIO) (close : HeaderIO)
  | decryptTurn (io : DecryptIO)
  | decryptEnd (update : HeaderIO) (final : DecryptEndIO) (close : HeaderIO)

/-- A session at the start of a run. -/
def newSession (dk : Bytes) (info : CryptoInfo) (remainingBytes : Nat) : Session :=
  { dk := dk
    info := info
    encryptedAreaStart := info.encryptedAreaStart.toNat
    encryptedAreaLength := info.encryptedAreaLength.toNat
    remainingBytes := remainingBytes
    lastHeaderUpdateDistance := 0
    encryptedAreaSizeChanged := false }

/-- The start of an encryption, or of its resumption. -/
def startEncrypting (P : Partition) (last : Ended) (d : Device) : State :=
  (openBackupHeader P d).elim (idle last d) (fun r =>
    { disk := d
      phase := .encrypting
        (newSession r.1 r.2 (r.2.volumeSize - r.2.encryptedAreaLength).toNat) })

/-- The start of a decryption. -/
def startDecrypting (P : Partition) (last : Ended) (d : Device) : State :=
  (openBackupHeader P d).elim (idle last d) (fun r =>
    if r.2.legacyVolume ∨ r.2.hiddenVolume then idle last d
    else
      { disk := d
        phase := .decrypting (newSession r.1 r.2 r.2.encryptedAreaLength.toNat) })

/-- One step; an event that the phase does not call for is none. -/
def step (P : Partition) (st : State) (e : Event) : State × Unit :=
  match st.phase, e with
  | .idle last, .encrypt => (startEncrypting P last st.disk, ())
  | .idle last, .decrypt => (startDecrypting P last st.disk, ())
  | .encrypting s, .encryptTurn io =>
    (if 0 < s.remainingBytes then encryptTurn P s io st.disk else st, ())
  | .encrypting s, .encryptEnd update final close =>
    (if s.remainingBytes = 0 then encryptEnd P s update final close st.disk else st, ())
  | .decrypting s, .decryptTurn io =>
    (if 0 < s.remainingBytes then decryptTurn P s io st.disk else st, ())
  | .decrypting s, .decryptEnd update final close =>
    (if s.remainingBytes = 0 then decryptEnd P s update final close st.disk else st, ())
  | _, _ => (st, ())

/-! ## Before the first run (`EncryptPartitionInPlaceBegin`) -/

/-- A successful begin: the backup header, what goes to the rest of its area, and the passes that
they overwrite. -/
structure Begin (P : Partition) where
  request : HeaderRequest
  ea_eq : request.ea = P.a.ea
  hidden_eq : request.hiddenVolumeSize = 0
  volumeSize_eq : request.volumeSize = UInt64.ofNat P.volumeSize
  start_eq : request.encryptedAreaStart = UInt64.ofNat (volumeDataOffset + P.volumeSize)
  length_eq : request.encryptedAreaLength = 0
  required_eq : request.requiredProgramVersion = 0
  header : Bytes
  created : createVolumeHeaderInMemory P.C request (P.headerKey request.salt) = .ok header
  earlier : List Buffer
  reserved : Buffer
  hidden : Buffer

/-- The disk behind it; `fs` is what the partition held. -/
def Begin.disk {P : Partition} (b : Begin P) (fs : Device) : Device :=
  let off := P.backupHeaderOffset
  let d := overwrite fs off volumeHeaderGroupSize b.earlier
  let d := writeAt d off volumeHeaderEffectiveSize (bufferOf b.header)
  let d := writeAt d (off + volumeHeaderEffectiveSize)
    (volumeHeaderGroupSize - volumeHeaderEffectiveSize) b.reserved
  let d := writeAt d (off + hiddenVolumeHeaderOffset) volumeHeaderEffectiveSize b.hidden
  concealNTFS d

end Format
end VeraCrypt
