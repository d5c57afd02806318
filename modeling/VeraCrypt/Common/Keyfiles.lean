import VeraCrypt.Lib.AddWrites
import Mathlib.Data.List.GetD
import VeraCrypt.Volume.VolumeHeader

/-!
# Keyfiles (`Common/Keyfiles.c`, `Volume/Keyfile.cpp`)

A keyfile is read in buffers of the size the program likes. Every byte goes through a CRC, and the
four bytes of the CRC are added to the next four entries of a pool; the pool is then added to the
password. The C code keeps pool and password apart until the end, the C++ code starts with the
password in the pool. Both are a list of additions (`poolWrites`), that depends on the content and
on the size of the pool only.

The lists of keyfiles here are of files that are read without an error; directories have been
replaced by the files in them before.
-/

set_option autoImplicit false

namespace VeraCrypt

open Lib

/-! ## The C code -/

/-- `crc_32_tab` -/
def crc32Table : List UInt32 :=
  [0x00000000, 0x77073096, 0xee0e612c, 0x990951ba, 0x076dc419, 0x706af48f, 0xe963a535, 0x9e6495a3,
   0x0edb8832, 0x79dcb8a4, 0xe0d5e91e, 0x97d2d988, 0x09b64c2b, 0x7eb17cbd, 0xe7b82d07, 0x90bf1d91,
   0x1db71064, 0x6ab020f2, 0xf3b97148, 0x84be41de, 0x1adad47d, 0x6ddde4eb, 0xf4d4b551, 0x83d385c7,
   0x136c9856, 0x646ba8c0, 0xfd62f97a, 0x8a65c9ec, 0x14015c4f, 0x63066cd9, 0xfa0f3d63, 0x8d080df5,
   0x3b6e20c8, 0x4c69105e, 0xd56041e4, 0xa2677172, 0x3c03e4d1, 0x4b04d447, 0xd20d85fd, 0xa50ab56b,
   0x35b5a8fa, 0x42b2986c, 0xdbbbc9d6, 0xacbcf940, 0x32d86ce3, 0x45df5c75, 0xdcd60dcf, 0xabd13d59,
   0x26d930ac, 0x51de003a, 0xc8d75180, 0xbfd06116, 0x21b4f4b5, 0x56b3c423, 0xcfba9599, 0xb8bda50f,
   0x2802b89e, 0x5f058808, 0xc60cd9b2, 0xb10be924, 0x2f6f7c87, 0x58684c11, 0xc1611dab, 0xb6662d3d,
   0x76dc4190, 0x01db7106, 0x98d220bc, 0xefd5102a, 0x71b18589, 0x06b6b51f, 0x9fbfe4a5, 0xe8b8d433,
   0x7807c9a2, 0x0f00f934, 0x9609a88e, 0xe10e9818, 0x7f6a0dbb, 0x086d3d2d, 0x91646c97, 0xe6635c01,
   0x6b6b51f4, 0x1c6c6162, 0x856530d8, 0xf262004e, 0x6c0695ed, 0x1b01a57b, 0x8208f4c1, 0xf50fc457,
   0x65b0d9c6, 0x12b7e950, 0x8bbeb8ea, 0xfcb9887c, 0x62dd1ddf, 0x15da2d49, 0x8cd37cf3, 0xfbd44c65,
   0x4db26158, 0x3ab551ce, 0xa3bc0074, 0xd4bb30e2, 0x4adfa541, 0x3dd895d7, 0xa4d1c46d, 0xd3d6f4fb,
   0x4369e96a, 0x346ed9fc, 0xad678846, 0xda60b8d0, 0x44042d73, 0x33031de5, 0xaa0a4c5f, 0xdd0d7cc9,
   0x5005713c, 0x270241aa, 0xbe0b1010, 0xc90c2086, 0x5768b525, 0x206f85b3, 0xb966d409, 0xce61e49f,
   0x5edef90e, 0x29d9c998, 0xb0d09822, 0xc7d7a8b4, 0x59b33d17, 0x2eb40d81, 0xb7bd5c3b, 0xc0ba6cad,
   0xedb88320, 0x9abfb3b6, 0x03b6e20c, 0x74b1d29a, 0xead54739, 0x9dd277af, 0x04db2615, 0x73dc1683,
   0xe3630b12, 0x94643b84, 0x0d6d6a3e, 0x7a6a5aa8, 0xe40ecf0b, 0x9309ff9d, 0x0a00ae27, 0x7d079eb1,
   0xf00f9344, 0x8708a3d2, 0x1e01f268, 0x6906c2fe, 0xf762575d, 0x806567cb, 0x196c3671, 0x6e6b06e7,
   0xfed41b76, 0x89d32be0, 0x10da7a5a, 0x67dd4acc, 0xf9b9df6f, 0x8ebeeff9, 0x17b7be43, 0x60b08ed5,
   0xd6d6a3e8, 0xa1d1937e, 0x38d8c2c4, 0x4fdff252, 0xd1bb67f1, 0xa6bc5767, 0x3fb506dd, 0x48b2364b,
   0xd80d2bda, 0xaf0a1b4c, 0x36034af6, 0x41047a60, 0xdf60efc3, 0xa867df55, 0x316e8eef, 0x4669be79,
   0xcb61b38c, 0xbc66831a, 0x256fd2a0, 0x5268e236, 0xcc0c7795, 0xbb0b4703, 0x220216b9, 0x5505262f,
   0xc5ba3bbe, 0xb2bd0b28, 0x2bb45a92, 0x5cb36a04, 0xc2d7ffa7, 0xb5d0cf31, 0x2cd99e8b, 0x5bdeae1d,
   0x9b64c2b0, 0xec63f226, 0x756aa39c, 0x026d930a, 0x9c0906a9, 0xeb0e363f, 0x72076785, 0x05005713,
   0x95bf4a82, 0xe2b87a14, 0x7bb12bae, 0x0cb61b38, 0x92d28e9b, 0xe5d5be0d, 0x7cdcefb7, 0x0bdbdf21,
   0x86d3d2d4, 0xf1d4e242, 0x68ddb3f8, 0x1fda836e, 0x81be16cd, 0xf6b9265b, 0x6fb077e1, 0x18b74777,
   0x88085ae6, 0xff0f6a70, 0x66063bca, 0x11010b5c, 0x8f659eff, 0xf862ae69, 0x616bffd3, 0x166ccf45,
   0xa00ae278, 0xd70dd2ee, 0x4e048354, 0x3903b3c2, 0xa7672661, 0xd06016f7, 0x4969474d, 0x3e6e77db,
   0xaed16a4a, 0xd9d65adc, 0x40df0b66, 0x37d83bf0, 0xa9bcae53, 0xdebb9ec5, 0x47b2cf7f, 0x30b5ffe9,
   0xbdbdf21c, 0xcabac28a, 0x53b39330, 0x24b4a3a6, 0xbad03605, 0xcdd70693, 0x54de5729, 0x23d967bf,
   0xb3667a2e, 0xc4614ab8, 0x5d681b02, 0x2a6f2b94, 0xb40bbe37, 0xc30c8ea1, 0x5a05df1b, 0x2d02ef8d]

/-- `UPDC32` -/
def updc32 (octet : UInt8) (crc : UInt32) : UInt32 :=
  crc32Table.getD ((crc ^^^ octet.toUInt32) &&& 0xff).toNat 0 ^^^ (crc >>> 8)

/-- `MAX_LEGACY_PASSWORD`, `MAX_PASSWORD` -/
def maxLegacyPassword : Nat := 64
def maxPassword : Nat := 128
/-- `KEYFILE_POOL_LEGACY_SIZE`, `KEYFILE_POOL_SIZE`, `KEYFILE_MAX_READ_LEN` -/
def keyfilePoolLegacySize : Nat := 64
def keyfilePoolSize : Nat := 128
def keyfileMaxReadLen : Nat := 1024 * 1024

/-- `Password`: a buffer and how much of it is used. -/
structure Password where
  text : Bytes
  length : Nat
  room : maxPassword ≤ text.length
  length_le : length ≤ maxPassword

/-- The password itself. -/
def Password.bytes (p : Password) : Bytes := p.text.take p.length

/-- What the reads of a keyfile return, one buffer after another. -/
structure KeyfileReads where
  buffers : List Bytes
  nonempty : ∀ b ∈ buffers, b ≠ []

def KeyfileReads.content (f : KeyfileReads) : Bytes := f.buffers.flatten

/-- The variables of `KeyFileProcess`. -/
structure KeyFileState where
  keyPool : Bytes
  crc : UInt32
  writePos : Nat
  totalRead : Nat

/-- The body of the inner loop of `KeyFileProcess`. -/
def keyFileByte (keyPoolSize : Nat) (s : KeyFileState) (b : UInt8) : KeyFileState :=
  let crc := updc32 b s.crc
  let pool := s.keyPool.modify s.writePos (· + (crc >>> 24).toUInt8)
  let pool := pool.modify (s.writePos + 1) (· + (crc >>> 16).toUInt8)
  let pool := pool.modify (s.writePos + 2) (· + (crc >>> 8).toUInt8)
  let pool := pool.modify (s.writePos + 3) (· + crc.toUInt8)
  let writePos := s.writePos + 4
  { keyPool := pool
    crc := crc
    writePos := if writePos ≥ keyPoolSize then 0 else writePos
    totalRead := s.totalRead + 1 }

/-- The inner loop of `KeyFileProcess`, over one buffer; `true` is the jump to `close`. -/
def keyFileBuffer (keyPoolSize : Nat) : Bytes → KeyFileState → KeyFileState × Bool
  | [], s => (s, false)
  | b :: buffer, s =>
    let s := keyFileByte keyPoolSize s b
    if s.totalRead ≥ keyfileMaxReadLen then (s, true) else keyFileBuffer keyPoolSize buffer s

/-- The outer loop of `KeyFileProcess`. -/
def keyFileReads (keyPoolSize : Nat) : List Bytes → KeyFileState → KeyFileState × Bool
  | [], s => (s, false)
  | buffer :: rest, s =>
    match keyFileBuffer keyPoolSize buffer s with
    | (s, true) => (s, true)
    | (s, false) => keyFileReads keyPoolSize rest s

/-- `KeyFileProcess`: the pool and the status. -/
def keyFileProcess (keyPoolSize : Nat) (keyPool : Bytes) (file : KeyfileReads) : Bytes × Bool :=
  let (s, closed) := keyFileReads keyPoolSize file.buffers
    { keyPool := keyPool, crc := 0xffffffff, writePos := 0, totalRead := 0 }
  (s.keyPool, closed || s.totalRead ≠ 0)

/-- The loop that mixes the pool into the password. -/
def mixPool (keyPoolSize : Nat) (keyPool : Bytes) (length : Nat) (text : Bytes) : Bytes :=
  text.mapIdx (fun i c =>
    if i < keyPoolSize then if i < length then c + keyPool.getD i 0 else keyPool.getD i 0 else c)

/-- `KeyFilesApply`: the status and the password. -/
def keyFilesApply (password : Password) (files : List KeyfileReads) : Bool × Password :=
  if files = [] then (true, password)
  else
    let keyPoolSize :=
      if password.length ≤ maxLegacyPassword then keyfilePoolLegacySize else keyfilePoolSize
    let (keyPool, status) := files.foldl (fun (keyPool, status) file =>
      let (keyPool, ok) := keyFileProcess keyPoolSize keyPool file
      (keyPool, status && ok)) (List.replicate keyfilePoolSize 0, true)
    (status,
      { text := mixPool keyPoolSize keyPool password.length password.text
        length := max password.length keyPoolSize
        room := by
          rw [mixPool, List.length_mapIdx]
          exact password.room
        length_le := by
          refine Nat.max_le.mpr ⟨password.length_le, ?_⟩
          show (if password.length ≤ maxLegacyPassword then keyfilePoolLegacySize
            else keyfilePoolSize) ≤ maxPassword
          split <;> decide })

/-! ## The C++ code -/

/-- `VolumePassword::MaxLegacySize`, `VolumePassword::MaxSize` -/
def volumePasswordMaxLegacySize : Nat := 64
def volumePasswordMaxSize : Nat := 128
/-- `Keyfile::MinProcessedLength`, `Keyfile::MaxProcessedLength` -/
def keyfileMinProcessedLength : Nat := 1
def keyfileMaxProcessedLength : Nat := 1024 * 1024

inductive KeyfileError where
  | insufficientData | parameterTooLarge | passwordTooLong
  deriving DecidableEq

/-- `Crc32::Process`: the new value of `CrcValue`. -/
def crc32Process (crcValue : UInt32) (data : UInt8) : UInt32 :=
  crc32Table.getD (crcValue ^^^ data.toUInt32).toUInt8.toNat 0 ^^^ (crcValue >>> 8)

/-- The variables of `Keyfile::Apply`. -/
structure ApplyState where
  pool : Bytes
  crc32 : UInt32
  poolPos : Nat
  totalLength : Nat

/-- The body of the loop of `Keyfile::Apply` over the bytes of a buffer. -/
def applyByte (s : ApplyState) (b : UInt8) : ApplyState :=
  let crc := crc32Process s.crc32 b
  let pool := s.pool.modify s.poolPos (· + (crc >>> 24).toUInt8)
  let pool := pool.modify (s.poolPos + 1) (· + (crc >>> 16).toUInt8)
  let pool := pool.modify (s.poolPos + 2) (· + (crc >>> 8).toUInt8)
  let pool := pool.modify (s.poolPos + 3) (· + crc.toUInt8)
  let poolPos := s.poolPos + 4
  { pool := pool
    crc32 := crc
    poolPos := if poolPos ≥ pool.length then 0 else poolPos
    totalLength := s.totalLength + 1 }

/-- The loops of `Keyfile::Apply`; `true` is the jump to `done`. -/
def applyBuffer : Bytes → ApplyState → ApplyState × Bool
  | [], s => (s, false)
  | b :: keyfileBuf, s =>
    let s := applyByte s b
    if s.totalLength ≥ keyfileMaxProcessedLength then (s, true) else applyBuffer keyfileBuf s

def applyReads : List Bytes → ApplyState → ApplyState × Bool
  | [], s => (s, false)
  | keyfileBuf :: rest, s =>
    match applyBuffer keyfileBuf s with
    | (s, true) => (s, true)
    | (s, false) => applyReads rest s

/-- `Keyfile::Apply` -/
def keyfileApply (pool : Bytes) (file : KeyfileReads) : Except KeyfileError Bytes :=
  let s := (applyReads file.buffers
    { pool := pool, crc32 := 0xffffffff, poolPos := 0, totalLength := 0 }).1
  if s.totalLength < keyfileMinProcessedLength then .error .insufficientData else .ok s.pool

/-- `VolumePassword::Set` -/
def volumePasswordSet (password : Bytes) : Except KeyfileError Bytes :=
  if password.length > volumePasswordMaxSize then .error .passwordTooLong else .ok password

/-- `Keyfile::ApplyListToPassword` -/
def applyListToPassword (keyfiles : List KeyfileReads) (password : Bytes) :
    Except KeyfileError Bytes :=
  if keyfiles.length < 1 then .ok password
  else
    let size :=
      if password.length ≤ volumePasswordMaxLegacySize then volumePasswordMaxLegacySize
      else volumePasswordMaxSize
    if password.length > size then .error .parameterTooLarge
    else do
      let keyfilePool ← keyfiles.foldlM keyfileApply
        (password ++ List.replicate (size - password.length) 0)
      volumePasswordSet keyfilePool

/-! ## Both are additions -/

/-- The additions of the bytes of a keyfile to a pool of `size`, from a CRC and a place on. -/
def poolWrites (size : Nat) : (crc : UInt32) → (writePos : Nat) → Bytes → List (Nat × UInt8)
  | _, _, [] => []
  | crc, writePos, b :: bs =>
    let crc := updc32 b crc
    (writePos, (crc >>> 24).toUInt8) :: (writePos + 1, (crc >>> 16).toUInt8) ::
      (writePos + 2, (crc >>> 8).toUInt8) :: (writePos + 3, crc.toUInt8) ::
        poolWrites size crc (if writePos + 4 ≥ size then 0 else writePos + 4) bs

/-- The additions of a keyfile. -/
def keyfileWrites (size : Nat) (content : Bytes) : List (Nat × UInt8) :=
  poolWrites size 0xffffffff 0 (content.take keyfileMaxReadLen)

/-- The size of the pool for a password. -/
def poolSizeFor (length : Nat) : Nat := if length ≤ 64 then 64 else 128

/-- A password filled up with zeros. -/
def padded (size : Nat) (password : Bytes) : Bytes :=
  password ++ List.replicate (size - password.length) 0

/-- The password mixed with some keyfiles. -/
def keyfileMix (password : Bytes) (contents : List Bytes) : Bytes :=
  addAll (padded (poolSizeFor password.length) password)
    (contents.flatMap (keyfileWrites (poolSizeFor password.length)))

theorem crc32Process_eq (crc : UInt32) (b : UInt8) : crc32Process crc b = updc32 b crc := by
  have hindex : (crc ^^^ b.toUInt32).toUInt8.toNat = ((crc ^^^ b.toUInt32) &&& 0xff).toNat := by
    have hmask : UInt32.toNat 0xff = 2 ^ 8 - 1 := rfl
    rw [UInt32.toNat_toUInt8, UInt32.toNat_and, hmask, Nat.and_two_pow_sub_one_eq_mod]
  unfold crc32Process updc32
  rw [hindex]

/-! ### The C loops -/

section
variable {size : Nat}

theorem keyFileBuffer_append (size : Nat) (xs ys : Bytes) (s : KeyFileState) :
    keyFileBuffer size (xs ++ ys) s =
      match keyFileBuffer size xs s with
      | (s, true) => (s, true)
      | (s, false) => keyFileBuffer size ys s := by
  induction xs generalizing s with
  | nil => rfl
  | cons x xs ih =>
    rw [List.cons_append, keyFileBuffer, keyFileBuffer]
    split
    · rfl
    · exact ih _

/-- How the file is cut into buffers does not matter. -/
theorem keyFileReads_eq (size : Nat) (buffers : List Bytes) (s : KeyFileState) :
    keyFileReads size buffers s = keyFileBuffer size buffers.flatten s := by
  induction buffers generalizing s with
  | nil => rfl
  | cons buffer rest ih =>
    rw [keyFileReads, List.flatten_cons, keyFileBuffer_append]
    cases hrun : keyFileBuffer size buffer s with
    | mk s' closed =>
      cases closed with
      | true => rfl
      | false => exact ih s'

/-- The loop adds as many bytes as are still to be read. -/
theorem keyFileBuffer_spec (bs : Bytes) (s : KeyFileState) (h : s.totalRead < keyfileMaxReadLen) :
    (keyFileBuffer size bs s).1.keyPool = addAll s.keyPool
        (poolWrites size s.crc s.writePos (bs.take (keyfileMaxReadLen - s.totalRead))) ∧
      s.totalRead + min bs.length 1 ≤ (keyFileBuffer size bs s).1.totalRead ∧
      (bs = [] → (keyFileBuffer size bs s) = (s, false)) := by
  induction bs generalizing s with
  | nil =>
    refine ⟨?_, Nat.le_refl _, fun _ => rfl⟩
    rw [List.take_nil]
    rfl
  | cons b bs ih =>
    obtain ⟨m, hm⟩ := Nat.exists_eq_add_of_lt h
    have hleft : keyfileMaxReadLen - s.totalRead = m + 1 := by omega
    have hnext : (keyFileByte size s b).totalRead = s.totalRead + 1 := rfl
    have hpool : (keyFileByte size s b).keyPool = addAll s.keyPool
        [(s.writePos, (updc32 b s.crc >>> 24).toUInt8),
          (s.writePos + 1, (updc32 b s.crc >>> 16).toUInt8),
          (s.writePos + 2, (updc32 b s.crc >>> 8).toUInt8),
          (s.writePos + 3, (updc32 b s.crc).toUInt8)] := rfl
    rw [keyFileBuffer, hnext, hleft, List.take_succ_cons, poolWrites]
    by_cases hfull : s.totalRead + 1 ≥ keyfileMaxReadLen
    · have hm0 : m = 0 := by omega
      rw [if_pos hfull, hm0, List.take_zero]
      refine ⟨hpool, ?_, fun hnil => absurd hnil (List.cons_ne_nil b bs)⟩
      rw [hnext, List.length_cons]
      omega
    · rw [if_neg hfull]
      obtain ⟨hrest, htotal, -⟩ := ih (keyFileByte size s b) (by rw [hnext]; omega)
      have hstill : keyfileMaxReadLen - (keyFileByte size s b).totalRead = m := by
        rw [hnext]
        omega
      rw [hstill, hpool, ← addAll_append] at hrest
      refine ⟨hrest, ?_, fun hnil => absurd hnil (List.cons_ne_nil b bs)⟩
      rw [hnext] at htotal
      rw [List.length_cons]
      omega

/-- **What a keyfile does to the pool**, and when it is taken. -/
theorem keyFileProcess_eq (pool : Bytes) (file : KeyfileReads) :
    keyFileProcess size pool file =
      (addAll pool (keyfileWrites size file.content), decide (file.content ≠ [])) := by
  obtain ⟨hpool, htotal, hnil⟩ := @keyFileBuffer_spec size file.content
    { keyPool := pool, crc := 0xffffffff, writePos := 0, totalRead := 0 }
    (show 0 < keyfileMaxReadLen by decide)
  unfold keyFileProcess
  rw [keyFileReads_eq]
  refine Prod.ext hpool ?_
  change (_ || decide (_ ≠ 0)) = _
  by_cases hempty : file.content = []
  · have hrun := hnil hempty
    unfold KeyfileReads.content at hrun hempty
    rw [hrun]
    simp [KeyfileReads.content, hempty]
  · have hlen := List.length_pos_iff.mpr hempty
    have hread : (keyFileBuffer size file.buffers.flatten
        { keyPool := pool, crc := 0xffffffff, writePos := 0, totalRead := 0 }).1.totalRead ≠ 0 := by
      unfold KeyfileReads.content at htotal hlen
      simp only at htotal
      omega
    rw [decide_eq_true hread, decide_eq_true hempty, Bool.or_true]

/-! ### The C++ loops -/

theorem applyBuffer_append (xs ys : Bytes) (s : ApplyState) :
    applyBuffer (xs ++ ys) s =
      match applyBuffer xs s with
      | (s, true) => (s, true)
      | (s, false) => applyBuffer ys s := by
  induction xs generalizing s with
  | nil => rfl
  | cons x xs ih =>
    rw [List.cons_append, applyBuffer, applyBuffer]
    split
    · rfl
    · exact ih _

theorem applyReads_eq (buffers : List Bytes) (s : ApplyState) :
    applyReads buffers s = applyBuffer buffers.flatten s := by
  induction buffers generalizing s with
  | nil => rfl
  | cons buffer rest ih =>
    rw [applyReads, List.flatten_cons, applyBuffer_append]
    cases hrun : applyBuffer buffer s with
    | mk s' closed =>
      cases closed with
      | true => rfl
      | false => exact ih s'

/-- The state of the C++ loop and that of the C loop. -/
structure SameState (size : Nat) (a : ApplyState) (s : KeyFileState) : Prop where
  pool : a.pool = s.keyPool
  crc : a.crc32 = s.crc
  pos : a.poolPos = s.writePos
  total : a.totalLength = s.totalRead
  size : a.pool.length = size

theorem SameState.byte {a : ApplyState} {s : KeyFileState} (h : SameState size a s) (b : UInt8) :
    SameState size (applyByte a b) (keyFileByte size s b) := by
  have hsize := h.size
  obtain ⟨hpool, hcrc, hpos, htotal, -⟩ := h
  unfold applyByte keyFileByte
  rw [crc32Process_eq, hpool, hcrc, hpos, htotal]
  rw [hpool] at hsize
  refine ⟨rfl, rfl, ?_, rfl, ?_⟩
  · simp only [List.length_modify, hsize]
  · simp only [List.length_modify, hsize]

/-- **The C++ loop is the C loop.** -/
theorem SameState.buffer {a : ApplyState} {s : KeyFileState} (h : SameState size a s) (bs : Bytes) :
    SameState size (applyBuffer bs a).1 (keyFileBuffer size bs s).1 ∧
      (applyBuffer bs a).2 = (keyFileBuffer size bs s).2 := by
  induction bs generalizing a s with
  | nil => exact ⟨h, rfl⟩
  | cons b bs ih =>
    have hbyte := h.byte b
    have hlimit : (applyByte a b).totalLength ≥ keyfileMaxProcessedLength ↔
        (keyFileByte size s b).totalRead ≥ keyfileMaxReadLen := by
      rw [hbyte.total]
      exact Iff.rfl
    rw [applyBuffer, keyFileBuffer]
    by_cases hfull : (keyFileByte size s b).totalRead ≥ keyfileMaxReadLen
    · rw [if_pos hfull, if_pos (hlimit.mpr hfull)]
      exact ⟨hbyte, rfl⟩
    · rw [if_neg hfull, if_neg (fun hc => hfull (hlimit.mp hc))]
      exact ih hbyte

theorem keyfileApply_eq {pool : Bytes} (file : KeyfileReads) (hne : file.content ≠ []) :
    keyfileApply pool file = .ok (addAll pool (keyfileWrites pool.length file.content)) := by
  have hstart : SameState pool.length
      { pool := pool, crc32 := 0xffffffff, poolPos := 0, totalLength := 0 }
      { keyPool := pool, crc := 0xffffffff, writePos := 0, totalRead := 0 } :=
    ⟨rfl, rfl, rfl, rfl, rfl⟩
  obtain ⟨hsame, -⟩ := hstart.buffer file.content
  obtain ⟨hpool, htotal, -⟩ := @keyFileBuffer_spec pool.length file.content
    { keyPool := pool, crc := 0xffffffff, writePos := 0, totalRead := 0 }
    (show 0 < keyfileMaxReadLen by decide)
  have hlen := List.length_pos_iff.mpr hne
  have hmin : keyfileMinProcessedLength = 1 := rfl
  have hread := hsame.total
  simp only at htotal
  unfold keyfileApply
  rw [applyReads_eq]
  change (if (applyBuffer file.content _).1.totalLength < keyfileMinProcessedLength then _
    else Except.ok (applyBuffer file.content _).1.pool) = _
  rw [if_neg (by omega), hsame.pool, hpool]
  rfl

/-- An empty keyfile is refused. -/
theorem keyfileApply_empty {pool : Bytes} (file : KeyfileReads) (hempty : file.content = []) :
    keyfileApply pool file = .error .insufficientData := by
  unfold keyfileApply
  rw [applyReads_eq]
  unfold KeyfileReads.content at hempty
  rw [hempty]
  rfl

end

/-! ### Lists of keyfiles -/

theorem foldl_keyFileProcess (size : Nat) (files : List KeyfileReads) (pool : Bytes)
    (status : Bool) :
    files.foldl (fun (keyPool, status) file =>
        let (keyPool, ok) := keyFileProcess size keyPool file
        (keyPool, status && ok)) (pool, status) =
      (addAll pool ((files.map KeyfileReads.content).flatMap (keyfileWrites size)),
        status && files.all (fun file => decide (file.content ≠ []))) := by
  induction files generalizing pool status with
  | nil =>
    simp only [List.foldl_nil, List.map_nil, List.flatMap_nil, addAll_nil, List.all_nil,
      Bool.and_true]
  | cons file files ih =>
    rw [List.foldl_cons, List.map_cons, List.flatMap_cons, List.all_cons, addAll_append,
      ← Bool.and_assoc]
    have hhead : ((keyFileProcess size pool file).1, status && (keyFileProcess size pool file).2) =
        (addAll pool (keyfileWrites size file.content),
          status && decide (file.content ≠ [])) := by
      rw [keyFileProcess_eq]
    exact Eq.trans (congrArg (fun st => List.foldl _ st files) hhead) (ih _ _)

theorem foldlM_keyfileApply (files : List KeyfileReads) (pool : Bytes)
    (hne : ∀ f ∈ files, f.content ≠ []) :
    files.foldlM keyfileApply pool =
      .ok (addAll pool ((files.map KeyfileReads.content).flatMap (keyfileWrites pool.length))) := by
  induction files generalizing pool with
  | nil => rfl
  | cons file files ih =>
    rw [List.foldlM_cons, keyfileApply_eq file (hne file List.mem_cons_self)]
    have hrest := ih (addAll pool (keyfileWrites pool.length file.content))
      (fun f hf => hne f (List.mem_cons_of_mem _ hf))
    rw [length_addAll, ← addAll_append] at hrest
    exact hrest

/-- The mixing loop adds the pool to the padded password. -/
theorem take_mixPool {size length : Nat} {pool text : Bytes} (hsize : length ≤ size)
    (htext : size ≤ text.length) (hpool : size ≤ pool.length) :
    (mixPool size pool length text).take size =
      List.zipWith (· + ·) (padded size (text.take length)) (pool.take size) := by
  have hlen : (text.take length).length = length := by
    rw [List.length_take]
    omega
  apply List.ext_getElem?
  intro i
  rw [List.getElem?_take, List.getElem?_zipWith, List.getElem?_take, mixPool,
    List.getElem?_mapIdx, padded, hlen]
  by_cases hi : i < size
  · have hpi : pool[i]? = some (pool.getD i 0) := by
      rw [List.getD_eq_getElem _ _ (by omega)]
      exact List.getElem?_eq_getElem (by omega)
    rw [if_pos hi, if_pos hi, hpi]
    by_cases hil : i < length
    · rw [List.getElem?_append_left (by omega), List.getElem?_take, if_pos hil,
        List.getElem?_eq_getElem (by omega : i < text.length)]
      simp only [Option.map_some, if_pos hi, if_pos hil]
    · rw [List.getElem?_append_right (by omega), hlen, List.getElem?_replicate, if_pos (by omega),
        List.getElem?_eq_getElem (by omega : i < text.length)]
      simp only [Option.map_some, if_pos hi, if_neg hil, UInt8.zero_add]
  · rw [if_neg hi, if_neg hi]
    cases (text.take length ++ List.replicate (size - length) 0)[i]? <;> rfl

theorem take_addAll (xs : Bytes) (ws : List (Nat × UInt8)) (n : Nat) :
    (addAll xs ws).take n = addAll (xs.take n) ws := by
  induction ws generalizing xs with
  | nil => rfl
  | cons w ws ih =>
    rw [addAll_cons, addAll_cons, ih]
    congr 1
    apply List.ext_getElem?
    intro i
    rw [List.getElem?_take, getElem?_addAt, getElem?_addAt, List.getElem?_take]
    split <;> rfl

/-- The password with a pool of additions mixed into it. -/
theorem take_mixPool_addAll {size length total : Nat} {text : Bytes} (hsize : length ≤ size)
    (htext : size ≤ text.length) (htotal : size ≤ total) (ws : List (Nat × UInt8)) :
    (mixPool size (addAll (List.replicate total 0) ws) length text).take size =
      addAll (padded size (text.take length)) ws := by
  have hlen : (padded size (text.take length)).length = size := by
    rw [padded, List.length_append, List.length_replicate, List.length_take]
    omega
  have hzero : List.zipWith (· + ·) (padded size (text.take length)) (List.replicate size 0) =
      padded size (text.take length) := by
    apply List.ext_getElem?
    intro i
    rw [List.getElem?_zipWith, List.getElem?_replicate]
    by_cases hi : i < size
    · rw [if_pos hi]
      cases (padded size (text.take length))[i]? with
      | none => rfl
      | some c => exact congrArg some (UInt8.add_zero c)
    · rw [if_neg hi, List.getElem?_eq_none (by omega)]
  rw [take_mixPool hsize htext (by rw [length_addAll, List.length_replicate]; exact htotal),
    take_addAll, List.take_replicate, Nat.min_eq_left htotal, ← addAll_zipWith, hzero]

theorem length_bytes (p : Password) : p.bytes.length = p.length := by
  have hroom := p.room
  have hle := p.length_le
  rw [Password.bytes, List.length_take]
  omega

theorem poolSizeFor_bounds {length : Nat} (h : length ≤ maxPassword) :
    length ≤ poolSizeFor length ∧ poolSizeFor length ≤ 128 := by
  have hmax : maxPassword = 128 := rfl
  unfold poolSizeFor
  split <;> omega

/-- **What `KeyFilesApply` computes.** -/
theorem keyFilesApply_eq (p : Password) {files : List KeyfileReads} (hfiles : files ≠ []) :
    (keyFilesApply p files).1 = files.all (fun file => decide (file.content ≠ [])) ∧
      (keyFilesApply p files).2.bytes = keyfileMix p.bytes (files.map KeyfileReads.content) := by
  have hroom : 128 ≤ p.text.length := p.room
  obtain ⟨hlow, hhigh⟩ := poolSizeFor_bounds p.length_le
  have hsize : (if p.length ≤ maxLegacyPassword then keyfilePoolLegacySize
      else keyfilePoolSize) = poolSizeFor p.length := rfl
  have hmax : max p.length (poolSizeFor p.length) = poolSizeFor p.length := Nat.max_eq_right hlow
  unfold keyFilesApply
  rw [if_neg hfiles]
  simp only [foldl_keyFileProcess, hsize, hmax]
  refine ⟨Bool.true_and _, ?_⟩
  unfold keyfileMix
  rw [length_bytes]
  exact take_mixPool_addAll hlow (by omega) hhigh _

/-- **What `ApplyListToPassword` computes.** -/
theorem applyListToPassword_eq {password : Bytes} (hpassword : password.length ≤ maxPassword)
    {files : List KeyfileReads} (hfiles : files ≠ []) (hne : ∀ f ∈ files, f.content ≠ []) :
    applyListToPassword files password =
      .ok (keyfileMix password (files.map KeyfileReads.content)) := by
  obtain ⟨hlow, hhigh⟩ := poolSizeFor_bounds hpassword
  have hsize : (if password.length ≤ volumePasswordMaxLegacySize then volumePasswordMaxLegacySize
      else volumePasswordMaxSize) = poolSizeFor password.length := rfl
  have hlen : (padded (poolSizeFor password.length) password).length =
      poolSizeFor password.length := by
    rw [padded, List.length_append, List.length_replicate]
    omega
  have hpool := foldlM_keyfileApply files (padded (poolSizeFor password.length) password) hne
  rw [hlen] at hpool
  have hcount := List.length_pos_iff.mpr hfiles
  unfold applyListToPassword
  rw [if_neg (by omega)]
  simp only [hsize]
  rw [if_neg (by omega)]
  change (List.foldlM keyfileApply (padded (poolSizeFor password.length) password) files >>=
    volumePasswordSet) = _
  rw [hpool]
  change volumePasswordSet _ = _
  unfold volumePasswordSet
  rw [length_addAll, hlen, if_neg]
  · rfl
  · show ¬ poolSizeFor password.length > 128
    omega

/-- **The order of the keyfiles does not matter.** -/
theorem keyfileMix_perm {contents contents' : List Bytes} (h : contents.Perm contents')
    (password : Bytes) : keyfileMix password contents = keyfileMix password contents' :=
  addAll_perm (h.flatMap_right _) _

/-- **The two programs agree**, for any cut of the files into buffers, and for the files in any
    order. -/
theorem keyFilesApply_agrees (p : Password) {files files' permuted : List KeyfileReads}
    (hsame : files'.map KeyfileReads.content = files.map KeyfileReads.content)
    (hperm : (permuted.map KeyfileReads.content).Perm (files.map KeyfileReads.content))
    (hne : ∀ f ∈ files, f.content ≠ []) :
    ∃ mixed : Password, keyFilesApply p files = (true, mixed) ∧
      applyListToPassword files' p.bytes = .ok mixed.bytes ∧
      (keyFilesApply p permuted).1 = true ∧ (keyFilesApply p permuted).2.bytes = mixed.bytes ∧
      applyListToPassword permuted p.bytes = .ok mixed.bytes := by
  have hall : ∀ {fs : List KeyfileReads},
      (fs.map KeyfileReads.content).Perm (files.map KeyfileReads.content) →
        ∀ f ∈ fs, f.content ≠ [] := by
    intro fs hfs f hf
    have hmem := hfs.mem_iff.mp (List.mem_map_of_mem hf)
    obtain ⟨g, hg, hcontent⟩ := List.mem_map.mp hmem
    rw [← hcontent]
    exact hne g hg
  have hempty : ∀ {fs : List KeyfileReads},
      (fs.map KeyfileReads.content).Perm (files.map KeyfileReads.content) →
        (fs = [] ↔ files = []) := by
    intro fs hfs
    have hlen := hfs.length_eq
    rw [List.length_map, List.length_map] at hlen
    rw [← List.length_eq_zero_iff, ← List.length_eq_zero_iff, hlen]
  have hfiles' : (files'.map KeyfileReads.content).Perm (files.map KeyfileReads.content) := by
    rw [hsame]
  refine ⟨(keyFilesApply p files).2, ?_⟩
  by_cases hnil : files = []
  · have hnil' := (hempty hfiles').mpr hnil
    have hnilPerm := (hempty hperm).mpr hnil
    subst hnil hnil' hnilPerm
    exact ⟨rfl, rfl, rfl, rfl, rfl⟩
  · have hnil' : files' ≠ [] := fun h => hnil ((hempty hfiles').mp h)
    have hnilPerm : permuted ≠ [] := fun h => hnil ((hempty hperm).mp h)
    have hpassword : p.bytes.length ≤ maxPassword := by
      rw [length_bytes]
      exact p.length_le
    obtain ⟨hstatus, hbytes⟩ := keyFilesApply_eq p hnil
    obtain ⟨hstatusPerm, hbytesPerm⟩ := keyFilesApply_eq p hnilPerm
    have hmix := keyfileMix_perm hperm p.bytes
    refine ⟨Prod.ext ?_ rfl, ?_, ?_, ?_, ?_⟩
    · rw [hstatus, List.all_eq_true]
      intro f hf
      exact decide_eq_true (hne f hf)
    · rw [applyListToPassword_eq hpassword hnil' (hall hfiles'), hsame, hbytes]
    · rw [hstatusPerm, List.all_eq_true]
      intro f hf
      exact decide_eq_true (hall hperm f hf)
    · rw [hbytesPerm, hmix, hbytes]
    · rw [applyListToPassword_eq hpassword hnilPerm (hall hperm), hmix, hbytes]

namespace KeyfilesDemo

/-- A password of two bytes, in the buffer of the C code. -/
def short : Password where
  text := [7, 9] ++ List.replicate 127 0
  length := 2
  room := by
    rw [List.length_append, List.length_replicate]
    decide
  length_le := by decide

/-- A file of two buffers. -/
def file : KeyfileReads where
  buffers := [[1, 2], [3]]
  nonempty := by decide

/-- The same content in one buffer. -/
def whole : KeyfileReads where
  buffers := [[1, 2, 3]]
  nonempty := by decide

def other : KeyfileReads where
  buffers := [[4]]
  nonempty := by decide

theorem keyFilesApply_agrees_demo :
    ∃ mixed : Password, keyFilesApply short [file, other] = (true, mixed) ∧
      applyListToPassword [whole, other] short.bytes = .ok mixed.bytes ∧
      (keyFilesApply short [other, whole]).1 = true ∧
      (keyFilesApply short [other, whole]).2.bytes = mixed.bytes ∧
      applyListToPassword [other, whole] short.bytes = .ok mixed.bytes :=
  keyFilesApply_agrees short rfl (List.Perm.swap _ _ []) (by decide)

end KeyfilesDemo

end VeraCrypt
