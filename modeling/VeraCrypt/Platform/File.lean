import VeraCrypt.Crypto.Primitives
import VeraCrypt.Lib.FileImage

/-!
# The host file (`Platform/Unix/File.cpp`) and the exceptions of the volume code

A host file or device is its bytes. `ReadAt` is `pread` and throws on an error; `WriteAt` is
`pwrite` and throws when fewer bytes than asked for were stored, which then stay stored. What
the operating system does with a call is handed in: whether a read fails, and how many bytes of
a write it takes.
-/

set_option autoImplicit false

namespace VeraCrypt

open Lib

/-- What the functions of `Volume/` and `Core/` throw. -/
inductive Exception where
  | parameterIncorrect | notApplicable | systemException | externalException | fatal
  | higherVersionRequired | missingVolumeData | partitionDeviceRequired
  | volumeProtected | volumeReadOnly | v2TagMismatch | keyslotDuress
  | unsupportedSectorSize | assertionFailed | encryptedSystemRequired
  | passwordEmpty | passwordIncorrect | passwordKeyfilesIncorrect
  | passwordOrKeyboardLayoutIncorrect | passwordOrMountOptionsIncorrect
  | protectionPasswordIncorrect | protectionPasswordKeyfilesIncorrect
  deriving DecidableEq

/-- The subclasses of `PasswordException` (`VolumePassword.h`). -/
def Exception.isPasswordException : Exception → Bool
  | .passwordEmpty | .passwordIncorrect | .passwordKeyfilesIncorrect
  | .passwordOrKeyboardLayoutIncorrect | .passwordOrMountOptionsIncorrect
  | .protectionPasswordIncorrect | .protectionPasswordKeyfilesIncorrect => true
  | _ => false

/-- The largest file offset (`off_t`). -/
def offsetMax : Nat := 2 ^ 63 - 1

/-- `File::ReadAt`: the bytes read, fewer than `n` at the end of the file; `none` throws. -/
def File.readAt (file : Bytes) (position : UInt64) (n : Nat) (fails : Bool) : Option Bytes :=
  if fails ∨ offsetMax < position.toNat then none else some (slice file position.toNat n)

/-- `File::ReadAt` into a fresh buffer, whose contents are what was in memory: behind a short
    read they stay. -/
def File.readInto (file : Bytes) (position : UInt64) (n : Nat) (fails : Bool)
    (uninit : RandStream) : Option Bytes :=
  (File.readAt file position n fails).map (fun got =>
    got ++ uninit.bytes got.length (n - got.length))

/-- The number of bytes of a write of `size` bytes that are stored: all of them, unless the
    system takes fewer or the largest offset is reached. -/
def File.stored (position : UInt64) (size : Nat) (accepts : Option Nat) : Nat :=
  min (min (accepts.getD size) size) (offsetMax - position.toNat)

/-- `File::WriteAt`: the file afterwards, and whether the call returned. -/
def File.writeAt (file : Bytes) (position : UInt64) (data : Bytes) (accepts : Option Nat) :
    Bytes × Bool :=
  let n := File.stored position data.length accepts
  (pwrite 0 file position.toNat (data.take n), n = data.length)

/-- A read inside the file leaves nothing of the memory. -/
theorem File.readInto_whole {file : Bytes} {position : UInt64} {n : Nat} (uninit : RandStream)
    (hin : position.toNat + n ≤ file.length) (hpos : position.toNat ≤ offsetMax) :
    File.readInto file position n false uninit = some (slice file position.toNat n) := by
  have hread : File.readAt file position n false = some (slice file position.toNat n) := by
    unfold File.readAt
    rw [if_neg (by simpa using hpos)]
  rw [File.readInto, hread, Option.map_some, length_slice hin, Nat.sub_self]
  exact congrArg some (List.append_nil _)

theorem File.stored_le (position : UInt64) (size : Nat) (accepts : Option Nat) :
    File.stored position size accepts ≤ size :=
  (Nat.min_le_left _ _).trans (Nat.min_le_right _ _)

/-- What becomes of a byte of the file: the new one where one was stored. -/
theorem File.getElem?_writeAt {file data : Bytes} {position : UInt64} (accepts : Option Nat)
    {i : Nat} (hi : i < file.length) :
    (File.writeAt file position data accepts).1[i]? =
      if position.toNat ≤ i ∧ i < position.toNat + File.stored position data.length accepts then
        data[i - position.toNat]?
      else file[i]? := by
  have hle := File.stored_le position data.length accepts
  simp only [File.writeAt]
  rw [getElem?_pwrite 0 hi, List.length_take, Nat.min_eq_left hle]
  split
  · rw [List.getElem?_take, if_pos (by omega)]
  · rfl

/-- A byte at which nothing was stored keeps its value. -/
theorem File.writeAt_frame {file data : Bytes} {position : UInt64} (accepts : Option Nat)
    {i : Nat} (hi : i < file.length)
    (hout : i < position.toNat ∨
      position.toNat + File.stored position data.length accepts ≤ i) :
    (File.writeAt file position data accepts).1[i]? = file[i]? := by
  rw [File.getElem?_writeAt accepts hi, if_neg (by omega)]

theorem File.length_le_writeAt (file data : Bytes) (position : UInt64) (accepts : Option Nat) :
    file.length ≤ (File.writeAt file position data accepts).1.length :=
  length_le_length_pwrite _ _ _ _

/-- A write grows the file no further than to its own end. -/
theorem File.length_writeAt_le {file data : Bytes} {position : UInt64} {accepts : Option Nat}
    {bound : Nat} (h : File.stored position data.length accepts = 0 ∨
      position.toNat + File.stored position data.length accepts ≤ bound) :
    (File.writeAt file position data accepts).1.length ≤ max file.length bound := by
  have hle := File.stored_le position data.length accepts
  unfold File.writeAt
  simp only
  by_cases hnone : data.take (File.stored position data.length accepts) = []
  · rw [hnone, pwrite_nil]
    exact Nat.le_max_left _ _
  · rw [length_pwrite 0 _ _ hnone, List.length_take, Nat.min_eq_left hle]
    rcases h with hzero | hbound
    · rw [hzero, List.take_zero] at hnone
      exact absurd rfl hnone
    · omega

/-! ## Sequential access -/

/-- A file that is open for writing, and its position. -/
structure OpenFile where
  bytes : Bytes
  position : Nat
  isDevice : Bool

/-- Which reads and writes the system carries out. One that it does not ends the operation. -/
structure HostIo where
  read : (position n : Nat) → Bool
  write : (position n : Nat) → Bool

namespace OpenFile

/-- A device does not grow. -/
def takes (file : OpenFile) (io : HostIo) (position n : Nat) : Bool :=
  io.write position n && (!file.isDevice || decide (position + n ≤ file.bytes.length))

/-- `File::Write`. -/
def write (file : OpenFile) (io : HostIo) (data : Bytes) : Except Exception OpenFile :=
  let (bytes, done) := File.writeAt file.bytes (UInt64.ofNat file.position) data
    (if file.takes io file.position data.length then none else some 0)
  if done then .ok { file with bytes := bytes, position := file.position + data.length }
  else .error .systemException

/-- `File::SeekAt`. -/
def seekAt (file : OpenFile) (position : UInt64) : Except Exception OpenFile :=
  if offsetMax < position.toNat then .error .systemException
  else .ok { file with position := position.toNat }

/-- `File::SeekEnd`, `back` bytes in front of the end. -/
def seekEnd (file : OpenFile) (back : Nat) : Except Exception OpenFile :=
  if file.bytes.length < back then .error .systemException
  else .ok { file with position := file.bytes.length - back }

end OpenFile

/-- At an offset the system cannot address nothing is stored. -/
theorem File.stored_eq_zero {position : UInt64} (size : Nat) (accepts : Option Nat)
    (hpos : offsetMax ≤ position.toNat) : File.stored position size accepts = 0 := by
  unfold File.stored
  omega

end VeraCrypt
