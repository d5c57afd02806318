import VeraCrypt.Volume.VolumeHeader
import VeraCrypt.Volume.VolumeInfo

/-!
# A mount request (`Core/MountOptions.cpp`)

The options of a mount go to the elevated process over the serializer, and to a thread as a copy.
Four lists in the source name the fields by hand: the constructor, `CopyFrom`, `Serialize` and
`Deserialize`. `EMVSupportEnabled`, which `MountVolume` hands on to
`OpenVolume`, is in none of them.
-/

set_option autoImplicit false

namespace VeraCrypt

open Lib Lib.ByteReader Serializer

/-! ## A password (`Volume/VolumePassword.cpp`) -/

namespace VolumePassword

def maxSize : Nat := 128

/-- The size of the buffer that wipes the pipe. -/
def wipeSize : Nat := 128 * 1024

end VolumePassword

/-- A password and the buffer it stands in, at the front. -/
structure VolumePassword where
  passwordSize : UInt64
  passwordBuffer : { data : Bytes // data.length = VolumePassword.maxSize }

namespace VolumePassword

/-- The bytes at `DataPtr`, `Size` of them. -/
def data (password : VolumePassword) : Bytes :=
  password.passwordBuffer.val.take password.passwordSize.toNat

/-- `Set` of the password at `other`: the buffer is erased first. `none` is `PasswordTooLong`. -/
def set (other : VolumePassword) : Option VolumePassword :=
  if h : maxSize < other.passwordSize.toNat then none
  else some
    { passwordSize := other.passwordSize
      passwordBuffer :=
        ⟨other.data ++ List.replicate (maxSize - other.passwordSize.toNat) 0, by
          have hlen := other.passwordBuffer.property
          simp only [data, List.length_append, List.length_take, List.length_replicate, hlen]
          omega⟩ }

def deserialize (mem : Memory) : Serializer.Reader VolumePassword := do
  let passwordSize ← read mem "PasswordSize" .uint64
  let passwordBuffer ← read mem "PasswordBuffer" (.buffer maxSize)
  allocate mem wipeSize
  let _ ← read mem "WipeData" (.buffer wipeSize)
  pure { passwordSize, passwordBuffer }

def serialize (password : VolumePassword) : Bytes :=
  serializeHeader "VolumePassword" ++ List.flatten [
    write "PasswordSize" .uint64 password.passwordSize,
    write "PasswordBuffer" (.buffer maxSize) password.passwordBuffer,
    write "WipeData" (.buffer wipeSize) ⟨List.replicate wipeSize 0, List.length_replicate⟩]

theorem data_set {other password : VolumePassword} (h : set other = some password) :
    password.data = other.data := by
  unfold set at h
  split at h
  · cases h
  · cases h
    have hlen : other.data.length = other.passwordSize.toNat := by
      have hbuffer := other.passwordBuffer.property
      rw [data, List.length_take, hbuffer]
      omega
    show List.take _ (other.data ++ _) = _
    rw [← hlen, List.take_left]

theorem exists_set_iff {other : VolumePassword} :
    (∃ password, set other = some password) ↔ other.passwordSize.toNat ≤ maxSize := by
  unfold set
  split
  case isTrue h => simp [h]
  case isFalse h => simp [Nat.not_lt.mp h]

theorem reads_deserialize {mem : Memory} {n : Nat} (h : Ample mem n) (hn : wipeSize ≤ n)
    (password : VolumePassword) :
    Reads (deserializeNew mem "VolumePassword" (deserialize mem)) (serialize password)
      password := by
  have hmax : maxSize ≤ wipeSize := by decide
  refine reads_object h "VolumePassword" (by decide) ?_
  simp only [List.flatten_cons, List.flatten_nil]
  rw [deserialize]
  refine reads_then h (by decide) (Nat.zero_le _) ?_
  refine reads_then h (by decide) (hmax.trans hn) ?_
  have hbuffer : Reads (allocate mem wipeSize) [] () :=
    fun rest => allocate_ok_iff.mpr ⟨h.allocates _ hn, rfl⟩
  refine hbuffer.bind (reads_then h (by decide) hn ?_)
  exact reads_pure _

theorem reads_pointer {mem : Memory} {n : Nat} (h : Ample mem n) (hn : wipeSize ≤ n)
    {nullName : String} (hname : Plain nullName) (password : Option VolumePassword) :
    Reads (deserializePointer mem nullName (deserializeNew mem "VolumePassword" (deserialize mem)))
      (serializePointer nullName serialize password) password := by
  have hread : Reads _ _ (password.map id) :=
    Serializer.reads_pointer h hname password fun p _ => reads_deserialize h hn p
  rwa [Option.map_id] at hread

end VolumePassword

/-! ## Keyfiles and derivations by their names -/

/-- `Keyfile::DeserializeList` -/
def Keyfile.deserializeList (mem : Memory) (name : String) :
    Serializer.Reader (Option (List WString)) :=
  deserializePointer mem (name ++ "Null") (read mem name .wstringList)

/-- `Keyfile::SerializeList` -/
def Keyfile.serializeList (name : String) (keyfiles : Option (List WString)) : Bytes :=
  serializePointer (name ++ "Null") (write name .wstringList) keyfiles

/-- `Pkcs5Kdf::GetAlgorithm` -/
def Pkcs5Kdf.getAlgorithm (name : WString) : Option Pkcs5Kdf :=
  getAvailableKdfs.find? (fun kdf =>
    wide kdf.getName = name ∨ (kdf = .argon2 ∧ name = wide "Argon2id"))

def Pkcs5Kdf.deserializeByName (mem : Memory) (name : String) : Serializer.Reader Pkcs5Kdf := do
  let nameValue ← read mem name .wstring
  match Pkcs5Kdf.getAlgorithm nameValue with
  | some kdf => pure kdf
  | none => stop .parameterIncorrect

/-- The block that reads a derivation: what it throws is dropped, and the object keeps what it has,
    as it does where the flag says that there is none. -/
def Pkcs5Kdf.deserialize (mem : Memory) (nullName name : String) (kept : Option Pkcs5Kdf) :
    Serializer.Reader (Option Pkcs5Kdf) := do
  let found ← ByteReader.attempt Stop.isException
    (deserializePointer mem nullName (Pkcs5Kdf.deserializeByName mem name))
  match found with
  | some (some kdf) => pure (some kdf)
  | _ => pure kept

def Pkcs5Kdf.serialize (nullName name : String) (kdf : Option Pkcs5Kdf) : Bytes :=
  serializePointer nullName (fun kdf => write name .wstring (wide kdf.getName)) kdf

theorem Keyfile.reads_list {mem : Memory} {n : Nat} (h : Ample mem n) {name : String}
    (hnull : Plain (name ++ "Null")) (hname : Plain name) (keyfiles : Option (List WString))
    (hfoot : ∀ items, keyfiles = some items → footprint .wstringList items ≤ n) :
    Reads (Keyfile.deserializeList mem name) (Keyfile.serializeList name keyfiles)
      (keyfiles.map (cut .wstringList)) :=
  reads_pointer h hnull keyfiles fun items hitems =>
    reads_field h hname .wstringList items (hfoot items hitems)

theorem Pkcs5Kdf.getAlgorithm_getName (kdf : Pkcs5Kdf) :
    ∃ kdf', Pkcs5Kdf.getAlgorithm (wide kdf.getName) = some kdf' ∧
      kdf'.getName = kdf.getName := by
  cases kdf <;> exact ⟨_, rfl, rfl⟩

theorem Pkcs5Kdf.wide_getName (kdf : Pkcs5Kdf) :
    (wide kdf.getName).length < 20 ∧ 0 ∉ wide kdf.getName := by
  cases kdf <;> decide

/-- The derivation that is found by the name of another. -/
def Pkcs5Kdf.known (kdf : Pkcs5Kdf) : Pkcs5Kdf :=
  (Pkcs5Kdf.getAlgorithm (wide kdf.getName)).getD kdf

theorem Pkcs5Kdf.getName_known (kdf : Pkcs5Kdf) : kdf.known.getName = kdf.getName := by
  obtain ⟨kdf', hfound, hname⟩ := Pkcs5Kdf.getAlgorithm_getName kdf
  rw [Pkcs5Kdf.known, hfound]
  exact hname

/-- What comes back of a derivation. -/
def Pkcs5Kdf.received (kept : Option Pkcs5Kdf) : Option Pkcs5Kdf → Option Pkcs5Kdf
  | none => kept
  | some kdf => some kdf.known

theorem Pkcs5Kdf.reads_byName {mem : Memory} {n : Nat} (h : Ample mem n)
    (hn : VolumePassword.wipeSize ≤ n) {name : String} (hname : Plain name) (kdf : Pkcs5Kdf) :
    Reads (Pkcs5Kdf.deserializeByName mem name) (write name .wstring (wide kdf.getName))
      kdf.known := by
  obtain ⟨kdf', hfound, -⟩ := Pkcs5Kdf.getAlgorithm_getName kdf
  obtain ⟨hshort, hwhole⟩ := Pkcs5Kdf.wide_getName kdf
  have hcut : cut .wstring (wide kdf.getName) = wide kdf.getName := (cut_eq_self_iff _ _).mpr hwhole
  have hsize : footprint .wstring (wide kdf.getName) ≤ n := by
    have hwipe : 128 * 1024 ≤ n := hn
    simp only [footprint, sizeofWchar]
    omega
  have hread := reads_field h hname .wstring (wide kdf.getName) hsize
  rw [← List.append_nil (write name .wstring _), Pkcs5Kdf.deserializeByName]
  refine hread.bind ?_
  rw [hcut, hfound, Pkcs5Kdf.known, hfound]
  exact reads_pure kdf'

theorem Pkcs5Kdf.reads_deserialize {mem : Memory} {n : Nat} (h : Ample mem n)
    (hn : VolumePassword.wipeSize ≤ n) {nullName name : String} (hnull : Plain nullName)
    (hname : Plain name) (kept kdf : Option Pkcs5Kdf) :
    Reads (Pkcs5Kdf.deserialize mem nullName name kept) (Pkcs5Kdf.serialize nullName name kdf)
      (Pkcs5Kdf.received kept kdf) := by
  have hblock := reads_attempt Stop.isException
    (reads_pointer h hnull kdf fun k _ => Pkcs5Kdf.reads_byName h hn hname k)
  rw [← List.append_nil (Pkcs5Kdf.serialize nullName name kdf), Pkcs5Kdf.deserialize]
  refine hblock.bind ?_
  cases kdf with
  | none => exact reads_pure kept
  | some k => exact reads_pure (some k.known)

/-! ## The options -/

/-- Paths are the strings they hold, and the type of protection is the number it is sent as.
    `mountNtfsWithKernelDriver` is compiled in on Linux, `v2IgnoreTags` and `v2Require` with
    version 2. -/
structure MountOptions where
  cachePassword : Bool
  filesystemOptions : WString
  filesystemType : WString
  mountNtfsWithKernelDriver : Bool
  keyfiles : Option (List WString)
  mountPoint : Option WString
  noFilesystem : Bool
  noHardwareCrypto : Bool
  noKernelCrypto : Bool
  password : Option VolumePassword
  pim : Int32
  kdf : Option Pkcs5Kdf
  partitionInSystemEncryptionScope : Bool
  path : Option WString
  preserveTimestamps : Bool
  protection : Int32
  protectionPassword : Option VolumePassword
  protectionPim : Int32
  protectionKdf : Option Pkcs5Kdf
  protectionKeyfiles : Option (List WString)
  removable : Bool
  sharedAccessAllowed : Bool
  slotNumber : UInt32
  useBackupHeaders : Bool
  emvSupportEnabled : Bool
  v2IgnoreTags : Bool
  v2Require : Bool

namespace MountOptions

/-- `MountOptions ()`, in memory that holds `raw`: what is not set keeps what is there. -/
def construct (build : Build) (raw : MountOptions) : MountOptions :=
  { raw with
    cachePassword := false
    filesystemOptions := []
    filesystemType := []
    mountNtfsWithKernelDriver := if build.linux = true then false else raw.mountNtfsWithKernelDriver
    keyfiles := none
    mountPoint := none
    noFilesystem := false
    noHardwareCrypto := false
    noKernelCrypto := false
    password := none
    pim := -1
    kdf := none
    partitionInSystemEncryptionScope := false
    path := none
    preserveTimestamps := true
    protection := 0
    protectionPassword := none
    protectionPim := -1
    protectionKdf := none
    protectionKeyfiles := none
    removable := false
    sharedAccessAllowed := false
    slotNumber := 0
    useBackupHeaders := false
    v2IgnoreTags := if build.v2Format = true then false else raw.v2IgnoreTags
    v2Require := if build.v2Format = true then false else raw.v2Require }

/-- A shared pointer is cloned with what it points to. `none` is the exception of the clone. -/
def cloneShared {α : Type} (clone : α → Option α) : Option α → Option (Option α)
  | none => some none
  | some x => (clone x).map some

/-- `CopyFrom`, into `target`. -/
def copyFrom (build : Build) (target other : MountOptions) : Option MountOptions := do
  let password ← cloneShared VolumePassword.set other.password
  let protectionPassword ← cloneShared VolumePassword.set other.protectionPassword
  pure
    { target with
      cachePassword := other.cachePassword
      filesystemOptions := other.filesystemOptions
      filesystemType := other.filesystemType
      mountNtfsWithKernelDriver :=
        if build.linux = true then other.mountNtfsWithKernelDriver
        else target.mountNtfsWithKernelDriver
      keyfiles := other.keyfiles
      mountPoint := other.mountPoint
      noFilesystem := other.noFilesystem
      noHardwareCrypto := other.noHardwareCrypto
      noKernelCrypto := other.noKernelCrypto
      v2IgnoreTags := if build.v2Format = true then other.v2IgnoreTags else target.v2IgnoreTags
      v2Require := if build.v2Format = true then other.v2Require else target.v2Require
      password
      pim := other.pim
      kdf := other.kdf
      path := other.path
      partitionInSystemEncryptionScope := other.partitionInSystemEncryptionScope
      preserveTimestamps := other.preserveTimestamps
      protection := other.protection
      protectionPassword
      protectionPim := other.protectionPim
      protectionKdf := other.protectionKdf
      protectionKeyfiles := other.protectionKeyfiles
      removable := other.removable
      sharedAccessAllowed := other.sharedAccessAllowed
      slotNumber := other.slotNumber
      useBackupHeaders := other.useBackupHeaders }

/-- `Deserialize`, into the object `target`. -/
def deserialize (build : Build) (mem : Memory) (target : MountOptions) :
    Serializer.Reader MountOptions := do
  let cachePassword ← read mem "CachePassword" .bool
  let filesystemOptions ← read mem "FilesystemOptions" .wstring
  let filesystemType ← read mem "FilesystemType" .wstring
  let mountNtfsWithKernelDriver ← (
    if build.linux = true then read mem "MountNtfsWithKernelDriver" .bool
    else pure target.mountNtfsWithKernelDriver)
  let keyfiles ← Keyfile.deserializeList mem "Keyfiles"
  let mountPoint ← deserializePointer mem "MountPointNull" (read mem "MountPoint" .wstring)
  let noFilesystem ← read mem "NoFilesystem" .bool
  let noHardwareCrypto ← read mem "NoHardwareCrypto" .bool
  let noKernelCrypto ← read mem "NoKernelCrypto" .bool
  let v2IgnoreTags ← (
    if build.v2Format = true then read mem "V2IgnoreTags" .bool
    else pure target.v2IgnoreTags)
  let v2Require ← (
    if build.v2Format = true then read mem "V2Require" .bool
    else pure target.v2Require)
  let password ← deserializePointer mem "PasswordNull"
    (deserializeNew mem "VolumePassword" (VolumePassword.deserialize mem))
  let path ← deserializePointer mem "PathNull" (read mem "Path" .wstring)
  let partitionInSystemEncryptionScope ← read mem "PartitionInSystemEncryptionScope" .bool
  let preserveTimestamps ← read mem "PreserveTimestamps" .bool
  let protection ← read mem "Protection" .int32
  let protectionPassword ← deserializePointer mem "ProtectionPasswordNull"
    (deserializeNew mem "VolumePassword" (VolumePassword.deserialize mem))
  let protectionKeyfiles ← Keyfile.deserializeList mem "ProtectionKeyfiles"
  let removable ← read mem "Removable" .bool
  let sharedAccessAllowed ← read mem "SharedAccessAllowed" .bool
  let slotNumber ← read mem "SlotNumber" .uint32
  let useBackupHeaders ← read mem "UseBackupHeaders" .bool
  let kdf ←
    Pkcs5Kdf.deserialize mem "KdfNull" "Kdf" target.kdf
  let protectionKdf ←
    Pkcs5Kdf.deserialize mem "ProtectionKdfNull" "ProtectionKdf" target.protectionKdf
  let pim ← read mem "Pim" .int32
  let protectionPim ← read mem "ProtectionPim" .int32
  pure
    { emvSupportEnabled := target.emvSupportEnabled, cachePassword, filesystemOptions,
      filesystemType, mountNtfsWithKernelDriver, keyfiles, mountPoint, noFilesystem,
      noHardwareCrypto, noKernelCrypto, v2IgnoreTags, v2Require, password, path,
      partitionInSystemEncryptionScope, preserveTimestamps, protection, protectionPassword,
      protectionKeyfiles, removable, sharedAccessAllowed, slotNumber, useBackupHeaders, kdf,
      protectionKdf, pim, protectionPim }

/-- The fields as `Serialize` writes them, behind the header. -/
def serializeFields (build : Build) (options : MountOptions) : Bytes :=
  List.flatten [
    write "CachePassword" .bool options.cachePassword,
    write "FilesystemOptions" .wstring options.filesystemOptions,
    write "FilesystemType" .wstring options.filesystemType,
    if build.linux = true then
      write "MountNtfsWithKernelDriver" .bool options.mountNtfsWithKernelDriver
    else [],
    Keyfile.serializeList "Keyfiles" options.keyfiles,
    serializePointer "MountPointNull" (write "MountPoint" .wstring) options.mountPoint,
    write "NoFilesystem" .bool options.noFilesystem,
    write "NoHardwareCrypto" .bool options.noHardwareCrypto,
    write "NoKernelCrypto" .bool options.noKernelCrypto,
    if build.v2Format = true then
      write "V2IgnoreTags" .bool options.v2IgnoreTags
    else [],
    if build.v2Format = true then
      write "V2Require" .bool options.v2Require
    else [],
    serializePointer "PasswordNull" VolumePassword.serialize options.password,
    serializePointer "PathNull" (write "Path" .wstring) options.path,
    write "PartitionInSystemEncryptionScope" .bool options.partitionInSystemEncryptionScope,
    write "PreserveTimestamps" .bool options.preserveTimestamps,
    write "Protection" .uint32 options.protection.toUInt32,
    serializePointer "ProtectionPasswordNull" VolumePassword.serialize options.protectionPassword,
    Keyfile.serializeList "ProtectionKeyfiles" options.protectionKeyfiles,
    write "Removable" .bool options.removable,
    write "SharedAccessAllowed" .bool options.sharedAccessAllowed,
    write "SlotNumber" .uint32 options.slotNumber,
    write "UseBackupHeaders" .bool options.useBackupHeaders,
    Pkcs5Kdf.serialize "KdfNull" "Kdf" options.kdf,
    Pkcs5Kdf.serialize "ProtectionKdfNull" "ProtectionKdf" options.protectionKdf,
    write "Pim" .int32 options.pim,
    write "ProtectionPim" .int32 options.protectionPim]

/-- `Serialize` -/
def serialize (build : Build) (options : MountOptions) : Bytes :=
  serializeHeader "MountOptions" ++ serializeFields build options

/-! ## What comes back -/

/-- The memory that the strings of a request take, and the buffers of its passwords. -/
def footprint (options : MountOptions) : Nat :=
  VolumePassword.wipeSize + Serializer.footprint .wstring options.filesystemOptions +
    Serializer.footprint .wstring options.filesystemType +
    options.keyfiles.elim 0 (Serializer.footprint .wstringList) +
    options.mountPoint.elim 0 (Serializer.footprint .wstring) +
    options.path.elim 0 (Serializer.footprint .wstring) +
    options.protectionKeyfiles.elim 0 (Serializer.footprint .wstringList)

/-- What comes back, read into `target`. -/
def received (build : Build) (target options : MountOptions) : MountOptions :=
  { options with
    filesystemOptions := cut .wstring options.filesystemOptions
    filesystemType := cut .wstring options.filesystemType
    mountNtfsWithKernelDriver :=
      if build.linux = true then options.mountNtfsWithKernelDriver
      else target.mountNtfsWithKernelDriver
    keyfiles := options.keyfiles.map (cut .wstringList)
    mountPoint := options.mountPoint.map (cut .wstring)
    v2IgnoreTags := if build.v2Format = true then options.v2IgnoreTags else target.v2IgnoreTags
    v2Require := if build.v2Format = true then options.v2Require else target.v2Require
    path := options.path.map (cut .wstring)
    protectionKeyfiles := options.protectionKeyfiles.map (cut .wstringList)
    kdf := Pkcs5Kdf.received target.kdf options.kdf
    protectionKdf := Pkcs5Kdf.received target.protectionKdf options.protectionKdf
    emvSupportEnabled := target.emvSupportEnabled }

theorem reads_deserialize {mem : Memory} (build : Build) (target : MountOptions)
    {options : MountOptions} (h : Ample mem options.footprint) :
    Reads (deserialize build mem target) (serializeFields build options)
      (received build target options) := by
  have hfoot := footprint.eq_1 options
  have hwipe : VolumePassword.wipeSize ≤ options.footprint := by omega
  simp only [serializeFields, List.flatten_cons, List.flatten_nil]
  rw [deserialize]
  refine reads_then h (by decide) (Nat.zero_le _) ?_
  refine reads_then h (by decide) (by omega) ?_
  refine reads_then h (by decide) (by omega) ?_
  refine Reads.bind (Reads.when (reads_field h (by decide) _ _ (Nat.zero_le _))) ?_
  refine Reads.bind (Keyfile.reads_list h (by decide) (by decide) options.keyfiles
    fun items hitems => by simp only [hitems, Option.elim] at hfoot; omega) ?_
  refine Reads.bind (reads_pointer h (by decide) options.mountPoint fun p hp =>
    reads_field h (by decide) .wstring p (by simp only [hp, Option.elim] at hfoot; omega)) ?_
  refine reads_then h (by decide) (Nat.zero_le _) ?_
  refine reads_then h (by decide) (Nat.zero_le _) ?_
  refine reads_then h (by decide) (Nat.zero_le _) ?_
  refine Reads.bind (Reads.when (reads_field h (by decide) _ _ (Nat.zero_le _))) ?_
  refine Reads.bind (Reads.when (reads_field h (by decide) _ _ (Nat.zero_le _))) ?_
  refine Reads.bind (VolumePassword.reads_pointer h hwipe (by decide) options.password) ?_
  refine Reads.bind (reads_pointer h (by decide) options.path fun p hp =>
    reads_field h (by decide) .wstring p (by simp only [hp, Option.elim] at hfoot; omega)) ?_
  refine reads_then h (by decide) (Nat.zero_le _) ?_
  refine reads_then h (by decide) (Nat.zero_le _) ?_
  refine reads_then h (by decide) (Nat.zero_le _) ?_
  refine Reads.bind (VolumePassword.reads_pointer h hwipe (by decide) options.protectionPassword) ?_
  refine Reads.bind (Keyfile.reads_list h (by decide) (by decide) options.protectionKeyfiles
    fun items hitems => by simp only [hitems, Option.elim] at hfoot; omega) ?_
  refine reads_then h (by decide) (Nat.zero_le _) ?_
  refine reads_then h (by decide) (Nat.zero_le _) ?_
  refine reads_then h (by decide) (Nat.zero_le _) ?_
  refine reads_then h (by decide) (Nat.zero_le _) ?_
  refine Reads.bind (Pkcs5Kdf.reads_deserialize h hwipe (by decide) (by decide)
    target.kdf options.kdf) ?_
  refine Reads.bind (Pkcs5Kdf.reads_deserialize h hwipe (by decide) (by decide)
    target.protectionKdf options.protectionKdf) ?_
  refine reads_then h (by decide) (Nat.zero_le _) ?_
  refine reads_then h (by decide) (Nat.zero_le _) ?_
  exact reads_pure _

/-! ## The same request -/

/-- Two requests agree on what is read of them: a password by its bytes, a derivation by its name,
    and of the fields those that are compiled in. -/
structure Agree (build : Build) (a b : MountOptions) : Prop where
  cachePassword : a.cachePassword = b.cachePassword
  filesystemOptions : a.filesystemOptions = b.filesystemOptions
  filesystemType : a.filesystemType = b.filesystemType
  mountNtfsWithKernelDriver :
    build.linux = true → a.mountNtfsWithKernelDriver = b.mountNtfsWithKernelDriver
  keyfiles : a.keyfiles = b.keyfiles
  mountPoint : a.mountPoint = b.mountPoint
  noFilesystem : a.noFilesystem = b.noFilesystem
  noHardwareCrypto : a.noHardwareCrypto = b.noHardwareCrypto
  noKernelCrypto : a.noKernelCrypto = b.noKernelCrypto
  password : a.password.map VolumePassword.data = b.password.map VolumePassword.data
  pim : a.pim = b.pim
  kdf : a.kdf.map Pkcs5Kdf.getName = b.kdf.map Pkcs5Kdf.getName
  partitionInSystemEncryptionScope :
    a.partitionInSystemEncryptionScope = b.partitionInSystemEncryptionScope
  path : a.path = b.path
  preserveTimestamps : a.preserveTimestamps = b.preserveTimestamps
  protection : a.protection = b.protection
  protectionPassword :
    a.protectionPassword.map VolumePassword.data = b.protectionPassword.map VolumePassword.data
  protectionPim : a.protectionPim = b.protectionPim
  protectionKdf : a.protectionKdf.map Pkcs5Kdf.getName = b.protectionKdf.map Pkcs5Kdf.getName
  protectionKeyfiles : a.protectionKeyfiles = b.protectionKeyfiles
  removable : a.removable = b.removable
  sharedAccessAllowed : a.sharedAccessAllowed = b.sharedAccessAllowed
  slotNumber : a.slotNumber = b.slotNumber
  useBackupHeaders : a.useBackupHeaders = b.useBackupHeaders
  emvSupportEnabled : a.emvSupportEnabled = b.emvSupportEnabled
  v2IgnoreTags : build.v2Format = true → a.v2IgnoreTags = b.v2IgnoreTags
  v2Require : build.v2Format = true → a.v2Require = b.v2Require

/-- No string of a request holds a terminator. -/
structure Whole (options : MountOptions) : Prop where
  filesystemOptions : 0 ∉ options.filesystemOptions
  filesystemType : 0 ∉ options.filesystemType
  keyfiles : ∀ items, options.keyfiles = some items → ∀ path ∈ items, 0 ∉ path
  mountPoint : ∀ path, options.mountPoint = some path → 0 ∉ path
  path : ∀ path, options.path = some path → 0 ∉ path
  protectionKeyfiles : ∀ items, options.protectionKeyfiles = some items → ∀ path ∈ items, 0 ∉ path

/-- The passwords of a request are no longer than a password may be. -/
def PasswordsFit (options : MountOptions) : Prop :=
  (∀ p, options.password = some p → p.passwordSize.toNat ≤ VolumePassword.maxSize) ∧
    ∀ p, options.protectionPassword = some p → p.passwordSize.toNat ≤ VolumePassword.maxSize

theorem cloneShared_set_iff {password clone : Option VolumePassword} :
    cloneShared VolumePassword.set password = some clone →
      clone.map VolumePassword.data = password.map VolumePassword.data := by
  intro h
  cases password with
  | none =>
    cases h
    rfl
  | some p =>
    obtain ⟨q, hq, rfl⟩ := Option.map_eq_some_iff.mp h
    simp [VolumePassword.data_set hq]

theorem exists_cloneShared_iff {password : Option VolumePassword} :
    (∃ clone, cloneShared VolumePassword.set password = some clone) ↔
      ∀ p, password = some p → p.passwordSize.toNat ≤ VolumePassword.maxSize := by
  cases password with
  | none => simp [cloneShared]
  | some p => simp [cloneShared, VolumePassword.exists_set_iff]

theorem map_cut_eq_self_iff {t : FieldType} {x : Option t.Value} :
    x.map (cut t) = x ↔ ∀ y, x = some y → Serializer.Whole t y := by
  cases x with
  | none => simp
  | some y => simp [cut_eq_self_iff]

/-- A copy agrees with what it was made of exactly where the memory it is made in happens to hold
    the flag that is not copied. -/
theorem copyFrom_agree_iff (build : Build) (target options : MountOptions) :
    (∃ copy, copyFrom build target options = some copy ∧ Agree build copy options) ↔
      PasswordsFit options ∧ target.emvSupportEnabled = options.emvSupportEnabled := by
  constructor
  · rintro ⟨copy, hcopy, hagree⟩
    obtain ⟨password, hpassword, hcopy⟩ := Option.bind_eq_some_iff.mp hcopy
    obtain ⟨protectionPassword, hprotection, hcopy⟩ := Option.bind_eq_some_iff.mp hcopy
    have hemv := hagree.emvSupportEnabled
    cases hcopy
    exact ⟨⟨exists_cloneShared_iff.mp ⟨_, hpassword⟩, exists_cloneShared_iff.mp ⟨_, hprotection⟩⟩,
      hemv⟩
  · rintro ⟨⟨hfit, hfit'⟩, hemv⟩
    obtain ⟨password, hpassword⟩ := exists_cloneShared_iff.mpr hfit
    obtain ⟨protectionPassword, hprotection⟩ := exists_cloneShared_iff.mpr hfit'
    refine ⟨_, Option.bind_eq_some_iff.mpr ⟨password, hpassword,
      Option.bind_eq_some_iff.mpr ⟨protectionPassword, hprotection, rfl⟩⟩, ?_⟩
    constructor
    case password => exact cloneShared_set_iff hpassword
    case protectionPassword => exact cloneShared_set_iff hprotection
    case emvSupportEnabled => exact hemv
    case mountNtfsWithKernelDriver => exact fun h => if_pos h
    case v2IgnoreTags => exact fun h => if_pos h
    case v2Require => exact fun h => if_pos h
    all_goals rfl

theorem received_agree_iff (build : Build) (raw options : MountOptions) :
    Agree build (received build (construct build raw) options) options ↔
      Whole options ∧ raw.emvSupportEnabled = options.emvSupportEnabled := by
  constructor
  · intro h
    have hkeyfiles := map_cut_eq_self_iff.mp h.keyfiles
    have hprotection := map_cut_eq_self_iff.mp h.protectionKeyfiles
    exact ⟨⟨(cut_eq_self_iff .wstring _).mp h.filesystemOptions,
      (cut_eq_self_iff .wstring _).mp h.filesystemType, hkeyfiles,
      map_cut_eq_self_iff.mp h.mountPoint, map_cut_eq_self_iff.mp h.path, hprotection⟩,
      h.emvSupportEnabled⟩
  · rintro ⟨h, hemv⟩
    have hkdf : ∀ kdf : Option Pkcs5Kdf,
        (Pkcs5Kdf.received none kdf).map Pkcs5Kdf.getName = kdf.map Pkcs5Kdf.getName := by
      intro kdf
      cases kdf with
      | none => rfl
      | some k => simp [Pkcs5Kdf.received, Pkcs5Kdf.getName_known]
    constructor
    case filesystemOptions => exact (cut_eq_self_iff .wstring _).mpr h.filesystemOptions
    case filesystemType => exact (cut_eq_self_iff .wstring _).mpr h.filesystemType
    case keyfiles => exact map_cut_eq_self_iff.mpr h.keyfiles
    case mountPoint => exact map_cut_eq_self_iff.mpr h.mountPoint
    case path => exact map_cut_eq_self_iff.mpr h.path
    case protectionKeyfiles => exact map_cut_eq_self_iff.mpr h.protectionKeyfiles
    case kdf => exact hkdf options.kdf
    case protectionKdf => exact hkdf options.protectionKdf
    case emvSupportEnabled => exact hemv
    case mountNtfsWithKernelDriver => exact fun h => if_pos h
    case v2IgnoreTags => exact fun h => if_pos h
    case v2Require => exact fun h => if_pos h
    all_goals rfl

theorem deserialize_agree_iff {mem : Memory} (build : Build) (raw : MountOptions)
    {options : MountOptions} (h : Ample mem options.footprint) (rest : Bytes) :
    (∃ copy, (deserializeNew mem "MountOptions" (deserialize build mem (construct build raw))).run
        (serialize build options ++ rest) = .ok (copy, rest) ∧ Agree build copy options) ↔
      Whole options ∧ raw.emvSupportEnabled = options.emvSupportEnabled := by
  have hread := reads_object h "MountOptions" (by decide)
    (reads_deserialize build (construct build raw) h)
  rw [← received_agree_iff build]
  constructor
  · rintro ⟨copy, hcopy, hagree⟩
    rw [serialize, hread rest] at hcopy
    cases hcopy
    exact hagree
  · intro hagree
    exact ⟨_, hread rest, hagree⟩

/-- A request crosses unchanged, as a copy and over the stream, exactly where the flag that no list
    names is by chance the same in the memory of the new object, no password is longer than the
    buffer and no string holds a terminator; what is said of a mounted volume needs the last
    alone. -/
theorem request_unchanged_iff (build : Build) (mem : Memory) (raw options : MountOptions)
    (old info : VolumeInfo) (h : Ample mem options.footprint) (hinfo : Ample mem info.footprint)
    (rest : Bytes) :
    ((∃ copy, copyFrom build raw options = some copy ∧ Agree build copy options) ↔
        PasswordsFit options ∧ raw.emvSupportEnabled = options.emvSupportEnabled) ∧
      ((∃ copy,
          (deserializeNew mem "MountOptions" (deserialize build mem (construct build raw))).run
            (serialize build options ++ rest) = .ok (copy, rest) ∧ Agree build copy options) ↔
        Whole options ∧ raw.emvSupportEnabled = options.emvSupportEnabled) ∧
      ((∃ copy, (deserializeNew mem "VolumeInfo" (VolumeInfo.deserialize build mem old)).run
          (VolumeInfo.serialize build info ++ rest) = .ok (copy, rest) ∧
            VolumeInfo.Agree build copy info) ↔ VolumeInfo.Whole info) :=
  ⟨copyFrom_agree_iff build raw options, deserialize_agree_iff build raw h rest,
    VolumeInfo.deserialize_agree_iff build old hinfo rest⟩

/-- A request with nothing in it but the flag. -/
def blank (emvSupportEnabled : Bool) : MountOptions where
  cachePassword := false
  filesystemOptions := []
  filesystemType := []
  mountNtfsWithKernelDriver := false
  keyfiles := none
  mountPoint := none
  noFilesystem := false
  noHardwareCrypto := false
  noKernelCrypto := false
  password := none
  pim := -1
  kdf := some .hmacSha256
  partitionInSystemEncryptionScope := false
  path := some (wide "/dev/sdb")
  preserveTimestamps := true
  protection := 0
  protectionPassword := none
  protectionPim := -1
  protectionKdf := none
  protectionKeyfiles := none
  removable := false
  sharedAccessAllowed := false
  slotNumber := 1
  useBackupHeaders := false
  emvSupportEnabled
  v2IgnoreTags := false
  v2Require := false

theorem ample_blank (emvSupportEnabled : Bool) :
    Ample demoMemory (blank emvSupportEnabled).footprint := by
  have hfoot : (blank emvSupportEnabled).footprint = 131116 := by
    cases emvSupportEnabled <;> rfl
  rw [hfoot]
  refine ⟨by decide, by decide, fun bytes hbytes => ?_⟩
  exact decide_eq_true (by omega)

theorem request_unchanged_blank :
    ((∃ copy, copyFrom ⟨true, true⟩ (blank true) (blank true) = some copy ∧
          Agree ⟨true, true⟩ copy (blank true)) ↔
        PasswordsFit (blank true) ∧ (blank true).emvSupportEnabled = (blank true).emvSupportEnabled) ∧
      ((∃ copy, (deserializeNew demoMemory "MountOptions"
            (deserialize ⟨true, true⟩ demoMemory (construct ⟨true, true⟩ (blank true)))).run
              (serialize ⟨true, true⟩ (blank true) ++ []) = .ok (copy, []) ∧
                Agree ⟨true, true⟩ copy (blank true)) ↔
        Whole (blank true) ∧ (blank true).emvSupportEnabled = (blank true).emvSupportEnabled) ∧
      ((∃ copy, (deserializeNew demoMemory "VolumeInfo"
            (VolumeInfo.deserialize ⟨true, true⟩ demoMemory VolumeInfo.demo)).run
              (VolumeInfo.serialize ⟨true, true⟩ VolumeInfo.demo ++ []) = .ok (copy, []) ∧
                VolumeInfo.Agree ⟨true, true⟩ copy VolumeInfo.demo) ↔
        VolumeInfo.Whole VolumeInfo.demo) :=
  request_unchanged_iff ⟨true, true⟩ demoMemory (blank true) (blank true) VolumeInfo.demo
    VolumeInfo.demo (ample_blank true) VolumeInfo.ample_demo []

/-- The flag is set, and the memory of the new object holds the other value. -/
theorem request_changed :
    (¬ ∃ copy, copyFrom ⟨true, true⟩ (blank false) (blank true) = some copy ∧
        Agree ⟨true, true⟩ copy (blank true)) ∧
      ¬ ∃ copy, (deserializeNew demoMemory "MountOptions"
          (deserialize ⟨true, true⟩ demoMemory (construct ⟨true, true⟩ (blank false)))).run
            (serialize ⟨true, true⟩ (blank true) ++ []) = .ok (copy, []) ∧
              Agree ⟨true, true⟩ copy (blank true) := by
  constructor
  · intro h
    have hflag := ((copyFrom_agree_iff _ _ _).mp h).2
    cases hflag
  · intro h
    have hflag := ((deserialize_agree_iff _ _ (ample_blank true) []).mp h).2
    cases hflag

end MountOptions

end VeraCrypt
