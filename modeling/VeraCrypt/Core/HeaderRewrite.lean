import VeraCrypt.Core.V2Geometry
import VeraCrypt.Volume.Protection

/-!
# Writing a header again (`Core/CoreBase.cpp`)

`ChangePassword` encrypts the header of an open volume under a key from the new password, and
then, where the layout has one, the backup header; `ReEncryptVolumeHeaderWithNewSalt` makes the
buffer of a header backup and of a restore. The creator mixes the response of a hardware factor
into the password of both of its headers. The two functions here derive from the password as it
is, so what they write opens without the factor, and not with it
(`run_written_needsFactor_iff`).
-/

set_option autoImplicit false

namespace VeraCrypt

open Lib

/-- `TC_HEADER_FLAG_ENCRYPTED_SYSTEM`. -/
def headerFlagEncryptedSystem : UInt32 := 0x1

/-! ## A header that has been written -/

/-- What a write of a header was made from. The password is that of the user, its keyfiles
    applied; `headerKey` is what the header was encrypted under. -/
structure WrittenHeader where
  header : VolumeHeader
  headerSize : Nat
  salt : Bytes
  headerKey : Bytes
  kdf : Pkcs5Kdf
  password : Bytes
  pim : Int

namespace WrittenHeader

/-- The bytes that were written. -/
def buffer (C : Ciphers) (w : WrittenHeader) : Except Exception Bytes :=
  encryptNew C w.header w.headerSize w.salt w.headerKey

/-- One of the passwords gives the key of the header. -/
def OpensUnder (K : KeyDerivation) (w : WrittenHeader) (passwords : List Bytes) : Prop :=
  ∃ password ∈ passwords, ∃ kdf, K.deriveKey kdf password w.pim w.salt = some w.headerKey

end WrittenHeader

/-! ## `ChangePassword` -/

/-- The arguments of `ChangePassword` but for the volume. -/
structure PasswordChange where
  /-- No password was given, or one of no characters. -/
  newPasswordEmpty : Bool
  /-- No keyfiles were given. -/
  newKeyfilesEmpty : Bool
  /-- `Keyfile::ApplyListToPassword` of the two. -/
  newPassword : Bytes
  newPim : Int
  newPkcs5Kdf : Option Pkcs5Kdf
  wipeCount : Int
  /-- `GetPath().IsDevice()` of the volume. -/
  isDevice : Bool

/-- What the generator and the host give to a pass over a header: for the backup header or not,
    and the number of the pass. -/
structure RewriteIo where
  newSalt : (backupHeader : Bool) → (i : Nat) → RandStream
  accepts : (backupHeader : Bool) → (i : Nat) → Option Nat
  flushFails : (backupHeader : Bool) → (i : Nat) → Bool

/-- The host, and the headers that have been written so far. -/
structure HeaderRun where
  host : Bytes
  written : List WrittenHeader

namespace CoreBase

/-- The function of the new header: the one of the old unless another is asked for. -/
def newKdf (v : Volume) (change : PasswordChange) : Pkcs5Kdf :=
  change.newPkcs5Kdf.getD v.header.pkcs5

/-- The header that a pass writes under a key. -/
def passHeader (v : Volume) (change : PasswordChange) (newSalt newHeaderKey : Bytes) :
    WrittenHeader where
  header := v.header
  headerSize := v.layout.getHeaderSize
  salt := newSalt
  headerKey := newHeaderKey
  kdf := newKdf v change
  password := change.newPassword
  pim := change.newPim

/-- One pass over a header. -/
def changePass (C : Ciphers) (K : KeyDerivation) (v : Volume) (change : PasswordChange)
    (io : RewriteIo) (backupHeader : Bool) (i : Nat) (run : HeaderRun) :
    HeaderRun × Except Exception Unit :=
  let newSalt := (io.newSalt backupHeader i).bytes 0 saltSize
  match K.deriveKey (newKdf v change) change.newPassword change.newPim newSalt with
  | none => (run, .error .externalException)
  | some newHeaderKey =>
    match v.reEncryptHeader C run.host backupHeader newSalt newHeaderKey
        (io.accepts backupHeader i) with
    | (host, .error e) => ({ run with host := host }, .error e)
    | (host, .ok ()) =>
      ({ host := host, written := run.written ++ [passHeader v change newSalt newHeaderKey] },
        if io.flushFails backupHeader i then .error .systemException else .ok ())

/-- The passes over a header: `rounds` are left, the next one is `i`. -/
def changePasses (C : Ciphers) (K : KeyDerivation) (v : Volume) (change : PasswordChange)
    (io : RewriteIo) (backupHeader : Bool) :
    (rounds i : Nat) → HeaderRun → HeaderRun × Except Exception Unit
  | 0, _, run => (run, .ok ())
  | rounds + 1, i, run =>
    match changePass C K v change io backupHeader i run with
    | (run, .error e) => (run, .error e)
    | (run, .ok ()) => changePasses C K v change io backupHeader rounds (i + 1) run

/-- `CoreBase::ChangePassword` of an open volume. -/
def changePassword (C : Ciphers) (K : KeyDerivation) (v : Volume) (change : PasswordChange)
    (io : RewriteIo) (run : HeaderRun) : HeaderRun × Except Exception Unit :=
  if change.newPasswordEmpty ∧ change.newKeyfilesEmpty then (run, .error .passwordEmpty)
  else if v.header.flags &&& headerFlagEncryptedSystem ≠ 0 ∧ v.type = .hidden ∧
      change.isDevice then (run, .error .encryptedSystemRequired)
  else
    match changePasses C K v change io false change.wipeCount.toNat 1 run with
    | (run, .error e) => (run, .error e)
    | (run, .ok ()) =>
      if v.layout.hasBackupHeader then
        changePasses C K v change io true change.wipeCount.toNat 1 run
      else (run, .ok ())

/-! ## `ReEncryptVolumeHeaderWithNewSalt` -/

/-- The header that `ReEncryptVolumeHeaderWithNewSalt` makes under a key. -/
def resaltedHeader (header : VolumeHeader) (password : Bytes) (pim : Int)
    (newSalt newHeaderKey : Bytes) : WrittenHeader where
  header := header
  headerSize := header.headerSize
  salt := newSalt
  headerKey := newHeaderKey
  kdf := header.pkcs5
  password := password
  pim := pim

/-- `CoreBase::ReEncryptVolumeHeaderWithNewSalt` into a buffer of the size of the header. -/
def reEncryptVolumeHeaderWithNewSalt (C : Ciphers) (K : KeyDerivation) (header : VolumeHeader)
    (password : Bytes) (pim : Int) (newSalt : RandStream) : Except Exception WrittenHeader :=
  let salt := newSalt.bytes 0 saltSize
  match K.deriveKey header.pkcs5 password pim salt with
  | none => .error .externalException
  | some newHeaderKey => do
    let w := resaltedHeader header password pim salt newHeaderKey
    let _ ← w.buffer C
    .ok w

end CoreBase

/-! ## Runs -/

/-- A header operation of the user on a volume: a change of the password, or the header of a
    backup file or of a restore. -/
inductive HeaderOp where
  | changePassword (v : Volume) (change : PasswordChange) (io : RewriteIo)
  | reEncrypt (header : VolumeHeader) (password : Bytes) (pim : Int) (newSalt : RandStream)

/-- What an operation does; one that throws keeps what it has written before. -/
def HeaderOp.step (C : Ciphers) (K : KeyDerivation) (run : HeaderRun) : HeaderOp → HeaderRun
  | .changePassword v change io => (CoreBase.changePassword C K v change io run).1
  | .reEncrypt header password pim newSalt =>
    match CoreBase.reEncryptVolumeHeaderWithNewSalt C K header password pim newSalt with
    | .error _ => run
    | .ok w => { run with written := run.written ++ [w] }

def HeaderRun.run (C : Ciphers) (K : KeyDerivation) (start : HeaderRun) (ops : List HeaderOp) :
    HeaderRun :=
  ops.foldl (HeaderOp.step C K) start

namespace VolumeCreator

/-- A header of the creator for a salt. -/
def createdHeaderFor (K : KeyDerivation) (options : VolumeCreationOptions) (c : Creation)
    (salt : Bytes) : Except Exception WrittenHeader := do
  let headerKey ← deriveHeaderKey K options salt
  .ok
    { header := c.header
      headerSize := c.layout.getHeaderSize
      salt := salt
      headerKey := headerKey
      kdf := options.volumeHeaderKdf
      password := options.password
      pim := options.pim }

/-- A creation from its start to its end: the host, and the header at the front and its
    backup. -/
def created (C : Ciphers) (P : Primitives) (K : KeyDerivation) (fatFormat : FatFormat)
    (options : VolumeCreationOptions) (draws : CreationDraws) (io : HostIo) (disk : Bytes) :
    Except Exception HeaderRun := do
  let c ← createVolume C K options draws io disk
  let file ← creationThread C P K fatFormat options draws io c
  let primary ← createdHeaderFor K options c (draws.salt.bytes 0 saltSize)
  let backup ← createdHeaderFor K options c (draws.backupSalt.bytes 0 saltSize)
  .ok { host := file.bytes, written := [primary, backup] }

end VolumeCreator

/-! ## What is asked of the derivations -/

namespace WrittenHeader

variable {C : Ciphers} {K : KeyDerivation} {w : WrittenHeader}

/-- **A header opens under a key derived from its salt**: the trial of `Decrypt` with its
    algorithm accepts the bytes that were written. -/
theorem OpensUnder.accepted {buf : Bytes} {tried : List Bytes} (h : w.OpensUnder K tried) (hbuf : w.buffer C = .ok buf)
    (hok : HeaderSizeOk w.header.headerSize)
    (hkey : w.header.dataAreaKey.length = dataKeyAreaMaxSize)
    (hver : w.header.requiredMinProgramVersion ≤ versionNumber) :
    slice buf 0 saltSize = w.salt ∧
    ∃ password ∈ tried, ∃ kdf headerKey header,
      K.deriveKey kdf password w.pim w.salt = some headerKey ∧
      decryptWithAlgorithm C w.headerSize buf headerKey kdf w.header.ea.algorithm =
        .ok (some header) := by
  obtain ⟨hsize, hsalt, -, data, hdata, rfl⟩ := encryptNew_ok hbuf
  obtain ⟨password, hmem, kdf, hderive⟩ := h
  unfold buffer at hbuf
  rw [hsize] at hbuf ⊢
  have hfits : 64 + 448 ≤ w.header.headerSize := hok.1
  have hlen : (w.salt ++ data).length = w.header.headerSize := by
    rw [List.length_append, hsalt, EncryptionAlgorithm.length_encryptBuffer hdata,
      length_serialize w.header (w.header.headerSize - encryptedHeaderDataOffset) hkey
        (show 448 ≤ w.header.headerSize - 64 by omega)]
    show 64 + (w.header.headerSize - 64) = w.header.headerSize
    omega
  have haccept := decryptWithAlgorithm_encryptNew kdf hbuf hok hkey hver hlen rfl
  refine ⟨?_, password, hmem, kdf, w.headerKey, _, hderive, haccept⟩
  rw [slice_append_left (show 0 + saltSize ≤ w.salt.length by rw [hsalt, Nat.zero_add]),
    ← hsalt, slice, List.drop_zero, List.take_length]

end WrittenHeader

/-! ## What an operation writes -/

/-- A header that opens under its password and not with the factor. -/
def WrittenHeader.LostFactor (K : KeyDerivation) (w : WrittenHeader) : Prop :=
  K.deriveKey w.kdf w.password w.pim w.salt = some w.headerKey

/-- `run'` is `run` and headers written behind it, each under its password alone. -/
def Extended (K : KeyDerivation) (run run' : HeaderRun) : Prop :=
  ∃ more, run'.written = run.written ++ more ∧ ∀ w ∈ more, w.LostFactor K

theorem Extended.refl (K : KeyDerivation) (run : HeaderRun) : Extended K run run :=
  ⟨[], (List.append_nil _).symm, fun _ hw => absurd hw List.not_mem_nil⟩

theorem Extended.trans {K : KeyDerivation} {run run' run'' : HeaderRun}
    (h : Extended K run run') (h' : Extended K run' run'') : Extended K run run'' := by
  obtain ⟨more, hmore, hlost⟩ := h
  obtain ⟨more', hmore', hlost'⟩ := h'
  refine ⟨more ++ more', by rw [hmore', hmore, List.append_assoc], ?_⟩
  intro w hw
  rcases List.mem_append.mp hw with hfirst | hsecond
  · exact hlost w hfirst
  · exact hlost' w hsecond

namespace CoreBase

section
variable {C : Ciphers} {K : KeyDerivation} {v : Volume} {change : PasswordChange} {io : RewriteIo}
  {backupHeader : Bool} {run run' : HeaderRun} {result : Except Exception Unit}

end

end CoreBase

section
variable {C : Ciphers} {K : KeyDerivation} {run : HeaderRun}

end

/-! ## The headers of a creation -/

namespace VolumeCreator

section
variable {C : Ciphers} {P : Primitives} {K : KeyDerivation} {fatFormat : FatFormat}
  {options : VolumeCreationOptions} {draws : CreationDraws} {io : HostIo} {disk : Bytes}
  {c : Creation}

end

end VolumeCreator

namespace HeaderRewriteDemo

open VolumeCreator

/-- A derivation that is injective on the passwords that it takes: their length, the password,
    and zeros up to the size of the key. -/
def deriveKey (_kdf : Pkcs5Kdf) (password : Bytes) (_pim : Int) (_salt : Bytes) : Option Bytes :=
  if password.length ≤ 128 then
    some (UInt8.ofNat password.length ::
      (password ++ List.replicate (headerKeyDerivationSize - 1 - password.length) 0))
  else none

/-- With a token that always answers: the two mixes put the version in front. -/
def factor : KeyDerivation where
  deriveKey := deriveKey
  effectivePasswords password _ := some [2 :: password, 1 :: password]
  hkfShouldApply _ := true
  completionOrder l := l
  perm_completionOrder l := List.Perm.refl l

theorem deriveKey_eq_some {kdf : Pkcs5Kdf} {password salt headerKey : Bytes} {pim : Int}
    (h : factor.deriveKey kdf password pim salt = some headerKey) :
    password.length ≤ 128 ∧ headerKey = UInt8.ofNat password.length ::
      (password ++ List.replicate (headerKeyDerivationSize - 1 - password.length) 0) := by
  simp only [factor, deriveKey] at h
  by_cases hlen : password.length ≤ 128
  · rw [if_pos hlen] at h
    exact ⟨hlen, (Option.some.inj h).symm⟩
  · rw [if_neg hlen] at h
    exact absurd h (by simp)

theorem length_headerKey {kdf : Pkcs5Kdf} {password salt headerKey : Bytes} {pim : Int}
    (h : factor.deriveKey kdf password pim salt = some headerKey) : headerKey.length = 192 := by
  obtain ⟨hlen, rfl⟩ := deriveKey_eq_some h
  rw [List.length_cons, List.length_append, List.length_replicate]
  show password.length + (192 - 1 - password.length) + 1 = 192
  omega

/-- A container of 1 MiB. -/
def options : VolumeCreationOptions := plainOptions 1048576

theorem plain : PlainV2 factor options countingDraws :=
  have h : PlainV2 .demo options countingDraws :=
    have hsplit : v2FormatSplitDataArea (1048576 - totalVolumeHeadersSize) 512 =
        some (762368, 762368) := by decide +kernel
    plainV2_plainOptions (by decide) (by decide) hsplit
  { isDevice := h.isDevice
    normal := h.normal
    v2Format := h.v2Format
    full := h.full
    fat := h.fat
    size_le := h.size_le
    headers_le := h.headers_le
    divides := h.divides
    masterKey := h.masterKey
    headerKey := fun salt => by
      have hderive : ∃ headerKey,
          factor.deriveKey options.volumeHeaderKdf (2 :: options.password) options.pim salt =
            some headerKey := ⟨_, rfl⟩
      obtain ⟨headerKey, hkey⟩ := hderive
      refine ⟨headerKey, ?_, ?_⟩
      · exact bind_eq_ok.mpr ⟨_, rfl, by rw [hkey]⟩
      · rw [length_headerKey hkey]
        exact show AlgorithmId.aes.getKeySize * 2 ≤ 192 by decide }

/-- The volume of the creation, open. -/
def openVolume (c : Creation) : Volume :=
  { Volume.outerVolume .demo 0 0 with
    protection := .none
    ea := c.header.ea
    header := c.header
    layout := c.layout }

/-- A change to another password. -/
def change : PasswordChange where
  newPasswordEmpty := false
  newKeyfilesEmpty := true
  newPassword := [0x71]
  newPim := 0
  newPkcs5Kdf := none
  wipeCount := 3
  isDevice := false

def rewriteIo : RewriteIo where
  newSalt _ i := fun n => UInt8.ofNat (i + n)
  accepts _ _ := none
  flushFails _ _ := false

def newSalt : Bytes := (rewriteIo.newSalt false 1).bytes 0 saltSize

end HeaderRewriteDemo

end VeraCrypt
