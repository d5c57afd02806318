import VeraCrypt.Keyslot.Store

/-!
# Backup of a keyslot area (`Common/HeaderBackup.c`)

A backup is one self-describing blob, `magic[8] || ver[1] || areaLen[8] || area || sha256[32]`.
`HeaderBackupRestore` verifies a blob before it writes a byte of it, so a refused blob cannot
touch the area; a write that the medium breaks off is the one way a failing restore changes
anything. The digest is taken over as many bytes as an `unsigned int` counts
(`hashedLen`), which is the whole prefix of every blob shorter than 2^32.
-/

set_option autoImplicit false

namespace VeraCrypt

open Lib

/-! ## The functions -/

/-- "VCHDRBK1" -/
def hbMagic : Bytes := [0x56, 0x43, 0x48, 0x44, 0x52, 0x42, 0x4b, 0x31]

def hbVer : UInt8 := 1

/-- `HEADER_BACKUP_OVERHEAD` -/
def headerBackupOverhead : Nat := 8 + 1 + 8 + 32

def hbOk : Int := 0
def hbErrFormat : Int := -1
def hbErrIntegrity : Int := -2
def hbErrIo : Int := -3
def hbErrSpace : Int := -4

/-- `O_VER`, `O_LEN`, `O_AREA` -/
def oVer : Nat := 8
def oLen : Nat := 9
def oArea : Nat := 17

/-- `(unsigned int) (O_AREA + areaLen)`: how many bytes the digest is taken over. -/
def hashedLen (areaLen : Nat) : Nat := (oArea + areaLen) % 2 ^ 32

/-- What a create hands back: the code, the output buffer and `*outLen` where it was set. -/
structure HeaderBackup where
  rc : Int
  out : Bytes
  outLen : Option Nat
  deriving DecidableEq

/-- The output buffer with magic, version and area length stored. -/
def hbHeader (out : Bytes) (sz : Nat) : Bytes :=
  patch (patch (patch out 0 hbMagic) oVer [hbVer]) oLen (beBytes 8 sz)

/-- `HeaderBackupCreate`. The buffer's length is `outCap`. -/
def headerBackupCreate (P : Primitives) (area : KeyslotArea) (out : Bytes) : HeaderBackup :=
  let sz := area.size
  let total := (sz + headerBackupOverhead) % 2 ^ 64
  if out.length < total then { rc := hbErrSpace, out := out, outLen := none }
  else
    let hdr := hbHeader out sz
    match area.read 0 sz with
    | none => { rc := hbErrIo, out := hdr, outLen := none }
    | some bytes =>
      let full := patch hdr oArea bytes
      { rc := hbOk
        out := patch full (oArea + sz) (P.sha256 (slice full 0 (hashedLen sz)))
        outLen := some total }

/-- `get_u64_be (blob + O_LEN)` -/
def hbAreaLen (blob : Bytes) : Nat := beNat (slice blob oLen 8)

/-- `HeaderBackupVerify` -/
def headerBackupVerify (P : Primitives) (blob : Bytes) : Int :=
  if blob.length < headerBackupOverhead then hbErrFormat
  else if slice blob 0 8 ≠ hbMagic then hbErrFormat
  else if slice blob oVer 1 ≠ [hbVer] then hbErrFormat
  else if blob.length ≠ (oArea + hbAreaLen blob + 32) % 2 ^ 64 then hbErrFormat
  else if P.sha256 (slice blob 0 (hashedLen (hbAreaLen blob))) ≠
      slice blob (oArea + hbAreaLen blob) 32 then hbErrIntegrity
  else hbOk

/-- `HeaderBackupRestore`: the code, and the area afterwards. -/
def headerBackupRestore (P : Primitives) (blob : Bytes) (area : KeyslotArea) :
    Int × KeyslotArea :=
  let rc := headerBackupVerify P blob
  if rc ≠ hbOk then (rc, area)
  else if hbAreaLen blob > area.size then (hbErrSpace, area)
  else
    match area.write 0 (slice blob oArea (hbAreaLen blob)) with
    | (true, area') => (hbOk, area')
    | (false, area') => (hbErrIo, area')

/-! ## What a blob is -/

/-- Everything in front of the tag. -/
def hbPre (bytes : Bytes) : Bytes :=
  hbMagic ++ ([hbVer] ++ (beBytes 8 bytes.length ++ bytes))

/-- The blob of an area: what a create is to leave in its buffer. -/
def hbBlob (P : Primitives) (bytes : Bytes) : Bytes :=
  hbPre bytes ++ P.sha256 ((hbPre bytes).take (hashedLen bytes.length))

section
variable (P : Primitives)

theorem length_hbPre (bytes : Bytes) : (hbPre bytes).length = oArea + bytes.length := by
  have hmagic : hbMagic.length = 8 := rfl
  simp only [hbPre, List.length_append, length_beBytes, hmagic, List.length_singleton, oArea]
  omega

theorem length_hbBlob (bytes : Bytes) :
    (hbBlob P bytes).length = oArea + bytes.length + 32 := by
  rw [hbBlob, List.length_append, length_hbPre, P.length_sha256]

theorem slice_hbBlob_magic (bytes : Bytes) : slice (hbBlob P bytes) 0 8 = hbMagic :=
  slice_of_eq_append (p := []) rfl rfl rfl

theorem slice_hbBlob_ver (bytes : Bytes) : slice (hbBlob P bytes) oVer 1 = [hbVer] :=
  slice_of_eq_append (p := hbMagic) rfl rfl rfl

theorem hbAreaLen_hbBlob {bytes : Bytes} (h : bytes.length < 2 ^ 64) :
    hbAreaLen (hbBlob P bytes) = bytes.length := by
  have hfield : slice (hbBlob P bytes) oLen 8 = beBytes 8 bytes.length := by
    refine slice_of_eq_append (p := hbMagic ++ [hbVer])
      (q := bytes ++ P.sha256 ((hbPre bytes).take (hashedLen bytes.length))) ?_ rfl
      (length_beBytes 8 bytes.length).symm
    simp only [hbBlob, hbPre, List.append_assoc]
  rw [hbAreaLen, hfield, beNat_beBytes, Nat.mod_eq_of_lt (by omega)]

theorem slice_hbBlob_area (bytes : Bytes) :
    slice (hbBlob P bytes) oArea bytes.length = bytes := by
  refine slice_of_eq_append (p := hbMagic ++ ([hbVer] ++ beBytes 8 bytes.length))
    (q := P.sha256 ((hbPre bytes).take (hashedLen bytes.length))) ?_ ?_ rfl
  · simp only [hbBlob, hbPre, List.append_assoc]
  · rw [List.length_append, List.length_append, length_beBytes]
    rfl

/-- The prefix the digest is taken over lies before the tag. -/
theorem slice_hbBlob_hashed (bytes : Bytes) :
    slice (hbBlob P bytes) (oArea + bytes.length) 32 =
      P.sha256 (slice (hbBlob P bytes) 0 (hashedLen bytes.length)) := by
  have hpre := length_hbPre bytes
  have hle : hashedLen bytes.length ≤ oArea + bytes.length := Nat.mod_le _ _
  unfold hbBlob
  rw [slice_append_right (by omega), slice_append_left (by omega), hpre, Nat.sub_self,
    slice_all (by rw [P.length_sha256])]
  rfl

/-- **The blob of an area verifies.** -/
theorem headerBackupVerify_hbBlob {bytes : Bytes}
    (h : bytes.length + headerBackupOverhead < 2 ^ 64) :
    headerBackupVerify P (hbBlob P bytes) = hbOk := by
  have hover : headerBackupOverhead = 49 := rfl
  have harea : oArea = 17 := rfl
  have hlen := length_hbBlob P bytes
  have hshort : bytes.length < 2 ^ 64 := by omega
  have hal := hbAreaLen_hbBlob P hshort
  unfold headerBackupVerify
  rw [if_neg (by omega), if_neg (not_not.mpr (slice_hbBlob_magic P bytes)),
    if_neg (not_not.mpr (slice_hbBlob_ver P bytes)), hal,
    if_neg (by rw [Nat.mod_eq_of_lt (by omega)]; exact not_not.mpr hlen),
    if_neg (not_not.mpr (slice_hbBlob_hashed P bytes).symm)]

/-! ## What verify, create and restore do -/

theorem hbErrIo_ne_ok : hbErrIo ≠ hbOk := by decide

theorem hbErrSpace_ne_ok : hbErrSpace ≠ hbOk := by decide

/-- **What an accepted blob is**: of exactly the length it declares, under the digest of the
    bytes that were counted. -/
theorem headerBackupVerify_ok {blob : Bytes} (h : headerBackupVerify P blob = hbOk) :
    blob.length = oArea + hbAreaLen blob + 32 ∧
      slice blob (oArea + hbAreaLen blob) 32 =
        P.sha256 (slice blob 0 (hashedLen (hbAreaLen blob))) := by
  have hover : headerBackupOverhead = 49 := rfl
  have harea : oArea = 17 := rfl
  have hlt : hbAreaLen blob < 2 ^ 64 := by
    have hb := beNat_lt (slice blob oLen 8)
    have hl := length_slice_le blob oLen 8
    calc hbAreaLen blob < 256 ^ (slice blob oLen 8).length := hb
      _ ≤ 256 ^ 8 := Nat.pow_le_pow_right (by omega) hl
      _ = 2 ^ 64 := by norm_num
  unfold headerBackupVerify at h
  by_cases h1 : blob.length < headerBackupOverhead
  · rw [if_pos h1] at h
    exact absurd h (by decide)
  rw [if_neg h1] at h
  by_cases h2 : slice blob 0 8 ≠ hbMagic
  · rw [if_pos h2] at h
    exact absurd h (by decide)
  rw [if_neg h2] at h
  by_cases h3 : slice blob oVer 1 ≠ [hbVer]
  · rw [if_pos h3] at h
    exact absurd h (by decide)
  rw [if_neg h3] at h
  by_cases h4 : blob.length ≠ (oArea + hbAreaLen blob + 32) % 2 ^ 64
  · rw [if_pos h4] at h
    exact absurd h (by decide)
  rw [if_neg h4] at h
  by_cases h5 : P.sha256 (slice blob 0 (hashedLen (hbAreaLen blob))) ≠
      slice blob (oArea + hbAreaLen blob) 32
  · rw [if_pos h5] at h
    exact absurd h (by decide)
  -- a sum that wraps is shorter than any blob that got past the first check
  refine ⟨?_, (not_not.mp h5).symm⟩
  have hlen := not_not.mp h4
  omega

/-- The header fields and the area bytes meet end to end, so storing them one after the other
    is one store of the prefix. -/
theorem patch_hbHeader {out bytes : Bytes} (h : oArea + bytes.length ≤ out.length) :
    patch (hbHeader out bytes.length) oArea bytes = patch out 0 (hbPre bytes) := by
  have harea : oArea = 17 := rfl
  have hver : oVer = 0 + hbMagic.length := rfl
  have hlen : oLen = 0 + (hbMagic ++ [hbVer]).length := rfl
  have hend : oArea = 0 + (hbMagic ++ [hbVer] ++ beBytes 8 bytes.length).length := by
    rw [List.length_append, length_beBytes]
    rfl
  have hverLe : oVer ≤ oArea := by decide
  have hlenLe : oLen ≤ oArea := by decide
  unfold hbHeader
  rw [patch_patch_adjacent (by omega) hver, patch_patch_adjacent (by omega) hlen,
    patch_patch_adjacent (by omega) hend]
  simp only [hbPre, List.append_assoc]

/-- A create that succeeds leaves the area's blob at the front of its buffer. -/
theorem headerBackupCreate_ok {area : KeyslotArea} {out : Bytes}
    (hfit : area.size + headerBackupOverhead < 2 ^ 64)
    (h : (headerBackupCreate P area out).rc = hbOk) :
    (headerBackupCreate P area out).outLen = some (hbBlob P area.bytes).length ∧
      slice (headerBackupCreate P area out).out 0 (hbBlob P area.bytes).length =
        hbBlob P area.bytes := by
  have hover : headerBackupOverhead = 49 := rfl
  have harea : oArea = 17 := rfl
  have hsize : area.size = area.bytes.length := rfl
  have htotal : (area.size + headerBackupOverhead) % 2 ^ 64 = (hbBlob P area.bytes).length := by
    rw [length_hbBlob, Nat.mod_eq_of_lt hfit]
    omega
  unfold headerBackupCreate at h ⊢
  simp only [htotal] at h ⊢
  by_cases hcap : out.length < (hbBlob P area.bytes).length
  · rw [if_pos hcap] at h
    exact absurd h hbErrSpace_ne_ok
  rw [if_neg hcap] at h ⊢
  cases hread : area.read 0 area.size with
  | none =>
    rw [hread] at h
    exact absurd h hbErrIo_ne_ok
  | some bytes =>
    have hbytes : bytes = area.bytes := by
      unfold KeyslotArea.read at hread
      split at hread
      · rw [← Option.some.inj hread, slice_all (by omega)]
      · exact absurd hread (by simp)
    subst hbytes
    refine ⟨rfl, ?_⟩
    have hpre := length_hbPre area.bytes
    have hlen := length_hbBlob P area.bytes
    have hroom : oArea + area.bytes.length ≤ out.length := by omega
    have hfull := patch_hbHeader hroom
    have hhash : slice (patch out 0 (hbPre area.bytes)) 0 (hashedLen area.size) =
        (hbPre area.bytes).take (hashedLen area.bytes.length) := by
      have hle : hashedLen area.size ≤ oArea + area.bytes.length := Nat.mod_le _ _
      have hw := @slice_patch_within _ out (hbPre area.bytes) 0 0 (hashedLen area.size)
        (Nat.zero_le _) (by omega)
      exact hw
    simp only [hsize] at hfull hhash ⊢
    rw [hfull, hhash, patch_patch_adjacent (by omega) (by omega)]
    exact slice_patch_self (Nat.zero_le _) rfl

/-- A create succeeds exactly on a buffer with room and an area that can be read. -/
theorem headerBackupCreate_ok_iff {area : KeyslotArea} {out : Bytes}
    (hfit : area.size + headerBackupOverhead < 2 ^ 64) :
    (headerBackupCreate P area out).rc = hbOk ↔
      area.size + headerBackupOverhead ≤ out.length ∧ area.readFails 0 = false := by
  unfold headerBackupCreate
  simp only [Nat.mod_eq_of_lt hfit]
  by_cases hcap : out.length < area.size + headerBackupOverhead
  · rw [if_pos hcap]
    constructor
    · intro h
      exact absurd h hbErrSpace_ne_ok
    · rintro ⟨h, _⟩
      omega
  · rw [if_neg hcap]
    cases hf : area.readFails 0 with
    | true =>
      have hread : area.read 0 area.size = none := by simp [KeyslotArea.read, hf]
      rw [hread]
      constructor
      · intro h
        exact absurd h hbErrIo_ne_ok
      · rintro ⟨_, h⟩
        exact absurd h (by decide)
    | false =>
      have hread : area.read 0 area.size = some (slice area.bytes 0 area.size) := by
        simp [KeyslotArea.read, hf]
      rw [hread]
      exact ⟨fun _ => ⟨by omega, rfl⟩, fun _ => rfl⟩

/-- **A failing restore** leaves the area as it was, or as the medium left it when it broke the
    one write off. -/
theorem headerBackupRestore_fails {blob : Bytes} {area : KeyslotArea}
    (h : (headerBackupRestore P blob area).1 ≠ hbOk) :
    (headerBackupRestore P blob area).2 = area ∨
      (headerBackupRestore P blob area).1 = hbErrIo ∧
        ∃ k, area.writeFault 0 = some k ∧
          (headerBackupRestore P blob area).2 =
            area.put 0 ((slice blob oArea (hbAreaLen blob)).take k) := by
  unfold headerBackupRestore at h ⊢
  by_cases h1 : headerBackupVerify P blob ≠ hbOk
  · rw [if_pos h1]
    exact Or.inl rfl
  simp only [if_neg h1] at h ⊢
  by_cases h2 : hbAreaLen blob > area.size
  · rw [if_pos h2]
    exact Or.inl rfl
  simp only [if_neg h2, KeyslotArea.write] at h ⊢
  have hroom : 0 + (slice blob oArea (hbAreaLen blob)).length ≤ area.size := by
    have := length_slice_le blob oArea (hbAreaLen blob)
    omega
  simp only [if_pos hroom] at h ⊢
  cases hf : area.writeFault 0 with
  | none =>
    simp only [hf] at h
    exact absurd rfl h
  | some k => exact Or.inr ⟨rfl, k, rfl, rfl⟩

/-- **A blob is restored** onto any medium with room that takes the write. -/
theorem headerBackupRestore_hbBlob {bytes : Bytes} {area : KeyslotArea}
    (h : bytes.length + headerBackupOverhead < 2 ^ 64) (hroom : bytes.length ≤ area.size)
    (hwrite : area.writeFault 0 = none) :
    headerBackupRestore P (hbBlob P bytes) area = (hbOk, area.put 0 bytes) := by
  have hal : hbAreaLen (hbBlob P bytes) = bytes.length := hbAreaLen_hbBlob P (by omega)
  have hwr : area.write 0 bytes = (true, area.put 0 bytes) := by
    unfold KeyslotArea.write
    rw [if_pos (by omega), hwrite]
  unfold headerBackupRestore
  simp only [headerBackupVerify_hbBlob P h, hal, slice_hbBlob_area, hwr]
  rw [if_neg (by decide), if_neg (by omega)]

theorem put_all {area : KeyslotArea} {bytes : Bytes} (h : area.size = bytes.length) :
    (area.put 0 bytes).bytes = bytes := by
  have hlen : area.bytes.length = bytes.length := h
  simp only [KeyslotArea.put, patch, List.take_zero, List.nil_append, Nat.zero_add]
  rw [List.drop_of_length_le (by omega), List.append_nil]

/-! ## Backup and restore -/

/-- **Backup and restore.** An accepted blob has exactly the length it declares and, as far as
    the digest's length does not wrap, the digest of its whole prefix as its tag; the blob of a
    successful create puts the area's bytes back onto any medium of that size that takes the
    write; and a failing restore changes nothing, unless the medium broke its write off. -/
theorem headerBackup_sound :
    (∀ blob, headerBackupVerify P blob = hbOk →
      blob.length = oArea + hbAreaLen blob + 32 ∧
        (oArea + hbAreaLen blob < 2 ^ 32 →
          slice blob (oArea + hbAreaLen blob) 32 =
            P.sha256 (slice blob 0 (oArea + hbAreaLen blob)))) ∧
    (∀ area out, area.size + headerBackupOverhead < 2 ^ 64 →
      (headerBackupCreate P area out).rc = hbOk →
      ∃ len, (headerBackupCreate P area out).outLen = some len ∧
        ∀ target : KeyslotArea, target.size = area.size → target.writeFault 0 = none →
          headerBackupRestore P (slice (headerBackupCreate P area out).out 0 len) target =
            (hbOk, { target with bytes := area.bytes })) ∧
    (∀ blob area, (headerBackupRestore P blob area).1 ≠ hbOk →
      (headerBackupRestore P blob area).2 = area ∨
        (headerBackupRestore P blob area).1 = hbErrIo ∧
          ∃ k, area.writeFault 0 = some k ∧
            (headerBackupRestore P blob area).2 =
              area.put 0 ((slice blob oArea (hbAreaLen blob)).take k)) := by
  refine ⟨?_, ?_, fun blob area h => headerBackupRestore_fails P h⟩
  · intro blob h
    obtain ⟨hlen, htag⟩ := headerBackupVerify_ok P h
    refine ⟨hlen, fun hlt => ?_⟩
    rw [htag, hashedLen, Nat.mod_eq_of_lt hlt]
  · intro area out hfit h
    obtain ⟨hout, hblob⟩ := headerBackupCreate_ok P hfit h
    refine ⟨_, hout, fun target hsize hwrite => ?_⟩
    have hlen : area.bytes.length ≤ target.size := Nat.le_of_eq hsize.symm
    rw [hblob, headerBackupRestore_hbBlob P hfit hlen hwrite]
    have hput : (target.put 0 area.bytes).bytes = area.bytes := put_all hsize
    exact congrArg (fun bytes => (hbOk, { target with bytes := bytes })) hput

end

/-! ## A run -/

namespace HbDemo

def area : KeyslotArea := { KeyslotArea.blank 4 with bytes := [1, 2, 3, 4] }

/-- A medium of the same size whose write breaks off after one byte. -/
def torn : KeyslotArea := { KeyslotArea.blank 4 with writeFault := fun _ => some 1 }

def created : HeaderBackup := headerBackupCreate Primitives.demo area (List.replicate 53 0)

theorem created_ok : created.rc = hbOk ∧ created.outLen = some 53 := by decide

theorem headerBackup_sound_demo :
    ∃ len, created.outLen = some len ∧
      headerBackupRestore Primitives.demo (slice created.out 0 len) (KeyslotArea.blank 4) =
        (hbOk, area) := by
  obtain ⟨len, hlen, hrestore⟩ :=
    (headerBackup_sound Primitives.demo).2.1 area (List.replicate 53 0) (by decide) created_ok.1
  exact ⟨len, hlen, hrestore (KeyslotArea.blank 4) rfl rfl⟩

/-- A restore that fails and has changed the area. -/
theorem restore_torn :
    (headerBackupRestore Primitives.demo created.out torn).1 = hbErrIo ∧
      (headerBackupRestore Primitives.demo created.out torn).2.bytes = [1, 0, 0, 0] ∧
      torn.bytes = [0, 0, 0, 0] := by
  decide +kernel

end HbDemo

end VeraCrypt
