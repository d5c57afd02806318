import VeraCrypt.Core.CreationSucceeds
import VeraCrypt.Volume.Container

/-!
# Whether a version 2 volume ends at the end of its host

The creator writes data, table and backup headers one behind the other, in the belief that data
and table fill the area between the headers. They do exactly where the area divides (`Closes`);
otherwise the container comes out a sector short, and the backup headers stand a sector in front
of where a mount looks for them.
-/

set_option autoImplicit false

namespace VeraCrypt

open Lib

namespace VolumeCreator

/-- Data and table fill the area between the headers, the backup header group ends the host, and
    the container has the size asked for. -/
structure EndsAtHostEnd (options : VolumeCreationOptions) (c : Creation) (file : OpenFile) :
    Prop where
  fills : c.header.volumeDataSize.toNat +
      (v2FormatMacTableBytes (c.header.volumeDataSize / c.sectorSize.toUInt64)
        c.sectorSize).toNat = (requestedDataArea options).toNat
  backup : file.position - volumeHeaderGroupSize = c.hostSize.toNat - volumeHeaderGroupSize
  size : file.bytes.length = options.size.toNat

/-- The host has the size asked for, its data area divides, and the file system formatted stays
    in the container. -/
structure GeometryFits (fatFormat : FatFormat) (options : VolumeCreationOptions) (disk : Bytes) :
    Prop where
  host : (openHost options disk).2 = options.size
  closes : Closes (requestedDataArea options).toNat (requestedSectorSize options).toNat
  formatted : ∀ usable tableOffset,
    v2FormatSplitDataArea (requestedDataArea options) (requestedSectorSize options) =
      some (usable, tableOffset) →
    volumeHeaderGroupSize +
      formattedBytes fatFormat options usable (requestedSectorSize options) ≤
      options.size.toNat

section
variable {C : Ciphers} {P : Primitives} {K : KeyDerivation} {fatFormat : FatFormat}
  {options : VolumeCreationOptions} {draws : CreationDraws} {io : HostIo} {disk : Bytes}
  {c : Creation} {file : OpenFile}

/-- What the end of a creation says of its start. -/
theorem endsAtHostEnd_iff (hdisk : disk.length ≤ offsetMax) (hv2 : options.v2Format = true)
    (hnormal : options.type = .normal)
    (hcreate : createVolume C K options draws io disk = .ok c)
    (hthread : creationThread C P K fatFormat options draws io c = .ok file) :
    EndsAtHostEnd options c file ↔ GeometryFits fatFormat options disk := by
  have hc := createVolume_ok hcreate
  have hv := hc.v2 hv2 hnormal
  have hr := hv.regions P
  have hf := creationThread_ok hc hv2 hnormal hthread
  have hexact := splitExact_of_valid hv.sectorSize_valid (requestedDataArea options)
  obtain ⟨tableOffset, hsplit⟩ := hv.split
  obtain ⟨-, data, table, hd⟩ := v2FormatSplitDataArea_some hexact hsplit
  have hcloses := hd.closes_iff hexact
  rw [v2SectorBytes_of_valid hv.sectorSize_valid, UInt32.toNat_toUInt64] at hcloses
  have hposition := hf.position_eq
  have hbehind := hr.behind_eq
  have hbehindLe := hr.behind_le
  have harea := hr.area_eq
  have hsector := hv.sectorSize_eq
  have hstart : file.position - volumeHeaderGroupSize = (behindTable c).toNat := by omega
  constructor
  · intro hends
    have hfills := hends.fills
    have hbackup := hends.backup
    have hsize := hends.size
    refine ⟨?_, ?_, ?_⟩
    · rw [← hc.hostSize_eq]
      apply UInt64.toNat_inj.mp
      have husable := hr.usable_pos
      omega
    · rw [← hsector]
      exact hcloses.mp hfills
    · intro usable offset husable
      rw [← hsector, hsplit] at husable
      cases husable
      rw [← hsector, ← hsize]
      exact hf.formatted_le
  · intro hfits
    have hfills := hcloses.mpr (by rw [hsector]; exact hfits.closes)
    have hhost : c.hostSize = options.size := hc.hostSize_eq.trans hfits.host
    have hformatted := hfits.formatted c.header.volumeDataSize tableOffset
      (by rw [← hsector]; exact hsplit)
    rw [← hsector] at hformatted
    refine ⟨hfills, ?_, ?_⟩
    · rw [hhost, hstart]
      omega
    · cases hdev : options.isDevice with
      | false =>
        rw [hf.grown hdev]
        omega
      | true =>
        have hlength : c.hostSize.toNat = disk.length := by
          rw [hc.hostSize_eq, openHost, if_neg (by rw [hdev]; simp), UInt64.toNat_ofNat']
          exact Nat.mod_eq_of_lt (Nat.lt_of_le_of_lt hdisk (by decide))
        rw [hf.device hdev, ← hlength, hhost]

end

/-! ## Concrete sizes -/

/-- A container of a size. -/
def plainOptions (size : UInt64) : VolumeCreationOptions where
  isDevice := false
  deviceSectorSize := 512
  type := .normal
  size := size
  ea := .aes
  volumeHeaderKdf := .hmacSha512
  password := [0x70]
  pim := 0
  fat := false
  filesystemClusterSize := 0
  quick := false
  v2Format := true

def countingDraws : CreationDraws where
  masterKey := UInt8.ofNat
  salt := UInt8.ofNat
  hiddenMasterKey := UInt8.ofNat
  hiddenSalt := UInt8.ofNat
  hiddenHeaderKey := UInt8.ofNat
  fillKey := UInt8.ofNat
  fillModeKey := UInt8.ofNat
  backupSalt := UInt8.ofNat
  backupHiddenMasterKey := UInt8.ofNat
  backupHiddenSalt := UInt8.ofNat
  backupHiddenHeaderKey := UInt8.ofNat

def soundIo : HostIo where
  read _ _ := true
  write _ _ := true

theorem soundIo_sound : soundIo.Sound := fun _ _ => ⟨rfl, rfl⟩

theorem plainV2_plainOptions {size usable tableOffset : UInt64} (hsize : size.toNat ≤ offsetMax)
    (hheaders : totalVolumeHeadersSize ≤ size)
    (hsplit : v2FormatSplitDataArea (size - totalVolumeHeadersSize) 512 =
      some (usable, tableOffset)) : PlainV2 .demo (plainOptions size) countingDraws where
  isDevice := rfl
  normal := rfl
  v2Format := rfl
  full := rfl
  fat := rfl
  size_le := hsize
  headers_le := hheaders
  divides := ⟨usable, tableOffset, hsplit⟩
  masterKey := @drawMasterKey_isOk _ _ 32 rfl
    (show Pkcs5Kdf.hmacSha512 ≠ .argon2 by decide) (by decide +kernel)
  headerKey _ := ⟨List.replicate headerKeyDerivationSize 0x70, rfl, by
    rw [List.length_replicate]
    exact show AlgorithmId.aes.getKeySize * 2 ≤ headerKeyDerivationSize by decide⟩

/-- **When the geometry of a version 2 volume closes.** The first part is about the division of a
    data area on its own, the second about a creation that ran to its end: its backup header
    stands where the file is left. -/
theorem v2Geometry_closes_iff (total usable tableOffset : UInt64) (sectorSize : UInt32) :
    (SplitExact total (v2SectorBytes sectorSize) →
      v2FormatSplitDataArea total sectorSize = some (usable, tableOffset) →
      (usable.toNat +
          (v2FormatMacTableBytes (usable / v2SectorBytes sectorSize) sectorSize).toNat =
          total.toNat ↔
        Closes total.toNat (v2SectorBytes sectorSize).toNat)) ∧
    ∀ (C : Ciphers) (P : Primitives) (K : KeyDerivation) (fatFormat : FatFormat)
      (options : VolumeCreationOptions) (draws : CreationDraws) (io : HostIo) (disk : Bytes)
      (c : Creation) (file : OpenFile),
      disk.length ≤ offsetMax → options.v2Format = true → options.type = .normal →
      createVolume C K options draws io disk = .ok c →
      creationThread C P K fatFormat options draws io c = .ok file →
      (∃ headerKey backupHeader,
        encryptNew C c.header c.layout.getHeaderSize (draws.backupSalt.bytes 0 saltSize)
          headerKey = .ok backupHeader ∧
        slice file.bytes (file.position - volumeHeaderGroupSize) volumeHeaderSize =
          backupHeader) ∧
      (EndsAtHostEnd options c file ↔ GeometryFits fatFormat options disk) := by
  refine ⟨?_, ?_⟩
  · intro hexact h
    obtain ⟨-, data, table, hd⟩ := v2FormatSplitDataArea_some hexact h
    exact hd.closes_iff hexact
  · intro C P K fatFormat options draws io disk c file hdisk hv2 hnormal hcreate hthread
    have hf := creationThread_ok (createVolume_ok hcreate) hv2 hnormal hthread
    have hstart : file.position - volumeHeaderGroupSize = (behindTable c).toNat := by
      rw [hf.position_eq, Nat.add_sub_cancel]
    refine ⟨?_, endsAtHostEnd_iff hdisk hv2 hnormal hcreate hthread⟩
    rw [hstart]
    exact hf.backup

/-- A container of 1 MiB closes. -/
theorem v2Geometry_closes_demo :
    (762368 : UInt64).toNat + (v2FormatMacTableBytes (762368 / 512) 512).toNat = 786432 ∧
    ∃ c file,
      createVolume .demo .demo (plainOptions 1048576) countingDraws soundIo [] = .ok c ∧
      creationThread .demo .demo .demo (fun _ _ _ => .ok []) (plainOptions 1048576)
        countingDraws soundIo c = .ok file ∧
      EndsAtHostEnd (plainOptions 1048576) c file := by
  have hsplit : v2FormatSplitDataArea 786432 512 = some (762368, 762368) := by decide +kernel
  have hplain : PlainV2 .demo (plainOptions 1048576) countingDraws :=
    plainV2_plainOptions (by decide) (by decide) hsplit
  obtain ⟨c, file, hcreate, hthread⟩ := creation_isOk .demo .demo (fun _ _ _ => .ok [])
    soundIo_sound hplain []
  have hgeometry := v2Geometry_closes_iff 786432 762368 762368 512
  have hcloses := hgeometry.1 (splitExact_of_valid (by decide) _) hsplit
  have hends := hgeometry.2 .demo .demo .demo (fun _ _ _ => .ok [])
    (plainOptions 1048576) countingDraws soundIo [] c file (by decide) rfl rfl hcreate hthread
  refine ⟨hcloses.mpr (by decide), c, file, hcreate, hthread, hends.2.mpr ⟨rfl, ?_, ?_⟩⟩
  · show Closes 786432 512
    decide
  · intro usable tableOffset _
    show volumeHeaderGroupSize + 0 ≤ 1048576
    decide

/-- **A container of 306 KiB comes out a sector short**: its area of 100 sectors is divided into
    96 of data and 3 of table. -/
theorem v2Geometry_short :
    v2FormatSplitDataArea 51200 512 = some (49152, 49152) ∧
    (49152 : UInt64).toNat + (v2FormatMacTableBytes (49152 / 512) 512).toNat ≠ 51200 ∧
    ∃ c file,
      createVolume .demo .demo (plainOptions 313344) countingDraws soundIo [] = .ok c ∧
      creationThread .demo .demo .demo (fun _ _ _ => .ok []) (plainOptions 313344)
        countingDraws soundIo c = .ok file ∧
      ¬ EndsAtHostEnd (plainOptions 313344) c file := by
  have hsplit : v2FormatSplitDataArea 51200 512 = some (49152, 49152) := by decide +kernel
  refine ⟨hsplit, by decide, ?_⟩
  have hplain : PlainV2 .demo (plainOptions 313344) countingDraws :=
    plainV2_plainOptions (by decide) (by decide) hsplit
  obtain ⟨c, file, hcreate, hthread⟩ := creation_isOk .demo .demo (fun _ _ _ => .ok [])
    soundIo_sound hplain []
  refine ⟨c, file, hcreate, hthread, ?_⟩
  intro hends
  have hfits := (endsAtHostEnd_iff (by decide) rfl rfl hcreate hthread).mp hends
  exact absurd hfits.closes (by decide)

end VolumeCreator

end VeraCrypt
