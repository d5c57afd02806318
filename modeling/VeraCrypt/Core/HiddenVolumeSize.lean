import VeraCrypt.Lib.PackedFields
import VeraCrypt.Volume.VolumeHeader

/-!
# The room for a hidden volume (`CoreBase::GetMaxHiddenVolumeSize`)

A hidden volume goes to the end of an outer one that holds a FAT file system. The function reads
the boot sector, scans the first FAT down from its end for a word that is not zero, takes the
place of that word for the last used cluster, and offers what lies behind, less one cluster "as
some FAT entries may span over sector boundaries".

Entries of 12 bits straddle words. `getMaxHiddenVolumeSize_safe_iff` says when the room offered
is free of used clusters.
-/

set_option autoImplicit false

namespace VeraCrypt

open Lib

/-- What the function asks of the outer volume. -/
structure OuterVolume where
  sectorSize : UInt32
  size : UInt64
  /-- `ReadSectors` into a buffer of one sector. -/
  readSectors : UInt64 → Except Exception Bytes

inductive FatType where
  | fat12 | fat16 | fat32
  deriving DecidableEq

namespace FatType

/-- The bits of an entry. -/
def bits : FatType → Nat
  | fat12 => 12
  | fat16 => 16
  | fat32 => 32

end FatType

/-! ## The boot sector -/

section

variable (bootSector : Bytes) (sectorSize : UInt32)

/-- `FAT12` and its like in the label at one of the two places; `none` throws. -/
def fatTypeOf : Option FatType :=
  if slice bootSector 54 5 = [0x46, 0x41, 0x54, 0x31, 0x32] then some .fat12
  else if slice bootSector 54 5 = [0x46, 0x41, 0x54, 0x31, 0x36] then some .fat16
  else if slice bootSector 82 5 = [0x46, 0x41, 0x54, 0x33, 0x32] then some .fat32
  else none

def sectorsPerCluster : Nat := (bootSector.getD 13 0).toNat

def clusterSize : UInt32 := (bootSector.getD 13 0).toUInt32 * sectorSize

def reservedSectorCount : UInt32 := UInt32.ofNat (leNat (slice bootSector 14 2))

def fatCount : UInt32 := (bootSector.getD 16 0).toUInt32

def rootEntryCount : UInt32 := UInt32.ofNat (leNat (slice bootSector 17 2))

def fatSectorCount (fatType : FatType) : UInt64 :=
  match fatType with
  | .fat32 => UInt64.ofNat (leNat (slice bootSector 36 4))
  | _ => UInt64.ofNat (leNat (slice bootSector 22 2))

def fatSize (fatType : FatType) : UInt64 := fatSectorCount bootSector fatType * sectorSize.toUInt64

def fatStartOffset : UInt64 := (reservedSectorCount bootSector * sectorSize).toUInt64

def dataAreaOffset (fatType : FatType) : UInt64 :=
  let offset := (reservedSectorCount bootSector * sectorSize).toUInt64 +
    fatSize bootSector sectorSize fatType * (fatCount bootSector).toUInt64
  match fatType with
  | .fat32 => offset
  | _ => offset + (rootEntryCount bootSector * 32).toUInt64

end

/-! ## The scan -/

/-- The loop over the words of a sector, from the last of `words` words down. -/
def lastWord (sector : Bytes) : (words : Nat) → Option Nat
  | 0 => none
  | k + 1 => if leNat (slice sector (4 * k) 4) ≠ 0 then some (4 * k) else lastWord sector k

/-- The cluster that a byte offset in the FAT is taken for. -/
def clusterNumber (fatType : FatType) (fatOffset : UInt64) : UInt64 :=
  match fatType with
  | .fat12 => fatOffset * 8 / 12
  | .fat16 => fatOffset / 2
  | .fat32 => fatOffset / 4

/-- What is offered behind a cluster. -/
def sizeBehind (size dataAreaOffset : UInt64) (clusterSize : UInt32) (clusterNumber : UInt64) :
    UInt64 :=
  let maxSize := size - dataAreaOffset
  let maxSize :=
    if clusterSize.toUInt64 ≤ maxSize then maxSize - clusterSize.toUInt64 else maxSize
  let clusterOffset := clusterNumber * clusterSize.toUInt64
  if maxSize < clusterOffset then 0 else maxSize - clusterOffset

/-- The loop over the sectors of the FAT. The offset is unsigned and wraps; `none` is out of
    fuel. -/
def scanFat (v : OuterVolume) (bootSector : Bytes) (fatType : FatType) :
    (fuel : Nat) → (readOffset : UInt64) → Option (Except Exception UInt64)
  | 0, _ => none
  | fuel + 1, readOffset =>
    if readOffset < fatStartOffset bootSector v.sectorSize then some (.ok 0)
    else
      match v.readSectors readOffset with
      | .error e => some (.error e)
      | .ok sector =>
        match lastWord sector (v.sectorSize.toNat / 4) with
        | some offset =>
          let fatOffset := readOffset - fatStartOffset bootSector v.sectorSize + UInt64.ofNat offset
          some (.ok (sizeBehind v.size (dataAreaOffset bootSector v.sectorSize fatType)
            (clusterSize bootSector v.sectorSize) (clusterNumber fatType fatOffset)))
        | none => scanFat v bootSector fatType fuel (readOffset - v.sectorSize.toUInt64)

/-- `CoreBase::GetMaxHiddenVolumeSize`, with fuel for the loop over the sectors. -/
def getMaxHiddenVolumeSize (fuel : Nat) (v : OuterVolume) : Option (Except Exception UInt64) :=
  match v.readSectors 0 with
  | .error e => some (.error e)
  | .ok bootSector =>
    match fatTypeOf bootSector with
    | none => some (.error .parameterIncorrect)
    | some fatType =>
      scanFat v bootSector fatType fuel
        (fatStartOffset bootSector v.sectorSize + fatSize bootSector v.sectorSize fatType -
          v.sectorSize.toUInt64)

/-! ## A file system in the volume -/

/-- Entry `e` of a FAT: the entries are packed in a little-endian number. -/
def fatEntry (fatType : FatType) (fat : Bytes) (e : Nat) : Nat :=
  field fatType.bits e (leNat fat)

section

variable (bootSector : Bytes) (sectorSize : UInt32) (fatType : FatType)

/-- Where the data area starts. -/
def dataStart : Nat :=
  (reservedSectorCount bootSector).toNat * sectorSize.toNat +
    (fatSectorCount bootSector fatType).toNat * sectorSize.toNat * (fatCount bootSector).toNat +
    match fatType with
    | .fat32 => 0
    | _ => (rootEntryCount bootSector).toNat * 32

def clusterBytes : Nat := sectorsPerCluster bootSector * sectorSize.toNat

/-- The sectors of the file system: a field of two bytes, or of four where that is zero. -/
def totalSectors : Nat :=
  if leNat (slice bootSector 19 2) ≠ 0 then leNat (slice bootSector 19 2)
  else leNat (slice bootSector 32 4)

def clusterCount : Nat :=
  (totalSectors bootSector * sectorSize.toNat - dataStart bootSector sectorSize fatType) /
    clusterBytes bootSector sectorSize

/-- The clusters there are: the first is number 2. -/
def IsCluster (e : Nat) : Prop := 2 ≤ e ∧ e < clusterCount bootSector sectorSize fatType + 2

/-- Where a cluster ends. -/
def clusterEnd (e : Nat) : Nat :=
  dataStart bootSector sectorSize fatType + (e - 1) * clusterBytes bootSector sectorSize

end

/-- A volume whose content is a FAT file system with fields that fit each other and the size of
    the volume. -/
structure FatVolume (v : OuterVolume) (content : Bytes) (fatType : FatType) : Prop where
  sectorSize : SectorSizeValid v.sectorSize
  length_content : content.length = v.size.toNat
  reads : ∀ offset : UInt64, offset.toNat % v.sectorSize.toNat = 0 →
    offset.toNat + v.sectorSize.toNat ≤ content.length →
    v.readSectors offset = .ok (slice content offset.toNat v.sectorSize.toNat)
  label : fatTypeOf (slice content 0 v.sectorSize.toNat) = some fatType
  bytesPerSector : leNat (slice (slice content 0 v.sectorSize.toNat) 11 2) = v.sectorSize.toNat
  sectorsPerCluster : sectorsPerCluster (slice content 0 v.sectorSize.toNat) ≠ 0
  /-- The boot sector itself is reserved. -/
  reserved : 1 ≤ (reservedSectorCount (slice content 0 v.sectorSize.toNat)).toNat
  fats : 1 ≤ (fatCount (slice content 0 v.sectorSize.toNat)).toNat
  /-- The root directory takes whole sectors. -/
  rootDirectory : (rootEntryCount (slice content 0 v.sectorSize.toNat)).toNat * 32 %
    v.sectorSize.toNat = 0
  fits : totalSectors (slice content 0 v.sectorSize.toNat) * v.sectorSize.toNat ≤ v.size.toNat
  data : dataStart (slice content 0 v.sectorSize.toNat) v.sectorSize fatType ≤
    totalSectors (slice content 0 v.sectorSize.toNat) * v.sectorSize.toNat
  /-- The FAT has an entry for every cluster. -/
  entries : fatType.bits *
      (clusterCount (slice content 0 v.sectorSize.toNat) v.sectorSize fatType + 2) ≤
    8 * ((fatSectorCount (slice content 0 v.sectorSize.toNat) fatType).toNat * v.sectorSize.toNat)

/-- The first FAT. -/
def firstFat (v : OuterVolume) (content : Bytes) (fatType : FatType) : Bytes :=
  slice content
    ((reservedSectorCount (slice content 0 v.sectorSize.toNat)).toNat * v.sectorSize.toNat)
    ((fatSectorCount (slice content 0 v.sectorSize.toNat) fatType).toNat * v.sectorSize.toNat)

/-- **A hidden volume of a size at the end overlaps no used cluster.** -/
def RoomFree (v : OuterVolume) (content : Bytes) (fatType : FatType) (size : UInt64) : Prop :=
  ∀ e, IsCluster (slice content 0 v.sectorSize.toNat) v.sectorSize fatType e →
    fatEntry fatType (firstFat v content fatType) e ≠ 0 →
    clusterEnd (slice content 0 v.sectorSize.toNat) v.sectorSize fatType e + size.toNat ≤
      v.size.toNat

/-- The last bits that are set in a FAT of 12-bit entries are the low four of an entry that
    stands across two words, in the first of them. -/
def EndsAcrossWords (v : OuterVolume) (content : Bytes) (fatType : FatType) : Prop :=
  fatType = .fat12 ∧
    ∃ e, IsCluster (slice content 0 v.sectorSize.toNat) v.sectorSize fatType e ∧ e % 8 = 5 ∧
      fatEntry fatType (firstFat v content fatType) e ≠ 0 ∧
      leNat (firstFat v content fatType) < 2 ^ (12 * e + 4)

/-! ## Arithmetic without wrapping -/

theorem leNat_slice_lt (bs : Bytes) (off n : Nat) : leNat (slice bs off n) < 256 ^ n :=
  (leNat_lt _).trans_le (Nat.pow_le_pow_right (by decide) (length_slice_le bs off n))

section

variable {b : Bytes} {s : UInt32}

theorem sectorSizeValid_toNat (hs : SectorSizeValid s) :
    512 ≤ s.toNat ∧ s.toNat ≤ 4096 ∧ s.toNat % 512 = 0 := by
  obtain ⟨hlo, hhi, hmod⟩ := hs
  refine ⟨UInt32.le_iff_toNat_le.mp hlo, UInt32.le_iff_toNat_le.mp hhi, ?_⟩
  have h := congrArg UInt32.toNat hmod
  rw [UInt32.toNat_mod] at h
  exact h

theorem reservedSectorCount_lt (b : Bytes) : (reservedSectorCount b).toNat < 2 ^ 16 := by
  have h := leNat_slice_lt b 14 2
  rw [reservedSectorCount, UInt32.toNat_ofNat', Nat.mod_eq_of_lt (by omega)]
  exact h

theorem rootEntryCount_lt (b : Bytes) : (rootEntryCount b).toNat < 2 ^ 16 := by
  have h := leNat_slice_lt b 17 2
  rw [rootEntryCount, UInt32.toNat_ofNat', Nat.mod_eq_of_lt (by omega)]
  exact h

theorem fatCount_lt (b : Bytes) : (fatCount b).toNat < 2 ^ 8 := by
  rw [fatCount, UInt8.toNat_toUInt32]
  exact (b.getD 16 0).toNat_lt

theorem fatSectorCount_lt (b : Bytes) (t : FatType) : (fatSectorCount b t).toNat < 2 ^ 32 := by
  have h2 := leNat_slice_lt b 22 2
  have h4 := leNat_slice_lt b 36 4
  cases t with
  | fat32 =>
    rw [fatSectorCount, UInt64.toNat_ofNat', Nat.mod_eq_of_lt (by omega)]
    exact h4
  | fat12 =>
    rw [fatSectorCount, UInt64.toNat_ofNat', Nat.mod_eq_of_lt (by omega)]
    · omega
    · exact fun h => FatType.noConfusion h
  | fat16 =>
    rw [fatSectorCount, UInt64.toNat_ofNat', Nat.mod_eq_of_lt (by omega)]
    · omega
    · exact fun h => FatType.noConfusion h

theorem toNat_clusterSize (hs : SectorSizeValid s) :
    (clusterSize b s).toNat = clusterBytes b s := by
  obtain ⟨-, hhi, -⟩ := sectorSizeValid_toNat hs
  have hspc := (b.getD 13 0).toNat_lt
  have hmul : (b.getD 13 0).toNat * s.toNat ≤ 256 * 4096 := Nat.mul_le_mul (by omega) hhi
  rw [clusterSize, UInt32.toNat_mul, UInt8.toNat_toUInt32, Nat.mod_eq_of_lt (by omega)]
  rfl

theorem clusterBytes_lt (hs : SectorSizeValid s) : clusterBytes b s < 2 ^ 20 := by
  obtain ⟨-, hhi, -⟩ := sectorSizeValid_toNat hs
  have hspc := (b.getD 13 0).toNat_lt
  have hmul : (b.getD 13 0).toNat * s.toNat ≤ 255 * 4096 := Nat.mul_le_mul (by omega) hhi
  exact hmul.trans_lt (by decide)

theorem toNat_fatStartOffset (hs : SectorSizeValid s) :
    (fatStartOffset b s).toNat = (reservedSectorCount b).toNat * s.toNat := by
  obtain ⟨-, hhi, -⟩ := sectorSizeValid_toNat hs
  have hr := reservedSectorCount_lt b
  have hmul : (reservedSectorCount b).toNat * s.toNat ≤ 2 ^ 16 * 4096 :=
    Nat.mul_le_mul (by omega) hhi
  rw [fatStartOffset, UInt32.toNat_toUInt64, UInt32.toNat_mul, Nat.mod_eq_of_lt (by omega)]

theorem toNat_fatSize (hs : SectorSizeValid s) (t : FatType) :
    (fatSize b s t).toNat = (fatSectorCount b t).toNat * s.toNat ∧
      (fatSectorCount b t).toNat * s.toNat ≤ 2 ^ 44 := by
  obtain ⟨-, hhi, -⟩ := sectorSizeValid_toNat hs
  have hf := fatSectorCount_lt b t
  have hmul : (fatSectorCount b t).toNat * s.toNat ≤ 2 ^ 32 * 4096 :=
    Nat.mul_le_mul (by omega) hhi
  refine ⟨?_, by omega⟩
  rw [fatSize, UInt64.toNat_mul, UInt32.toNat_toUInt64, Nat.mod_eq_of_lt (by omega)]

theorem toNat_dataAreaOffset (hs : SectorSizeValid s) (t : FatType) :
    (dataAreaOffset b s t).toNat = dataStart b s t := by
  obtain ⟨hsize, hle⟩ := toNat_fatSize (b := b) hs t
  have hstart : ((reservedSectorCount b * s).toUInt64).toNat =
      (reservedSectorCount b).toNat * s.toNat := toNat_fatStartOffset hs
  obtain ⟨-, hhi, -⟩ := sectorSizeValid_toNat hs
  have hr := reservedSectorCount_lt b
  have hc := fatCount_lt b
  have hroot := rootEntryCount_lt b
  have hstartle : (reservedSectorCount b).toNat * s.toNat ≤ 2 ^ 16 * 4096 :=
    Nat.mul_le_mul (by omega) hhi
  have hfats : (fatSectorCount b t).toNat * s.toNat * (fatCount b).toNat ≤ 2 ^ 44 * 2 ^ 8 :=
    Nat.mul_le_mul hle (by omega)
  have hoffset : ((reservedSectorCount b * s).toUInt64 +
      fatSize b s t * (fatCount b).toUInt64).toNat =
        (reservedSectorCount b).toNat * s.toNat +
          (fatSectorCount b t).toNat * s.toNat * (fatCount b).toNat := by
    rw [UInt64.toNat_add, UInt64.toNat_mul, hsize, hstart, UInt32.toNat_toUInt64,
      Nat.mod_eq_of_lt (a := _ * (fatCount b).toNat) (by omega), Nat.mod_eq_of_lt (by omega)]
  have hentries : ((rootEntryCount b * 32).toUInt64).toNat = (rootEntryCount b).toNat * 32 := by
    rw [UInt32.toNat_toUInt64, UInt32.toNat_mul]
    exact Nat.mod_eq_of_lt (show (rootEntryCount b).toNat * 32 < 2 ^ 32 by omega)
  cases t with
  | fat32 => exact hoffset
  | fat12 =>
    show UInt64.toNat (_ + _) = _ + _
    rw [UInt64.toNat_add, hoffset, hentries, Nat.mod_eq_of_lt (by omega)]
  | fat16 =>
    show UInt64.toNat (_ + _) = _ + _
    rw [UInt64.toNat_add, hoffset, hentries, Nat.mod_eq_of_lt (by omega)]

end

/-! ## Where the scan stops -/

/-- The word at which the scan of a sector stops is the one that the highest bit lies in. -/
theorem lastWord_spec {sector : Bytes} {base n : Nat} :
    ∀ {words : Nat}, (∀ j < words, leNat (slice sector (4 * j) 4) = field 32 (base + j) n) →
      n < 2 ^ (32 * (base + words)) →
      (∃ j < words, lastWord sector words = some (4 * j) ∧ 2 ^ (32 * (base + j)) ≤ n ∧
        n < 2 ^ (32 * (base + j + 1))) ∨
      (lastWord sector words = none ∧ n < 2 ^ (32 * base)) := by
  intro words
  induction words with
  | zero => exact fun _ hn => Or.inr ⟨rfl, hn⟩
  | succ k ih =>
    intro hwords hn
    have hk := hwords k (Nat.lt_succ_self k)
    by_cases hzero : leNat (slice sector (4 * k) 4) = 0
    · have hlt : n < 2 ^ (32 * (base + k)) := lt_of_field_eq_zero hn (hk.symm.trans hzero)
      have hskip : lastWord sector (k + 1) = lastWord sector k := by
        rw [lastWord, if_neg (not_not.mpr hzero)]
      rw [hskip]
      rcases ih (fun j hj => hwords j (Nat.lt_succ_of_lt hj)) hlt with ⟨j, hj, hrest⟩ | hnone
      · exact Or.inl ⟨j, Nat.lt_succ_of_lt hj, hrest⟩
      · exact Or.inr hnone
    · refine Or.inl ⟨k, Nat.lt_succ_self k, ?_, ?_, hn⟩
      · rw [lastWord, if_pos hzero]
      · exact two_pow_le_of_field_ne_zero (hk ▸ hzero)

section

variable {v : OuterVolume} {content : Bytes} {t : FatType}

/-- The first FAT lies in front of the data area, and the data area in the volume. -/
theorem FatVolume.firstFat_fits (h : FatVolume v content t) :
    (reservedSectorCount (slice content 0 v.sectorSize.toNat)).toNat * v.sectorSize.toNat +
        (fatSectorCount (slice content 0 v.sectorSize.toNat) t).toNat * v.sectorSize.toNat ≤
      dataStart (slice content 0 v.sectorSize.toNat) v.sectorSize t ∧
    dataStart (slice content 0 v.sectorSize.toNat) v.sectorSize t ≤ v.size.toNat := by
  have hfats := Nat.mul_le_mul_left
    ((fatSectorCount (slice content 0 v.sectorSize.toNat) t).toNat * v.sectorSize.toNat) h.fats
  rw [Nat.mul_one] at hfats
  exact ⟨Nat.le_trans (Nat.add_le_add_left hfats _) (Nat.le_add_right _ _),
    h.data.trans h.fits⟩

theorem FatVolume.length_firstFat (h : FatVolume v content t) :
    (firstFat v content t).length =
      (fatSectorCount (slice content 0 v.sectorSize.toNat) t).toNat * v.sectorSize.toNat := by
  obtain ⟨hfat, hdata⟩ := h.firstFat_fits
  exact length_slice (by rw [h.length_content]; exact hfat.trans hdata)

/-- The scan from the end of sector `m` of the FAT down, when nothing is set behind: it stops at
    the word with the highest bit, or at the start. -/
theorem scanFat_spec (h : FatVolume v content t) :
    ∀ (m fuel : Nat) (readOffset : UInt64),
      m ≤ (fatSectorCount (slice content 0 v.sectorSize.toNat) t).toNat → m < fuel →
      readOffset.toNat + v.sectorSize.toNat =
        (reservedSectorCount (slice content 0 v.sectorSize.toNat)).toNat * v.sectorSize.toNat +
          m * v.sectorSize.toNat →
      leNat (firstFat v content t) < 2 ^ (8 * (m * v.sectorSize.toNat)) →
      ∃ size, scanFat v (slice content 0 v.sectorSize.toNat) t fuel readOffset =
          some (.ok size) ∧
        (leNat (firstFat v content t) = 0 ∧ size = 0 ∨
          ∃ k, 2 ^ (32 * k) ≤ leNat (firstFat v content t) ∧
            leNat (firstFat v content t) < 2 ^ (32 * (k + 1)) ∧ 4 * k < 2 ^ 44 ∧
            size = sizeBehind v.size
              (dataAreaOffset (slice content 0 v.sectorSize.toNat) v.sectorSize t)
              (clusterSize (slice content 0 v.sectorSize.toNat) v.sectorSize)
              (clusterNumber t (UInt64.ofNat (4 * k)))) := by
  obtain ⟨hlo, hhi, hmod⟩ := sectorSizeValid_toNat h.sectorSize
  obtain ⟨hfatIn, hdataIn⟩ := h.firstFat_fits
  have hstart := toNat_fatStartOffset (b := slice content 0 v.sectorSize.toNat) h.sectorSize
  have hfatle := (toNat_fatSize (b := slice content 0 v.sectorSize.toNat) h.sectorSize t).2
  have hvlt := v.size.toNat_lt
  -- from here on the products are only named
  generalize hR : (reservedSectorCount (slice content 0 v.sectorSize.toNat)).toNat *
    v.sectorSize.toNat = R at *
  have hRge : v.sectorSize.toNat ≤ R := by
    have hone := Nat.mul_le_mul_right v.sectorSize.toNat h.reserved
    omega
  have hRmod : R % v.sectorSize.toNat = 0 := by
    rw [← hR]
    exact Nat.mul_mod_left _ _
  intro m
  induction m with
  | zero =>
    intro fuel readOffset _ hfuel hoff hn
    obtain ⟨f, rfl⟩ := Nat.exists_eq_succ_of_ne_zero (Nat.ne_of_gt hfuel)
    have hlt : readOffset < fatStartOffset (slice content 0 v.sectorSize.toNat) v.sectorSize := by
      rw [UInt64.lt_iff_toNat_lt, hstart]
      omega
    refine ⟨0, ?_, Or.inl ⟨?_, rfl⟩⟩
    · rw [scanFat, if_pos hlt]
    · rw [Nat.zero_mul] at hn
      exact Nat.lt_one_iff.mp hn
  | succ m ih =>
    intro fuel readOffset hm hfuel hoff hn
    obtain ⟨f, rfl⟩ := Nat.exists_eq_succ_of_ne_zero (Nat.ne_of_gt (Nat.lt_of_le_of_lt
      (Nat.zero_le _) hfuel))
    rw [Nat.succ_mul] at hoff
    have hoff' : readOffset.toNat = R + m * v.sectorSize.toNat := by omega
    have hge : ¬ readOffset < fatStartOffset (slice content 0 v.sectorSize.toNat) v.sectorSize := by
      rw [UInt64.lt_iff_toNat_lt, hstart]
      omega
    have hmle := Nat.mul_le_mul_right v.sectorSize.toNat hm
    rw [Nat.succ_mul] at hmle
    have hread : v.readSectors readOffset =
        .ok (slice content readOffset.toNat v.sectorSize.toNat) := by
      apply h.reads
      · rw [hoff', Nat.add_mul_mod_self_right, hRmod]
      · rw [h.length_content]
        omega
    have hsector : slice content readOffset.toNat v.sectorSize.toNat =
        slice (firstFat v content t) (m * v.sectorSize.toNat) v.sectorSize.toNat := by
      rw [firstFat, slice_slice (by omega), hR, hoff']
    -- the words of the sector are words of the FAT
    have hfour : v.sectorSize.toNat = 4 * (v.sectorSize.toNat / 4) := by omega
    have hbase : m * v.sectorSize.toNat = 4 * (m * (v.sectorSize.toNat / 4)) := by
      conv_lhs => rw [hfour]
      ring
    have hwords : ∀ j < v.sectorSize.toNat / 4,
        leNat (slice (slice content readOffset.toNat v.sectorSize.toNat) (4 * j) 4) =
          field 32 (m * (v.sectorSize.toNat / 4) + j) (leNat (firstFat v content t)) := by
      intro j hj
      rw [hsector, slice_slice (by omega), hbase, ← Nat.mul_add, leNat_slice]
    have hn' : leNat (firstFat v content t) <
        2 ^ (32 * (m * (v.sectorSize.toNat / 4) + v.sectorSize.toNat / 4)) := by
      have hexp : 32 * (m * (v.sectorSize.toNat / 4) + v.sectorSize.toNat / 4) =
          8 * ((m + 1) * v.sectorSize.toNat) := by
        rw [Nat.succ_mul m, hbase]
        omega
      rw [hexp]
      exact hn
    rcases lastWord_spec hwords hn' with ⟨j, hj, hfound, hlow, hhigh⟩ | ⟨hnone, hlt⟩
    · have hk : 4 * (m * (v.sectorSize.toNat / 4) + j) < 2 ^ 44 := by
        rw [Nat.mul_add, ← hbase]
        omega
      have hoffset : readOffset - fatStartOffset (slice content 0 v.sectorSize.toNat) v.sectorSize +
          UInt64.ofNat (4 * j) = UInt64.ofNat (4 * (m * (v.sectorSize.toNat / 4) + j)) := by
        apply UInt64.toNat_inj.mp
        rw [UInt64.toNat_add, UInt64.toNat_sub_of_le _ _ (UInt64.not_lt.mp hge), hstart,
          UInt64.toNat_ofNat', UInt64.toNat_ofNat', Nat.mul_add, ← hbase, hoff']
        omega
      refine ⟨_, ?_, Or.inr ⟨_, hlow, hhigh, hk, rfl⟩⟩
      rw [scanFat, if_neg hge, hread]
      simp only [hfound, hoffset]
    · have hle : v.sectorSize.toUInt64 ≤ readOffset := by
        rw [UInt64.le_iff_toNat_le, UInt32.toNat_toUInt64]
        omega
      have hnext : (readOffset - v.sectorSize.toUInt64).toNat + v.sectorSize.toNat =
          R + m * v.sectorSize.toNat := by
        rw [UInt64.toNat_sub_of_le _ _ hle, UInt32.toNat_toUInt64]
        omega
      have hexp : 32 * (m * (v.sectorSize.toNat / 4)) = 8 * (m * v.sectorSize.toNat) := by
        rw [hbase]
        omega
      rw [hexp] at hlt
      obtain ⟨size, hscan, hsize⟩ := ih f (readOffset - v.sectorSize.toUInt64)
        (Nat.le_of_succ_le hm) (Nat.lt_of_succ_lt_succ hfuel) hnext hlt
      refine ⟨size, ?_, hsize⟩
      rw [scanFat, if_neg hge, hread]
      simp only [hnone]
      exact hscan

end

/-! ## The room offered -/

/-- The cluster that the last word is taken for, in numbers. -/
def clusterOfWord (t : FatType) (k : Nat) : Nat :=
  match t with
  | .fat12 => 32 * k / 12
  | .fat16 => 2 * k
  | .fat32 => k

theorem toNat_clusterNumber (t : FatType) {k : Nat} (hk : 4 * k < 2 ^ 44) :
    (clusterNumber t (UInt64.ofNat (4 * k))).toNat = clusterOfWord t k := by
  have hoff : (UInt64.ofNat (4 * k)).toNat = 4 * k := by
    rw [UInt64.toNat_ofNat', Nat.mod_eq_of_lt (by omega)]
  cases t with
  | fat12 =>
    have height : (8 : UInt64).toNat = 8 := rfl
    have htwelve : (12 : UInt64).toNat = 12 := rfl
    rw [clusterNumber, UInt64.toNat_div, UInt64.toNat_mul, hoff, height, htwelve, clusterOfWord]
    omega
  | fat16 =>
    have htwo : (2 : UInt64).toNat = 2 := rfl
    rw [clusterNumber, UInt64.toNat_div, hoff, htwo, clusterOfWord]
    omega
  | fat32 =>
    have hfour : (4 : UInt64).toNat = 4 := rfl
    rw [clusterNumber, UInt64.toNat_div, hoff, hfour, clusterOfWord]
    omega

theorem clusterOfWord_lt (t : FatType) {k : Nat} (hk : 4 * k < 2 ^ 44) :
    clusterOfWord t k < 2 ^ 44 := by
  cases t <;> simp only [clusterOfWord] <;> omega

/-- One cluster is taken off where there is one, and the clusters up to the number given. -/
theorem toNat_sizeBehind {size start number : UInt64} {cluster : UInt32}
    (hstart : start ≤ size) (hcluster : cluster.toNat < 2 ^ 20) (hnumber : number.toNat < 2 ^ 44) :
    (sizeBehind size start cluster number).toNat =
      (if cluster.toNat ≤ size.toNat - start.toNat then
        size.toNat - start.toNat - cluster.toNat else size.toNat - start.toNat) -
      number.toNat * cluster.toNat := by
  have hmax : (size - start).toNat = size.toNat - start.toNat :=
    UInt64.toNat_sub_of_le _ _ hstart
  have hprod : number.toNat * cluster.toNat < 2 ^ 64 := by
    have hmul : number.toNat * cluster.toNat ≤ 2 ^ 44 * 2 ^ 20 :=
      Nat.mul_le_mul (Nat.le_of_lt hnumber) (Nat.le_of_lt hcluster)
    have hlt : number.toNat * cluster.toNat < 2 ^ 44 * 2 ^ 20 :=
      Nat.mul_lt_mul'' hnumber hcluster
    exact hlt
  have hoffset : (number * cluster.toUInt64).toNat = number.toNat * cluster.toNat := by
    rw [UInt64.toNat_mul, UInt32.toNat_toUInt64, Nat.mod_eq_of_lt hprod]
  have hbehind : ∀ room : UInt64,
      (if room < number * cluster.toUInt64 then 0 else room - number * cluster.toUInt64).toNat =
        room.toNat - number.toNat * cluster.toNat := by
    intro room
    split
    · rename_i hlt
      rw [UInt64.lt_iff_toNat_lt, hoffset] at hlt
      exact (Nat.sub_eq_zero_of_le (Nat.le_of_lt hlt)).symm
    · rename_i hge
      rw [UInt64.toNat_sub_of_le _ _ (UInt64.not_lt.mp hge), hoffset]
  have hiff : cluster.toUInt64 ≤ size - start ↔ cluster.toNat ≤ size.toNat - start.toNat := by
    rw [UInt64.le_iff_toNat_le, UInt32.toNat_toUInt64, hmax]
  unfold sizeBehind
  dsimp only
  by_cases hle : cluster.toUInt64 ≤ size - start
  · rw [if_pos hle, if_pos (hiff.mp hle)]
    refine (hbehind _).trans ?_
    rw [UInt64.toNat_sub_of_le _ _ hle, UInt32.toNat_toUInt64, hmax]
  · rw [if_neg hle, if_neg (fun h => hle (hiff.mpr h))]
    refine (hbehind _).trans ?_
    rw [hmax]

section

variable {v : OuterVolume} {content : Bytes} {t : FatType}

/-- The size offered, in terms of the word of the FAT that the highest bit lies in: what is left
    of the data area behind the cluster taken for it, less one cluster. -/
def Offered (v : OuterVolume) (content : Bytes) (t : FatType) (size : UInt64) : Prop :=
  leNat (firstFat v content t) = 0 ∧ size = 0 ∨
    ∃ k, 2 ^ (32 * k) ≤ leNat (firstFat v content t) ∧
      leNat (firstFat v content t) < 2 ^ (32 * (k + 1)) ∧
      size.toNat =
        (if clusterBytes (slice content 0 v.sectorSize.toNat) v.sectorSize ≤
            v.size.toNat - dataStart (slice content 0 v.sectorSize.toNat) v.sectorSize t then
          v.size.toNat - dataStart (slice content 0 v.sectorSize.toNat) v.sectorSize t -
            clusterBytes (slice content 0 v.sectorSize.toNat) v.sectorSize
        else v.size.toNat - dataStart (slice content 0 v.sectorSize.toNat) v.sectorSize t) -
        clusterOfWord t k * clusterBytes (slice content 0 v.sectorSize.toNat) v.sectorSize

/-- **The function ends**, after as many turns as the FAT has sectors and one more, and what it
    returns comes from the word of the FAT with the highest bit. -/
theorem getMaxHiddenVolumeSize_returns (h : FatVolume v content t) {fuel : Nat}
    (hfuel : (fatSectorCount (slice content 0 v.sectorSize.toNat) t).toNat < fuel) :
    ∃ size, getMaxHiddenVolumeSize fuel v = some (.ok size) ∧ Offered v content t size := by
  obtain ⟨hlo, hhi, hmod⟩ := sectorSizeValid_toNat h.sectorSize
  obtain ⟨hfatIn, hdataIn⟩ := h.firstFat_fits
  obtain ⟨hsize, hsizele⟩ := toNat_fatSize (b := slice content 0 v.sectorSize.toNat) h.sectorSize t
  have hstart := toNat_fatStartOffset (b := slice content 0 v.sectorSize.toNat) h.sectorSize
  have hdata := toNat_dataAreaOffset (b := slice content 0 v.sectorSize.toNat) h.sectorSize t
  have hcluster := toNat_clusterSize (b := slice content 0 v.sectorSize.toNat) h.sectorSize
  have hclusterlt := clusterBytes_lt (b := slice content 0 v.sectorSize.toNat) h.sectorSize
  have hreserved := Nat.mul_le_mul_right v.sectorSize.toNat h.reserved
  have hvlt := v.size.toNat_lt
  have hboot : v.readSectors 0 = .ok (slice content 0 v.sectorSize.toNat) := by
    apply h.reads
    · exact Nat.zero_mod _
    · rw [h.length_content]
      show 0 + v.sectorSize.toNat ≤ v.size.toNat
      omega
  have hsum : (fatStartOffset (slice content 0 v.sectorSize.toNat) v.sectorSize +
      fatSize (slice content 0 v.sectorSize.toNat) v.sectorSize t).toNat =
        (reservedSectorCount (slice content 0 v.sectorSize.toNat)).toNat * v.sectorSize.toNat +
        (fatSectorCount (slice content 0 v.sectorSize.toNat) t).toNat * v.sectorSize.toNat := by
    rw [UInt64.toNat_add, hstart, hsize]
    exact Nat.mod_eq_of_lt (by omega)
  have hle : v.sectorSize.toUInt64 ≤
      fatStartOffset (slice content 0 v.sectorSize.toNat) v.sectorSize +
        fatSize (slice content 0 v.sectorSize.toNat) v.sectorSize t := by
    rw [UInt64.le_iff_toNat_le, hsum, UInt32.toNat_toUInt64]
    omega
  have hbits : leNat (firstFat v content t) <
      2 ^ (8 * ((fatSectorCount (slice content 0 v.sectorSize.toNat) t).toNat *
        v.sectorSize.toNat)) := by
    have hlt := leNat_lt (firstFat v content t)
    rw [h.length_firstFat] at hlt
    rw [pow_mul]
    exact hlt
  obtain ⟨size, hscan, hsizeBehind⟩ := scanFat_spec h _ fuel
    (fatStartOffset (slice content 0 v.sectorSize.toNat) v.sectorSize +
      fatSize (slice content 0 v.sectorSize.toNat) v.sectorSize t - v.sectorSize.toUInt64)
    (Nat.le_refl _) hfuel
    (by rw [UInt64.toNat_sub_of_le _ _ hle, hsum, UInt32.toNat_toUInt64]; omega) hbits
  refine ⟨size, ?_, ?_⟩
  · rw [getMaxHiddenVolumeSize, hboot]
    simp only [h.label]
    exact hscan
  · rcases hsizeBehind with hzero | ⟨k, hlow, hhigh, hk, rfl⟩
    · exact Or.inl hzero
    · refine Or.inr ⟨k, hlow, hhigh, ?_⟩
      have hnumber := toNat_clusterNumber t hk
      rw [toNat_sizeBehind, hnumber, hcluster, hdata]
      · rw [UInt64.le_iff_toNat_le, hdata]
        exact hdataIn
      · rw [hcluster]
        exact hclusterlt
      · rw [hnumber]
        exact clusterOfWord_lt t hk

/-- A used cluster is in front of the room, or the second behind the one the last word is taken
    for. -/
theorem le_of_fatEntry_ne_zero {fat : Bytes} {e k : Nat} (hhigh : leNat fat < 2 ^ (32 * (k + 1)))
    (hlow : 2 ^ (32 * k) ≤ leNat fat) (he : fatEntry t fat e ≠ 0) :
    e ≤ clusterOfWord t k + 2 ∨
      t = .fat12 ∧ e = clusterOfWord t k + 3 ∧ e % 8 = 5 ∧ leNat fat < 2 ^ (12 * e + 4) := by
  have hpow := (two_pow_le_of_field_ne_zero he).trans_lt hhigh
  have hlt : t.bits * e < 32 * (k + 1) := (Nat.pow_lt_pow_iff_right (by decide)).mp hpow
  cases t with
  | fat12 =>
    simp only [FatType.bits, clusterOfWord] at hlt ⊢
    by_cases hle : e ≤ 32 * k / 12 + 2
    · exact Or.inl hle
    · have hexp : 12 * e + 4 = 32 * (k + 1) := by omega
      refine Or.inr ⟨trivial, by omega, by omega, ?_⟩
      rw [hexp]
      exact hhigh
  | fat16 =>
    simp only [FatType.bits, clusterOfWord] at hlt ⊢
    exact Or.inl (by omega)
  | fat32 =>
    simp only [FatType.bits, clusterOfWord] at hlt ⊢
    exact Or.inl (by omega)

/-- The highest bit lies in one word only. -/
theorem word_unique {n k k' : Nat} (hlow : 2 ^ (32 * k) ≤ n) (hhigh : n < 2 ^ (32 * (k + 1)))
    (hlow' : 2 ^ (32 * k') ≤ n) (hhigh' : n < 2 ^ (32 * (k' + 1))) : k = k' := by
  have h := (Nat.pow_lt_pow_iff_right (by decide)).mp (hlow.trans_lt hhigh')
  have h' := (Nat.pow_lt_pow_iff_right (by decide)).mp (hlow'.trans_lt hhigh)
  omega

theorem Offered.unique {size size' : UInt64} (h : Offered v content t size)
    (h' : Offered v content t size') : size = size' := by
  rcases h with ⟨hzero, rfl⟩ | ⟨k, hlow, hhigh, hsize⟩
  · rcases h' with ⟨-, rfl⟩ | ⟨k', hlow', -, -⟩
    · rfl
    · exact absurd (hzero ▸ hlow') (Nat.not_le.mpr (Nat.two_pow_pos _))
  · rcases h' with ⟨hzero, -⟩ | ⟨k', hlow', hhigh', hsize'⟩
    · exact absurd (hzero ▸ hlow) (Nat.not_le.mpr (Nat.two_pow_pos _))
    · have hk := word_unique hlow hhigh hlow' hhigh'
      subst hk
      exact UInt64.toNat_inj.mp (hsize.trans hsize'.symm)

/-- A cluster ends inside the volume. -/
theorem FatVolume.cluster_fits (h : FatVolume v content t) {e : Nat}
    (he : IsCluster (slice content 0 v.sectorSize.toNat) v.sectorSize t e) :
    (e - 1) * clusterBytes (slice content 0 v.sectorSize.toNat) v.sectorSize ≤
      v.size.toNat - dataStart (slice content 0 v.sectorSize.toNat) v.sectorSize t := by
  obtain ⟨-, hlt⟩ := he
  have hcount : e - 1 ≤ clusterCount (slice content 0 v.sectorSize.toNat) v.sectorSize t := by omega
  have hmul := (Nat.mul_le_mul_right
    (clusterBytes (slice content 0 v.sectorSize.toNat) v.sectorSize) hcount).trans
    (Nat.div_mul_le_self _ _)
  exact hmul.trans (Nat.sub_le_sub_right h.fits _)

theorem FatVolume.clusterBytes_pos (h : FatVolume v content t) :
    0 < clusterBytes (slice content 0 v.sectorSize.toNat) v.sectorSize := by
  obtain ⟨hlo, -, -⟩ := sectorSizeValid_toNat h.sectorSize
  exact Nat.mul_pos (Nat.pos_of_ne_zero h.sectorsPerCluster) (by omega)

/-- The room is free of a cluster unless its number is the third behind, or a later one. -/
theorem clusterEnd_add_le_iff (h : FatVolume v content t) {size : UInt64} {e k : Nat}
    (he : IsCluster (slice content 0 v.sectorSize.toNat) v.sectorSize t e)
    (hsize : size.toNat =
      (if clusterBytes (slice content 0 v.sectorSize.toNat) v.sectorSize ≤
          v.size.toNat - dataStart (slice content 0 v.sectorSize.toNat) v.sectorSize t then
        v.size.toNat - dataStart (slice content 0 v.sectorSize.toNat) v.sectorSize t -
          clusterBytes (slice content 0 v.sectorSize.toNat) v.sectorSize
      else v.size.toNat - dataStart (slice content 0 v.sectorSize.toNat) v.sectorSize t) -
      clusterOfWord t k * clusterBytes (slice content 0 v.sectorSize.toNat) v.sectorSize) :
    clusterEnd (slice content 0 v.sectorSize.toNat) v.sectorSize t e + size.toNat ≤
      v.size.toNat ↔ e ≤ clusterOfWord t k + 2 := by
  have hfits := h.cluster_fits he
  have hdata := h.firstFat_fits.2
  have hpos := h.clusterBytes_pos
  obtain ⟨hge, -⟩ := he
  rw [clusterEnd]
  generalize clusterBytes (slice content 0 v.sectorSize.toNat) v.sectorSize = c at *
  generalize dataStart (slice content 0 v.sectorSize.toNat) v.sectorSize t = d at *
  generalize clusterOfWord t k = n at *
  have hone : c ≤ (e - 1) * c := Nat.le_mul_of_pos_left c (by omega)
  rw [if_pos (hone.trans hfits)] at hsize
  constructor
  · intro hle
    by_contra hgt
    -- one cluster more than the room leaves
    have hmore : (n + 2) * c ≤ (e - 1) * c := Nat.mul_le_mul_right c (by omega)
    rw [Nat.add_mul, Nat.two_mul] at hmore
    omega
  · intro hle
    have hless : (e - 1) * c ≤ (n + 1) * c := Nat.mul_le_mul_right c (by omega)
    rw [Nat.succ_mul] at hless
    omega

/-- **When the room offered is free**: unless the FAT ends in the low four bits of an entry of 12
    bits that stands across two words. -/
theorem getMaxHiddenVolumeSize_safe_iff (h : FatVolume v content t) :
    ∃ size, (∀ fuel, (fatSectorCount (slice content 0 v.sectorSize.toNat) t).toNat < fuel →
        getMaxHiddenVolumeSize fuel v = some (.ok size)) ∧
      (RoomFree v content t size ↔ ¬ EndsAcrossWords v content t) := by
  obtain ⟨size, -, hoffered⟩ := getMaxHiddenVolumeSize_returns h (Nat.lt_succ_self _)
  refine ⟨size, ?_, ?_⟩
  · intro fuel hfuel
    obtain ⟨size', hreturn, hoffered'⟩ := getMaxHiddenVolumeSize_returns h hfuel
    rw [hoffered.unique hoffered']
    exact hreturn
  rcases hoffered with ⟨hzero, rfl⟩ | ⟨k, hlow, hhigh, hsize⟩
  · refine iff_of_true ?_ ?_
    · intro e _ hused
      exact absurd (show field _ e _ = 0 by rw [hzero, field_zero_right]) hused
    · rintro ⟨-, e, -, -, hused, -⟩
      exact absurd (show field _ e _ = 0 by rw [hzero, field_zero_right]) hused
  constructor
  · rintro hfree ⟨rfl, e, he, hmod, hused, hends⟩
    have hle := (clusterEnd_add_le_iff h he hsize).mp (hfree e he hused)
    -- the highest bit is the one of the entry, in the word that the entry starts in
    have hword : k = (12 * e) / 32 := by
      have hstart : 2 ^ (12 * e) ≤ leNat (firstFat v content .fat12) :=
        two_pow_le_of_field_ne_zero hused
      refine word_unique hlow hhigh ((Nat.pow_le_pow_right (by decide) ?_).trans hstart) ?_
      · omega
      have hexp : 12 * e + 4 = 32 * (12 * e / 32 + 1) := by omega
      rw [← hexp]
      exact hends
    simp only [clusterOfWord] at hle
    omega
  · intro hnot e he hused
    rw [clusterEnd_add_le_iff h he hsize]
    rcases le_of_fatEntry_ne_zero hhigh hlow hused with hle | ⟨ht, -, hmod, hends⟩
    · exact hle
    · exact absurd ⟨ht, e, he, hmod, hused, hends⟩ hnot

end

namespace HiddenVolumeSizeDemo

/-- A boot sector of a FAT12 file system of 512 sectors, with clusters of two sectors, one FAT
    of one sector and 256 root entries. -/
def bootSector : Bytes :=
  [0xEB, 0x3C, 0x90] ++ List.replicate 8 0 ++
    [0, 2, 2, 1, 0, 1, 0, 1, 0, 2, 0xF8, 1, 0] ++ List.replicate 30 0 ++
    [0x46, 0x41, 0x54, 0x31, 0x32] ++ List.replicate 453 0

/-- The volume with a FAT that begins with the bytes given. -/
def content (begin : Bytes) : Bytes :=
  bootSector ++ (begin ++ List.replicate (512 - begin.length) 0 ++ List.replicate 261120 0)

def volume (begin : Bytes) : OuterVolume where
  sectorSize := 512
  size := 262144
  readSectors offset :=
    if offset.toNat % 512 = 0 ∧ offset.toNat + 512 ≤ 262144 then
      .ok (slice (content begin) offset.toNat 512)
    else .error .missingVolumeData

theorem bootSector_facts :
    bootSector.length = 512 ∧ fatTypeOf bootSector = some .fat12 ∧
    leNat (slice bootSector 11 2) = 512 ∧ sectorsPerCluster bootSector ≠ 0 ∧
    (reservedSectorCount bootSector).toNat = 1 ∧ (fatCount bootSector).toNat = 1 ∧
    (rootEntryCount bootSector).toNat = 256 ∧ totalSectors bootSector = 512 ∧
    (fatSectorCount bootSector .fat12).toNat = 1 ∧ dataStart bootSector 512 .fat12 = 9216 ∧
    clusterCount bootSector 512 .fat12 = 247 := by
  decide +kernel

section

variable {begin : Bytes} (hbegin : begin.length ≤ 512)

include hbegin

theorem slice_content : slice (content begin) 0 512 = bootSector := by
  have hlen := bootSector_facts.1
  rw [content, slice_append_left (by omega), slice_all (by omega)]

theorem length_content : (content begin).length = 262144 := by
  have hlen := bootSector_facts.1
  simp only [content, List.length_append, List.length_replicate]
  omega

theorem firstFat_content :
    firstFat (volume begin) (content begin) .fat12 =
      begin ++ List.replicate (512 - begin.length) 0 := by
  obtain ⟨hlen, -, -, -, hreserved, -, -, -, hsectors, -⟩ := bootSector_facts
  have hfat : (begin ++ List.replicate (512 - begin.length) (0 : UInt8)).length = 512 := by
    rw [List.length_append, List.length_replicate]
    omega
  rw [firstFat, show (volume begin).sectorSize.toNat = 512 from rfl, slice_content hbegin,
    hreserved, hsectors, content]
  exact slice_of_eq_append rfl hlen.symm hfat.symm

theorem fatVolume : FatVolume (volume begin) (content begin) .fat12 := by
  obtain ⟨hlen, hlabel, hbytes, hspc, hreserved, hfats, hroot, htotal, hsectors, hdata,
    hclusters⟩ := bootSector_facts
  have hboot : slice (content begin) 0 (volume begin).sectorSize.toNat = bootSector :=
    slice_content hbegin
  have hss : (volume begin).sectorSize = 512 := rfl
  have hssNat : (512 : UInt32).toNat = 512 := rfl
  constructor
  · rw [hss]
    decide
  · rw [length_content hbegin]
    rfl
  · intro offset hmod hin
    rw [length_content hbegin] at hin
    exact if_pos ⟨hmod, hin⟩
  · rw [hboot, hlabel]
  · rw [hboot, hbytes]
    rfl
  · rw [hboot]
    exact hspc
  · rw [hboot, hreserved]
  · rw [hboot, hfats]
  · rw [hboot, hroot, hss, hssNat]
  · rw [hboot, htotal, hss, hssNat]
    exact show 512 * 512 ≤ 262144 by decide
  · rw [hboot, htotal, hss, hdata, hssNat]
    decide
  · rw [hboot, hss, hclusters, hsectors, hssNat]
    decide

end

/-- One file of one cluster, the first. -/
def oneCluster : Bytes := [0xF8, 0xFF, 0xFF, 0xFF, 0x0F]

/-- A file that goes on from cluster 5 to cluster 2. -/
def fiveToTwo : Bytes := [0xF8, 0xFF, 0xFF, 0xFF, 0x0F, 0, 0, 0x20]

theorem getMaxHiddenVolumeSize_safe_demo :
    ∃ size, getMaxHiddenVolumeSize 2 (volume oneCluster) = some (.ok size) ∧
      RoomFree (volume oneCluster) (content oneCluster) .fat12 size := by
  obtain ⟨size, hreturns, hsafe⟩ :=
    getMaxHiddenVolumeSize_safe_iff (@fatVolume oneCluster (by decide))
  refine ⟨size, hreturns 2 ?_, hsafe.mpr ?_⟩
  · rw [show slice (content oneCluster) 0 (volume oneCluster).sectorSize.toNat = bootSector from
      slice_content (by decide), bootSector_facts.2.2.2.2.2.2.2.2.1]
    decide
  · rintro ⟨-, e, -, hmod, hused, -⟩
    have hlow := two_pow_le_of_field_ne_zero hused
    have hvalue : leNat (oneCluster ++ List.replicate (512 - oneCluster.length) 0) < 2 ^ 60 := by
      decide +kernel
    rw [firstFat_content (by decide)] at hlow
    have hexp : 60 ≤ 12 * e := by omega
    exact absurd (hlow.trans_lt hvalue)
      (Nat.not_lt.mpr (Nat.pow_le_pow_right (by decide) hexp))

/-- **The room offered behind such a file takes cluster 5.** -/
theorem room_takes_used_cluster :
    ∃ size, FatVolume (volume fiveToTwo) (content fiveToTwo) .fat12 ∧
      getMaxHiddenVolumeSize 2 (volume fiveToTwo) = some (.ok size) ∧
      ¬ RoomFree (volume fiveToTwo) (content fiveToTwo) .fat12 size := by
  have hfat := @fatVolume fiveToTwo (by decide)
  have hboot : slice (content fiveToTwo) 0 (volume fiveToTwo).sectorSize.toNat = bootSector :=
    slice_content (by decide)
  have hvalue : 2 ^ (32 * 1) ≤ leNat (fiveToTwo ++ List.replicate (512 - fiveToTwo.length) 0) ∧
      leNat (fiveToTwo ++ List.replicate (512 - fiveToTwo.length) 0) < 2 ^ (32 * (1 + 1)) ∧
      fatEntry .fat12 (fiveToTwo ++ List.replicate (512 - fiveToTwo.length) 0) 5 = 2 := by
    decide +kernel
  rw [← @firstFat_content fiveToTwo (by decide)] at hvalue
  obtain ⟨hlow, hhigh, hentry⟩ := hvalue
  obtain ⟨size, hreturns, hoffered⟩ := getMaxHiddenVolumeSize_returns hfat
    (show _ < 2 by rw [hboot, bootSector_facts.2.2.2.2.2.2.2.2.1]; decide)
  refine ⟨size, hfat, hreturns, ?_⟩
  intro hfree
  rcases hoffered with ⟨hzero, -⟩ | ⟨k, hlow', hhigh', hsize⟩
  · exact absurd (hzero ▸ hlow) (by decide)
  have hk := word_unique hlow' hhigh' hlow hhigh
  subst hk
  have he : IsCluster (slice (content fiveToTwo) 0 (volume fiveToTwo).sectorSize.toNat)
      (volume fiveToTwo).sectorSize .fat12 5 := by
    rw [hboot]
    show 2 ≤ 5 ∧ 5 < clusterCount bootSector 512 .fat12 + 2
    rw [bootSector_facts.2.2.2.2.2.2.2.2.2.2]
    decide
  have hle := (clusterEnd_add_le_iff hfat he hsize).mp (hfree 5 he (by rw [hentry]; decide))
  exact absurd hle (by decide)

end HiddenVolumeSizeDemo

end VeraCrypt
