import VeraCrypt.Volume.EncryptionThreadPool
import VeraCrypt.Volume.Protection

/-!
# Sessions on a version 2 volume

An open version 2 volume keeps its data in sectors and, behind them, a slot with the tag of each.
`WriteSectors` stores ciphertext and then tags; `ReadSectors` compares tags and then decrypts.
Here are the sectors and the slots, and where the calls on a range of whole sectors find them.
-/

set_option autoImplicit false

namespace VeraCrypt

open Lib EncryptionThreadPool

namespace Volume

/-! ## Sectors and slots -/

/-- The ciphertext of data sector `i`. -/
def sectorAt (v : Volume) (host : Bytes) (i : Nat) : Bytes :=
  slice host (v.volumeDataOffset.toNat + i * v.sectorSize.toNat) v.sectorSize.toNat

/-- The slot of data sector `i`. -/
def slotAt (v : Volume) (host : Bytes) (i : Nat) : Bytes :=
  slice host (v.v2Mac.tableBaseOffset.toNat + i * v2MacTagLen) v2MacTagLen

/-- The tag of a ciphertext as data sector `i`. -/
def tagOf (P : Primitives) (v : Volume) (i : Nat) (ct : Bytes) : Bytes :=
  v2FormatSectorTag P v.v2Mac.macKey (UInt64.ofNat i) ct

/-- In the slot of the sector stands its tag. -/
def TagValid (P : Primitives) (v : Volume) (host : Bytes) (i : Nat) : Prop :=
  v.slotAt host i = v.tagOf P i (v.sectorAt host i)

/-- The data unit that sector `i` starts with. -/
def sectorUnit (v : Volume) (i : Nat) : UInt64 :=
  (v.volumeDataOffset / v.sectorSize + UInt64.ofNat i) * v.sectorSize / encryptionDataUnitSize

/-- The data of sector `i`. -/
def plainAt (C : Ciphers) (v : Volume) (host : Bytes) (i : Nat) : Bytes :=
  (v.ea.decryptBuffer C (v.sectorAt host i) (v.sectorUnit i)).getD []

/-- An open version 2 volume in a host of `n` bytes: its sectors are whole, its table follows
    them, and both lie in the host. -/
structure V2Geometry (v : Volume) (n : Nat) : Prop where
  active : v.v2Mac.isActive = true
  ignoreTags : v.v2Mac.ignoreTags = false
  notSystem : v.systemEncryption = false
  complete : v.encryptionNotCompleted = false
  mac_sectorSize : v.v2Mac.sectorSize = v.sectorSize
  sectorSize_pos : 0 < v.sectorSize.toNat
  sectorSize_units : v.sectorSize.toNat % 512 = 0
  whole : v.v2Mac.dataSectors.toNat * v.sectorSize.toNat = v.volumeDataSize.toNat
  base_eq : v.v2Mac.tableBaseOffset.toNat = v.volumeDataOffset.toNat + v.volumeDataSize.toNat
  fits : v.v2Mac.tableBaseOffset.toNat + v.v2Mac.dataSectors.toNat * v2MacTagLen ≤ n
  addressable : n ≤ offsetMax

/-- A range of whole sectors inside the data. -/
structure RangeOk (v : Volume) (byteOffset : UInt64) (size : Nat) : Prop where
  offset_aligned : byteOffset.toNat % v.sectorSize.toNat = 0
  size_aligned : size % v.sectorSize.toNat = 0
  inside : byteOffset.toNat + size ≤ v.volumeDataSize.toNat

section
variable {v : Volume} {n size i : Nat} {byteOffset : UInt64} {host host' : Bytes}

/-- The first sector of a range, and how many they are. -/
def rangeFirst (v : Volume) (byteOffset : UInt64) : Nat := byteOffset.toNat / v.sectorSize.toNat
def rangeCount (v : Volume) (size : Nat) : Nat := size / v.sectorSize.toNat

theorem RangeOk.offset_eq (h : v.RangeOk byteOffset size) :
    v.rangeFirst byteOffset * v.sectorSize.toNat = byteOffset.toNat :=
  Nat.div_mul_cancel (Nat.dvd_of_mod_eq_zero h.offset_aligned)

theorem RangeOk.size_eq (h : v.RangeOk byteOffset size) :
    v.rangeCount size * v.sectorSize.toNat = size :=
  Nat.div_mul_cancel (Nat.dvd_of_mod_eq_zero h.size_aligned)

/-- The sectors of a range are sectors of the volume. -/
theorem RangeOk.sectors_le (h : v.RangeOk byteOffset size) (hv : V2Geometry v n) :
    v.rangeFirst byteOffset + v.rangeCount size ≤ v.v2Mac.dataSectors.toNat := by
  have hin := h.inside
  rw [← h.offset_eq, ← h.size_eq, ← hv.whole, ← Nat.add_mul] at hin
  exact Nat.le_of_mul_le_mul_right hin hv.sectorSize_pos

/-- A sector ends in front of the table, and a slot in front of the end. -/
theorem V2Geometry.sector_le (hv : V2Geometry v n) (hi : i < v.v2Mac.dataSectors.toNat) :
    v.volumeDataOffset.toNat + i * v.sectorSize.toNat + v.sectorSize.toNat ≤
        v.v2Mac.tableBaseOffset.toNat ∧
      v.v2Mac.tableBaseOffset.toNat + i * v2MacTagLen + v2MacTagLen ≤ n := by
  have hsector := Nat.mul_le_mul_right v.sectorSize.toNat (Nat.succ_le_of_lt hi)
  have hslot := Nat.mul_le_mul_right v2MacTagLen (Nat.succ_le_of_lt hi)
  rw [Nat.succ_mul] at hsector hslot
  have hwhole := hv.whole
  have hbase := hv.base_eq
  have hfits := hv.fits
  omega

theorem V2Geometry.length_sectorAt (hv : V2Geometry v host.length)
    (hi : i < v.v2Mac.dataSectors.toNat) : (v.sectorAt host i).length = v.sectorSize.toNat := by
  have hle := hv.sector_le hi
  have hfits := hv.fits
  exact length_slice (by omega)

theorem V2Geometry.length_slotAt (hv : V2Geometry v host.length)
    (hi : i < v.v2Mac.dataSectors.toNat) : (v.slotAt host i).length = v2MacTagLen :=
  length_slice (hv.sector_le hi).2

/-- Nothing wraps: the calls start where the sectors do. -/
theorem V2Geometry.hostOffset_eq (hv : V2Geometry v n) (h : v.RangeOk byteOffset size) :
    (v.hostOffset byteOffset).toNat = v.volumeDataOffset.toNat + byteOffset.toNat := by
  have hin := h.inside
  have hbase := hv.base_eq
  have hfits := hv.fits
  have hmax := hv.addressable
  rw [hostOffset, UInt64.toNat_add]
  simp only [offsetMax] at hmax
  exact Nat.mod_eq_of_lt (by omega)

theorem V2Geometry.slotPosition_eq (hv : V2Geometry v n) (hi : i ≤ v.v2Mac.dataSectors.toNat) :
    (v.v2Mac.slotPosition (UInt64.ofNat i)).toNat =
      v.v2Mac.tableBaseOffset.toNat + i * v2MacTagLen := by
  have hfits := hv.fits
  have hmax := hv.addressable
  have hlt := v.v2Mac.dataSectors.toNat_lt
  have hmul := Nat.mul_le_mul_right v2MacTagLen hi
  have h16 : (UInt64.ofNat v2MacTagLen).toNat = v2MacTagLen := rfl
  simp only [offsetMax] at hmax
  rw [V2SectorMacIo.slotPosition, v2FormatSlotOffset, UInt64.toNat_add, UInt64.toNat_mul, h16,
    UInt64.toNat_ofNat', Nat.mod_eq_of_lt (show i < 2 ^ 64 by omega),
    Nat.mod_eq_of_lt (show i * v2MacTagLen < 2 ^ 64 by omega)]
  exact Nat.mod_eq_of_lt (by omega)

end

end Volume

end VeraCrypt
