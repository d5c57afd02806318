import VeraCrypt.Keyslot.StoreSpec
import VeraCrypt.Platform.File
import VeraCrypt.Volume.VolumeLayout

/-!
# Keyslots on a volume file (`Volume/KeyslotVolumeBinding.h`)

The keyslot area of a volume is a window of a file: the slack behind the primary header, a
sidecar file as a whole, or a part of the free space that the caller delimits. The store works
on a `KeyslotArea`; `readCb_eq` and `writeCb_eq` say that what it does there is what the
callbacks do to the file.
-/

set_option autoImplicit false

namespace VeraCrypt

open Lib

/-- `KeyslotKdfCost`. -/
def keyslotKdfCost : UInt32 := 500000

/-- A window of a file. -/
structure KeyslotFileArea where
  base : UInt64
  len : UInt64

/-- Which reads of the file fail, and after how many bytes the system gives up on a write. -/
structure KeyslotFileIo where
  readFails : (position : UInt64) → Bool
  writeFault : (position : UInt64) → Option Nat

namespace KeyslotFileArea

/-- `ReadCb`; `none` is the answer -1. -/
def readCb (a : KeyslotFileArea) (file : Bytes) (io : KeyslotFileIo) (off : UInt64) (n : Nat) :
    Option Bytes :=
  if a.len < off ∨ (a.len - off).toNat < n then none
  else File.readAt file (a.base + off) n (io.readFails (a.base + off))

/-- `WriteCb`: whether it answered 0, and the file afterwards. -/
def writeCb (a : KeyslotFileArea) (file : Bytes) (io : KeyslotFileIo) (off : UInt64)
    (buf : Bytes) : Bool × Bytes :=
  if a.len < off ∨ (a.len - off).toNat < buf.length then (false, file)
  else
    let (file', done) := File.writeAt file (a.base + off) buf (io.writeFault (a.base + off))
    (done && (io.writeFault (a.base + off)).isNone, file')

/-- The window as the area the store works on. -/
def area (a : KeyslotFileArea) (file : Bytes) (io : KeyslotFileIo) : KeyslotArea where
  bytes := slice file a.base.toNat a.len.toNat
  readFails off := io.readFails (a.base + UInt64.ofNat off)
  writeFault off := io.writeFault (a.base + UInt64.ofNat off)

/-- The file with the window as the store left it. -/
def store (a : KeyslotFileArea) (file : Bytes) (area : KeyslotArea) : Bytes :=
  patch file a.base.toNat area.bytes

end KeyslotFileArea

/-- `KeyslotBindHeaderSlack`: [512, 64K). -/
def keyslotBindHeaderSlack : KeyslotFileArea where
  base := 512
  len := 65536 - 512

/-- `KeyslotBindWindow`. -/
def keyslotBindWindow (base len : UInt64) : KeyslotFileArea where
  base := base
  len := len

/-- `KeyslotBindSidecar`. -/
def keyslotBindSidecar (file : Bytes) : KeyslotFileArea :=
  keyslotBindWindow 0 (UInt64.ofNat file.length)

/-- `KeyslotBindDeniable`: [freeStart, freeEnd), clamped below `hiddenReservedStart` (0 = none). -/
def keyslotBindDeniable (freeStart freeEnd hiddenReservedStart : UInt64) :
    Option KeyslotFileArea :=
  let clamped :=
    if hiddenReservedStart ≠ 0 ∧ hiddenReservedStart < freeEnd then hiddenReservedStart
    else freeEnd
  if clamped ≤ freeStart ∨ (clamped - freeStart).toNat < keyslotTableStride then none
  else some (keyslotBindWindow freeStart (clamped - freeStart))

/-- `KeyslotHeaderCfg`. -/
def keyslotHeaderCfg (kdf : KeyslotKdfFn) (vmkLen : Int) : KeyslotStoreCfg where
  backend := .header
  kdf := kdf
  cost := keyslotKdfCost
  vmkLen := vmkLen
  maxSlots := 63
  afStripes := 0
  policy := 0

/-- `KeyslotSidecarCfg`. -/
def keyslotSidecarCfg (kdf : KeyslotKdfFn) (vmkLen : Int) : KeyslotStoreCfg :=
  { keyslotHeaderCfg kdf vmkLen with backend := .sidecar, maxSlots := 0 }

/-- `KeyslotDeniableCfg`. -/
def keyslotDeniableCfg (kdf : KeyslotKdfFn) (vmkLen : Int) : KeyslotStoreCfg :=
  { keyslotHeaderCfg kdf vmkLen with backend := .deniable, maxSlots := 0 }

/-! ## The area and the file -/

namespace KeyslotFileArea

/-- The window lies in the file, and the file is one the system can address. -/
structure Inside (a : KeyslotFileArea) (file : Bytes) : Prop where
  fits : a.base.toNat + a.len.toNat ≤ file.length
  addressable : file.length ≤ offsetMax

variable {a : KeyslotFileArea} {file : Bytes}

theorem Inside.length_bytes (h : a.Inside file) (io : KeyslotFileIo) :
    (a.area file io).bytes.length = a.len.toNat :=
  length_slice h.fits

theorem Inside.size_area (h : a.Inside file) (io : KeyslotFileIo) :
    (a.area file io).size = a.len.toNat :=
  h.length_bytes io

/-- An offset of the window, as a position of the file. -/
theorem Inside.toNat_position (h : a.Inside file) {off : UInt64} (hoff : off ≤ a.len) :
    (a.base + off).toNat = a.base.toNat + off.toNat := by
  have hfits := h.fits
  have hmax := h.addressable
  have hle : off.toNat ≤ a.len.toNat := UInt64.le_iff_toNat_le.mp hoff
  have hlt : a.base.toNat + off.toNat < 2 ^ 64 := by
    simp only [offsetMax] at hmax
    omega
  rw [UInt64.toNat_add, Nat.mod_eq_of_lt hlt]

/-- The bounds the callbacks check are those of the area. -/
theorem bounds_iff {off : UInt64} {n : Nat} :
    (a.len < off ∨ (a.len - off).toNat < n) ↔ ¬ off.toNat + n ≤ a.len.toNat := by
  by_cases hlt : a.len < off
  · have hnat : a.len.toNat < off.toNat := UInt64.lt_iff_toNat_lt.mp hlt
    constructor
    · intro _
      omega
    · intro _
      exact Or.inl hlt
  · have hle : off ≤ a.len := UInt64.not_lt.mp hlt
    have hnat : off.toNat ≤ a.len.toNat := UInt64.le_iff_toNat_le.mp hle
    rw [UInt64.toNat_sub_of_le _ _ hle]
    constructor
    · rintro (h | h)
      · exact absurd h hlt
      · omega
    · intro h
      exact Or.inr (by omega)

/-- **A read of the area is what `ReadCb` reads.** -/
theorem readCb_eq (h : a.Inside file) (io : KeyslotFileIo) (off : UInt64) (n : Nat) :
    a.readCb file io off n = (a.area file io).read off.toNat n := by
  have hmax := h.addressable
  have hfits := h.fits
  unfold readCb KeyslotArea.read
  rw [h.size_area io]
  by_cases hin : off.toNat + n ≤ a.len.toNat
  · have hoff : off ≤ a.len := UInt64.le_iff_toNat_le.mpr (by omega)
    rw [if_neg (by rw [bounds_iff]; exact not_not.mpr hin)]
    have hfail : (a.area file io).readFails off.toNat = io.readFails (a.base + off) := by
      simp only [area, UInt64.ofNat_toNat]
    have hpos : ¬ offsetMax < (a.base + off).toNat := by
      rw [h.toNat_position hoff]
      omega
    rw [hfail]
    unfold File.readAt
    cases hio : io.readFails (a.base + off) with
    | true =>
      rw [if_pos (Or.inl rfl), if_neg (by simp)]
    | false =>
      rw [if_neg (fun hor => hor.elim Bool.false_ne_true hpos), if_pos ⟨hin, rfl⟩,
        h.toNat_position hoff]
      exact congrArg some (slice_slice hin).symm
  · rw [if_pos (bounds_iff.mpr hin), if_neg (fun hread => hin hread.1)]

/-- What a write stores of the window, seen in the file. -/
theorem store_put (h : a.Inside file) (io : KeyslotFileIo) {off : Nat} {buf : Bytes}
    (hin : off + buf.length ≤ a.len.toNat) :
    a.store file ((a.area file io).put off buf) = patch file (a.base.toNat + off) buf := by
  have hfits := h.fits
  have hlen := h.length_bytes io
  have hput : (patch (a.area file io).bytes off buf).length = a.len.toNat := by
    rw [length_patch (by omega), hlen]
  apply List.ext_getElem?
  intro i
  have hright : (patch file (a.base.toNat + off) buf)[i]? =
      if a.base.toNat + off ≤ i ∧ i < a.base.toNat + off + buf.length then
        buf[i - (a.base.toNat + off)]? else file[i]? := getElem?_patch (by omega) i
  unfold store KeyslotArea.put
  simp only
  rw [hright, getElem?_patch (by omega), hput]
  by_cases hwin : a.base.toNat ≤ i ∧ i < a.base.toNat + a.len.toNat
  · rw [if_pos hwin, getElem?_patch (by omega)]
    by_cases hbuf : off ≤ i - a.base.toNat ∧ i - a.base.toNat < off + buf.length
    · rw [if_pos hbuf, if_pos (by omega)]
      congr 1
      omega
    · rw [if_neg hbuf, if_neg (by omega)]
      simp only [area]
      rw [getElem?_slice, if_pos (by omega)]
      congr 1
      omega
  · rw [if_neg hwin, if_neg (by omega)]

theorem store_area (h : a.Inside file) (io : KeyslotFileIo) :
    a.store file (a.area file io) = file :=
  patch_slice_self h.fits

/-- **A write to the area is what `WriteCb` does to the file.** -/
theorem writeCb_eq (h : a.Inside file) (io : KeyslotFileIo) (off : UInt64) (buf : Bytes) :
    a.writeCb file io off buf =
      (((a.area file io).write off.toNat buf).1,
        a.store file ((a.area file io).write off.toNat buf).2) := by
  have hmax := h.addressable
  have hfits := h.fits
  unfold writeCb KeyslotArea.write
  rw [h.size_area io]
  by_cases hin : off.toNat + buf.length ≤ a.len.toNat
  · have hoff : off ≤ a.len := UInt64.le_iff_toNat_le.mpr (by omega)
    have hpos := h.toNat_position hoff
    have hfault : (a.area file io).writeFault off.toNat = io.writeFault (a.base + off) := by
      simp only [area, UInt64.ofNat_toNat]
    rw [if_neg (by rw [bounds_iff]; exact not_not.mpr hin), if_pos hin, hfault]
    have hwrites : ∀ part : Bytes, part.length ≤ buf.length →
        pwrite 0 file (a.base + off).toNat part =
          a.store file ((a.area file io).put off.toNat part) := by
      intro part hpart
      rw [store_put h io (by omega), hpos, pwrite_eq_patch 0 (by omega)]
    cases hio : io.writeFault (a.base + off) with
    | none =>
      have hall : File.stored (a.base + off) buf.length none = buf.length := by
        unfold File.stored
        rw [Option.getD_none, hpos]
        omega
      simp only [File.writeAt, hall, List.take_length, decide_true, Option.isNone_none,
        Bool.and_self]
      rw [hwrites buf (Nat.le_refl _)]
    | some k =>
      have hpart : File.stored (a.base + off) buf.length (some k) = min k buf.length := by
        unfold File.stored
        rw [Option.getD_some, hpos]
        omega
      simp only [File.writeAt, hpart, Option.isNone_some, Bool.and_false]
      have htake : buf.take (min k buf.length) = buf.take k := by
        rw [List.take_eq_take_iff]
        omega
      rw [htake, hwrites (buf.take k) (by rw [List.length_take]; omega)]
  · rw [if_pos (bounds_iff.mpr hin), if_neg hin, store_area h io]

theorem length_store (h : a.Inside file) {area' : KeyslotArea}
    (hsize : area'.size = a.len.toNat) : (a.store file area').length = file.length := by
  have hfits := h.fits
  unfold KeyslotArea.size at hsize
  exact length_patch (by omega)

/-- The window of a stored area is that area. -/
theorem area_store (h : a.Inside file) (io : KeyslotFileIo) {area' : KeyslotArea}
    (hsize : area'.size = a.len.toNat) :
    (a.area (a.store file area') io).bytes = area'.bytes := by
  have hfits := h.fits
  unfold KeyslotArea.size at hsize
  exact slice_patch_self (by omega) hsize.symm

end KeyslotFileArea

/-! ## The windows -/

theorem keyslotBindHeaderSlack_inside {file : Bytes} (h : volumeHeaderSize ≤ file.length)
    (hmax : file.length ≤ offsetMax) : keyslotBindHeaderSlack.Inside file :=
  ⟨h, hmax⟩

theorem keyslotBindSidecar_inside {file : Bytes} (hmax : file.length ≤ offsetMax) :
    (keyslotBindSidecar file).Inside file := by
  refine ⟨?_, hmax⟩
  simp only [keyslotBindSidecar, keyslotBindWindow, UInt64.toNat_zero, Nat.zero_add]
  rw [UInt64.toNat_ofNat']
  exact Nat.mod_le _ _

/-- What a deniable window is: it starts where the free space starts, holds a slot, and ends
    with the free space or at the hidden volume. -/
theorem keyslotBindDeniable_some {freeStart freeEnd hiddenReservedStart : UInt64}
    {a : KeyslotFileArea} (h : keyslotBindDeniable freeStart freeEnd hiddenReservedStart = some a) :
    a.base = freeStart ∧ keyslotTableStride ≤ a.len.toNat ∧
      a.base.toNat + a.len.toNat =
        (if hiddenReservedStart ≠ 0 ∧ hiddenReservedStart < freeEnd then hiddenReservedStart
          else freeEnd).toNat := by
  unfold keyslotBindDeniable at h
  simp only at h
  generalize (if hiddenReservedStart ≠ 0 ∧ hiddenReservedStart < freeEnd then hiddenReservedStart
    else freeEnd) = clamped at h ⊢
  by_cases hnone : clamped ≤ freeStart ∨ (clamped - freeStart).toNat < keyslotTableStride
  · rw [if_pos hnone] at h
    cases h
  · rw [if_neg hnone] at h
    cases h
    rw [not_or] at hnone
    have hle : freeStart ≤ clamped := UInt64.le_of_lt (UInt64.not_le.mp hnone.1)
    refine ⟨rfl, Nat.not_lt.mp hnone.2, ?_⟩
    have hnat : freeStart.toNat ≤ clamped.toNat := UInt64.le_iff_toNat_le.mp hle
    simp only [keyslotBindWindow]
    rw [UInt64.toNat_sub_of_le _ _ hle]
    omega

theorem clamped_le (freeEnd hiddenReservedStart : UInt64) :
    (if hiddenReservedStart ≠ 0 ∧ hiddenReservedStart < freeEnd then hiddenReservedStart
      else freeEnd) ≤ freeEnd := by
  by_cases h : hiddenReservedStart ≠ 0 ∧ hiddenReservedStart < freeEnd
  · rw [if_pos h]
    exact UInt64.le_of_lt h.2
  · rw [if_neg h]
    exact UInt64.le_refl freeEnd

theorem keyslotBindDeniable_inside {freeStart freeEnd hiddenReservedStart : UInt64}
    {a : KeyslotFileArea} {file : Bytes} (hmax : file.length ≤ offsetMax)
    (hend : freeEnd.toNat ≤ file.length)
    (h : keyslotBindDeniable freeStart freeEnd hiddenReservedStart = some a) : a.Inside file := by
  obtain ⟨-, -, hsum⟩ := keyslotBindDeniable_some h
  have hle := UInt64.le_iff_toNat_le.mp (clamped_le freeEnd hiddenReservedStart)
  exact ⟨by omega, hmax⟩

end VeraCrypt
