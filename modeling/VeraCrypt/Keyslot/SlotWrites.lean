import VeraCrypt.Keyslot.StoreSpec

/-!
# Writes to one slot

A write to a slot may land in part. Whatever lands, the medium keeps its size and its faults,
the other slots keep their bytes, and what becomes of the slot depends on the slot alone.
-/

set_option autoImplicit false

namespace VeraCrypt

open Lib

/-- Two states of one medium. -/
structure SameMedium (area area' : KeyslotArea) : Prop where
  size_eq : area'.size = area.size
  reads : area'.readFails = area.readFails
  faults : area'.writeFault = area.writeFault

theorem SameMedium.refl (area : KeyslotArea) : SameMedium area area := ⟨rfl, rfl, rfl⟩

theorem SameMedium.trans {a b c : KeyslotArea} (hab : SameMedium a b) (hbc : SameMedium b c) :
    SameMedium a c :=
  ⟨hbc.size_eq.trans hab.size_eq, hbc.reads.trans hab.reads, hbc.faults.trans hab.faults⟩

theorem SameMedium.symm {a b : KeyslotArea} (h : SameMedium a b) : SameMedium b a :=
  ⟨h.size_eq.symm, h.reads.symm, h.faults.symm⟩

theorem SameMedium.nSlots_eq {area area' : KeyslotArea} (h : SameMedium area area')
    (cfg : KeyslotStoreCfg) : nSlots cfg area' = nSlots cfg area :=
  nSlots_congr h.size_eq

/-- A slot with the same bytes reads alike. -/
theorem SameMedium.read_slot {area area' : KeyslotArea} (h : SameMedium area area') {i : Nat}
    (hslot : slotAt area' i = slotAt area i) :
    area'.read (i * keyslotTableStride) keyslotTableStride =
      area.read (i * keyslotTableStride) keyslotTableStride := by
  unfold KeyslotArea.read
  rw [h.size_eq, h.reads]
  by_cases hok : i * keyslotTableStride + keyslotTableStride ≤ area.size ∧
      area.readFails (i * keyslotTableStride) = false
  · rw [if_pos hok, if_pos hok]
    exact congrArg some hslot
  · rw [if_neg hok, if_neg hok]

namespace KeyslotArea

theorem sameMedium_write (area : KeyslotArea) (off : Nat) (buf : Bytes) :
    SameMedium area (area.write off buf).2 := by
  unfold write
  by_cases hfit : off + buf.length ≤ area.size
  · rw [if_pos hfit]
    cases area.writeFault off with
    | none => exact ⟨size_put hfit, rfl, rfl⟩
    | some k =>
      refine ⟨size_put ?_, rfl, rfl⟩
      rw [List.length_take]
      omega
  · rw [if_neg hfit]
    exact SameMedium.refl area

end KeyslotArea

section
variable {cfg : KeyslotStoreCfg} {area : KeyslotArea}

/-- A write to a slot changes no other, however much of it lands. -/
theorem slotAt_write_ne {i j : Nat} {rec : Bytes} (hi : i < nSlots cfg area)
    (hrec : rec.length ≤ keyslotTableStride) (hne : i ≠ j) :
    slotAt (area.write (i * keyslotTableStride) rec).2 j = slotAt area j := by
  unfold KeyslotArea.write
  by_cases hfit : i * keyslotTableStride + rec.length ≤ area.size
  · rw [if_pos hfit]
    cases area.writeFault (i * keyslotTableStride) with
    | none => exact slotAt_put_other hi hrec hne
    | some k =>
      refine slotAt_put_other hi ?_ hne
      rw [List.length_take]
      omega
  · rw [if_neg hfit]

/-- A slot after a write that lands in it, in terms of the slot before. -/
theorem slotAt_put_part {i : Nat} {buf : Bytes} (hi : i < nSlots cfg area)
    (hbuf : buf.length ≤ keyslotTableStride) :
    slotAt (area.put (i * keyslotTableStride) buf) i = patch (slotAt area i) 0 buf := by
  have hsize := slot_le_size hi
  unfold KeyslotArea.size at hsize
  apply List.ext_getElem?
  intro k
  unfold slotAt KeyslotArea.put
  simp only
  rw [getElem?_slice, getElem?_patch (by omega), getElem?_patch (Nat.zero_le _), getElem?_slice]
  by_cases hk : k < keyslotTableStride
  · rw [if_pos hk, if_pos hk]
    by_cases hin : k < buf.length
    · rw [if_pos (by omega), if_pos (by omega)]
      congr 1
      omega
    · rw [if_neg (by omega), if_neg (by omega)]
  · rw [if_neg hk, if_neg hk, if_neg (by omega)]

/-- A write of one buffer does the same to the same slot of two states of a medium. -/
theorem SameMedium.write_congr {area' : KeyslotArea} (h : SameMedium area area') {i : Nat}
    {buf : Bytes} (hi : i < nSlots cfg area) (hbuf : buf.length ≤ keyslotTableStride)
    (hslot : slotAt area' i = slotAt area i) :
    (area'.write (i * keyslotTableStride) buf).1 = (area.write (i * keyslotTableStride) buf).1 ∧
      slotAt (area'.write (i * keyslotTableStride) buf).2 i =
        slotAt (area.write (i * keyslotTableStride) buf).2 i := by
  have hi' : i < nSlots cfg area' := by
    rw [h.nSlots_eq cfg]
    exact hi
  unfold KeyslotArea.write
  rw [h.size_eq, h.faults]
  by_cases hfit : i * keyslotTableStride + buf.length ≤ area.size
  · rw [if_pos hfit, if_pos hfit]
    cases area.writeFault (i * keyslotTableStride) with
    | none =>
      refine ⟨rfl, ?_⟩
      simp only
      rw [slotAt_put_part hi' hbuf, slotAt_put_part hi hbuf, hslot]
    | some k =>
      have htake : (buf.take k).length ≤ keyslotTableStride := by
        rw [List.length_take]
        omega
      refine ⟨rfl, ?_⟩
      simp only
      rw [slotAt_put_part hi' htake, slotAt_put_part hi htake, hslot]
  · rw [if_neg hfit, if_neg hfit]
    exact ⟨rfl, hslot⟩

end

theorem snd_putRecord (area : KeyslotArea) (idx : Int) (rec : Bytes) :
    (putRecord area idx rec).2 = (area.write (slotOff idx) rec).2 := by
  unfold putRecord
  cases area.write (slotOff idx) rec with
  | mk done area' => cases done <;> rfl

end VeraCrypt
