import VeraCrypt.Volume.Open
import VeraCrypt.Volume.Protection
import VeraCrypt.Volume.XtsBlocks

/-!
# Where `WriteSectors` writes

A write is to stay inside `[VolumeDataOffset, VolumeDataOffset + VolumeDataSize)`, and on a
version 2 volume in the slots of its sectors besides. The test is one sum, `byteOffset + length`
against the size of the data, and the place of the ciphertext another, `VolumeDataOffset +
byteOffset`; both are taken modulo `2^64`, and the second is not tested at all.

Where the second sum does not wrap, the write is confined, whatever becomes of the first: an offset
that makes the first one wrap is far beyond what the system can address, and nothing is stored.
Where it does wrap, the ciphertext lands in front of the data, where the headers are
(`writeSectors_confined_iff`).
-/

set_option autoImplicit false

namespace VeraCrypt

open Lib

namespace Volume

/-- What opening a volume settles of its geometry: a valid sector size, and a table, where there is
    one, right behind the data at an offset the system can address. -/
structure AsOpened (v : Volume) : Prop where
  sectorSize_pos : 0 < v.sectorSize.toNat
  sectorSize_units : v.sectorSize.toNat % 512 = 0
  table : v.v2Mac.isActive = true →
    v.v2Mac.tableBaseOffset = v.volumeDataOffset + v.volumeDataSize ∧
      v.v2Mac.tableBaseOffset.toNat ≤ offsetMax ∧
      v.v2Mac.dataSectors = v.volumeDataSize / v.sectorSize

/-! ## Every volume that is open is so -/

theorem sectorSize_of_valid {s : UInt32} (h : SectorSizeValid s) :
    0 < s.toUInt64.toNat ∧ s.toUInt64.toNat % 512 = 0 := by
  obtain ⟨hlo, -, hunits⟩ := h
  have hlo' : 512 ≤ s.toNat := UInt32.le_iff_toNat_le.mp hlo
  have hunits' : s.toNat % 512 = 0 := by
    have := congrArg UInt32.toNat hunits
    simpa using this
  rw [UInt32.toNat_toUInt64]
  omega

theorem asOpened_volumeOf (env : OpenEnv) (mem : OpenMemory) (req : OpenRequest)
    (layout : VolumeLayout) (header : VolumeHeader) :
    AsOpened (env.volumeOf mem req layout header) := by
  obtain ⟨hpos, hunits⟩ := sectorSize_of_valid header.sectorSize_valid
  exact ⟨hpos, hunits, fun h => absurd h (by simp [OpenEnv.volumeOf, V2SectorMacIo.init,
    V2SectorMacIo.isActive])⟩

/-- A mode is found only where a tag could be read. -/
theorem tagPosition_of_discoverMode {env : OpenEnv} {mem : OpenMemory} {v : Volume} {mode : V2Mode}
    (h : env.discoverMode mem v = some (some mode)) :
    (v.volumeDataOffset + v.volumeDataSize).toNat ≤ offsetMax := by
  have hzero : v2FormatSlotOffset 0 = 0 := by decide
  unfold OpenEnv.discoverMode at h
  simp only [hzero, UInt64.add_zero] at h
  split at h
  · exact absurd h (by simp)
  · split at h
    · exact absurd h (by simp)
    · split at h
      · exact absurd h (by simp)
      · rename_i tag0 hread
        unfold File.readInto File.readAt at hread
        split at hread
        · exact absurd hread (by simp)
        · rename_i hpos
          exact Nat.not_lt.mp (fun hlt => hpos (Or.inr hlt))

theorem asOpened_discover {env : OpenEnv} {mem : OpenMemory} {v : Volume} (h : AsOpened v) :
    AsOpened (env.discover mem v) := by
  unfold OpenEnv.discover
  split
  · exact ⟨h.sectorSize_pos, h.sectorSize_units, h.table⟩
  · exact h
  · rename_i mode hmode
    exact ⟨h.sectorSize_pos, h.sectorSize_units,
      fun _ => ⟨rfl, tagPosition_of_discoverMode hmode, rfl⟩⟩

theorem asOpened_openNative {env : OpenEnv} {mem : OpenMemory} {req : OpenRequest}
    {layout : VolumeLayout} {header : VolumeHeader} {v : Volume}
    (h : env.openNative mem req layout header = .ok v) : AsOpened v := by
  obtain ⟨w, hw, rfl⟩ := OpenEnv.openNative_ok h
  have hof := asOpened_volumeOf env mem req layout header
  apply asOpened_discover
  unfold OpenEnv.placeOnDrive at hw
  simp only at hw
  split at hw
  · rw [← Except.ok.inj hw]
    exact hof
  · split at hw
    · exact absurd hw (by simp)
    · rw [← Except.ok.inj hw]
      exact ⟨hof.sectorSize_pos, hof.sectorSize_units, hof.table⟩

theorem asOpened_protectRange {env : OpenEnv} {req : OpenRequest} {w v : Volume}
    (h : env.protectRange req w = .ok v) (hw : AsOpened w) : AsOpened v := by
  unfold OpenEnv.protectRange at h
  split at h
  · split at h
    · exact absurd h (by simp)
    · split at h
      · split at h <;> exact absurd h (by simp)
      · rw [← Except.ok.inj h]
        exact ⟨hw.sectorSize_pos, hw.sectorSize_units, hw.table⟩
  · rw [← Except.ok.inj h]
    exact hw

/-- **Whatever `Volume::Open` returns.** -/
theorem asOpened_openVolume {env : OpenEnv} {mem : OpenMemory} {req : OpenRequest} {v : Volume}
    (h : openVolume env mem req = .ok v) : AsOpened v := by
  rcases OpenEnv.openWith_ok h with ⟨layout, header, w, -, hw, hprot⟩ | ⟨-, hslot⟩
  · exact asOpened_protectRange hprot (asOpened_openNative hw)
  · obtain ⟨opened, header, -, -, rfl⟩ := OpenEnv.openKeyslot_some hslot
    exact asOpened_volumeOf env mem req .v2Normal header

/-- And it stays so under writes. -/
theorem asOpened_writeSectors (C : Ciphers) (P : Primitives) {v : Volume} (host : Bytes)
    (op : WriteRequest) (h : AsOpened v) : AsOpened (writeSectors C P (v, host) op).1.1 := by
  have hout := writeSectors_outcome C P v host op
  generalize writeSectors C P (v, host) op = r at hout ⊢
  cases hout with
  | refused e blocked sticky => exact h
  | hit stopped => exact ⟨h.sectorSize_pos, h.sectorSize_units, h.table⟩
  | torn ct check cipher short => exact h
  | written ct v' r check cipher whole counted other =>
    rcases counted with rfl | rfl
    · exact h
    · exact ⟨h.sectorSize_pos, h.sectorSize_units, h.table⟩

/-! ## Confinement -/

/-- The host bytes that the ciphertext of a write is for. -/
def inExtent (v : Volume) (op : WriteRequest) (i : Nat) : Prop :=
  v.volumeDataOffset.toNat + op.byteOffset.toNat ≤ i ∧
    i < v.volumeDataOffset.toNat + op.byteOffset.toNat + op.buffer.length

/-- The bytes of the slots of the sectors of a write. -/
def inSlots (v : Volume) (op : WriteRequest) (i : Nat) : Prop :=
  v.v2Mac.isActive = true ∧ ∃ j : Nat, (v.firstSector op).toNat ≤ j ∧
    j < (v.firstSector op).toNat + (v.sectorCount op).toNat ∧ j < v.v2Mac.dataSectors.toNat ∧
    (v.v2Mac.slotPosition (UInt64.ofNat j)).toNat ≤ i ∧
    i < (v.v2Mac.slotPosition (UInt64.ofNat j)).toNat + v2MacTagLen

/-- A call that throws and leaves the host alone, or that is for bytes of the data and changes
    no others, its slots apart. -/
def Confined (C : Ciphers) (P : Primitives) (v : Volume) (op : WriteRequest) (host : Bytes) :
    Prop :=
  let r := writeSectors C P (v, host) op
  (∃ e, r.2 = .error e ∧ r.1.2 = host) ∨
  (op.byteOffset.toNat + op.buffer.length ≤ v.volumeDataSize.toNat ∧
    ∀ i < host.length, r.1.2[i]? ≠ host[i]? → v.inExtent op i ∨ v.inSlots op i)

end Volume

/-- The same call where the system takes other parts of the two writes. -/
def WriteRequest.taking (op : WriteRequest) (data tags : Option Nat) : WriteRequest :=
  { op with dataAccepts := data, tagsAccept := tags }

namespace Volume

section
variable {C : Ciphers} {P : Primitives} {v : Volume} {op : WriteRequest} {host : Bytes} {i : Nat}

theorem accepts_taking (data tags : Option Nat) : v.accepts (op.taking data tags) ↔ v.accepts op :=
  Iff.rfl

/-! ## What passes the checks -/

/-- A call that passes is a whole number of sectors, not empty, and its sum is in the data. -/
theorem sum_of_accepts (h : v.accepts op) :
    op.length % v.sectorSize = 0 ∧ op.byteOffset % v.sectorSize = 0 ∧
      op.byteOffset + op.length ≤ v.volumeDataSize ∧ 0 < op.buffer.length := by
  have hlen : 1 ≤ op.length := by
    rcases checkWrite_cases v op with ⟨e, hc, -⟩ | hc | ⟨-, -, -, hlen⟩
    · exact absurd h (not_accepts_of_error hc)
    · exact absurd h (not_accepts_of_error hc)
    · exact hlen
  have hn := op.toNat_length
  have hpos : 1 ≤ op.length.toNat := UInt64.le_iff_toNat_le.mp hlen
  unfold accepts checkWrite at h
  split at h
  · exact absurd h (by simp)
  · rename_i hsum
    simp only [not_or, not_not, UInt64.not_lt] at hsum
    exact ⟨hsum.1, hsum.2.1, hsum.2.2, by omega⟩

theorem toNat_firstSector : (v.firstSector op).toNat = op.byteOffset.toNat / v.sectorSize.toNat :=
  UInt64.toNat_div _ _

theorem toNat_sectorCount : (v.sectorCount op).toNat = op.buffer.length / v.sectorSize.toNat := by
  rw [sectorCount, UInt64.toNat_div, op.toNat_length]

/-- Where nothing is stored the call throws, and the host is as it was. -/
theorem confined_of_unaddressable (hacc : v.accepts op)
    (hpos : offsetMax ≤ (v.hostOffset op.byteOffset).toNat) : Confined C P v op host := by
  obtain ⟨-, -, -, hlen⟩ := sum_of_accepts hacc
  have hsame : ∀ ct : Bytes,
      (File.writeAt host (v.hostOffset op.byteOffset) ct op.dataAccepts).1 = host := by
    intro ct
    simp only [File.writeAt, File.stored_eq_zero ct.length op.dataAccepts hpos, List.take_zero]
    exact pwrite_nil _ _ _
  have hout := writeSectors_outcome C P v host op
  unfold Confined
  generalize writeSectors C P (v, host) op = r at hout ⊢
  left
  cases hout with
  | refused e blocked sticky => exact ⟨e, rfl, rfl⟩
  | hit stopped => exact ⟨_, rfl, rfl⟩
  | torn ct check cipher short => exact ⟨_, rfl, hsame ct⟩
  | written ct v' r check cipher whole counted other =>
    rw [File.stored_eq_zero _ _ hpos, EncryptionAlgorithm.length_encryptSectors cipher] at whole
    omega

theorem confined_of_refused (hacc : ¬ v.accepts op) : Confined C P v op host := by
  have hout := writeSectors_outcome C P v host op
  unfold Confined
  generalize writeSectors C P (v, host) op = r at hout ⊢
  left
  cases hout with
  | refused e blocked sticky => exact ⟨e, rfl, rfl⟩
  | hit stopped => exact ⟨_, rfl, rfl⟩
  | torn ct check cipher short => exact absurd check hacc
  | written ct v' r check cipher whole counted other => exact absurd check hacc

/-- A tag byte that is stored is in the slot of one of the sectors. -/
theorem inSlots_of_writesTagAt (h : v.writesTagAt op i) : v.inSlots op i := by
  obtain ⟨-, -, hactive, hbounds, hlo, hhi⟩ := h
  have hle := V2SectorMacIo.le_of_boundsCheck hbounds
  -- stored bytes are addressable, so the slots from the first one on do not wrap
  have hmax : i < offsetMax := by
    unfold File.stored at hhi
    omega
  have hstored : File.stored (v.v2Mac.slotPosition (v.firstSector op))
      ((v.sectorCount op).toNat * v2MacTagLen) op.tagsAccept ≤ (v.sectorCount op).toNat * 16 :=
    File.stored_le _ _ _
  have h16 : (UInt64.ofNat v2MacTagLen).toNat = 16 := rfl
  have hlen : v2MacTagLen = 16 := rfl
  refine ⟨hactive, (v.firstSector op).toNat +
    (i - (v.v2Mac.slotPosition (v.firstSector op)).toNat) / 16, by omega, by omega, by omega, ?_⟩
  simp only [V2SectorMacIo.slotPosition, v2FormatSlotOffset, UInt64.toNat_add, UInt64.toNat_mul,
    h16, UInt64.toNat_ofNat', offsetMax, hlen] at hlo hhi hstored hmax ⊢
  omega

/-- Where the offset of the data does not wrap, the write is confined. -/
theorem confined_of_offset (hoff : v.volumeDataOffset.toNat + op.byteOffset.toNat < 2 ^ 64) :
    Confined C P v op host := by
  by_cases hacc : v.accepts op
  · obtain ⟨-, -, hsum, -⟩ := sum_of_accepts hacc
    have hhost : (v.hostOffset op.byteOffset).toNat =
        v.volumeDataOffset.toNat + op.byteOffset.toNat := by
      rw [hostOffset, UInt64.toNat_add, Nat.mod_eq_of_lt hoff]
    have hbuf := op.length_buffer
    by_cases hwrap : op.byteOffset.toNat + op.buffer.length < 2 ^ 64
    · right
      have hin : op.byteOffset.toNat + op.buffer.length ≤ v.volumeDataSize.toNat := by
        have hle := UInt64.le_iff_toNat_le.mp hsum
        rw [UInt64.toNat_add, op.toNat_length, Nat.mod_eq_of_lt hwrap] at hle
        exact hle
      refine ⟨hin, ?_⟩
      intro i hi hchanged
      by_cases hdata : v.writesDataAt op i
      · obtain ⟨-, hlo, hhi⟩ := hdata
        have hstored := File.stored_le (v.hostOffset op.byteOffset) op.buffer.length op.dataAccepts
        exact Or.inl ⟨by omega, by omega⟩
      · by_cases htag : v.writesTagAt op i
        · exact Or.inr (inSlots_of_writesTagAt htag)
        · exact absurd (writeSectors_frame C P hi hdata htag) hchanged
    · -- the first sum wraps: then the offset is out of reach
      apply confined_of_unaddressable hacc
      rw [hhost, offsetMax]
      omega
  · exact confined_of_refused hacc

/-! ## In front of the data -/

/-- The ciphertext of a call that passes can be made. -/
theorem writeCt_of_accepts (C : Ciphers) (hv : AsOpened v) (hacc : v.accepts op) :
    ∃ ct, v.writeCt C op = some ct := by
  obtain ⟨haligned, -, -, -⟩ := sum_of_accepts hacc
  have hmod : op.buffer.length % v.sectorSize.toNat = 0 := by
    have h := congrArg UInt64.toNat haligned
    rwa [UInt64.toNat_mod, op.toNat_length] at h
  have hbuf := op.length_buffer
  have hwhole : (op.length / v.sectorSize * v.sectorSize).toNat = op.buffer.length := by
    rw [UInt64.toNat_mul, UInt64.toNat_div, op.toNat_length,
      Nat.div_mul_cancel (Nat.dvd_of_mod_eq_zero hmod)]
    omega
  have hunits : op.buffer.length % bytesPerXtsBlock = 0 := by
    have h512 : 512 ∣ op.buffer.length :=
      (Nat.dvd_of_mod_eq_zero hv.sectorSize_units).trans (Nat.dvd_of_mod_eq_zero hmod)
    exact Nat.mod_eq_zero_of_dvd ((by decide : bytesPerXtsBlock ∣ 512).trans h512)
  have hsome : ∃ out, v.ea.encryptBuffer C
      (op.buffer.take (op.length / v.sectorSize * v.sectorSize).toNat)
      (v.hostOffset op.byteOffset / v.sectorSize * v.sectorSize / encryptionDataUnitSize) =
        some out := by
    apply EncryptionAlgorithm.encryptBuffer_isSome
    rw [hwhole, List.take_length]
    exact hunits
  obtain ⟨out, hout⟩ := hsome
  exact ⟨_, by rw [writeCt, EncryptionAlgorithm.encryptSectors, hout]; rfl⟩

/-- **The ciphertext lands**: at a byte of it that is stored, and under no tag, it stands. -/
theorem writeSectors_stores_data (C : Ciphers) (P : Primitives) {ct : Bytes} (hi : i < host.length)
    (hct : v.writeCt C op = some ct) (hdata : v.writesDataAt op i) (htag : ¬ v.writesTagAt op i) :
    (writeSectors C P (v, host) op).1.2[i]? = ct[i - (v.hostOffset op.byteOffset).toNat]? := by
  obtain ⟨hacc, hlo, hhi⟩ := hdata
  have hlen : ct.length = op.buffer.length := EncryptionAlgorithm.length_encryptSectors hct
  have hfirst : (File.writeAt host (v.hostOffset op.byteOffset) ct op.dataAccepts).1[i]? =
      ct[i - (v.hostOffset op.byteOffset).toNat]? := by
    rw [File.getElem?_writeAt op.dataAccepts hi, if_pos ⟨hlo, by rw [hlen]; exact hhi⟩]
  have hout := writeSectors_outcome C P v host op
  generalize writeSectors C P (v, host) op = r at hout ⊢
  cases hout with
  | refused e blocked sticky =>
    rw [blocked hacc] at hct
    exact absurd hct (by simp)
  | hit stopped => exact absurd hacc stopped
  | torn ct' check cipher short =>
    rw [Option.some.inj (cipher.symm.trans hct)]
    exact hfirst
  | written ct' v' r check cipher whole counted other =>
    have heq : ct' = ct := Option.some.inj (cipher.symm.trans hct)
    subst heq
    have hi' := hi.trans_le
      (File.length_le_writeAt host ct' (v.hostOffset op.byteOffset) op.dataAccepts)
    rw [hlen] at whole
    rw [V2SectorMacIo.getElem?_updateRange P hi', if_neg (fun hmac => htag ⟨hacc, whole, hmac⟩)]
    exact hfirst

/-- The slots of the sectors of a call whose offset wraps lie behind the place it is written to. -/
theorem not_inSlots_of_wrapped (hv : AsOpened v)
    (hwrap : 2 ^ 64 ≤ v.volumeDataOffset.toNat + op.byteOffset.toNat) :
    ¬ v.inSlots op (v.hostOffset op.byteOffset).toNat := by
  rintro ⟨hactive, j, hfirst, -, hj, hlo, -⟩
  obtain ⟨hbase, hreach, hsectors⟩ := hv.table hactive
  have hpos := hv.sectorSize_pos
  have hsize := v.volumeDataSize.toNat_lt
  have hdata := v.volumeDataOffset.toNat_lt
  have hoff := op.byteOffset.toNat_lt
  -- the sector starts in the data, behind the offset of the call
  rw [hsectors, UInt64.toNat_div] at hj
  rw [toNat_firstSector] at hfirst
  have hstart : op.byteOffset.toNat / v.sectorSize.toNat < v.volumeDataSize.toNat / v.sectorSize.toNat :=
    Nat.lt_of_le_of_lt hfirst hj
  have hbehind : op.byteOffset.toNat < v.volumeDataSize.toNat := by
    by_contra hge
    exact absurd (Nat.div_le_div_right (c := v.sectorSize.toNat) (Nat.not_lt.mp hge))
      (Nat.not_le.mpr hstart)
  have hunit : 512 ≤ v.sectorSize.toNat := by
    have hunits := hv.sectorSize_units
    omega
  have hcount : v.volumeDataSize.toNat / v.sectorSize.toNat ≤ v.volumeDataSize.toNat / 512 :=
    Nat.div_le_div_left hunit (by decide)
  have h16 : (UInt64.ofNat v2MacTagLen).toNat = 16 := rfl
  have hsum : v.v2Mac.tableBaseOffset.toNat =
      (v.volumeDataOffset.toNat + v.volumeDataSize.toNat) % 2 ^ 64 := by
    rw [hbase, UInt64.toNat_add]
  simp only [V2SectorMacIo.slotPosition, v2FormatSlotOffset, hostOffset, UInt64.toNat_add,
    UInt64.toNat_mul, h16, UInt64.toNat_ofNat', offsetMax] at hlo hreach
  omega

/-- **A wrapped offset that can be reached**: there is a host whose bytes in front of the data it
    changes. -/
theorem not_confined_of_wrapped (C : Ciphers) (P : Primitives) (hv : AsOpened v)
    (hacc : v.accepts op) (hwrap : 2 ^ 64 ≤ v.volumeDataOffset.toNat + op.byteOffset.toNat)
    (hreach : (v.hostOffset op.byteOffset).toNat < offsetMax) :
    ∃ host, ¬ Confined C P v (op.taking none (some 0)) host := by
  obtain ⟨ct, hct⟩ := writeCt_of_accepts C hv hacc
  obtain ⟨-, -, -, hlen⟩ := sum_of_accepts hacc
  have hctlen : ct.length = op.buffer.length := EncryptionAlgorithm.length_encryptSectors hct
  obtain ⟨b, rest, hb⟩ := List.exists_cons_of_length_pos (l := ct) (by omega)
  -- a host whose byte at the place of the first ciphertext byte is another one
  refine ⟨List.replicate (v.hostOffset op.byteOffset).toNat 0 ++ [b + 1], ?_⟩
  have hin : (v.hostOffset op.byteOffset).toNat <
      (List.replicate (v.hostOffset op.byteOffset).toNat 0 ++ [b + 1]).length := by
    simp
  have hdata : v.writesDataAt (op.taking none (some 0)) (v.hostOffset op.byteOffset).toNat := by
    refine ⟨hacc, Nat.le_refl _, ?_⟩
    show (v.hostOffset op.byteOffset).toNat < (v.hostOffset op.byteOffset).toNat +
      File.stored (v.hostOffset op.byteOffset) op.buffer.length none
    rw [File.stored, Option.getD_none, Nat.min_self]
    omega
  have htag : ¬ v.writesTagAt (op.taking none (some 0)) (v.hostOffset op.byteOffset).toNat := by
    rintro ⟨-, -, -, -, hlo, hhi⟩
    have hnone : ∀ position size, File.stored position size (some 0) = 0 := by
      intro position size
      simp [File.stored]
    change _ < _ + File.stored _ _ (some 0) at hhi
    rw [hnone] at hhi
    omega
  have hnew := writeSectors_stores_data C P hin
    (show v.writeCt C (op.taking none (some 0)) = some ct from hct) hdata htag
  have hchanged : (writeSectors C P
      (v, List.replicate (v.hostOffset op.byteOffset).toNat 0 ++ [b + 1])
      (op.taking none (some 0))).1.2[(v.hostOffset op.byteOffset).toNat]? ≠
      (List.replicate (v.hostOffset op.byteOffset).toNat 0 ++ [b + 1])[
        (v.hostOffset op.byteOffset).toNat]? := by
    have hold : (List.replicate (v.hostOffset op.byteOffset).toNat 0 ++ [b + 1])[
        (v.hostOffset op.byteOffset).toNat]? = some (b + 1) := by
      simp
    have hne : b ≠ b + 1 := by
      intro h
      have h' := congrArg UInt8.toNat h
      rw [UInt8.toNat_add] at h'
      have h1 : (1 : UInt8).toNat = 1 := rfl
      have hlt := b.toNat_lt
      omega
    have hzero : (v.hostOffset op.byteOffset).toNat -
        (v.hostOffset (op.taking none (some 0)).byteOffset).toNat = 0 := Nat.sub_self _
    rw [hnew, hold, hb, hzero, List.getElem?_cons_zero]
    exact fun h => hne (Option.some.inj h)
  rintro (⟨e, -, hsame⟩ | ⟨-, hall⟩)
  · rw [hsame] at hchanged
    exact hchanged rfl
  · rcases hall _ hin hchanged with hext | hslots
    · have hlo : v.volumeDataOffset.toNat + op.byteOffset.toNat ≤
          (v.hostOffset op.byteOffset).toNat := hext.1
      have hmod : (v.hostOffset op.byteOffset).toNat < 2 ^ 64 := UInt64.toNat_lt _
      omega
    · exact not_inSlots_of_wrapped hv hwrap hslots

end

/-! ## The exact condition -/

/-- **Confinement of sector writes.** A call keeps to the data and to its slots, whatever the host
    holds and whatever the system takes of the two writes, exactly when it is refused, or its offset
    in the host does not wrap, or the wrapped offset is out of reach. -/
theorem writeSectors_confined_iff (C : Ciphers) (P : Primitives) (v : Volume) (op : WriteRequest)
    (hv : AsOpened v) :
    (∀ host data tags, Confined C P v (op.taking data tags) host) ↔
      ¬ v.accepts op ∨ v.volumeDataOffset.toNat + op.byteOffset.toNat < 2 ^ 64 ∨
        offsetMax ≤ (v.hostOffset op.byteOffset).toNat := by
  constructor
  · intro hall
    by_contra hnot
    simp only [not_or, not_not, Nat.not_lt, Nat.not_le] at hnot
    obtain ⟨hacc, hwrap, hreach⟩ := hnot
    obtain ⟨host, hbad⟩ := not_confined_of_wrapped C P hv hacc hwrap hreach
    exact hbad (hall host none (some 0))
  · rintro (hrefused | hoff | hfar) host data tags
    · exact confined_of_refused (show ¬ v.accepts (op.taking data tags) from hrefused)
    · exact confined_of_offset (show v.volumeDataOffset.toNat +
        (op.taking data tags).byteOffset.toNat < 2 ^ 64 from hoff)
    · by_cases hacc : v.accepts op
      · exact confined_of_unaddressable (show v.accepts (op.taking data tags) from hacc) hfar
      · exact confined_of_refused (show ¬ v.accepts (op.taking data tags) from hacc)

/-- A normal volume of a 1 MiB container, without tags. -/
def plainVolume : Volume :=
  { outerVolume Primitives.demo 0 0 with
    protection := .none
    v2Mac := V2SectorMacIo.init }

theorem asOpened_plainVolume : AsOpened plainVolume :=
  ⟨by decide, by decide, fun h => absurd h (by decide)⟩

theorem writeSectors_confined_demo :
    (∀ host data tags, Confined Ciphers.demo Primitives.demo plainVolume
      ((sectorWrite 512).taking data tags) host) ↔
      ¬ plainVolume.accepts (sectorWrite 512) ∨
        plainVolume.volumeDataOffset.toNat + (sectorWrite 512).byteOffset.toNat < 2 ^ 64 ∨
        offsetMax ≤ (plainVolume.hostOffset (sectorWrite 512).byteOffset).toNat :=
  writeSectors_confined_iff Ciphers.demo Primitives.demo plainVolume (sectorWrite 512)
    asOpened_plainVolume

/-- A sector written at offset `2^64 - 512` of it lands on the last sector in front of the data,
    in the header of a hidden volume. -/
theorem writeSectors_not_confined :
    ¬ ∀ host data tags, Confined Ciphers.demo Primitives.demo plainVolume
      ((sectorWrite 18446744073709551104).taking data tags) host := by
  intro hall
  have hacc : plainVolume.accepts (sectorWrite 18446744073709551104) := by
    unfold accepts
    decide +kernel
  obtain ⟨host, hbad⟩ := not_confined_of_wrapped Ciphers.demo Primitives.demo asOpened_plainVolume
    hacc (by decide) (by decide)
  exact hbad (hall host none (some 0))

end Volume

end VeraCrypt
