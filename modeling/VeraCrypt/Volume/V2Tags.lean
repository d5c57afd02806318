import VeraCrypt.Core.CreationSucceeds
import VeraCrypt.Volume.Plaintext

/-!
# The tags of a version 2 volume

What `UpdateRange` stores, sector by sector: the slots of a range take the tags of its sectors, and
no ciphertext changes. `PopulateTable` does so for chunk after chunk, so a volume it returns on has
valid tags in all slots and the data it had before (`populateTable_valid`).
-/

set_option autoImplicit false

namespace VeraCrypt

open Lib EncryptionThreadPool

/-! ## Writes inside the host -/

/-- How many of `size` bytes the system takes. -/
def File.taken (size : Nat) (accepts : Option Nat) : Nat := min (accepts.getD size) size

theorem File.taken_le (size : Nat) (accepts : Option Nat) : File.taken size accepts ≤ size :=
  Nat.min_le_right _ _

@[simp] theorem File.taken_none (size : Nat) : File.taken size none = size := by
  simp [File.taken]

/-- A write inside the host patches it as far as the system takes it. -/
theorem File.writeAt_inside {file data : Bytes} {position : UInt64} (accepts : Option Nat)
    (hin : position.toNat + data.length ≤ file.length) (hmax : file.length ≤ offsetMax) :
    File.writeAt file position data accepts =
      (patch file position.toNat (data.take (File.taken data.length accepts)),
        decide (File.taken data.length accepts = data.length)) := by
  have hle := File.taken_le data.length accepts
  have hstored : File.stored position data.length accepts = File.taken data.length accepts := by
    simp only [File.stored, File.taken] at hle ⊢
    omega
  have hlen : (data.take (File.taken data.length accepts)).length ≤ data.length := by simp
  simp only [File.writeAt, hstored]
  rw [pwrite_eq_patch]
  omega

namespace V2SectorMacIo

/-- Tag `i` of a range. -/
theorem slice_tags (P : Primitives) (mac : V2SectorMacIo) (ct : Bytes) (firstSector count : UInt64)
    {i : Nat} (hi : i < count.toNat) :
    slice (mac.tags P ct firstSector count) (i * v2MacTagLen) v2MacTagLen =
      v2FormatSectorTag P mac.macKey (firstSector + UInt64.ofNat i) (mac.sectorCt ct i) := by
  have hparts : ∀ part ∈ (List.range count.toNat).map (fun i =>
      v2FormatSectorTag P mac.macKey (firstSector + UInt64.ofNat i) (mac.sectorCt ct i)),
      part.length = v2MacTagLen := by
    intro part hpart
    obtain ⟨i, -, rfl⟩ := List.mem_map.mp hpart
    simp
  have hflat := slice_flatten hparts [] (i := i) (by simpa using hi)
  simpa [tags, List.flatMap_def] using hflat

end V2SectorMacIo

namespace Volume

section
variable {P : Primitives} {v : Volume} {host : Bytes} {i first count : Nat}

/-- The sectors of a range of the volume are counted without a wrap. -/
theorem toNat_sector (hi : i ≤ v.v2Mac.dataSectors.toNat) : (UInt64.ofNat i).toNat = i := by
  have hlt := v.v2Mac.dataSectors.toNat_lt
  rw [UInt64.toNat_ofNat']
  exact Nat.mod_eq_of_lt (by omega)

/-- A range of sectors of the volume passes the check. -/
theorem boundsCheck_range
    (hin : first + count ≤ v.v2Mac.dataSectors.toNat) (hcount : 0 < count) :
    v.v2Mac.boundsCheck (UInt64.ofNat first) (UInt64.ofNat count) = true := by
  have hlt := v.v2Mac.dataSectors.toNat_lt
  have hfirst := toNat_sector (v := v) (i := first) (by omega)
  have hcountVal := toNat_sector (v := v) (i := count) (by omega)
  have hsum : (UInt64.ofNat first + UInt64.ofNat count).toNat = first + count := by
    rw [← UInt64.ofNat_add, toNat_sector hin]
  have hzero : UInt64.ofNat count ≠ 0 := by
    intro hzero
    rw [hzero] at hcountVal
    simp only [UInt64.toNat_zero] at hcountVal
    omega
  simp only [V2SectorMacIo.boundsCheck, UInt64.lt_iff_toNat_lt, hsum, hfirst, hzero]
  simp
  omega

/-- **What `UpdateRange` stores**: the tags of the range at its slots, as far as they are taken. -/
theorem V2Geometry.updateRange_eq (hv : V2Geometry v host.length)
    (hin : first + count ≤ v.v2Mac.dataSectors.toNat) (hcount : 0 < count) (ct : Bytes)
    (accepts : Option Nat) :
    v.v2Mac.updateRange P host ct (UInt64.ofNat first) (UInt64.ofNat count) accepts =
      (patch host (v.v2Mac.tableBaseOffset.toNat + first * v2MacTagLen)
        ((v.v2Mac.tags P ct (UInt64.ofNat first) (UInt64.ofNat count)).take
          (File.taken (count * v2MacTagLen) accepts)),
        if File.taken (count * v2MacTagLen) accepts = count * v2MacTagLen then .ok ()
        else .error .systemException) := by
  have hfits := hv.fits
  have htable := Nat.mul_le_mul_right v2MacTagLen hin
  rw [Nat.add_mul] at htable
  have hcountVal := toNat_sector (v := v) (i := count) (by omega)
  have hzero : UInt64.ofNat count ≠ 0 := by
    intro hzero
    rw [hzero] at hcountVal
    simp only [UInt64.toNat_zero] at hcountVal
    omega
  have hslot := hv.slotPosition_eq (i := first) (by omega)
  have hlen : (v.v2Mac.tags P ct (UInt64.ofNat first) (UInt64.ofNat count)).length =
      count * v2MacTagLen := by
    rw [V2SectorMacIo.length_tags, hcountVal]
  have hwrite := @File.writeAt_inside host
    (v.v2Mac.tags P ct (UInt64.ofNat first) (UInt64.ofNat count))
    (v.v2Mac.slotPosition (UInt64.ofNat first)) accepts (by rw [hlen, hslot]; omega)
    hv.addressable
  rw [hlen, hslot] at hwrite
  rw [V2SectorMacIo.updateRange, if_neg (by simp [hv.active, hzero]),
    boundsCheck_range hin hcount, if_neg (by simp), hwrite]
  simp

/-- A patch of the table leaves the ciphertext. -/
theorem V2Geometry.sectorAt_patch_table (hv : V2Geometry v host.length)
    (hi : i < v.v2Mac.dataSectors.toNat) {off : Nat} {tags : Bytes}
    (hoff : v.v2Mac.tableBaseOffset.toNat ≤ off) (hin : off ≤ host.length) :
    v.sectorAt (patch host off tags) i = v.sectorAt host i := by
  have hle := (hv.sector_le hi).1
  exact slice_patch_disjoint hin (.inl (by omega))

/-- A slot outside the range of a patch of the table. -/
theorem V2Geometry.slotAt_patch_table (hv : V2Geometry v host.length)
    (hin : first + count ≤ v.v2Mac.dataSectors.toNat) {tags : Bytes}
    (hlen : tags.length ≤ count * v2MacTagLen) (hout : i < first ∨ first + count ≤ i) :
    v.slotAt (patch host (v.v2Mac.tableBaseOffset.toNat + first * v2MacTagLen) tags) i =
      v.slotAt host i := by
  have hfits := hv.fits
  have htable := Nat.mul_le_mul_right v2MacTagLen hin
  rw [Nat.add_mul] at htable
  refine slice_patch_disjoint (by omega) ?_
  cases hout with
  | inl hbefore =>
    have hle := Nat.mul_le_mul_right v2MacTagLen (Nat.succ_le_of_lt hbefore)
    rw [Nat.succ_mul] at hle
    exact .inl (by omega)
  | inr hbehind =>
    have hle := Nat.mul_le_mul_right v2MacTagLen hbehind
    rw [Nat.add_mul] at hle
    exact .inr (by omega)

/-- A slot of the range, when all tags of it are stored. -/
theorem V2Geometry.slotAt_patch_tags (hv : V2Geometry v host.length)
    (hin : first + count ≤ v.v2Mac.dataSectors.toNat) (ct : Bytes) {j : Nat} (hj : j < count) :
    v.slotAt (patch host (v.v2Mac.tableBaseOffset.toNat + first * v2MacTagLen)
        (v.v2Mac.tags P ct (UInt64.ofNat first) (UInt64.ofNat count))) (first + j) =
      v.tagOf P (first + j) (slice ct (j * v.sectorSize.toNat) v.sectorSize.toNat) := by
  have hfits := hv.fits
  have htable := Nat.mul_le_mul_right v2MacTagLen hin
  rw [Nat.add_mul] at htable
  have hcountVal := toNat_sector (v := v) (i := count) (by omega)
  have hnext := Nat.mul_le_mul_right v2MacTagLen (Nat.succ_le_of_lt hj)
  rw [Nat.succ_mul] at hnext
  rw [slotAt, Nat.add_mul, ← Nat.add_assoc, slice_patch_within (by omega)
    (by rw [V2SectorMacIo.length_tags, hcountVal]; exact hnext),
    V2SectorMacIo.slice_tags P _ _ _ _ (by rw [hcountVal]; exact hj), tagOf, UInt64.ofNat_add,
    V2SectorMacIo.sectorCt, hv.mac_sectorSize]

/-! ## The population -/

/-- The geometry is about the size of the host. -/
theorem V2Geometry.of_length {n n' : Nat} (hv : V2Geometry v n) (h : n' = n) : V2Geometry v n' := by
  rw [h]
  exact hv

/-- The populated part of a table: the ciphertext is that of `host₀`, and the tags in front of
    sector `done` are valid. -/
structure Populated (P : Primitives) (v : Volume) (host₀ host : Bytes) (done : Nat) : Prop where
  length : host.length = host₀.length
  cipher : ∀ i < v.v2Mac.dataSectors.toNat, v.sectorAt host i = v.sectorAt host₀ i
  valid : ∀ i < v.v2Mac.dataSectors.toNat, i < done → TagValid P v host i

/-- What a round of `PopulateTable` reads is the ciphertext of its sectors. -/
theorem V2Geometry.chunk_eq (hv : V2Geometry v host.length)
    (hin : first + count ≤ v.v2Mac.dataSectors.toNat) {fails : Bool} {chunk : Bytes}
    (hread : File.readAt host (v.volumeDataOffset + UInt64.ofNat first * v.v2Mac.sectorSize)
      (count * v.v2Mac.sectorSize.toNat) fails = some chunk) :
    chunk = v.cipherRange host first count := by
  have hbase := hv.base_eq
  have hwhole := hv.whole
  have hfits := hv.fits
  have hmax := hv.addressable
  have hle := Nat.mul_le_mul_right v.sectorSize.toNat (show first ≤ v.v2Mac.dataSectors.toNat by omega)
  simp only [offsetMax] at hmax
  have hpos : (v.volumeDataOffset + UInt64.ofNat first * v.v2Mac.sectorSize).toNat =
      v.volumeDataOffset.toNat + first * v.sectorSize.toNat := by
    rw [UInt64.toNat_add, UInt64.toNat_mul, toNat_sector (v := v) (by omega), hv.mac_sectorSize,
      Nat.mod_eq_of_lt (show first * v.sectorSize.toNat < 2 ^ 64 by omega)]
    exact Nat.mod_eq_of_lt (by omega)
  simp only [File.readAt] at hread
  split at hread
  · simp at hread
  · rw [← Option.some.inj hread, hpos, hv.mac_sectorSize]
    rfl

/-- **One round** takes the populated part on. -/
theorem Populated.round {host₀ : Bytes} (hv : V2Geometry v host₀.length)
    (h : Populated P v host₀ host first)
    (hin : first + count ≤ v.v2Mac.dataSectors.toNat) (hcount : 0 < count) {accepts : Option Nat}
    {host' : Bytes}
    (hupdate : v.v2Mac.updateRange P host (v.cipherRange host first count) (UInt64.ofNat first)
      (UInt64.ofNat count) accepts = (host', .ok ())) :
    Populated P v host₀ host' (first + count) := by
  have hv' := hv.of_length h.length
  have hfits := hv'.fits
  have htable := Nat.mul_le_mul_right v2MacTagLen hin
  rw [Nat.add_mul] at htable
  have hcountVal := toNat_sector (v := v) (i := count) (by omega)
  rw [hv'.updateRange_eq hin hcount] at hupdate
  obtain ⟨rfl, hall⟩ := Prod.mk.inj hupdate
  have htaken : File.taken (count * v2MacTagLen) accepts = count * v2MacTagLen := by
    by_contra hshort
    simp [hshort] at hall
  have hlen := V2SectorMacIo.length_tags P v.v2Mac (v.cipherRange host first count)
    (UInt64.ofNat first) (UInt64.ofNat count)
  rw [hcountVal] at hlen
  rw [htaken, List.take_of_length_le (by omega)]
  have hsector : ∀ i < v.v2Mac.dataSectors.toNat,
      v.sectorAt (patch host (v.v2Mac.tableBaseOffset.toNat + first * v2MacTagLen)
        (v.v2Mac.tags P (v.cipherRange host first count) (UInt64.ofNat first)
          (UInt64.ofNat count))) i = v.sectorAt host i := by
    intro i hi
    exact hv'.sectorAt_patch_table hi (by omega) (by omega)
  refine ⟨?_, ?_, ?_⟩
  · rw [length_patch (by omega), h.length]
  · intro i hi
    rw [hsector i hi, h.cipher i hi]
  · intro i hi hdone
    rw [TagValid, hsector i hi]
    by_cases hbefore : i < first
    · rw [hv'.slotAt_patch_table hin (by omega) (.inl hbefore)]
      exact h.valid i hi hbefore
    · obtain ⟨j, rfl⟩ := Nat.exists_eq_add_of_le (Nat.le_of_not_lt hbefore)
      rw [hv'.slotAt_patch_tags hin _ (by omega), slice_cipherRange (by omega)]

/-- **`PopulateTable`**: when it returns, every slot holds the tag of its sector, and no sector
    has changed. -/
theorem populateFrom_populated {host₀ : Bytes} (hv : V2Geometry v host₀.length)
    {io : V2SectorMacIo.PopulateIo} :
    ∀ {k : Nat} {host host' : Bytes} {done : Nat}, v.v2Mac.dataSectors.toNat - done ≤ k →
      Populated P v host₀ host done →
      v.v2Mac.populateFrom P v.volumeDataOffset io host done = (host', .ok ()) →
      Populated P v host₀ host' v.v2Mac.dataSectors.toNat := by
  intro k
  induction k with
  | zero =>
    intro host host' done hk h hrun
    rw [V2SectorMacIo.populateFrom_end (by omega) hrun]
    exact ⟨h.length, h.cipher, fun i hi _ => h.valid i hi (by omega)⟩
  | succ k ih =>
    intro host host' done hk h hrun
    by_cases hlt : done < v.v2Mac.dataSectors.toNat
    · have hstep : 0 < min V2SectorMacIo.sectorsPerChunk (v.v2Mac.dataSectors.toNat - done) := by
        simp only [V2SectorMacIo.sectorsPerChunk]
        omega
      obtain ⟨chunk, host1, hread, -, hupdate, hrest⟩ := V2SectorMacIo.populateFrom_ok hlt hrun
      rw [(hv.of_length h.length).chunk_eq (by omega) hread] at hupdate
      exact ih (by omega) (h.round hv (by omega) hstep hupdate) hrest
    · rw [V2SectorMacIo.populateFrom_end (by omega) hrun]
      exact ⟨h.length, h.cipher, fun i hi _ => h.valid i hi (by omega)⟩

/-! ## Reading what was populated -/

/-- The data ends with a sector. -/
theorem V2Geometry.wholeSectors_eq {n : Nat} (hv : V2Geometry v n) :
    v.wholeSectors = v.v2Mac.dataSectors.toNat := by
  have hpos := hv.sectorSize_pos
  rw [wholeSectors, ← hv.whole, Nat.add_sub_assoc hpos, Nat.add_comm,
    Nat.add_mul_div_right _ _ hpos, Nat.div_eq_of_lt (by omega), Nat.zero_add]

/-- A volume whose tags are all valid can be read. -/
theorem V2Geometry.readable (hv : V2Geometry v host.length) (hmax : v.sectorSize.toNat ≤ 4096)
    (hvalid : ∀ i < v.v2Mac.dataSectors.toNat, TagValid P v host i) : Readable P v host := by
  have hpos := hv.sectorSize_pos
  have hunits := hv.sectorSize_units
  have hfits := hv.fits
  have hbase := hv.base_eq
  refine ⟨by omega, hmax, hunits, ?_, hv.addressable, fun _ => ⟨hv, hvalid⟩⟩
  rw [hv.wholeSectors_eq, hv.whole]
  omega

/-- The text is that of the sectors: the table is no part of it. -/
theorem V2Geometry.wholeText_eq {n : Nat} {host' : Bytes} (C : Ciphers) (hv : V2Geometry v n)
    (hsame : ∀ i < v.v2Mac.dataSectors.toNat, v.sectorAt host' i = v.sectorAt host i) :
    v.wholeText C host' = v.wholeText C host := by
  unfold wholeText
  congr 1
  refine List.map_congr_left ?_
  intro i hi
  rw [List.mem_range, hv.wholeSectors_eq] at hi
  have hclear : v.clearAt host' i = v.clearAt host i := by
    unfold clearAt
    cases i with
    | zero => rw [hsame 0 hi]
    | succ i => simp
  rw [plainSector, plainSector, hclear, plainAt, plainAt, hsame i hi]

/-- **A populated volume** can be read from the first sector to the last: every slot holds the tag
    of its sector, and a range of whole sectors is read as what was on the disk before the table
    was written, in whatever pieces the system took the writes. -/
theorem populateTable_valid (C : Ciphers) (P : Primitives) {v : Volume} {host host' : Bytes}
    {io : V2SectorMacIo.PopulateIo} (hv : V2Geometry v host.length)
    (hmax : v.sectorSize.toNat ≤ 4096)
    (hrun : v.v2Mac.populateTable P host v.volumeDataOffset io = (host', .ok ())) :
    host'.length = host.length ∧
      (∀ i < v.v2Mac.dataSectors.toNat, TagValid P v host' i) ∧
      ∀ (first count : Nat) (byteOffset : UInt64) (uninit : RandStream),
        first + count ≤ v.v2Mac.dataSectors.toNat →
        byteOffset.toNat = first * v.sectorSize.toNat →
        ∃ v', v.readSectors C P host' (count * v.sectorSize.toNat) byteOffset
            { data := false, tags := false, uninit := uninit } =
          .ok (v', slice (v.wholeText C host) (first * v.sectorSize.toNat)
            (count * v.sectorSize.toNat)) := by
  rw [V2SectorMacIo.populateTable, if_neg (by simp [hv.active])] at hrun
  have hempty : Populated P v host host 0 :=
    ⟨rfl, fun _ _ => rfl, fun i _ hi => absurd hi (Nat.not_lt_zero i)⟩
  have hfull := populateFrom_populated hv (Nat.le_refl _) hempty hrun
  have hvalid : ∀ i < v.v2Mac.dataSectors.toNat, TagValid P v host' i :=
    fun i hi => hfull.valid i hi hi
  refine ⟨hfull.length, hvalid, ?_⟩
  intro first count byteOffset uninit hin hoffset
  have hread : Readable P v host' := (hv.of_length hfull.length).readable hmax hvalid
  rw [← hv.wholeSectors_eq] at hin
  rw [← hv.wholeText_eq C hfull.cipher]
  exact hread.readSectors_eq C hin hoffset uninit

end

/-- The outer volume of the container that is created, before its table is populated. -/
theorem outerVolume_geometry (P : Primitives) (first last : UInt64) :
    V2Geometry (outerVolume P first last) (List.replicate 1048576 (0 : UInt8)).length := by
  rw [List.length_replicate]
  refine ⟨rfl, rfl, rfl, rfl, rfl, ?_, ?_, ?_, ?_, ?_, by decide⟩
  · show 0 < (512 : UInt64).toNat
    decide
  · show (512 : UInt64).toNat % 512 = 0
    decide
  · show (1489 : UInt64).toNat * (512 : UInt64).toNat = (762368 : UInt64).toNat
    decide
  · show (893440 : UInt64).toNat = (131072 : UInt64).toNat + (762368 : UInt64).toNat
    decide
  · show (893440 : UInt64).toNat + (1489 : UInt64).toNat * v2MacTagLen ≤ 1048576
    decide

theorem populateTable_valid_demo : ∃ host',
    host'.length = (List.replicate 1048576 (0 : UInt8)).length ∧
      (∀ i < (outerVolume .demo 655360 786432).v2Mac.dataSectors.toNat,
        TagValid .demo (outerVolume .demo 655360 786432) host' i) ∧
      ∀ (first count : Nat) (byteOffset : UInt64) (uninit : RandStream),
        first + count ≤ (outerVolume .demo 655360 786432).v2Mac.dataSectors.toNat →
        byteOffset.toNat = first * (outerVolume .demo 655360 786432).sectorSize.toNat →
        ∃ v', (outerVolume .demo 655360 786432).readSectors .demo .demo host'
            (count * (outerVolume .demo 655360 786432).sectorSize.toNat) byteOffset
            { data := false, tags := false, uninit := uninit } =
          .ok (v', slice ((outerVolume .demo 655360 786432).wholeText .demo
              (List.replicate 1048576 0))
            (first * (outerVolume .demo 655360 786432).sectorSize.toNat)
            (count * (outerVolume .demo 655360 786432).sectorSize.toNat)) := by
  have hv := outerVolume_geometry .demo 655360 786432
  obtain ⟨host', hrun⟩ := @V2SectorMacIo.populateFrom_isOk .demo
    (outerVolume .demo 655360 786432).v2Mac (outerVolume .demo 655360 786432).volumeDataOffset
    ⟨fun _ => false, fun _ => none⟩ (fun _ => rfl) (fun _ => rfl) _
    (List.replicate 1048576 0) 0 (Nat.le_refl _) (by decide) (by decide)
    (by rw [List.length_replicate]; decide)
  have hpop : (outerVolume .demo 655360 786432).v2Mac.populateTable .demo
      (List.replicate 1048576 0) (outerVolume .demo 655360 786432).volumeDataOffset
      ⟨fun _ => false, fun _ => none⟩ = (host', .ok ()) := by
    rw [V2SectorMacIo.populateTable, if_neg (by simp [hv.active])]
    exact hrun
  exact ⟨host', populateTable_valid .demo .demo hv (by decide) hpop⟩

end Volume

end VeraCrypt
