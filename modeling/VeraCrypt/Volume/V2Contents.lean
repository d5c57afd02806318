import VeraCrypt.Lib.Watch
import VeraCrypt.Volume.V2Tags

/-!
# The contents of a version 2 volume over a session

A session is a run of reads and writes on an open volume. What a user knows of the data follows
from the answers alone: a write that returns settles its sectors, and one that the system broke off
leaves them unknown. Every read that returns agrees with what is known, and a read of known sectors
fails only where the system does (`session_faithful`).
-/

set_option autoImplicit false

namespace VeraCrypt

open Lib

/-- A read that the system carries out does not depend on what faults there could have been. -/
theorem File.readAt_of_some {host : Bytes} {position : UInt64} {n : Nat} {fails : Bool}
    {out : Bytes}
    (h : File.readAt host position n fails = some out) :
    File.readAt host position n false = some out := by
  rw [File.readAt] at h ⊢
  split at h
  · cases h
  · rename_i hno
    rw [not_or] at hno
    rw [if_neg (by simp [hno.2]), ← h]

namespace Volume

/-! ## Reading a range -/

/-- The volume as it is without the table. -/
def untagged (v : Volume) : Volume := { v with v2Mac := V2SectorMacIo.init }

@[simp] theorem untagged_isActive (v : Volume) : v.untagged.v2Mac.isActive = false := rfl

section
variable {C : Ciphers} {P : Primitives} {v : Volume} {host : Bytes}

/-- The sectors of a range as the calls count them. -/
theorem RangeOk.first_eq {n size : Nat} {byteOffset : UInt64} (h : v.RangeOk byteOffset size)
    (hv : V2Geometry v n) : byteOffset / v.sectorSize = UInt64.ofNat (v.rangeFirst byteOffset) := by
  have hin := h.sectors_le hv
  apply UInt64.toNat_inj.mp
  rw [UInt64.toNat_div, toNat_sector (v := v) (by omega)]
  rfl

theorem RangeOk.count_eq {n size : Nat} {byteOffset : UInt64} (h : v.RangeOk byteOffset size)
    (hv : V2Geometry v n) :
    UInt64.ofNat size / v.sectorSize = UInt64.ofNat (v.rangeCount size) := by
  have hin := h.sectors_le hv
  have hinside := h.inside
  have hlt := v.volumeDataSize.toNat_lt
  have hsize : (UInt64.ofNat size).toNat = size := by
    rw [UInt64.toNat_ofNat']
    exact Nat.mod_eq_of_lt (by omega)
  apply UInt64.toNat_inj.mp
  rw [UInt64.toNat_div, hsize, toNat_sector (v := v) (by omega)]
  rfl

/-- What the system reads of a range is its ciphertext. -/
theorem RangeOk.buffer_eq {size : Nat} {byteOffset : UInt64} (h : v.RangeOk byteOffset size)
    (hv : V2Geometry v host.length) {fails : Bool} {buffer : Bytes}
    (hread : File.readAt host (v.hostOffset byteOffset) size fails = some buffer) :
    buffer = v.cipherRange host (v.rangeFirst byteOffset) (v.rangeCount size) := by
  rw [File.readAt] at hread
  split at hread
  · cases hread
  · rw [← Option.some.inj hread, hv.hostOffset_eq h, cipherRange, h.offset_eq, h.size_eq]

/-- Without the table every sector can be read. -/
theorem V2Geometry.readable_untagged (hv : V2Geometry v host.length)
    (hmax : v.sectorSize.toNat ≤ 4096) : Readable P v.untagged host := by
  have hpos := hv.sectorSize_pos
  have hunits := hv.sectorSize_units
  have hfits := hv.fits
  have hbase := hv.base_eq
  have hwhole : v.untagged.wholeSectors = v.v2Mac.dataSectors.toNat := hv.wholeSectors_eq
  refine ⟨?_, hmax, hunits, ?_, hv.addressable, ?_⟩
  · show 512 ≤ v.sectorSize.toNat
    omega
  · show v.volumeDataOffset.toNat + v.untagged.wholeSectors * v.sectorSize.toNat ≤ host.length
    rw [hwhole, hv.whole]
    omega
  · intro hactive
    cases hactive

/-- Nothing is in the clear on a version 2 volume. -/
theorem V2Geometry.plainSector_untagged {n : Nat} (hv : V2Geometry v n) (i : Nat) :
    v.untagged.plainSector C host i = v.plainAt C host i := by
  have hclear : v.untagged.clearAt host i = false := by
    have hsystem : v.untagged.systemEncryption = false := hv.notSystem
    have hcomplete : v.untagged.encryptionNotCompleted = false := hv.complete
    simp [clearAt, skipsFirstSector, hsystem, hcomplete]
  rw [plainSector, hclear]
  rfl

/-- The loop over the tags of a range that comes to its end, unless mismatches are ignored. -/
theorem verifySector_all {ct stored : Bytes} {firstSector : UInt64} {mac : V2SectorMacIo}
    (hignore : mac.ignoreTags = false) {l : List Nat} {mac' : V2SectorMacIo}
    (h : l.foldlM (V2SectorMacIo.verifySector P ct stored firstSector) mac = .ok mac') :
    mac' = mac ∧ ∀ i ∈ l, v2FormatSectorVerify P mac.macKey (firstSector + UInt64.ofNat i)
      (mac.sectorCt ct i) (slice stored (i * v2MacTagLen) v2MacTagLen) = true := by
  induction l with
  | nil => exact ⟨(Except.ok.inj h).symm, by simp⟩
  | cons i l ih =>
    rw [List.foldlM_cons, V2SectorMacIo.verifySector] at h
    split at h
    · rename_i hverify
      obtain ⟨hsame, hrest⟩ := ih h
      refine ⟨hsame, ?_⟩
      intro j hj
      cases hj with
      | head => exact hverify
      | tail _ hj => exact hrest j hj
    · rw [hignore] at h
      cases h

/-- Checked tags leave the state of the table as it is. -/
theorem verifyRange_same {ct : Bytes} {firstSector count : UInt64} {fails : Bool}
    {uninit : RandStream} {mac mac' : V2SectorMacIo} (hignore : mac.ignoreTags = false)
    (h : mac.verifyRange P host ct firstSector count fails uninit = .ok mac') : mac' = mac := by
  rw [V2SectorMacIo.verifyRange] at h
  split at h
  · exact (Except.ok.inj h).symm
  · split at h
    · cases h
    · split at h
      · cases h
      · exact (verifySector_all hignore h).1

/-- Tags that pass are valid. -/
theorem V2Geometry.verifyRange_valid (hv : V2Geometry v host.length) {first count : Nat}
    (hin : first + count ≤ v.v2Mac.dataSectors.toNat) {fails : Bool} {uninit : RandStream}
    {mac : V2SectorMacIo}
    (h : v.v2Mac.verifyRange P host (v.cipherRange host first count) (UInt64.ofNat first)
      (UInt64.ofNat count) fails uninit = .ok mac) :
    ∀ j < count, TagValid P v host (first + j) := by
  intro j hj
  have hfits := hv.fits
  have htable := Nat.mul_le_mul_right v2MacTagLen hin
  rw [Nat.add_mul] at htable
  have hmax := hv.addressable
  have hcountVal := toNat_sector (v := v) (i := count) (by omega)
  have hslot := hv.slotPosition_eq (i := first) (by omega)
  have hzero : UInt64.ofNat count ≠ 0 := by
    intro hzero
    rw [hzero] at hcountVal
    simp only [UInt64.toNat_zero] at hcountVal
    omega
  rw [V2SectorMacIo.verifyRange, if_neg (by simp [hv.active, hzero]),
    boundsCheck_range hin (by omega), if_neg (by simp), hcountVal] at h
  cases fails with
  | true =>
    have hfail : File.readInto host (v.v2Mac.slotPosition (UInt64.ofNat first))
        (count * v2MacTagLen) true uninit = none := by
      simp [File.readInto, File.readAt]
    rw [hfail] at h
    cases h
  | false =>
    have hread : File.readInto host (v.v2Mac.slotPosition (UInt64.ofNat first))
        (count * v2MacTagLen) false uninit = _ :=
      File.readInto_whole uninit (by rw [hslot]; omega) (by rw [hslot]; omega)
    rw [hread] at h
    have hverify := (verifySector_all hv.ignoreTags h).2 j (List.mem_range.mpr hj)
    have hnext := Nat.mul_le_mul_right v2MacTagLen (Nat.succ_le_of_lt hj)
    rw [Nat.succ_mul] at hnext
    rw [V2SectorMacIo.sectorCt, hv.mac_sectorSize, slice_cipherRange hj, slice_slice hnext, hslot,
      Nat.add_assoc, ← Nat.add_mul, ← UInt64.ofNat_add, v2FormatSectorVerify,
      ctEqual_iff (by
        rw [length_v2FormatSectorTag]
        exact (hv.length_slotAt (i := first + j) (by omega)).symm)] at hverify
    exact hverify.symm

/-- A read with no sector in the clear, step by step: the buffer, its tags, its plaintext. -/
theorem readSectors_iff {size : Nat} {byteOffset : UInt64} {faults : ReadFaults} {v' : Volume}
    {out : Bytes}
    (hskip : ∀ hostOffset buffer, v.skipsFirstSector hostOffset buffer = false) :
    v.readSectors C P host size byteOffset faults = .ok (v', out) ↔
      ¬ (UInt64.ofNat size % v.sectorSize ≠ 0 ∨ byteOffset % v.sectorSize ≠ 0) ∧
        ∃ buffer mac,
          File.readAt host (v.hostOffset byteOffset) size faults.data = some buffer ∧
          buffer.length = size ∧
          (if UInt64.ofNat size ≠ 0 ∧ v.v2Mac.isActive = true then
            v.v2Mac.verifyRange P host buffer (byteOffset / v.sectorSize)
              (UInt64.ofNat size / v.sectorSize) faults.tags faults.uninit
            else .ok v.v2Mac) = .ok mac ∧
          v.readDecrypt C buffer 0 (v.hostOffset byteOffset) (UInt64.ofNat size) = some out ∧
          v' = { v with
            v2Mac := mac
            totalDataRead := v.totalDataRead + UInt64.ofNat size } := by
  rw [readSectors]
  simp only [hskip, Bool.false_eq_true, if_false, UInt64.sub_zero, UInt64.add_zero,
    UInt64.toNat_zero, List.drop_zero]
  constructor
  · intro h
    split at h
    · cases h
    · rename_i halign
      refine ⟨halign, ?_⟩
      split at h
      · cases h
      · rename_i buffer hread
        split at h
        · cases h
        · rename_i hlen
          split at h
          · cases h
          · rename_i mac hmac
            split at h
            · cases h
            · rename_i text hout
              obtain ⟨rfl, rfl⟩ := Prod.mk.inj (Except.ok.inj h)
              exact ⟨buffer, mac, hread, not_not.mp hlen, hmac, hout, rfl⟩
  · rintro ⟨halign, buffer, mac, hread, hlen, hmac, hout, rfl⟩
    rw [if_neg halign, hread]
    dsimp only
    rw [if_neg (not_not.mpr hlen), hmac, hout]

/-- No read of a version 2 volume takes a sector in the clear. -/
theorem V2Geometry.skips_none {n : Nat} (hv : V2Geometry v n) (hostOffset : UInt64)
    (buffer : Bytes) : v.skipsFirstSector hostOffset buffer = false := by
  simp [skipsFirstSector, hv.notSystem]

/-- What a read gives, it gives without the table as well, and the tags it has passed are valid. -/
theorem V2Geometry.readSectors_untagged (hv : V2Geometry v host.length) {size : Nat}
    {byteOffset : UInt64} (hrange : v.RangeOk byteOffset size) {faults : ReadFaults} {v' : Volume}
    {out : Bytes} (h : v.readSectors C P host size byteOffset faults = .ok (v', out)) :
    v' = { v with totalDataRead := v.totalDataRead + UInt64.ofNat size } ∧
      (∀ j < v.rangeCount size, TagValid P v host (v.rangeFirst byteOffset + j)) ∧
      ∃ w, v.untagged.readSectors C P host size byteOffset
        { data := false, tags := false, uninit := faults.uninit } = .ok (w, out) := by
  obtain ⟨halign, buffer, mac, hread, hlen, hmac, hout, rfl⟩ := (readSectors_iff hv.skips_none).mp h
  have hsame : mac = v.v2Mac := by
    split at hmac
    · exact verifyRange_same hv.ignoreTags hmac
    · exact (Except.ok.inj hmac).symm
  subst hsame
  refine ⟨rfl, ?_, _, (readSectors_iff (v := v.untagged) hv.skips_none).mpr
    ⟨halign, buffer, _, File.readAt_of_some hread, hlen, if_neg (by simp), hout,
      rfl⟩⟩
  intro j hj
  have hsome : UInt64.ofNat size ≠ 0 := by
    intro hzero
    have hcount := hrange.count_eq hv
    rw [hzero, UInt64.zero_div] at hcount
    have hval := toNat_sector (v := v) (i := v.rangeCount size)
      (Nat.le_trans (Nat.le_add_left _ _) (hrange.sectors_le hv))
    rw [← hcount] at hval
    rw [← hval] at hj
    exact absurd hj (Nat.not_lt_zero j)
  rw [if_pos ⟨hsome, hv.active⟩, hrange.first_eq hv, hrange.count_eq hv,
    hrange.buffer_eq hv hread] at hmac
  exact hv.verifyRange_valid (hrange.sectors_le hv) hmac j hj

/-- A read of valid sectors that the system carries out is answered. -/
theorem V2Geometry.readSectors_answered (hv : V2Geometry v host.length) {size : Nat}
    {byteOffset : UInt64} (hrange : v.RangeOk byteOffset size)
    (hvalid : ∀ j < v.rangeCount size, TagValid P v host (v.rangeFirst byteOffset + j))
    {uninit : RandStream} {w : Volume} {out : Bytes}
    (h : v.untagged.readSectors C P host size byteOffset
      { data := false, tags := false, uninit := uninit } = .ok (w, out)) :
    ∃ v', v.readSectors C P host size byteOffset
      { data := false, tags := false, uninit := uninit } = .ok (v', out) := by
  obtain ⟨halign, buffer, -, hread, hlen, -, hout, -⟩ :=
    (readSectors_iff (v := v.untagged) hv.skips_none).mp h
  refine ⟨_, (readSectors_iff hv.skips_none).mpr
    ⟨halign, buffer, v.v2Mac, hread, hlen, ?_, hout, rfl⟩⟩
  split
  · rename_i hactive
    rw [hrange.first_eq hv, hrange.count_eq hv, hrange.buffer_eq hv hread]
    refine verifyRange_ok hv hvalid (hrange.sectors_le hv) (Nat.pos_of_ne_zero ?_) uninit
    intro hzero
    have hempty := hrange.size_eq
    rw [hzero, Nat.zero_mul] at hempty
    rw [← hempty] at hactive
    exact hactive.1 rfl
  · rfl

/-- Without the table a range of whole sectors is read. -/
theorem V2Geometry.untagged_reads (C : Ciphers) (P : Primitives) (hv : V2Geometry v host.length)
    (hmax : v.sectorSize.toNat ≤ 4096) {size : Nat} {byteOffset : UInt64}
    (hrange : v.RangeOk byteOffset size) (uninit : RandStream) :
    ∃ w out, v.untagged.readSectors C P host size byteOffset
        { data := false, tags := false, uninit := uninit } = .ok (w, out) ∧ out.length = size ∧
      ∀ j < v.rangeCount size, slice out (j * v.sectorSize.toNat) v.sectorSize.toNat =
        v.plainAt C host (v.rangeFirst byteOffset + j) := by
  have hread := hv.readable_untagged (P := P) hmax
  have hin : v.rangeFirst byteOffset + v.rangeCount size ≤ v.untagged.wholeSectors := by
    have hwhole : v.untagged.wholeSectors = v.v2Mac.dataSectors.toNat := hv.wholeSectors_eq
    rw [hwhole]
    exact hrange.sectors_le hv
  obtain ⟨w, hw⟩ := hread.readSectors_eq C hin hrange.offset_eq.symm uninit
  have hsize : v.rangeCount size * v.untagged.sectorSize.toNat = size := hrange.size_eq
  rw [hsize] at hw
  have hlen := hread.length_wholeText (C := C)
  have hle := Nat.mul_le_mul_right v.sectorSize.toNat hin
  rw [Nat.add_mul, hrange.size_eq] at hle
  refine ⟨w, _, hw, ?_, ?_⟩
  · refine length_slice ?_
    rw [hlen]
    exact hle
  · intro j hj
    have hnext := Nat.mul_le_mul_right v.sectorSize.toNat (Nat.succ_le_of_lt hj)
    rw [Nat.succ_mul, hrange.size_eq] at hnext
    have hsector : slice (v.untagged.wholeText C host)
        ((v.rangeFirst byteOffset + j) * v.untagged.sectorSize.toNat)
        v.untagged.sectorSize.toNat = _ := hread.slice_wholeText (by omega)
    rw [hv.plainSector_untagged] at hsector
    rw [slice_slice hnext, ← hsector, Nat.add_mul]
    rfl

/-- **A read of whole sectors**, if it is answered: the plaintext of each of them, whose tags are
    valid, and only the counter of the volume changes. -/
theorem V2Geometry.readSectors_ok (hv : V2Geometry v host.length) (hmax : v.sectorSize.toNat ≤ 4096)
    {size : Nat} {byteOffset : UInt64} (hrange : v.RangeOk byteOffset size) {faults : ReadFaults}
    {v' : Volume} {out : Bytes}
    (h : v.readSectors C P host size byteOffset faults = .ok (v', out)) :
    v' = { v with totalDataRead := v.totalDataRead + UInt64.ofNat size } ∧ out.length = size ∧
      ∀ j < v.rangeCount size, TagValid P v host (v.rangeFirst byteOffset + j) ∧
        slice out (j * v.sectorSize.toNat) v.sectorSize.toNat =
          v.plainAt C host (v.rangeFirst byteOffset + j) := by
  obtain ⟨hv', hvalid, w, hw⟩ := hv.readSectors_untagged hrange h
  obtain ⟨w', out', hw', hlen, hsectors⟩ := hv.untagged_reads C P hmax hrange faults.uninit
  rw [hw] at hw'
  obtain ⟨-, rfl⟩ := Prod.mk.inj (Except.ok.inj hw')
  exact ⟨hv', hlen, fun j hj => ⟨hvalid j hj, hsectors j hj⟩⟩

/-- **A read of valid sectors** fails only where the system does. -/
theorem V2Geometry.readSectors_isOk (C : Ciphers) (hv : V2Geometry v host.length)
    (hmax : v.sectorSize.toNat ≤ 4096) {size : Nat} {byteOffset : UInt64}
    (hrange : v.RangeOk byteOffset size)
    (hvalid : ∀ j < v.rangeCount size, TagValid P v host (v.rangeFirst byteOffset + j))
    {faults : ReadFaults} (hdata : faults.data = false) (htags : faults.tags = false) :
    ∃ r, v.readSectors C P host size byteOffset faults = .ok r := by
  obtain ⟨w, out, hw, -, -⟩ := hv.untagged_reads C P hmax hrange faults.uninit
  obtain ⟨v', hv'⟩ := hv.readSectors_answered hrange hvalid hw
  cases faults with
  | mk data tags uninit =>
    simp only at hdata htags hv'
    subst hdata htags
    exact ⟨_, hv'⟩

/-! ## Writing a range -/

/-- The ciphertext of a write: each of its sectors decrypts to what was written there. -/
theorem V2Geometry.writeCt_sectors (P : Primitives) (hv : V2Geometry v host.length)
    (hmax : v.sectorSize.toNat ≤ 4096) {op : WriteRequest}
    (hrange : v.RangeOk op.byteOffset op.buffer.length) {ct : Bytes}
    (hct : v.writeCt C op = some ct) :
    ct.length = op.buffer.length ∧
      ∀ j < v.rangeCount op.buffer.length,
        v.ea.decryptBuffer C (slice ct (j * v.sectorSize.toNat) v.sectorSize.toNat)
            (v.sectorUnit (v.rangeFirst op.byteOffset + j)) =
          some (slice op.buffer (j * v.sectorSize.toNat) v.sectorSize.toNat) := by
  have hunits := hv.sectorSize_units
  have hread := hv.readable_untagged (P := P) hmax
  have hhost := hv.hostOffset_eq hrange
  rw [← hrange.offset_eq] at hhost
  have hlen : ct.length = op.buffer.length := EncryptionAlgorithm.length_encryptSectors hct
  have hall : (op.length / v.sectorSize * v.sectorSize).toNat = op.buffer.length := by
    have hlt := op.length_buffer
    rw [UInt64.toNat_mul, UInt64.toNat_div, op.toNat_length]
    have hsize : op.buffer.length / v.sectorSize.toNat * v.sectorSize.toNat = op.buffer.length :=
      hrange.size_eq
    rw [hsize]
    exact Nat.mod_eq_of_lt (by omega)
  rw [writeCt, EncryptionAlgorithm.encryptSectors] at hct
  simp only [hall, List.take_length, List.drop_length, List.append_nil, Option.map_id'] at hct
  have hback := EncryptionAlgorithm.decryptBuffer_encryptBuffer hct
  refine ⟨hlen, ?_⟩
  intro j hj
  have hnext := Nat.mul_le_mul_right v.sectorSize.toNat (Nat.succ_le_of_lt hj)
  rw [Nat.succ_mul, hrange.size_eq] at hnext
  have hmul : ∀ k, k * v.sectorSize.toNat % 512 = 0 := by
    intro k
    rw [Nat.mul_mod, hunits, Nat.mul_zero, Nat.zero_mod]
  have hwhole : ct.length % 512 = 0 := by
    rw [hlen, ← hrange.size_eq]
    exact hmul _
  obtain ⟨text, htext, -, hpart⟩ := modeBuffer_slice C v.ea .decryptDataUnits hwhole
    (j * v.sectorSize.toNat) v.sectorSize.toNat (hmul j) hunits (by rw [hlen]; exact hnext)
    (v.hostOffset op.byteOffset / v.sectorSize * v.sectorSize / encryptionDataUnitSize)
  obtain rfl := Option.some.inj (hback.symm.trans htext)
  have hin : v.rangeFirst op.byteOffset + v.rangeCount op.buffer.length ≤
      v.untagged.wholeSectors := by
    have hsectors : v.untagged.wholeSectors = v.v2Mac.dataSectors.toNat := hv.wholeSectors_eq
    rw [hsectors]
    exact hrange.sectors_le hv
  have hunit : v.hostOffset op.byteOffset / v.sectorSize * v.sectorSize / encryptionDataUnitSize +
      UInt64.ofNat (j * v.sectorSize.toNat / 512) =
        v.untagged.sectorUnit (v.rangeFirst op.byteOffset + j) :=
    unit_add hread hhost (by omega) rfl
  rw [hunit] at hpart
  exact hpart

/-- What a write of whole sectors does. A call that the system breaks off leaves the sectors of its
    range undetermined, and those alone. -/
inductive WriteEffect (C : Ciphers) (P : Primitives) (v : Volume) (host : Bytes)
    (op : WriteRequest) : (Volume × Bytes) × Except Exception Unit → Prop
  /-- Refused, and nothing is stored. -/
  | refused (v' : Volume) (e : Exception) (counted : v' = v ∨ v' = v.triggerProtection)
      (other : e ≠ .systemException) : WriteEffect C P v host op ((v', host), .error e)
  | torn (host' : Bytes) (short : op.dataAccepts ≠ none ∨ op.tagsAccept ≠ none)
      (length : host'.length = host.length)
      (frame : ∀ i < v.v2Mac.dataSectors.toNat, i < v.rangeFirst op.byteOffset ∨
        v.rangeFirst op.byteOffset + v.rangeCount op.buffer.length ≤ i →
        v.sectorAt host' i = v.sectorAt host i ∧ v.slotAt host' i = v.slotAt host i) :
      WriteEffect C P v host op ((v, host'), .error .systemException)
  | stored (host' : Bytes) (length : host'.length = host.length)
      (frame : ∀ i < v.v2Mac.dataSectors.toNat, i < v.rangeFirst op.byteOffset ∨
        v.rangeFirst op.byteOffset + v.rangeCount op.buffer.length ≤ i →
        v.sectorAt host' i = v.sectorAt host i ∧ v.slotAt host' i = v.slotAt host i)
      (inside : ∀ j < v.rangeCount op.buffer.length,
        TagValid P v host' (v.rangeFirst op.byteOffset + j) ∧
        v.plainAt C host' (v.rangeFirst op.byteOffset + j) =
          slice op.buffer (j * v.sectorSize.toNat) v.sectorSize.toNat) :
      WriteEffect C P v host op ((v.countWrite op, host'), .ok ())

theorem checkWrite_ne_system {v' : Volume} {op : WriteRequest} {e : Exception}
    (h : v.checkWrite op = (v', .error e)) : e ≠ .systemException := by
  rintro rfl
  unfold checkWrite at h
  split at h
  · simp at h
  · split at h
    · simp at h
    · split at h
      · simp at h
      · split at h
        · simp at h
        · split at h
          · simp at h
          · simp at h

/-- A patch of the ciphertext of a range leaves the other sectors and the table. -/
theorem V2Geometry.patch_data (hv : V2Geometry v host.length) {first count i : Nat}
    (hin : first + count ≤ v.v2Mac.dataSectors.toNat) {data : Bytes}
    (hlen : data.length ≤ count * v.sectorSize.toNat) (hi : i < v.v2Mac.dataSectors.toNat)
    (hout : i < first ∨ first + count ≤ i) :
    v.sectorAt (patch host (v.volumeDataOffset.toNat + first * v.sectorSize.toNat) data) i =
        v.sectorAt host i := by
  have hend := (hv.sector_le hi).1
  have hfits := hv.fits
  have hbase := hv.base_eq
  have hwhole := hv.whole
  have hle := Nat.mul_le_mul_right v.sectorSize.toNat hin
  rw [Nat.add_mul] at hle
  refine slice_patch_disjoint (by omega) ?_
  cases hout with
  | inl hbefore =>
    have hnext := Nat.mul_le_mul_right v.sectorSize.toNat (Nat.succ_le_of_lt hbefore)
    rw [Nat.succ_mul] at hnext
    exact .inl (by omega)
  | inr hbehind =>
    have hnext := Nat.mul_le_mul_right v.sectorSize.toNat hbehind
    rw [Nat.add_mul] at hnext
    exact .inr (by omega)

theorem V2Geometry.slotAt_patch_data (hv : V2Geometry v host.length) {first count i : Nat}
    (hin : first + count ≤ v.v2Mac.dataSectors.toNat) {data : Bytes}
    (hlen : data.length ≤ count * v.sectorSize.toNat) :
    v.slotAt (patch host (v.volumeDataOffset.toNat + first * v.sectorSize.toNat) data) i =
      v.slotAt host i := by
  have hfits := hv.fits
  have hbase := hv.base_eq
  have hwhole := hv.whole
  have hle := Nat.mul_le_mul_right v.sectorSize.toNat hin
  rw [Nat.add_mul] at hle
  exact slice_patch_disjoint (by omega) (.inr (by omega))

/-- **A write of whole sectors.** -/
theorem V2Geometry.writeSectors_effect (C : Ciphers) (P : Primitives)
    (hv : V2Geometry v host.length) (hmax : v.sectorSize.toNat ≤ 4096) {op : WriteRequest}
    (hrange : v.RangeOk op.byteOffset op.buffer.length) :
    WriteEffect C P v host op (writeSectors C P (v, host) op) := by
  rcases checkWrite_cases v op with ⟨e, hc, -⟩ | hc | ⟨hc, -, -, hpos⟩
  · simp only [writeSectors, hc]
    exact .refused v e (.inl rfl) (checkWrite_ne_system hc)
  · simp only [writeSectors, hc]
    exact .refused _ _ (.inr rfl) (by simp)
  simp only [writeSectors, hc]
  cases hct : v.writeCt C op with
  | none => exact .refused v .fatal (.inl rfl) (by simp)
  | some ct =>
    obtain ⟨hlen, hplain⟩ := hv.writeCt_sectors P hmax hrange hct
    have hsize := hrange.size_eq
    have hin := hrange.sectors_le hv
    have hhost := hv.hostOffset_eq hrange
    rw [← hrange.offset_eq] at hhost
    have hbuffer : 0 < op.buffer.length := by
      rw [← op.toNat_length]
      exact UInt64.le_iff_toNat_le.mp hpos
    have hcount : 0 < v.rangeCount op.buffer.length := by
      refine Nat.pos_of_ne_zero ?_
      intro hzero
      rw [hzero, Nat.zero_mul] at hsize
      omega
    have hfits := hv.fits
    have hbase := hv.base_eq
    have hwhole := hv.whole
    have hle := Nat.mul_le_mul_right v.sectorSize.toNat hin
    rw [Nat.add_mul, hsize] at hle
    have hfirst := hrange.first_eq hv
    have hsectors : op.length / v.sectorSize = UInt64.ofNat (v.rangeCount op.buffer.length) :=
      hrange.count_eq hv
    have hwrite := @File.writeAt_inside host ct (v.hostOffset op.byteOffset) op.dataAccepts
      (by rw [hhost, hlen]; omega) hv.addressable
    rw [hhost] at hwrite
    simp only [hwrite]
    by_cases hall : File.taken ct.length op.dataAccepts = ct.length
    · -- the ciphertext is stored, and the tags as far as they are taken
      have hpatch : (patch host (v.volumeDataOffset.toNat +
          v.rangeFirst op.byteOffset * v.sectorSize.toNat) ct).length = host.length :=
        length_patch (by rw [hlen]; omega)
      have hv1 := hv.of_length hpatch
      have hupdate := @V2Geometry.updateRange_eq P v _ _ _ hv1 hin hcount ct op.tagsAccept
      simp only [hall, decide_true, Bool.not_true, Bool.false_eq_true, if_false, List.take_length,
        hfirst, hsectors, hupdate]
      have htagsLen := V2SectorMacIo.length_tags P v.v2Mac ct
        (UInt64.ofNat (v.rangeFirst op.byteOffset))
        (UInt64.ofNat (v.rangeCount op.buffer.length))
      rw [toNat_sector (v := v) (by omega)] at htagsLen
      have htable := Nat.mul_le_mul_right v2MacTagLen hin
      rw [Nat.add_mul] at htable
      have hframe : ∀ tags : Bytes, tags.length ≤ v.rangeCount op.buffer.length * v2MacTagLen →
          ∀ i < v.v2Mac.dataSectors.toNat, i < v.rangeFirst op.byteOffset ∨
            v.rangeFirst op.byteOffset + v.rangeCount op.buffer.length ≤ i →
          v.sectorAt (patch (patch host (v.volumeDataOffset.toNat +
              v.rangeFirst op.byteOffset * v.sectorSize.toNat) ct)
            (v.v2Mac.tableBaseOffset.toNat + v.rangeFirst op.byteOffset * v2MacTagLen) tags) i =
              v.sectorAt host i ∧
          v.slotAt (patch (patch host (v.volumeDataOffset.toNat +
              v.rangeFirst op.byteOffset * v.sectorSize.toNat) ct)
            (v.v2Mac.tableBaseOffset.toNat + v.rangeFirst op.byteOffset * v2MacTagLen) tags) i =
              v.slotAt host i := by
        intro tags htags i hi hout
        rw [hv1.sectorAt_patch_table hi (by omega) (by omega),
          hv1.slotAt_patch_table hin htags hout,
          hv.patch_data hin (by rw [hlen, hsize]) hi hout,
          hv.slotAt_patch_data hin (by rw [hlen, hsize])]
        exact ⟨rfl, rfl⟩
      by_cases htags : File.taken (v.rangeCount op.buffer.length * v2MacTagLen) op.tagsAccept =
          v.rangeCount op.buffer.length * v2MacTagLen
      · rw [if_pos htags, htags, ← htagsLen, List.take_length]
        refine .stored _ ?_ (hframe _ (Nat.le_of_eq htagsLen)) ?_
        · rw [length_patch (by omega), hpatch]
        · intro j hj
          have hnext := Nat.mul_le_mul_right v.sectorSize.toNat (Nat.succ_le_of_lt hj)
          rw [Nat.succ_mul, hsize] at hnext
          have hsector : v.sectorAt (patch host (v.volumeDataOffset.toNat +
              v.rangeFirst op.byteOffset * v.sectorSize.toNat) ct)
              (v.rangeFirst op.byteOffset + j) =
                slice ct (j * v.sectorSize.toNat) v.sectorSize.toNat := by
            rw [sectorAt, Nat.add_mul, ← Nat.add_assoc]
            exact slice_patch_within (by omega) (by rw [hlen]; exact hnext)
          constructor
          · rw [TagValid, hv1.sectorAt_patch_table (by omega) (by omega) (by omega), hsector,
              hv1.slotAt_patch_tags hin ct hj]
          · rw [plainAt, hv1.sectorAt_patch_table (by omega) (by omega) (by omega), hsector,
              hplain j hj, Option.getD_some]
      · rw [if_neg htags]
        refine .torn _ (.inr ?_) ?_ (hframe _ ?_)
        · intro hnone
          rw [hnone, File.taken_none] at htags
          exact htags rfl
        · rw [length_patch (by rw [List.length_take]; omega), hpatch]
        · rw [List.length_take, htagsLen]
          exact Nat.min_le_right _ _
    · -- the ciphertext is broken off, and no tag is written
      rw [decide_eq_false hall, Bool.not_false, if_pos rfl]
      have htaken : (ct.take (File.taken ct.length op.dataAccepts)).length ≤
          v.rangeCount op.buffer.length * v.sectorSize.toNat := by
        rw [hsize, ← hlen, List.length_take]
        exact Nat.min_le_right _ _
      refine .torn _ (.inl ?_) ?_ ?_
      · intro hnone
        rw [hnone, File.taken_none] at hall
        exact hall rfl
      · refine length_patch ?_
        rw [hsize] at htaken
        omega
      · intro i hi hout
        exact ⟨hv.patch_data hin htaken hi hout, hv.slotAt_patch_data hin htaken⟩

end

/-! ## Sessions -/

/-- What is known of the data of the sectors. -/
abbrev Contents := Nat → Option Bytes

/-- The sectors of a range become known: they hold what stands in `data`. -/
def Contents.settle (v : Volume) (byteOffset : UInt64) (data : Bytes) (k : Contents) : Contents :=
  fun i =>
    if v.rangeFirst byteOffset ≤ i ∧ i < v.rangeFirst byteOffset + v.rangeCount data.length then
      some (slice data ((i - v.rangeFirst byteOffset) * v.sectorSize.toNat) v.sectorSize.toNat)
    else k i

/-- The sectors of a range become unknown. -/
def Contents.lose (v : Volume) (byteOffset : UInt64) (size : Nat) (k : Contents) : Contents :=
  fun i =>
    if v.rangeFirst byteOffset ≤ i ∧ i < v.rangeFirst byteOffset + v.rangeCount size then none
    else k i

/-- A call on the open volume. -/
inductive Call
  | write (op : WriteRequest)
  | read (byteOffset : UInt64) (size : Nat) (faults : ReadFaults)

inductive Answer
  | written (r : Except Exception Unit)
  | data (r : Except Exception Bytes)

/-- The volume and the host behind a call, and its answer. -/
def callStep (C : Ciphers) (P : Primitives) (s : Volume × Bytes) : Call → (Volume × Bytes) × Answer
  | .write op => ((writeSectors C P s op).1, .written (writeSectors C P s op).2)
  | .read byteOffset size faults =>
    match s.1.readSectors C P s.2 size byteOffset faults with
    | .ok (v, out) => ((v, s.2), .data (.ok out))
    | .error e => (s, .data (.error e))

/-- What an answer says of the data. -/
def observe (v : Volume) (k : Contents) : Call → Answer → Contents
  | .write op, .written (.ok ()) => k.settle v op.byteOffset op.buffer
  | .write op, .written (.error .systemException) => k.lose v op.byteOffset op.buffer.length
  | .read byteOffset _ _, .data (.ok out) => k.settle v byteOffset out
  | _, _ => k

/-- What an answer must be: data that is known, and no failure that the system has no part in. -/
def Faithful (v : Volume) (k : Contents) : Call → Answer → Prop
  | .write op, .written (.error .systemException) =>
      op.dataAccepts ≠ none ∨ op.tagsAccept ≠ none
  | .read byteOffset size _, .data (.ok out) =>
      out.length = size ∧ ∀ j < v.rangeCount size, ∀ d, k (v.rangeFirst byteOffset + j) = some d →
        slice out (j * v.sectorSize.toNat) v.sectorSize.toNat = d
  | .read byteOffset size faults, .data (.error _) =>
      faults.data = true ∨ faults.tags = true ∨
        ∃ j < v.rangeCount size, k (v.rangeFirst byteOffset + j) = none
  | _, _ => True

/-- The call is for whole sectors of the volume. -/
def Call.Inside (v : Volume) : Call → Prop
  | .write op => v.RangeOk op.byteOffset op.buffer.length
  | .read byteOffset size _ => v.RangeOk byteOffset size

/-- The volume up to its counters and the trigger of the protection. -/
def Recounted (v w : Volume) : Prop :=
  ∃ triggered top read written, w = { v with
    hiddenVolumeProtectionTriggered := triggered
    topWriteOffset := top
    totalDataRead := read
    totalDataWritten := written }

/-- What is known holds of the host. -/
structure Session (C : Ciphers) (P : Primitives) (v : Volume) (s : Volume × Bytes)
    (k : Contents) : Prop where
  volume : Recounted v s.1
  geometry : V2Geometry v s.2.length
  known : ∀ i < v.v2Mac.dataSectors.toNat, ∀ d, k i = some d →
    TagValid P v s.2 i ∧ v.plainAt C s.2 i = d

section
variable {C : Ciphers} {P : Primitives} {v w : Volume} {host : Bytes} {k : Contents}

theorem Recounted.refl (v : Volume) : Recounted v v := ⟨_, _, _, _, rfl⟩

theorem Recounted.trans {u : Volume} (h : Recounted v w) (h' : Recounted w u) :
    Recounted v u := by
  obtain ⟨_, _, _, _, rfl⟩ := h
  obtain ⟨_, _, _, _, rfl⟩ := h'
  exact ⟨_, _, _, _, rfl⟩

theorem recounted_triggerProtection (v : Volume) : Recounted v v.triggerProtection :=
  ⟨_, _, _, _, rfl⟩

theorem recounted_countWrite (v : Volume) (op : WriteRequest) : Recounted v (v.countWrite op) :=
  ⟨_, _, _, _, rfl⟩

theorem V2Geometry.recounted {n : Nat} (hv : V2Geometry v n) (h : Recounted v w) :
    V2Geometry w n := by
  obtain ⟨_, _, _, _, rfl⟩ := h
  exact ⟨hv.active, hv.ignoreTags, hv.notSystem, hv.complete, hv.mac_sectorSize,
    hv.sectorSize_pos, hv.sectorSize_units, hv.whole, hv.base_eq, hv.fits, hv.addressable⟩

theorem RangeOk.recounted {byteOffset : UInt64} {size : Nat} (hr : v.RangeOk byteOffset size)
    (h : Recounted v w) : w.RangeOk byteOffset size := by
  obtain ⟨_, _, _, _, rfl⟩ := h
  exact ⟨hr.offset_aligned, hr.size_aligned, hr.inside⟩

/-- What is known of a sector stays so while neither the sector nor its slot changes. -/
theorem Session.kept {host' : Bytes} {i : Nat} {d : Bytes} (h : Session C P v (w, host) k)
    (hi : i < v.v2Mac.dataSectors.toNat) (hd : k i = some d)
    (hsame : v.sectorAt host' i = v.sectorAt host i ∧ v.slotAt host' i = v.slotAt host i) :
    TagValid P v host' i ∧ v.plainAt C host' i = d := by
  obtain ⟨hvalid, hplain⟩ := h.known i hi d hd
  rw [TagValid, plainAt, hsame.1, hsame.2]
  exact ⟨hvalid, hplain⟩

/-- Sectors that become known hold what they are known for, and the others what they held. -/
theorem Session.settle {w' : Volume} {host' data : Bytes} {byteOffset : UInt64}
    (h : Session C P v (w, host) k) (hw : Recounted v w') (hlen : host'.length = host.length)
    (hframe : ∀ i < v.v2Mac.dataSectors.toNat, i < v.rangeFirst byteOffset ∨
        v.rangeFirst byteOffset + v.rangeCount data.length ≤ i →
      v.sectorAt host' i = v.sectorAt host i ∧ v.slotAt host' i = v.slotAt host i)
    (hinside : ∀ j < v.rangeCount data.length, TagValid P v host' (v.rangeFirst byteOffset + j) ∧
      v.plainAt C host' (v.rangeFirst byteOffset + j) =
        slice data (j * v.sectorSize.toNat) v.sectorSize.toNat) :
    Session C P v (w', host') (k.settle v byteOffset data) := by
  refine ⟨hw, h.geometry.of_length hlen, ?_⟩
  intro i hi d hd
  rw [Contents.settle] at hd
  split at hd
  · rename_i hrange
    obtain ⟨j, rfl⟩ := Nat.exists_eq_add_of_le hrange.1
    rw [Nat.add_sub_cancel_left] at hd
    obtain ⟨hvalid, hplain⟩ := hinside j (by omega)
    exact ⟨hvalid, hplain.trans (Option.some.inj hd)⟩
  · rename_i hout
    exact h.kept hi hd (hframe i hi (by omega))

/-- Sectors that become unknown are free to hold anything. -/
theorem Session.lose {w' : Volume} {host' : Bytes} {byteOffset : UInt64} {size : Nat}
    (h : Session C P v (w, host) k) (hw : Recounted v w') (hlen : host'.length = host.length)
    (hframe : ∀ i < v.v2Mac.dataSectors.toNat, i < v.rangeFirst byteOffset ∨
        v.rangeFirst byteOffset + v.rangeCount size ≤ i →
      v.sectorAt host' i = v.sectorAt host i ∧ v.slotAt host' i = v.slotAt host i) :
    Session C P v (w', host') (k.lose v byteOffset size) := by
  refine ⟨hw, h.geometry.of_length hlen, ?_⟩
  intro i hi d hd
  rw [Contents.lose] at hd
  split at hd
  · cases hd
  · rename_i hout
    exact h.kept hi hd (hframe i hi (by omega))

theorem Session.recount {w' : Volume} (h : Session C P v (w, host) k) (hw : Recounted w w') :
    Session C P v (w', host) k :=
  ⟨h.volume.trans hw, h.geometry, h.known⟩

/-- A refused write says nothing. -/
theorem observe_refused {op : WriteRequest} {e : Exception} (he : e ≠ .systemException) :
    observe v k (.write op) (.written (.error e)) = k ∧
      Faithful v k (.write op) (.written (.error e)) := by
  cases e with
  | systemException => exact absurd rfl he
  | _ => exact ⟨rfl, trivial⟩

/-- **A write of a session.** -/
theorem Session.write (h : Session C P v (w, host) k) (hmax : v.sectorSize.toNat ≤ 4096)
    {op : WriteRequest} (hin : v.RangeOk op.byteOffset op.buffer.length) :
    Session C P v (callStep C P (w, host) (.write op)).1
        (observe v k (.write op) (callStep C P (w, host) (.write op)).2) ∧
      Faithful v k (.write op) (callStep C P (w, host) (.write op)).2 := by
  obtain ⟨triggered, top, read, written, rfl⟩ := h.volume
  have hv : V2Geometry _ host.length := h.geometry.recounted h.volume
  have heffect := hv.writeSectors_effect C P hmax (hin.recounted h.volume)
  rw [callStep]
  generalize writeSectors C P _ op = r at heffect ⊢
  cases heffect with
  | refused v' e counted other =>
    have hcount : Recounted { v with
        hiddenVolumeProtectionTriggered := triggered
        topWriteOffset := top
        totalDataRead := read
        totalDataWritten := written } v' := by
      cases counted with
      | inl hsame =>
        rw [hsame]
        exact Recounted.refl _
      | inr htriggered =>
        rw [htriggered]
        exact recounted_triggerProtection _
    obtain ⟨hobserve, hfaithful⟩ := @observe_refused v k op e other
    refine ⟨?_, hfaithful⟩
    rw [hobserve]
    exact h.recount hcount
  | torn host' short length frame =>
    exact ⟨h.lose h.volume length frame, short⟩
  | stored host' length frame inside =>
    exact ⟨h.settle (h.volume.trans (recounted_countWrite _ op)) length frame inside, trivial⟩

/-- **A read of a session.** -/
theorem Session.read (h : Session C P v (w, host) k) (hmax : v.sectorSize.toNat ≤ 4096)
    {byteOffset : UInt64} {size : Nat} (hin : v.RangeOk byteOffset size) (faults : ReadFaults) :
    Session C P v (callStep C P (w, host) (.read byteOffset size faults)).1
        (observe v k (.read byteOffset size faults)
          (callStep C P (w, host) (.read byteOffset size faults)).2) ∧
      Faithful v k (.read byteOffset size faults)
        (callStep C P (w, host) (.read byteOffset size faults)).2 := by
  obtain ⟨triggered, top, read, written, rfl⟩ := h.volume
  have hv : V2Geometry _ host.length := h.geometry.recounted h.volume
  have hsectors := hin.sectors_le h.geometry
  rw [callStep]
  cases hread : readSectors C P _ host size byteOffset faults with
  | ok r =>
    obtain ⟨v', out⟩ := r
    obtain ⟨rfl, hlen, hrange⟩ := hv.readSectors_ok hmax (hin.recounted h.volume) hread
    refine ⟨h.settle (h.volume.trans ⟨_, _, _, _, rfl⟩) rfl (fun _ _ _ => ⟨rfl, rfl⟩) ?_,
      hlen, ?_⟩
    · intro j hj
      rw [hlen] at hj
      exact ⟨(hrange j hj).1, (hrange j hj).2.symm⟩
    · intro j hj d hd
      exact (hrange j hj).2.trans (h.known _ (by omega) d hd).2
  | error e =>
    refine ⟨h, ?_⟩
    by_contra hno
    simp only [Faithful, not_or, not_exists, not_and, Bool.not_eq_true] at hno
    have hvalid : ∀ j < v.rangeCount size, TagValid P v host (v.rangeFirst byteOffset + j) := by
      intro j hj
      cases hk : k (v.rangeFirst byteOffset + j) with
      | none => exact absurd hk (hno.2.2 j hj)
      | some d => exact (h.known _ (by omega) d hk).1
    obtain ⟨r, hr⟩ := hv.readSectors_isOk C hmax (hin.recounted h.volume) hvalid hno.1 hno.2.1
    rw [hread] at hr
    cases hr

/-- **A call of a session.** -/
theorem Session.step {s : Volume × Bytes} {c : Call} (h : Session C P v s k)
    (hmax : v.sectorSize.toNat ≤ 4096) (hc : c.Inside v) :
    Session C P v (callStep C P s c).1 (observe v k c (callStep C P s c).2) ∧
      Faithful v k c (callStep C P s c).2 := by
  cases c with
  | write op => exact Session.write h hmax hc
  | read byteOffset size faults => exact Session.read h hmax hc faults

/-- No call changes the length of the host. -/
theorem Session.length_host {s : Volume × Bytes} {c : Call} (h : Session C P v s k)
    (hmax : v.sectorSize.toNat ≤ 4096) (hc : c.Inside v) :
    (callStep C P s c).1.2.length = s.2.length := by
  obtain ⟨w, host⟩ := s
  obtain ⟨triggered, top, read, written, rfl⟩ := h.volume
  have hv : V2Geometry _ host.length := h.geometry.recounted h.volume
  cases c with
  | write op =>
    have heffect := hv.writeSectors_effect C P hmax (RangeOk.recounted hc h.volume)
    rw [callStep]
    generalize writeSectors C P _ op = r at heffect ⊢
    cases heffect with
    | refused => rfl
    | torn host' short length frame => exact length
    | stored host' length frame inside => exact length
  | read byteOffset size faults =>
    rw [callStep]
    split <;> rfl

/-- **Sessions on a version 2 volume are faithful**, whatever writes the system breaks off and
    whatever reads it fails: each answer agrees with what the answers before it say, and so does
    the host in the end. -/
theorem session_faithful (C : Ciphers) (P : Primitives) {v : Volume} {host : Bytes} {k : Contents}
    (hv : V2Geometry v host.length) (hmax : v.sectorSize.toNat ≤ 4096)
    (hknown : ∀ i < v.v2Mac.dataSectors.toNat, ∀ d, k i = some d →
      TagValid P v host i ∧ v.plainAt C host i = d)
    (calls : List Call) (hcalls : ∀ c ∈ calls, c.Inside v) :
    Lib.Accepted (observe v) (Faithful v) k (transcript (callStep C P) (v, host) calls) ∧
      ∀ i < v.v2Mac.dataSectors.toNat, ∀ d,
        observed (observe v) k (transcript (callStep C P) (v, host) calls) i = some d →
        TagValid P v (run (callStep C P) (v, host) calls).1.2 i ∧
          v.plainAt C (run (callStep C P) (v, host) calls).1.2 i = d := by
  have hstep : ∀ s k c, Session C P v s k → Call.Inside v c →
      Session C P v (callStep C P s c).1 (observe v k c (callStep C P s c).2) ∧
        Faithful v k c (callStep C P s c).2 :=
    fun s k c h hc => h.step hmax hc
  have hstart : Session C P v (v, host) k := ⟨Recounted.refl v, hv, hknown⟩
  obtain ⟨haccepted, hend⟩ := run_accepted hstep hstart hcalls
  exact ⟨haccepted, hend.known⟩

end

/-- A write that is broken off, one that is stored, and a read of the sector. -/
def demoCalls : List Call :=
  [.write { sectorWrite 0 with dataAccepts := some 100 }, .write (sectorWrite 0),
    .read 0 512 { data := false, tags := false, uninit := fun _ => 0 }]

theorem session_faithful_demo :
    Lib.Accepted (observe (outerVolume .demo 655360 786432))
      (Faithful (outerVolume .demo 655360 786432)) (fun _ => none) (transcript (callStep .demo .demo)
        (outerVolume .demo 655360 786432, List.replicate 1048576 0) demoCalls) ∧
    ∀ i < (outerVolume .demo 655360 786432).v2Mac.dataSectors.toNat, ∀ d,
      observed (observe (outerVolume .demo 655360 786432)) (fun _ => none)
        (transcript (callStep .demo .demo)
          (outerVolume .demo 655360 786432, List.replicate 1048576 0) demoCalls) i = some d →
      TagValid .demo (outerVolume .demo 655360 786432) (run (callStep .demo .demo)
          (outerVolume .demo 655360 786432, List.replicate 1048576 0) demoCalls).1.2 i ∧
        (outerVolume .demo 655360 786432).plainAt .demo (run (callStep .demo .demo)
          (outerVolume .demo 655360 786432, List.replicate 1048576 0) demoCalls).1.2 i = d := by
  have hrange : (outerVolume .demo 655360 786432).RangeOk 0 512 :=
    ⟨by decide, by decide, by decide⟩
  have hbuffer : (sectorWrite 0).buffer.length = 512 := List.length_replicate
  refine session_faithful .demo .demo (outerVolume_geometry .demo 655360 786432) (by decide)
    (fun _ _ _ hd => by cases hd) demoCalls ?_
  intro c hc
  simp only [demoCalls, List.mem_cons, List.not_mem_nil, or_false] at hc
  rcases hc with rfl | rfl | rfl
  · show RangeOk _ 0 (sectorWrite 0).buffer.length
    rw [hbuffer]
    exact hrange
  · show RangeOk _ 0 (sectorWrite 0).buffer.length
    rw [hbuffer]
    exact hrange
  · exact hrange

end Volume

end VeraCrypt
