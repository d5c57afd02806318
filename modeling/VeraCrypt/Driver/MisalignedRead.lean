import VeraCrypt.Driver.EncryptedIoQueue
import VeraCrypt.Lib.BlockDevice

/-!
# Reads of the boot drive (`MainThreadProc` of `Driver/EncryptedIoQueue.c`)

A read of the boot drive is cut into fragments. The I/O thread fetches each, from the remapped area
where the running system is a hidden one, and the completion thread decrypts the part of it that is
in the encrypted area and puts the substituted sectors into it. A read whose offset is not a
multiple of a data unit is answered by the main thread itself.

`fragments_byte` says what a byte of a regular read is, `misaligned_byte` what a byte of a
misaligned one is, and `misalignedRead_iff` when the two agree.

Offsets are those of requests on the drive and do not wrap.
-/

set_option autoImplicit false

namespace VeraCrypt
namespace Driver

open Lib

/-! ## The queue -/

/-- An entry of `DCS_DISK_ENTRY_LIST`; only those of the type `DE_Sectors` count. -/
inductive DiskEntry where
  | sectors (start length offset : Nat)
  | other

/-- `SecRegionData` and `SecRegionSize`, with the list that the region holds. -/
structure SecRegion where
  data : Nat → UInt8
  size : Nat
  deList : List DiskEntry

/-- `EncryptedAreaStart` and `EncryptedAreaEnd`, where they are not -1: whole data units. -/
structure EncryptedArea where
  start : Nat
  last : Nat
  start_aligned : start % 512 = 0
  last_aligned : (last + 1) % 512 = 0

/-- The queue of the boot drive. -/
structure BootQueue where
  io : IoQueue
  filter : io.isFilterDevice = true
  running : io.threadBlockReadWrite = false
  encryptedArea : Option EncryptedArea
  remappedAreaDataUnitOffset : UInt64
  /-- `CryptoInfo->bPartitionInInactiveSysEncScope` and `FirstDataUnitNo` -/
  inactiveSysEncScope : Option UInt64
  secRegion : Option SecRegion
  fragmentSize : Nat
  fragment_pos : 0 < fragmentSize
  fragment_aligned : fragmentSize % 512 = 0

/-- `GetIntersection`: where the intersection starts, and its length. -/
def getIntersection (start1 length1 start2 end2 : Nat) : Nat × Nat :=
  let end1 := start1 + length1 - 1
  let intersectEnd := if end1 ≤ end2 then end1 else end2
  let intersectStart := if start1 ≥ start2 then start1 else start2
  let intersectLength := if intersectStart > intersectEnd then 0
    else intersectEnd + 1 - intersectStart
  if intersectLength = 0 then (start1, 0) else (intersectStart, intersectLength)

/-- `DecryptDataUnits` on `count` units of a buffer from `pos` on. -/
def decryptDataUnits (c : UnitCipher 512) (buf : Nat → UInt8) (pos : Nat) (dataUnit : UInt64)
    (count : Nat) : Nat → UInt8 :=
  fun i =>
    if pos ≤ i ∧ i < pos + 512 * count then
      c.dec (dataUnit + UInt64.ofNat ((i - pos) / 512)).toNat
        (fun k => buf (pos + 512 * ((i - pos) / 512) + k)) (inUnit 512 (i - pos))
    else buf i

/-- One turn of `UpdateBuffer`. -/
def updateEntry (r : SecRegion) (bufferDiskOffset bufferLength : Nat) (buf : Nat → UInt8) :
    DiskEntry → Nat → UInt8
  | .other => buf
  | .sectors sectorStart sectorLength sectorOffset =>
    if r.size < sectorOffset ∨ sectorLength = 0 ∨ 2 ^ 64 ≤ sectorOffset + sectorLength ∨
        r.size < sectorOffset + sectorLength then buf
    else if 2 ^ 64 ≤ sectorStart + sectorLength then buf
    else
      let x := getIntersection bufferDiskOffset bufferLength sectorStart
        (sectorStart + sectorLength - 1)
      let bufferPos := x.1 - bufferDiskOffset
      let regionPos := sectorOffset + (x.1 - sectorStart)
      if x.2 = 0 ∨ bufferLength < bufferPos + x.2 ∨ r.size < regionPos + x.2 then buf
      else fun i =>
        if bufferPos ≤ i ∧ i < bufferPos + x.2 then r.data (regionPos + (i - bufferPos)) else buf i

/-- `UpdateBuffer` with `doUpdate`; the list takes 512 bytes behind the first sector of the
    region. -/
def updateBuffer (r : SecRegion) (bufferDiskOffset bufferLength : Nat) (buf : Nat → UInt8) :
    Nat → UInt8 :=
  if r.size < 512 + 512 then buf
  else if 15 < r.deList.length then buf
  else r.deList.foldl (updateEntry r bufferDiskOffset bufferLength) buf

/-- The sectors put into a buffer that was read. -/
def substituteSectors (q : BootQueue) (bufferDiskOffset bufferLength : Nat) (buf : Nat → UInt8) :
    Nat → UInt8 :=
  match q.secRegion with
  | none => buf
  | some r => if 512 < r.size then updateBuffer r bufferDiskOffset bufferLength buf else buf

/-! ## The fragments -/

section

variable (q : BootQueue) (c : UnitCipher 512) (readAheadBuffer : Nat → UInt8) (dev : Int → UInt8)

/-- The request for a fragment that is read. -/
def fragmentRequest (fragmentOffset length : Nat) : IoRequest :=
  match q.encryptedArea with
  | none =>
    { write := false, offset := fragmentOffset, length := length, encryptedOffset := 0
      encryptedLength := 0 }
  | some area =>
    let x := getIntersection fragmentOffset length area.start area.last
    { write := false, offset := fragmentOffset, length := length
      encryptedOffset := (x.1 : Int) - fragmentOffset, encryptedLength := x.2 }

/-- `TCReadDevice`, when it succeeds. -/
def tcReadDevice (offset : Int) : Nat → UInt8 := fun i => dev (offset + i)

/-- `TCCachedRead` -/
def tcCachedRead (offset : Int) (length : Nat) : Nat → UInt8 :=
  if q.io.cached offset length then readAheadBuffer else tcReadDevice dev offset

/-- A piece of a partially remapped fragment, and how far the pieces have come. -/
def readSubFragment (r : IoRequest) (st : (Nat → UInt8) × Nat) (i : Fin 3) :
    (Nat → UInt8) × Nat :=
  let piece := subFragment q.io r i
  if piece.2 > 0 then
    (fun j =>
      if st.2 ≤ j ∧ j < st.2 + piece.2 then
        tcCachedRead q readAheadBuffer dev piece.1 piece.2 (j - st.2)
      else st.1 j, st.2 + piece.2)
  else st

/-- `IoThreadProc` on a read: what `request->Data` holds behind it. -/
def ioThread (r : IoRequest) : Nat → UInt8 :=
  if q.io.remapEncryptedArea ∧ r.encryptedLength > 0 then
    if r.encryptedLength ≠ r.length then
      ((List.finRange 3).foldl (readSubFragment q readAheadBuffer dev r) (fun _ => 0, 0)).1
    else tcCachedRead q readAheadBuffer dev (r.offset + q.io.remappedAreaOffset) r.length
  else tcCachedRead q readAheadBuffer dev r.offset r.length

/-- What is added to the number of a data unit. -/
def dataUnitShift : UInt64 :=
  match q.inactiveSysEncScope with
  | some first => first
  | none => if q.io.remapEncryptedArea then q.remappedAreaDataUnitOffset else 0

/-- `CompletionThreadProc` on a read that has succeeded. -/
def completionThread (r : IoRequest) (data : Nat → UInt8) : Nat → UInt8 :=
  let data := if r.encryptedLength > 0 then
      decryptDataUnits c data r.encryptedOffset.toNat
        (UInt64.ofNat ((r.offset + r.encryptedOffset).toNat / 512) + dataUnitShift q)
        (r.encryptedLength / 512)
    else data
  substituteSectors q r.offset.toNat r.length data

/-- The fragments of a read, each put into the buffer of the request. -/
def fragmentLoop : (fuel fragmentOffset dataRemaining pos : Nat) → (Nat → UInt8) → Nat → UInt8
  | 0, _, _, _, dataBuffer => dataBuffer
  | fuel + 1, fragmentOffset, dataRemaining, pos, dataBuffer =>
    if dataRemaining > 0 then
      let length := if dataRemaining ≤ q.fragmentSize then dataRemaining else q.fragmentSize
      let r := fragmentRequest q fragmentOffset length
      let data := completionThread q c r (ioThread q readAheadBuffer dev r)
      let dataBuffer := fun i =>
        if pos ≤ i ∧ i < pos + length then data (i - pos) else dataBuffer i
      if dataRemaining ≤ q.fragmentSize then dataBuffer
      else fragmentLoop fuel (fragmentOffset + q.fragmentSize) (dataRemaining - q.fragmentSize)
        (pos + q.fragmentSize) dataBuffer
    else dataBuffer

/-! ## The main thread -/

/-- The path for misaligned reads; `none` is `STATUS_INVALID_PARAMETER`. -/
def misalignedRead (offset length : Nat) : Option (Nat → UInt8) :=
  if 2 ^ 32 ≤ length + 512 then none
  else
    let alignedLength := length + 512
    let alignedOffset := offset / 512 * 512
    let buffer := tcReadDevice dev alignedOffset
    let buffer := match q.encryptedArea with
      | none => buffer
      | some area =>
        let x := getIntersection alignedOffset alignedLength area.start area.last
        if x.2 > 0 then
          decryptDataUnits c buffer (x.1 - alignedOffset) (UInt64.ofNat (x.1 / 512)) (x.2 / 512)
        else buffer
    let buffer := substituteSectors q alignedOffset alignedLength buffer
    some (fun i => buffer (offset % 512 + i))

/-- `MainThreadProc` on a read of the boot drive, and what comes of it. -/
def mainThreadRead (offset length : Nat) : Option (Nat → UInt8) :=
  if 0 < length ∧ length % 512 = 0 ∧ offset % 512 ≠ 0 then misalignedRead q c dev offset length
  else if length = 0 ∨ length % 512 ≠ 0 ∨ offset % 512 ≠ 0 then none
  else some (fragmentLoop q c readAheadBuffer dev length offset length 0 (fun _ => 0))

end

/-! ## One byte at a time -/

/-- The address is in the encrypted area. -/
def InArea (q : BootQueue) (p : Nat) : Prop :=
  match q.encryptedArea with
  | none => False
  | some area => area.start ≤ p ∧ p ≤ area.last

instance (q : BootQueue) (p : Nat) : Decidable (InArea q p) :=
  match h : q.encryptedArea with
  | none => .isFalse (by simp [InArea, h])
  | some area => decidable_of_iff (area.start ≤ p ∧ p ≤ area.last) (by simp [InArea, h])

/-- The entry gives the byte at `p`. -/
def DiskEntry.Covers (r : SecRegion) (p : Nat) : DiskEntry → Prop
  | .other => False
  | .sectors start length offset =>
    offset + length < 2 ^ 64 ∧ offset + length ≤ r.size ∧ start + length < 2 ^ 64 ∧
      start ≤ p ∧ p < start + length

/-- What becomes of the byte `b` at `p`: the last entry that covers it wins. -/
def entryByte (r : SecRegion) (p : Nat) (b : UInt8) : DiskEntry → UInt8
  | .other => b
  | .sectors start length offset =>
    if offset + length < 2 ^ 64 ∧ offset + length ≤ r.size ∧ start + length < 2 ^ 64 ∧
        start ≤ p ∧ p < start + length then r.data (offset + (p - start))
    else b

/-- The entries that are looked at. -/
def SecRegion.entries (r : SecRegion) : List DiskEntry :=
  if r.size < 512 + 512 then [] else if 15 < r.deList.length then [] else r.deList

def substituteByte (q : BootQueue) (p : Nat) (b : UInt8) : UInt8 :=
  match q.secRegion with
  | none => b
  | some r => r.entries.foldl (entryByte r p) b

/-- A byte of a read before the substitution, when the encrypted area is `shift` bytes away and the
    numbers of its data units `unitShift` further. -/
def plainByte (q : BootQueue) (c : UnitCipher 512) (dev : Int → UInt8) (shift : Int)
    (unitShift : UInt64) (p : Nat) : UInt8 :=
  if InArea q p then
    c.dec (UInt64.ofNat (p / 512) + unitShift).toNat
      (fun k => dev ((512 * (p / 512) + k : Nat) + shift)) (inUnit 512 p)
  else dev p

/-- The byte at `p` of a read. -/
def readByte (q : BootQueue) (c : UnitCipher 512) (dev : Int → UInt8) (shift : Int)
    (unitShift : UInt64) (p : Nat) : UInt8 :=
  substituteByte q p (plainByte q c dev shift unitShift p)

/-- How far away the encrypted area is. -/
def areaShift (q : BootQueue) : Int :=
  if q.io.remapEncryptedArea then q.io.remappedAreaOffset else 0

theorem getIntersection_eq {start1 length1 : Nat} (start2 end2 : Nat) :
    getIntersection start1 length1 start2 end2 =
      if max start1 start2 ≤ min (start1 + length1 - 1) end2 then
        (max start1 start2, min (start1 + length1 - 1) end2 + 1 - max start1 start2)
      else (start1, 0) := by
  have hlo : (if start1 ≥ start2 then start1 else start2) = max start1 start2 := by
    split <;> omega
  have hhi : (if start1 + length1 - 1 ≤ end2 then start1 + length1 - 1 else end2) =
      min (start1 + length1 - 1) end2 := by
    split <;> omega
  simp only [getIntersection, hlo, hhi]
  by_cases h : max start1 start2 ≤ min (start1 + length1 - 1) end2
  · have hlen : ¬min (start1 + length1 - 1) end2 + 1 - max start1 start2 = 0 := by omega
    simp only [if_neg (Nat.not_lt.mpr h), if_neg hlen, if_pos h]
  · simp only [if_pos (Nat.lt_of_not_le h), if_true, if_neg h]

/-- The intersection is a part of the first range, and holds what is in the second one. -/
theorem getIntersection_spec {start1 length1 : Nat} (hpos : 0 < length1) (start2 end2 : Nat) :
    start1 ≤ (getIntersection start1 length1 start2 end2).1 ∧
      (getIntersection start1 length1 start2 end2).1 +
        (getIntersection start1 length1 start2 end2).2 ≤ start1 + length1 ∧
      ∀ p, start1 ≤ p → p < start1 + length1 →
        ((getIntersection start1 length1 start2 end2).1 ≤ p ∧
            p < (getIntersection start1 length1 start2 end2).1 +
              (getIntersection start1 length1 start2 end2).2 ↔
          start2 ≤ p ∧ p ≤ end2) := by
  rw [getIntersection_eq]
  split
  · refine ⟨by omega, by omega, fun p h1 h2 => ?_⟩
    constructor
    · intro h
      simp only at h
      omega
    · intro h
      simp only
      omega
  · refine ⟨by omega, by omega, fun p h1 h2 => ?_⟩
    constructor
    · intro h
      simp only at h
      omega
    · intro h
      simp only
      omega

theorem getIntersection_aligned {start1 length1 start2 end2 : Nat}
    (h1 : start1 % 512 = 0) (hl : (start1 + length1) % 512 = 0) (hpos : 0 < length1)
    (h2 : start2 % 512 = 0) (he : (end2 + 1) % 512 = 0) :
    (getIntersection start1 length1 start2 end2).1 % 512 = 0 ∧
      (getIntersection start1 length1 start2 end2).2 % 512 = 0 := by
  rw [getIntersection_eq]
  split
  · refine ⟨?_, ?_⟩
    · simp only
      omega
    · simp only
      omega
  · exact ⟨h1, rfl⟩

/-- An entry of the list, byte by byte. -/
theorem updateEntry_byte (r : SecRegion) {diskOffset length i : Nat} (hi : i < length)
    (buf : Nat → UInt8) (e : DiskEntry) :
    updateEntry r diskOffset length buf e i = entryByte r (diskOffset + i) (buf i) e := by
  cases e with
  | other => rfl
  | sectors start len offset =>
    simp only [updateEntry, entryByte]
    by_cases hregion : r.size < offset ∨ len = 0 ∨ 2 ^ 64 ≤ offset + len ∨ r.size < offset + len
    · rw [if_pos hregion, if_neg (by omega)]
    rw [if_neg hregion]
    by_cases hwrap : 2 ^ 64 ≤ start + len
    · rw [if_pos hwrap, if_neg (by omega)]
    rw [if_neg hwrap]
    obtain ⟨hlo, hhi, hmem⟩ : diskOffset ≤ _ ∧ _ ∧ _ :=
      getIntersection_spec (Nat.zero_lt_of_lt hi) start (start + len - 1)
    generalize getIntersection diskOffset length start (start + len - 1) = x at hlo hhi hmem ⊢
    have hhere := hmem (diskOffset + i) (by omega) (by omega)
    by_cases hcover : x.1 ≤ diskOffset + i ∧ diskOffset + i < x.1 + x.2
    · have hfirst := hmem x.1 (by omega) (by omega)
      have hlast := hmem (x.1 + x.2 - 1) (by omega) (by omega)
      rw [if_neg (by omega), if_pos (by omega), if_pos (by omega)]
      congr 1
      omega
    · have hnot : ¬(offset + len < 2 ^ 64 ∧ offset + len ≤ r.size ∧ start + len < 2 ^ 64 ∧
          start ≤ diskOffset + i ∧ diskOffset + i < start + len) := by omega
      have hout : ¬(x.1 - diskOffset ≤ i ∧ i < x.1 - diskOffset + x.2) := by omega
      rw [if_neg hnot]
      split
      · rfl
      · exact if_neg hout

theorem substituteSectors_byte (q : BootQueue) {diskOffset length i : Nat} (hi : i < length)
    (buf : Nat → UInt8) :
    substituteSectors q diskOffset length buf i = substituteByte q (diskOffset + i) (buf i) := by
  unfold substituteSectors substituteByte
  cases q.secRegion with
  | none => rfl
  | some r =>
    have hfold : ∀ (es : List DiskEntry) (buf : Nat → UInt8),
        es.foldl (updateEntry r diskOffset length) buf i =
          es.foldl (entryByte r (diskOffset + i)) (buf i) := by
      intro es
      induction es with
      | nil => intro buf; rfl
      | cons e es ih =>
        intro buf
        rw [List.foldl_cons, List.foldl_cons, ih, updateEntry_byte r hi]
    simp only [SecRegion.entries, updateBuffer]
    by_cases hsmall : r.size < 512 + 512
    · rw [if_pos hsmall, if_pos hsmall]
      split <;> rfl
    · rw [if_neg hsmall, if_neg hsmall, if_pos (by omega)]
      split
      · rfl
      · exact hfold _ _

/-! ## A fragment -/

section

variable {q : BootQueue} {c : UnitCipher 512} {readAheadBuffer : Nat → UInt8} {dev : Int → UInt8}

/-- What the read-ahead buffer holds is on the drive. -/
def Coherent (q : BootQueue) (readAheadBuffer : Nat → UInt8) (dev : Int → UInt8) : Prop :=
  q.io.readAheadBufferValid = true → ∀ i < q.io.readAheadLength,
    readAheadBuffer i = dev (q.io.readAheadOffset + i)

theorem tcCachedRead_byte (h : Coherent q readAheadBuffer dev) (offset : Int) {length i : Nat}
    (hi : i < length) : tcCachedRead q readAheadBuffer dev offset length i = dev (offset + i) := by
  unfold tcCachedRead
  split
  · rename_i hcached
    simp only [IoQueue.cached, Bool.and_eq_true, decide_eq_true_eq] at hcached
    obtain ⟨⟨hvalid, hoffset⟩, hle⟩ := hcached
    rw [h hvalid i (Nat.lt_of_lt_of_le hi hle), hoffset]
  · rfl

theorem toNat_ofNat_add (a b : Nat) (v : UInt64) :
    UInt64.ofNat a + v + UInt64.ofNat b = UInt64.ofNat (a + b) + v := by
  rw [UInt64.add_assoc, UInt64.add_comm v, ← UInt64.add_assoc, UInt64.ofNat_add]

/-- Decrypting whole data units of a buffer that came from `shift` bytes away. -/
theorem decryptDataUnits_byte {off pos count i : Nat} {shift : Int} (unitShift : UInt64)
    {buf : Nat → UInt8} (hoff : off % 512 = 0) (hpos : pos % 512 = 0)
    (hbuf : ∀ j, pos ≤ j → j < pos + 512 * count → buf j = dev ((off + j : Nat) + shift))
    (hlo : pos ≤ i) (hhi : i < pos + 512 * count) :
    decryptDataUnits c buf pos (UInt64.ofNat ((off + pos) / 512) + unitShift) count i =
      c.dec (UInt64.ofNat ((off + i) / 512) + unitShift).toNat
        (fun k => dev ((512 * ((off + i) / 512) + k : Nat) + shift)) (inUnit 512 (off + i)) := by
  have hunit : (off + pos) / 512 + (i - pos) / 512 = (off + i) / 512 := by omega
  have hplace : inUnit 512 (i - pos) = inUnit 512 (off + i) := by
    apply Fin.ext
    change (i - pos) % 512 = (off + i) % 512
    omega
  have hdata : (fun k : Fin 512 => buf (pos + 512 * ((i - pos) / 512) + k)) =
      fun k : Fin 512 => dev ((512 * ((off + i) / 512) + k : Nat) + shift) := by
    funext k
    have hk := k.isLt
    have hsum : off + (pos + 512 * ((i - pos) / 512) + k) = 512 * ((off + i) / 512) + k := by omega
    rw [hbuf _ (by omega) (by omega), hsum]
  rw [decryptDataUnits, if_pos ⟨hlo, hhi⟩, toNat_ofNat_add, hunit, hplace, hdata]

theorem toUlong_natCast {n : Nat} (h : n < 2 ^ 32) : toUlong n = n := by
  rw [toUlong]
  omega

/-- A piece, whether it is empty or not. -/
theorem readSubFragment_eq (r : IoRequest) (st : (Nat → UInt8) × Nat) (i : Fin 3) :
    readSubFragment q readAheadBuffer dev r st i =
      (fun j =>
        if st.2 ≤ j ∧ j < st.2 + (subFragment q.io r i).2 then
          tcCachedRead q readAheadBuffer dev (subFragment q.io r i).1 (subFragment q.io r i).2
            (j - st.2)
        else st.1 j, st.2 + (subFragment q.io r i).2) := by
  simp only [readSubFragment]
  split
  · rfl
  · rename_i hempty
    have hzero : (subFragment q.io r i).2 = 0 := Nat.eq_zero_of_not_pos hempty
    apply Prod.ext
    · funext j
      simp only [hzero]
      rw [if_neg (by omega)]
    · simp only [hzero]
      rfl

/-- The three pieces, one behind the other. -/
theorem foldl_readSubFragment (r : IoRequest) (buf : Nat → UInt8) (j : Nat) :
    ((List.finRange 3).foldl (readSubFragment q readAheadBuffer dev r) (buf, 0)).1 j =
      if (subFragment q.io r 0).2 + (subFragment q.io r 1).2 ≤ j ∧
          j < (subFragment q.io r 0).2 + (subFragment q.io r 1).2 + (subFragment q.io r 2).2 then
        tcCachedRead q readAheadBuffer dev (subFragment q.io r 2).1 (subFragment q.io r 2).2
          (j - ((subFragment q.io r 0).2 + (subFragment q.io r 1).2))
      else if (subFragment q.io r 0).2 ≤ j ∧
          j < (subFragment q.io r 0).2 + (subFragment q.io r 1).2 then
        tcCachedRead q readAheadBuffer dev (subFragment q.io r 1).1 (subFragment q.io r 1).2
          (j - (subFragment q.io r 0).2)
      else if 0 ≤ j ∧ j < (subFragment q.io r 0).2 then
        tcCachedRead q readAheadBuffer dev (subFragment q.io r 0).1 (subFragment q.io r 0).2 j
      else buf j := by
  have hpieces : List.finRange 3 = [0, 1, 2] := rfl
  rw [hpieces, List.foldl_cons, List.foldl_cons, List.foldl_cons, List.foldl_nil,
    readSubFragment_eq, readSubFragment_eq, readSubFragment_eq]
  simp only [Nat.zero_add, Nat.sub_zero]

/-- **What the I/O thread reads**: the encrypted part of a fragment from the remapped area. -/
theorem ioThread_byte (h : Coherent q readAheadBuffer dev) {off encOff encLen len i : Nat}
    (hi : i < len) (hlen : len < 2 ^ 32) (hin : encOff + encLen ≤ len) :
    ioThread q readAheadBuffer dev
        { write := false, offset := off, length := len, encryptedOffset := encOff
          encryptedLength := encLen } i =
      dev ((off + i : Nat) + if encOff ≤ i ∧ i < encOff + encLen then areaShift q else 0) := by
  unfold ioThread areaShift
  by_cases hremap : q.io.remapEncryptedArea = true
  · by_cases hpos : encLen > 0
    · rw [if_pos ⟨hremap, hpos⟩]
      by_cases hpart : encLen ≠ len
      · have hfront : toUlong (encOff : Int) = encOff := toUlong_natCast (by omega)
        have hbehind : toUlong ((len : Int) - (encOff + encLen)) = len - (encOff + encLen) := by
          have hcast : (len : Int) - (encOff + encLen) =
              ((len - (encOff + encLen) : Nat) : Int) := by omega
          rw [hcast, toUlong_natCast (by omega)]
        rw [if_pos hpart, if_pos hremap, foldl_readSubFragment]
        simp only [subFragment, hfront, hbehind, Nat.zero_le, true_and]
        by_cases hbefore : i < encOff
        · have h2 : ¬(encOff + encLen ≤ i ∧ i < encOff + encLen + (len - (encOff + encLen))) := by
            omega
          have h1 : ¬(encOff ≤ i ∧ i < encOff + encLen) := by omega
          rw [if_neg h2, if_neg h1, if_pos hbefore, if_neg h1, tcCachedRead_byte h _ hbefore]
          congr 1
        by_cases hinside : i < encOff + encLen
        · have h2 : ¬(encOff + encLen ≤ i ∧ i < encOff + encLen + (len - (encOff + encLen))) := by
            omega
          have h1 : encOff ≤ i ∧ i < encOff + encLen := by omega
          rw [if_neg h2, if_pos h1, if_pos h1, tcCachedRead_byte h _ (by omega)]
          congr 1
          omega
        · have h2 : encOff + encLen ≤ i ∧ i < encOff + encLen + (len - (encOff + encLen)) := by
            omega
          have h1 : ¬(encOff ≤ i ∧ i < encOff + encLen) := by omega
          rw [if_pos h2, if_neg h1, tcCachedRead_byte h _ (by omega)]
          congr 1
          omega
      · have hwhole : encLen = len := not_not.mp hpart
        have hall : encOff ≤ i ∧ i < encOff + encLen := by omega
        rw [if_neg hpart, if_pos hall, if_pos hremap, tcCachedRead_byte h _ hi]
        change dev ((off : Int) + q.io.remappedAreaOffset + i) = _
        congr 1
        omega
    · have hnone : ¬(encOff ≤ i ∧ i < encOff + encLen) := by omega
      rw [if_neg (fun hboth => hpos hboth.2), if_neg hnone, tcCachedRead_byte h _ hi]
      congr 1
  · rw [if_neg (fun hboth => hremap hboth.1), if_neg hremap, tcCachedRead_byte h _ hi]
    split
    · congr 1
    · congr 1

/-- A fragment with the part of it that is encrypted, read and completed. -/
theorem completed_byte (h : Coherent q readAheadBuffer dev) {off encOff encLen len i : Nat}
    (hi : i < len) (hlen : len < 2 ^ 32) (hin : encOff + encLen ≤ len) (hoff : off % 512 = 0)
    (henc : encOff % 512 = 0) (hunits : encLen % 512 = 0)
    (harea : ∀ j < len, encOff ≤ j ∧ j < encOff + encLen ↔ InArea q (off + j)) :
    completionThread q c
        { write := false, offset := off, length := len, encryptedOffset := encOff
          encryptedLength := encLen }
        (ioThread q readAheadBuffer dev
          { write := false, offset := off, length := len, encryptedOffset := encOff
            encryptedLength := encLen }) i =
      readByte q c dev (areaShift q) (dataUnitShift q) (off + i) := by
  have hdata : ∀ j < len, ioThread q readAheadBuffer dev
      { write := false, offset := off, length := len, encryptedOffset := encOff
        encryptedLength := encLen } j = dev ((off + j : Nat) +
          if encOff ≤ j ∧ j < encOff + encLen then areaShift q else 0) :=
    fun j hj => ioThread_byte h hj hlen hin
  generalize ioThread q readAheadBuffer dev _ = data at hdata ⊢
  have hfirst : ((off : Int) + (encOff : Int)).toNat = off + encOff := by omega
  have hmul : 512 * (encLen / 512) = encLen := by omega
  simp only [completionThread, readByte, Int.toNat_natCast, hfirst]
  rw [substituteSectors_byte q hi]
  congr 1
  unfold plainByte
  by_cases hin' : InArea q (off + i)
  · obtain ⟨hlo, hhi⟩ := (harea i hi).mpr hin'
    rw [if_pos hin', if_pos (by omega : encLen > 0)]
    apply decryptDataUnits_byte (dataUnitShift q) hoff henc _ hlo (by omega)
    intro j h1 h2
    rw [hdata j (by omega), if_pos (by omega)]
  · have hout : ¬(encOff ≤ i ∧ i < encOff + encLen) := fun hboth => hin' ((harea i hi).mp hboth)
    have hraw : data i = dev (off + i : Nat) := by
      rw [hdata i hi, if_neg hout, Int.add_zero]
    rw [if_neg hin']
    split
    · rw [decryptDataUnits, hmul, if_neg hout, hraw]
    · exact hraw

/-- **A fragment of a regular read.** -/
theorem fragment_byte (c : UnitCipher 512) (h : Coherent q readAheadBuffer dev) {off len i : Nat}
    (hi : i < len) (hlen : len < 2 ^ 32) (hoff : off % 512 = 0) (hl : len % 512 = 0) :
    completionThread q c (fragmentRequest q off len)
        (ioThread q readAheadBuffer dev (fragmentRequest q off len)) i =
      readByte q c dev (areaShift q) (dataUnitShift q) (off + i) := by
  cases harea : q.encryptedArea with
  | none =>
    have hrequest : fragmentRequest q off len =
        { write := false, offset := off, length := len, encryptedOffset := (0 : Nat)
          encryptedLength := 0 } := by
      simp only [fragmentRequest, harea]
      rfl
    rw [hrequest]
    apply completed_byte h hi hlen (Nat.zero_le _) hoff rfl rfl
    intro j _
    simp [InArea, harea]
  | some area =>
    obtain ⟨hlo, hhi, hmem⟩ : off ≤ _ ∧ _ ∧ _ :=
      getIntersection_spec (Nat.zero_lt_of_lt hi) area.start area.last
    obtain ⟨ha1, ha2⟩ := getIntersection_aligned hoff (by omega : (off + len) % 512 = 0)
      (Nat.zero_lt_of_lt hi) area.start_aligned area.last_aligned
    have hrequest : fragmentRequest q off len =
        { write := false, offset := off, length := len
          encryptedOffset := ((getIntersection off len area.start area.last).1 - off : Nat)
          encryptedLength := (getIntersection off len area.start area.last).2 } := by
      simp only [fragmentRequest, harea, Int.ofNat_sub hlo]
    rw [hrequest]
    apply completed_byte h hi hlen (by omega) hoff (by omega) ha2
    intro j hj
    have hj' := hmem (off + j) (by omega) (by omega)
    simp only [InArea, harea, ← hj']
    omega

/-- **A regular read**, fragment by fragment. -/
theorem fragments_byte (c : UnitCipher 512) (h : Coherent q readAheadBuffer dev)
    {fuel off remaining pos : Nat} {buf : Nat → UInt8} (hfuel : remaining ≤ fuel)
    (hlen : remaining < 2 ^ 32) (hoff : off % 512 = 0) (hrem : remaining % 512 = 0) (i : Nat) :
    fragmentLoop q c readAheadBuffer dev fuel off remaining pos buf i =
      if pos ≤ i ∧ i < pos + remaining then
        readByte q c dev (areaShift q) (dataUnitShift q) (off + (i - pos))
      else buf i := by
  have hsize := q.fragment_pos
  have haligned := q.fragment_aligned
  induction fuel generalizing off remaining pos buf with
  | zero => rw [fragmentLoop, if_neg (by omega)]
  | succ fuel ih =>
    rw [fragmentLoop]
    by_cases hpos : remaining > 0
    · rw [if_pos hpos]
      by_cases hlast : remaining ≤ q.fragmentSize
      · simp only [if_pos hlast]
        split
        · rw [fragment_byte c h (by omega) hlen hoff hrem]
        · rfl
      · simp only [if_neg hlast]
        rw [ih (by omega) (by omega) (by omega) (by omega)]
        by_cases hrest : pos + q.fragmentSize ≤ i ∧
            i < pos + q.fragmentSize + (remaining - q.fragmentSize)
        · have hsum : off + q.fragmentSize + (i - (pos + q.fragmentSize)) = off + (i - pos) := by
            omega
          rw [if_pos hrest, if_pos (by omega), hsum]
        · rw [if_neg hrest]
          by_cases hhere : pos ≤ i ∧ i < pos + q.fragmentSize
          · rw [if_pos hhere, if_pos (by omega),
              fragment_byte c h (by omega) (by omega) hoff haligned]
          · rw [if_neg hhere, if_neg (by omega)]
    · rw [if_neg hpos, if_neg (by omega)]

/-- **A misaligned read**: nothing is moved, and the data units have their own numbers. -/
theorem misaligned_byte (q : BootQueue) (c : UnitCipher 512) (dev : Int → UInt8)
    {off length : Nat} (hlen : length % 512 = 0) (hfits : length + 512 < 2 ^ 32) :
    ∃ data, misalignedRead q c dev off length = some data ∧
      ∀ i < length, data i = readByte q c dev 0 0 (off + i) := by
  rw [misalignedRead, if_neg (by omega)]
  refine ⟨_, rfl, ?_⟩
  intro i hi
  have hplace : off / 512 * 512 + (off % 512 + i) = off + i := by omega
  rw [substituteSectors_byte q (by omega), hplace, readByte]
  congr 1
  unfold plainByte
  cases harea : q.encryptedArea with
  | none =>
    rw [if_neg (by simp [InArea, harea])]
    change dev ((off / 512 * 512 : Nat) + (off % 512 + i : Nat)) = _
    congr 1
    omega
  | some area =>
    obtain ⟨hlo, hhi, hmem⟩ : off / 512 * 512 ≤ _ ∧ _ ∧ _ :=
      getIntersection_spec (by omega : 0 < length + 512) area.start area.last
    obtain ⟨ha1, ha2⟩ := getIntersection_aligned (by omega : off / 512 * 512 % 512 = 0)
      (by omega : (off / 512 * 512 + (length + 512)) % 512 = 0) (by omega) area.start_aligned
      area.last_aligned
    have hin' : InArea q (off + i) ↔ area.start ≤ off + i ∧ off + i ≤ area.last := by
      simp only [InArea, harea]
    have hhere := (hmem (off + i) (by omega) (by omega)).trans hin'.symm
    simp only
    clear hmem
    generalize getIntersection (off / 512 * 512) (length + 512) area.start area.last = x
      at hlo hhi ha1 ha2 hhere ⊢
    have hraw : ∀ j, tcReadDevice dev (off / 512 * 512 : Nat) j =
        dev ((off / 512 * 512 + j : Nat) + 0) := by
      intro j
      have haddr : ((off / 512 * 512 : Nat) : Int) + (j : Int) =
          ((off / 512 * 512 + j : Nat) : Int) + 0 := by omega
      exact congrArg dev haddr
    by_cases hin : InArea q (off + i)
    · obtain ⟨h1, h2⟩ := hhere.mpr hin
      have hunit : x.1 = off / 512 * 512 + (x.1 - off / 512 * 512) := by omega
      have hdec := decryptDataUnits_byte (c := c) 0
        (by omega : off / 512 * 512 % 512 = 0) (by omega : (x.1 - off / 512 * 512) % 512 = 0)
        (fun j _ _ => hraw j) (by omega : x.1 - off / 512 * 512 ≤ off % 512 + i)
        (by omega : off % 512 + i < x.1 - off / 512 * 512 + 512 * (x.2 / 512))
      rw [if_pos hin, if_pos (by omega)]
      rw [← hunit, UInt64.add_zero, hplace] at hdec
      exact hdec
    · have hout : ¬(x.1 - off / 512 * 512 ≤ off % 512 + i ∧
          off % 512 + i < x.1 - off / 512 * 512 + 512 * (x.2 / 512)) := by
        intro hboth
        exact hin (hhere.mp (by omega))
      have hbyte : tcReadDevice dev (off / 512 * 512 : Nat) (off % 512 + i) =
          dev (off + i : Nat) := by
        rw [hraw, hplace, Int.add_zero]
      rw [if_neg hin]
      split
      · rw [decryptDataUnits, if_neg hout, hbyte]
      · exact hbyte

end

/-! ## Agreement -/

/-- The byte at `p` comes from the region of substituted sectors. -/
def Substituted (q : BootQueue) (p : Nat) : Prop :=
  ∃ r, q.secRegion = some r ∧ ∃ e ∈ r.entries, e.Covers r p

theorem entryByte_covers {r : SecRegion} {p : Nat} {e : DiskEntry} (h : e.Covers r p)
    (b b' : UInt8) : entryByte r p b e = entryByte r p b' e := by
  cases e with
  | other => cases h
  | sectors start length offset =>
    have hcond : offset + length < 2 ^ 64 ∧ offset + length ≤ r.size ∧ start + length < 2 ^ 64 ∧
        start ≤ p ∧ p < start + length := h
    simp only [entryByte, if_pos hcond]

theorem entryByte_not_covers {r : SecRegion} {p : Nat} {e : DiskEntry} (h : ¬e.Covers r p)
    (b : UInt8) : entryByte r p b e = b := by
  cases e with
  | other => rfl
  | sectors start length offset =>
    have hcond : ¬(offset + length < 2 ^ 64 ∧ offset + length ≤ r.size ∧
        start + length < 2 ^ 64 ∧ start ≤ p ∧ p < start + length) := h
    simp only [entryByte, if_neg hcond]

theorem substituteByte_substituted {q : BootQueue} {p : Nat} (h : Substituted q p)
    (b b' : UInt8) : substituteByte q p b = substituteByte q p b' := by
  obtain ⟨r, hr, e, he, hcovers⟩ := h
  simp only [substituteByte, hr]
  generalize r.entries = es at he
  induction es generalizing b b' with
  | nil => cases he
  | cons e' es ih =>
    rw [List.foldl_cons, List.foldl_cons]
    rcases List.mem_cons.mp he with rfl | hrest
    · rw [entryByte_covers hcovers b b']
    · exact ih _ _ hrest

theorem substituteByte_not_substituted {q : BootQueue} {p : Nat} (h : ¬Substituted q p)
    (b : UInt8) : substituteByte q p b = b := by
  unfold substituteByte
  cases hr : q.secRegion with
  | none => rfl
  | some r =>
    have hnone : ∀ e ∈ r.entries, ¬e.Covers r p := fun e he hc => h ⟨r, hr, e, he, hc⟩
    simp only
    generalize r.entries = es at hnone ⊢
    induction es with
    | nil => rfl
    | cons e es ih =>
      rw [List.foldl_cons, entryByte_not_covers (hnone e List.mem_cons_self)]
      exact ih (fun e' he' => hnone e' (List.mem_cons_of_mem e he'))

/-- A misaligned read gives what a regular read of the enclosing data units has there, for every
    drive, every key and every read-ahead buffer. -/
def Agree (q : BootQueue) (off length : Nat) : Prop :=
  ∀ (c : UnitCipher 512) (readAheadBuffer : Nat → UInt8) (dev : Int → UInt8),
    Coherent q readAheadBuffer dev →
    ∀ data, mainThreadRead q c readAheadBuffer dev off length = some data →
      ∃ aligned, mainThreadRead q c readAheadBuffer dev (off / 512 * 512) (length + 512) =
          some aligned ∧
        ∀ i < length, data i = aligned (off % 512 + i)

/-- Every byte that is asked for and lies in the encrypted area is substituted anyway, or the area
    is neither remapped nor numbered from elsewhere. -/
def InPlace (q : BootQueue) (off length : Nat) : Prop :=
  length + 512 < 2 ^ 32 → ∀ p, off ≤ p → p < off + length → InArea q p →
    Substituted q p ∨ areaShift q = 0 ∧ dataUnitShift q = 0

section

variable {q : BootQueue} {off length : Nat}

/-- What both reads give. -/
theorem mainThreadRead_bytes (hpos : 0 < length) (hlen : length % 512 = 0)
    (hoff : off % 512 ≠ 0) (hfits : length + 512 < 2 ^ 32) (c : UnitCipher 512)
    {readAheadBuffer : Nat → UInt8} {dev : Int → UInt8} (h : Coherent q readAheadBuffer dev) :
    ∃ data aligned, mainThreadRead q c readAheadBuffer dev off length = some data ∧
      mainThreadRead q c readAheadBuffer dev (off / 512 * 512) (length + 512) = some aligned ∧
      ∀ i < length, data i = readByte q c dev 0 0 (off + i) ∧
        aligned (off % 512 + i) = readByte q c dev (areaShift q) (dataUnitShift q) (off + i) := by
  obtain ⟨data, hdata, hbytes⟩ : ∃ data, misalignedRead q c dev off length = some data ∧
      ∀ i < length, data i = readByte q c dev 0 0 (off + i) := misaligned_byte q c dev hlen hfits
  refine ⟨data, fragmentLoop q c readAheadBuffer dev (length + 512) (off / 512 * 512)
    (length + 512) 0 (fun _ => 0), ?_, ?_, ?_⟩
  · rw [mainThreadRead, if_pos ⟨hpos, hlen, hoff⟩, hdata]
  · rw [mainThreadRead, if_neg (by omega), if_neg (by omega)]
  · intro i hi
    refine ⟨hbytes i hi, ?_⟩
    have hplace : off / 512 * 512 + (off % 512 + i - 0) = off + i := by omega
    rw [fragments_byte c h (Nat.le_refl _) hfits (by omega) (by omega), if_pos (by omega), hplace]

theorem agree_of_inPlace (hpos : 0 < length) (hlen : length % 512 = 0) (hoff : off % 512 ≠ 0)
    (hplace : InPlace q off length) : Agree q off length := by
  intro c readAheadBuffer dev hcoherent data hdata
  by_cases hfits : length + 512 < 2 ^ 32
  · obtain ⟨data', aligned, hdata', haligned, hbytes⟩ :=
      mainThreadRead_bytes hpos hlen hoff hfits c hcoherent
    refine ⟨aligned, haligned, ?_⟩
    intro i hi
    obtain ⟨h1, h2⟩ := hbytes i hi
    rw [Option.some.inj (hdata.symm.trans hdata'), h1, h2, readByte, readByte]
    by_cases hin : InArea q (off + i)
    · rcases hplace hfits (off + i) (by omega) (by omega) hin with hsub | ⟨hshift, hunit⟩
      · exact substituteByte_substituted hsub _ _
      · rw [hshift, hunit]
    · rw [plainByte, plainByte, if_neg hin, if_neg hin]
  · rw [mainThreadRead, if_pos ⟨hpos, hlen, hoff⟩, misalignedRead, if_pos (by omega)] at hdata
    cases hdata

/-- A cipher that marks the data unit `n`. -/
def markUnit (n : Nat) : UnitCipher 512 where
  enc m u := fun k => u k - if m = n then 1 else 0
  dec m u := fun k => u k + if m = n then 1 else 0
  dec_enc m u := by
    funext k
    exact UInt8.sub_add_cancel _ _

/-- A drive that holds one byte, and no encryption, or empty with one data unit marked. -/
theorem inPlace_of_agree (hpos : 0 < length) (hlen : length % 512 = 0) (hoff : off % 512 ≠ 0)
    (hagree : Agree q off length) : InPlace q off length := by
  intro hfits p h1 h2 hin
  by_contra hnot
  rw [not_or] at hnot
  obtain ⟨hsub, hmoved⟩ := hnot
  have hlast : off + (p - off) = p := by omega
  have hread : ∀ (c : UnitCipher 512) (dev : Int → UInt8),
      plainByte q c dev 0 0 p = plainByte q c dev (areaShift q) (dataUnitShift q) p := by
    intro c dev
    have hcoherent : Coherent q (fun i => dev (q.io.readAheadOffset + i)) dev :=
      fun _ _ _ => rfl
    obtain ⟨data, aligned, hdata, haligned, hbytes⟩ :=
      mainThreadRead_bytes hpos hlen hoff hfits c hcoherent
    obtain ⟨aligned', haligned', hsame⟩ := hagree c _ dev hcoherent data hdata
    obtain ⟨hleft, hright⟩ := hbytes (p - off) (by omega)
    have heq := hsame (p - off) (by omega)
    rw [Option.some.inj (haligned'.symm.trans haligned), hleft, hright, hlast, readByte, readByte,
      substituteByte_not_substituted hsub, substituteByte_not_substituted hsub] at heq
    exact heq
  have hmod : 512 * (p / 512) + (inUnit 512 p).val = p := Nat.div_add_mod p 512
  by_cases hshift : areaShift q = 0
  · -- the unit is decrypted under another number
    have hunit : dataUnitShift q ≠ 0 := fun h => hmoved ⟨hshift, h⟩
    have heq := hread (markUnit (UInt64.ofNat (p / 512) + 0).toNat) (fun _ => 0)
    have hne : ¬(UInt64.ofNat (p / 512) + dataUnitShift q).toNat =
        (UInt64.ofNat (p / 512) + 0).toNat := by
      intro hsame
      exact hunit ((UInt64.add_right_inj _).mp (UInt64.toNat_inj.mp hsame))
    simp only [plainByte, if_pos hin, markUnit, if_true, if_neg hne] at heq
    exact absurd heq (by decide)
  · -- the byte is read from elsewhere
    have heq := hread
      { enc := fun _ u => u, dec := fun _ u => u, dec_enc := fun _ _ => rfl }
      (fun a => if a = (p : Int) then 1 else 0)
    simp only [plainByte, if_pos hin, hmod, Int.add_zero, if_true] at heq
    rw [if_neg (by omega)] at heq
    exact absurd heq (by decide)

/-- **Misaligned reads agree with regular ones exactly where the encrypted area is in place.** -/
theorem misalignedRead_iff (hpos : 0 < length) (hlen : length % 512 = 0) (hoff : off % 512 ≠ 0) :
    Agree q off length ↔ InPlace q off length :=
  ⟨inPlace_of_agree hpos hlen hoff, agree_of_inPlace hpos hlen hoff⟩

end

/-! ## An example -/

namespace Example

/-- A boot drive whose encrypted area is the data units 2 to 9; a running hidden system reads them
    from 1 MiB further on. -/
def bootQueue (hidden : Bool) : BootQueue where
  io :=
    { isFilterDevice := true
      threadBlockReadWrite := false
      remapEncryptedArea := hidden
      remappedAreaOffset := 1048576
      readAheadBufferValid := false
      readAheadOffset := 0
      readAheadLength := 0
      lastReadOffset := 0
      lastReadLength := 0 }
  filter := rfl
  running := rfl
  encryptedArea := some ⟨1024, 5119, rfl, rfl⟩
  remappedAreaDataUnitOffset := 2048
  inactiveSysEncScope := none
  secRegion := none
  fragmentSize := 262144
  fragment_pos := by decide
  fragment_aligned := rfl

end Example

theorem misalignedRead_demo : Agree (Example.bootQueue false) 700 1024 :=
  (misalignedRead_iff (by decide) rfl (by decide)).mpr (fun _ _ _ _ _ => .inr ⟨rfl, rfl⟩)

/-- Under a hidden system a misaligned read goes to the decoy system. -/
theorem misalignedRead_hidden : ¬Agree (Example.bootQueue true) 700 1024 := by
  intro hagree
  have hplace := inPlace_of_agree (by decide) rfl (by decide) hagree (by decide) 1024 (by decide)
    (by decide) ⟨by decide, by decide⟩
  rcases hplace with ⟨r, hr, -⟩ | ⟨hshift, -⟩
  · cases hr
  · exact absurd hshift (by decide)

end Driver
end VeraCrypt
