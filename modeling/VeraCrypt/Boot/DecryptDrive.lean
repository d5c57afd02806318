import VeraCrypt.Format.HeaderUpdate
import VeraCrypt.Lib.Run

/-!
# Decrypting a drive from the rescue disk (`DecryptDrive`)

The boot loader decrypts the encrypted area from its end to its start, in fragments of at most
127 sectors, and at the end puts the length that is left into the volume header. Esc and I/O errors
may end a run before that; the next run goes on where the header says.

Sectors and their decryption are parameters: `decryptDataUnits s` is `DecryptDataUnits` on the one
unit `s`, under the master keys of the header. The header sector is before the encrypted area
(`TC_BOOT_VOLUME_HEADER_SECTOR` is the last one of the boot loader area) and is kept beside the
drive. The boot loader is the one for a single cipher, which does not search for the algorithm.

`iterate_loopInv` is what a turn of the loop keeps, `loop_halts` says that it ends,
`updateAreaLength_opensWith` that the header opens with the new length afterwards, and
`decryptDrive_consistent` what a run keeps.
-/

set_option autoImplicit false

namespace VeraCrypt
namespace Boot

open Lib Common

/-! ## The loop -/

/-- What a turn of the loop meets: the keyboard, the two BIOS calls and the answer to
    "Skip all bad sectors". -/
structure Turn where
  escKeyPressed : Bool
  readSucceeds : Bool
  writeSucceeds : Bool
  /-- How many sectors a write that fails has stored. -/
  stored : Nat
  skipAnswer : Bool

/-- The variables of the loop, and the drive. `stopped` says that a `break` was reached. -/
structure LoopState (S : Type) where
  disk : Nat → S
  sector : Nat
  sectorsRemaining : Nat
  fragmentSectorCount : Nat
  skipBadSectors : Bool
  headerUpdateRequired : Bool
  stopped : Bool

section Loop

variable {S : Type} (good : Nat → Bool) (decryptDataUnits : Nat → S → S)

/-- A BIOS call on `n` sectors. A `good` sector can be read and written, so that a call for it
    alone succeeds. -/
def accessSucceeds (sector n : Nat) (succeeds : Bool) : Bool :=
  succeeds || (n == 1 && good sector)

def readSectors (disk : Nat → S) (sector n : Nat) : List S :=
  (List.range n).map (fun i => disk (sector + i))

def writeSectors (disk : Nat → S) (sector : Nat) (buffer : List S) : Nat → S :=
  fun t => if sector ≤ t then buffer.getD (t - sector) (disk t) else disk t

/-- The buffer decrypted, each sector with its own number. -/
def decryptBufferSectors (sector : Nat) (buffer : List S) : List S :=
  buffer.mapIdx (fun i b => decryptDataUnits (sector + i) b)

/-- The head of the loop: the next fragment, and the step back to its first sector. -/
def nextFragment (s : LoopState S) : LoopState S :=
  let n := if s.sectorsRemaining < s.fragmentSectorCount then s.sectorsRemaining
    else s.fragmentSectorCount
  { s with fragmentSectorCount := n, sector := s.sector - n }

/-- The foot of the loop. -/
def fragmentDone (s : LoopState S) : LoopState S :=
  { s with
    sectorsRemaining := s.sectorsRemaining - s.fragmentSectorCount
    headerUpdateRequired := true }

/-- The label `askBadSectorSkip`. -/
def askBadSectorSkip (answer : Bool) (s : LoopState S) : LoopState S :=
  if answer then
    { s with
      skipBadSectors := true
      sector := s.sector + s.fragmentSectorCount
      fragmentSectorCount := 1 }
  else { s with stopped := true }

/-- After a failed call: bad sectors are passed over, or the user is asked. -/
def ioFailed (answer : Bool) (s : LoopState S) : LoopState S :=
  if s.skipBadSectors then fragmentDone s else askBadSectorSkip answer s

/-- The fragment, decrypted in the buffer, of which `count` sectors are stored. -/
def storeFragment (s : LoopState S) (count : Nat) : LoopState S :=
  { s with
    disk := writeSectors s.disk s.sector
      ((decryptBufferSectors decryptDataUnits s.sector
        (readSectors s.disk s.sector s.fragmentSectorCount)).take count) }

/-- The body of the loop: a fragment is read, decrypted and written. -/
def convertFragment (s : LoopState S) (i : Turn) : LoopState S :=
  if accessSucceeds good s.sector s.fragmentSectorCount i.readSucceeds then
    if accessSucceeds good s.sector s.fragmentSectorCount i.writeSucceeds then
      fragmentDone (storeFragment decryptDataUnits s s.fragmentSectorCount)
    else ioFailed i.skipAnswer (storeFragment decryptDataUnits s i.stored)
  else ioFailed i.skipAnswer s

/-- The loop has ended. -/
def LoopState.Halted (s : LoopState S) : Prop := s.stopped = true ∨ s.sectorsRemaining = 0

instance (s : LoopState S) : Decidable s.Halted := inferInstanceAs (Decidable (_ ∨ _))

/-- A turn of the loop. -/
def iterate (s : LoopState S) (i : Turn) : LoopState S × Unit :=
  (if s.Halted then s
    else if i.escKeyPressed then { s with stopped := true }
    else convertFragment good decryptDataUnits (nextFragment s) i, ())

/-- The loop; each turn finishes a fragment, or turns to single sectors, so there is one turn more
    than there are sectors at most. -/
def decryptLoop (s : LoopState S) (turns : Nat → Turn) : LoopState S :=
  (run (iterate good decryptDataUnits) s ((List.range (s.sectorsRemaining + 1)).map turns)).1

end Loop

/-! ## The header -/

/-- What `DecryptDrive` uses of `BootCryptoInfo`. -/
structure BootCryptoInfo where
  encryptedAreaStart : UInt64
  encryptedAreaLength : UInt64
  deriving DecidableEq

/-- The checks of the boot loader's `ReadVolumeHeader` on a decrypted header. -/
def HeaderValid (header : Bytes) : Prop :=
  getHeaderField32 header headerOffsetMagic = headerMagicNumber ∧
    (4 ≤ getHeaderField16 header headerOffsetVersion →
      getHeaderField32 header headerOffsetHeaderCrc =
        getCrc32 (slice header headerOffsetMagic (headerOffsetHeaderCrc - headerOffsetMagic))) ∧
    getHeaderField32 header headerOffsetKeyAreaCrc =
      getCrc32 (slice header headerMasterKeydataOffset masterKeydataSize)

instance (header : Bytes) : Decidable (HeaderValid header) :=
  inferInstanceAs (Decidable (_ ∧ _ ∧ _))

section Header

variable (C : Ciphers) (a : AlgorithmId) (dk : Bytes)

/-- `ReadVolumeHeader` of the boot loader; `none` is `ERR_PASSWORD_WRONG`. -/
def readVolumeHeader (header : Bytes) : Option BootCryptoInfo :=
  match decryptStoredHeader C a dk header with
  | none => none
  | some plain =>
    if HeaderValid plain then
      some
        { encryptedAreaStart := getHeaderField64 plain headerOffsetEncryptedAreaStart
          encryptedAreaLength := getHeaderField64 plain headerOffsetEncryptedAreaLength }
    else none

/-- The length and the checksum put into a decrypted header. -/
def patchAreaLength (header : Bytes) (length : UInt64) : Bytes :=
  let header := patch header headerOffsetEncryptedAreaLength (beBytes 8 length.toNat)
  let headerCrc32 := getCrc32 (slice header headerOffsetMagic
    (headerOffsetHeaderCrc - headerOffsetMagic))
  patch header headerOffsetHeaderCrc (beBytes 4 headerCrc32.toNat)

/-- `TC_LB_SIZE_BIT_SHIFT_DIVISOR` -/
def lbSizeBitShiftDivisor : UInt64 := 9

/-- "Updating header...", between reading the header sector and writing it. -/
def updateAreaLength (header : Bytes) (sectorsRemaining : Nat) : Bytes :=
  match readVolumeHeader C a dk header, decryptStoredHeader C a dk header with
  | some _, some plain =>
    let encryptedAreaLength := UInt64.ofNat sectorsRemaining <<< lbSizeBitShiftDivisor
    (encryptStoredHeader C a dk (patchAreaLength plain encryptedAreaLength)).getD header
  | _, _ => header

end Header

/-! ## A run -/

/-- `EncryptedVirtualPartition` -/
structure Partition where
  startSector : UInt64
  sectorCount : UInt64
  endSector : UInt64

/-- The end of `MountVolume`; `none` is `TC_INVALID_BIOS_DRIVE`. -/
def mountVolume (info : BootCryptoInfo) : Option Partition :=
  if info.encryptedAreaLength = 0 then none
  else
    let startSector := info.encryptedAreaStart >>> lbSizeBitShiftDivisor
    let sectorCount := info.encryptedAreaLength >>> lbSizeBitShiftDivisor
    some
      { startSector := startSector
        sectorCount := sectorCount
        endSector := sectorCount - 1 + startSector }

/-- The header sector and the sectors of the drive. -/
structure Host (S : Type) where
  header : Bytes
  disk : Nat → S

/-- What a run meets: the password prompt, left with the password of the header or without, the
    answer to "Decrypt now", and the turns of the loop. -/
structure RunInput where
  mounted : Bool
  decryptNow : Bool
  turns : Nat → Turn

section Run

variable {S : Type} (C : Ciphers) (a : AlgorithmId) (dk : Bytes) (good : Nat → Bool)
  (decryptDataUnits : Nat → S → S)

/-- The variables before the loop. -/
def enterLoop (disk : Nat → S) (partition : Option Partition) : LoopState S :=
  { disk := disk
    sector := (partition.map (fun p => (p.endSector + 1).toNat)).getD 0
    sectorsRemaining := (partition.map (fun p => (p.endSector + 1 - p.startSector).toNat)).getD 0
    fragmentSectorCount := 0x7f
    skipBadSectors := false
    headerUpdateRequired := false
    stopped := false }

/-- `DecryptDrive`; the answer says whether the header was updated. -/
def decryptDrive (st : Host S) (r : RunInput) : Host S × Bool :=
  match readVolumeHeader C a dk st.header, r.mounted && r.decryptNow with
  | some info, true =>
    let s := decryptLoop good decryptDataUnits (enterLoop st.disk (mountVolume info)) r.turns
    if s.headerUpdateRequired then
      ({ header := updateAreaLength C a dk st.header s.sectorsRemaining, disk := s.disk }, true)
    else ({ st with disk := s.disk }, false)
  | _, _ => (st, false)

end Run

/-! ## What a turn does -/

section Loop

variable {S : Type} {good : Nat → Bool} {decryptDataUnits : Nat → S → S}

/-- The drive while the area of `total` sectors from `start` on is decrypted from its end:
    `remaining` sectors hold what they held at first, in `original`. -/
structure Converted (good : Nat → Bool) (decryptDataUnits : Nat → S → S) (original : Nat → S)
    (start total remaining : Nat) (disk : Nat → S) : Prop where
  ciphertext : ∀ t, t < start + remaining → disk t = original t
  plaintext : ∀ t, start + remaining ≤ t → t < start + total → good t = true →
    disk t = decryptDataUnits t (original t)
  once : ∀ t, start + remaining ≤ t → t < start + total →
    disk t = original t ∨ disk t = decryptDataUnits t (original t)
  outside : ∀ t, start + total ≤ t → disk t = original t

/-- A write that fails while bad sectors are not passed over yet, and has stored a sector. -/
def TornWrite (good : Nat → Bool) (s : LoopState S) (i : Turn) : Prop :=
  ¬s.Halted ∧ i.escKeyPressed = false ∧ s.skipBadSectors = false ∧
    accessSucceeds good (nextFragment s).sector (nextFragment s).fragmentSectorCount
      i.readSucceeds = true ∧
    accessSucceeds good (nextFragment s).sector (nextFragment s).fragmentSectorCount
      i.writeSucceeds = false ∧ 0 < i.stored

instance (s : LoopState S) (i : Turn) : Decidable (TornWrite good s i) :=
  inferInstanceAs (Decidable (_ ∧ _ ∧ _ ∧ _ ∧ _ ∧ _))

theorem converted_refl (original : Nat → S) (start total : Nat) :
    Converted good decryptDataUnits original start total total original where
  ciphertext := fun _ _ => rfl
  plaintext := fun _ h1 h2 _ => absurd h2 (Nat.not_lt.mpr h1)
  once := fun _ _ _ => .inl rfl
  outside := fun _ _ => rfl

section

variable {original disk disk' : Nat → S} {start total remaining n : Nat}

/-- The last `n` sectors of what is left are decrypted, or are bad. -/
theorem Converted.shrink
    (h : Converted good decryptDataUnits original start total remaining disk)
    (hle : remaining ≤ total) (hn : n ≤ remaining)
    (hout : ∀ t, t < start + (remaining - n) ∨ start + remaining ≤ t → disk' t = disk t)
    (hin : ∀ t, start + (remaining - n) ≤ t → t < start + remaining →
      disk' t = decryptDataUnits t (disk t) ∨ disk' t = disk t ∧ good t = false) :
    Converted good decryptDataUnits original start total (remaining - n) disk' := by
  have hinside : ∀ t, start + (remaining - n) ≤ t → t < start + remaining →
      disk' t = decryptDataUnits t (original t) ∨ disk' t = original t ∧ good t = false := by
    intro t h1 h2
    have horiginal := h.ciphertext t h2
    rw [← horiginal]
    exact hin t h1 h2
  constructor
  · intro t ht
    rw [hout t (.inl ht)]
    exact h.ciphertext t (by omega)
  · intro t h1 h2 hgood
    by_cases ht : t < start + remaining
    · rcases hinside t h1 ht with hdec | ⟨-, hbad⟩
      · exact hdec
      · simp [hbad] at hgood
    · rw [hout t (.inr (by omega))]
      exact h.plaintext t (by omega) h2 hgood
  · intro t h1 h2
    by_cases ht : t < start + remaining
    · rcases hinside t h1 ht with hdec | ⟨hsame, -⟩
      · exact .inr hdec
      · exact .inl hsame
    · rw [hout t (.inr (by omega))]
      exact h.once t (by omega) h2
  · intro t ht
    rw [hout t (.inr (by omega))]
    exact h.outside t ht

end

theorem accessSucceeds_good {sector : Nat} {succeeds : Bool}
    (h : ¬accessSucceeds good sector 1 succeeds = true) : good sector = false := by
  simp [accessSucceeds] at h
  exact h.2

/-- What is stored of a fragment. -/
theorem storeFragment_disk (s : LoopState S) (count t : Nat) :
    (storeFragment decryptDataUnits s count).disk t =
      if s.sector ≤ t ∧ t < s.sector + min count s.fragmentSectorCount then
        decryptDataUnits t (s.disk t)
      else s.disk t := by
  simp only [storeFragment, writeSectors]
  by_cases hle : s.sector ≤ t
  · rw [if_pos hle]
    by_cases hlt : t - s.sector < min count s.fragmentSectorCount
    · have hpos : s.sector ≤ t ∧ t < s.sector + min count s.fragmentSectorCount := by omega
      have hsum : s.sector + (t - s.sector) = t := by omega
      have hcount : t - s.sector < count := by omega
      have hfragment : t - s.sector < s.fragmentSectorCount := by omega
      rw [if_pos hpos]
      simp [List.getD_eq_getElem?_getD, decryptBufferSectors, readSectors, hcount, hfragment, hsum]
    · have hneg : ¬(s.sector ≤ t ∧ t < s.sector + min count s.fragmentSectorCount) := by omega
      have hbehind : ((decryptBufferSectors decryptDataUnits s.sector
          (readSectors s.disk s.sector s.fragmentSectorCount)).take count).length ≤
            t - s.sector := by
        simp [decryptBufferSectors, readSectors]
        omega
      rw [if_neg hneg, List.getD_eq_getElem?_getD, List.getElem?_eq_none hbehind]
      rfl
  · have hneg : ¬(s.sector ≤ t ∧ t < s.sector + min count s.fragmentSectorCount) :=
      fun h => hle h.1
    rw [if_neg hle, if_neg hneg]

/-- What holds at the head of the loop; `first` is what remained when the run began. -/
structure LoopInv (good : Nat → Bool) (decryptDataUnits : Nat → S → S) (original : Nat → S)
    (start total first : Nat) (s : LoopState S) : Prop where
  converted : Converted good decryptDataUnits original start total s.sectorsRemaining s.disk
  position : ¬s.Halted → s.sector = start + s.sectorsRemaining
  fragment_pos : 0 < s.fragmentSectorCount
  single : s.skipBadSectors = true → s.fragmentSectorCount = 1
  le_first : s.sectorsRemaining ≤ first
  first_le : first ≤ total
  untouched : s.headerUpdateRequired = false → s.sectorsRemaining = first

/-- What holds between the step back and the foot of the loop. -/
structure AtFragment (good : Nat → Bool) (decryptDataUnits : Nat → S → S) (original : Nat → S)
    (start total first : Nat) (s : LoopState S) : Prop where
  converted : Converted good decryptDataUnits original start total s.sectorsRemaining s.disk
  position : s.sector = start + (s.sectorsRemaining - s.fragmentSectorCount)
  fragment_pos : 0 < s.fragmentSectorCount
  fragment_le : s.fragmentSectorCount ≤ s.sectorsRemaining
  single : s.skipBadSectors = true → s.fragmentSectorCount = 1
  le_first : s.sectorsRemaining ≤ first
  first_le : first ≤ total
  untouched : s.headerUpdateRequired = false → s.sectorsRemaining = first

section

variable {original : Nat → S} {start total first : Nat} {s : LoopState S}

theorem LoopInv.nextFragment
    (h : LoopInv good decryptDataUnits original start total first s) (hrun : ¬s.Halted) :
    AtFragment good decryptDataUnits original start total first (nextFragment s) := by
  have hposition := h.position hrun
  have hpos := h.fragment_pos
  have hremaining : s.sectorsRemaining ≠ 0 := fun hzero => hrun (.inr hzero)
  constructor
  · exact h.converted
  · simp only [Boot.nextFragment]
    split <;> omega
  · simp only [Boot.nextFragment]
    split <;> omega
  · simp only [Boot.nextFragment]
    split <;> omega
  · intro hskip
    have hone := h.single hskip
    simp only [Boot.nextFragment]
    split <;> omega
  · exact h.le_first
  · exact h.first_le
  · exact h.untouched

/-- The fragment is finished: it was stored as a whole, or it is one bad sector. -/
theorem AtFragment.fragmentDone
    (h : AtFragment good decryptDataUnits original start total first s) {count : Nat}
    (hcount : s.fragmentSectorCount ≤ count ∨ s.fragmentSectorCount = 1 ∧ good s.sector = false) :
    LoopInv good decryptDataUnits original start total first
      (fragmentDone (storeFragment decryptDataUnits s count)) := by
  have hposition := h.position
  have hle := h.fragment_le
  constructor
  · apply h.converted.shrink (Nat.le_trans h.le_first h.first_le) hle
    · intro t ht
      change (storeFragment decryptDataUnits s count).disk t = s.disk t
      rw [storeFragment_disk, if_neg (by omega)]
    · intro t h1 h2
      change (storeFragment decryptDataUnits s count).disk t = _ ∨
        (storeFragment decryptDataUnits s count).disk t = _ ∧ _
      rw [storeFragment_disk]
      rcases hcount with hwhole | ⟨hone, hbad⟩
      · rw [if_pos (by omega)]
        exact .inl rfl
      · have ht : t = s.sector := by omega
        split
        · exact .inl rfl
        · exact .inr ⟨rfl, ht ▸ hbad⟩
  · intro _
    simp only [Boot.fragmentDone, storeFragment]
    omega
  · exact h.fragment_pos
  · exact h.single
  · exact Nat.le_trans (Nat.sub_le _ _) h.le_first
  · exact h.first_le
  · intro hupdate
    cases hupdate

theorem storeFragment_zero (s : LoopState S) : storeFragment decryptDataUnits s 0 = s := by
  have hdisk : (storeFragment decryptDataUnits s 0).disk = s.disk := by
    funext t
    rw [storeFragment_disk, if_neg (by omega)]
  cases s
  simp only [storeFragment] at hdisk ⊢
  rw [hdisk]

/-- A call failed: before bad sectors are passed over nothing may have been stored. -/
theorem AtFragment.ioFailed
    (h : AtFragment good decryptDataUnits original start total first s) {count : Nat}
    (answer : Bool) (hbad : s.skipBadSectors = true → good s.sector = false)
    (hcount : s.skipBadSectors = false → count = 0) :
    LoopInv good decryptDataUnits original start total first
      (ioFailed answer (storeFragment decryptDataUnits s count)) := by
  cases hskip : s.skipBadSectors with
  | true =>
    have hstore : (storeFragment decryptDataUnits s count).skipBadSectors = true := hskip
    rw [Boot.ioFailed, if_pos hstore]
    exact h.fragmentDone (.inr ⟨h.single hskip, hbad hskip⟩)
  | false =>
    have hnot : ¬s.skipBadSectors = true := by simp [hskip]
    have hposition := h.position
    have hle := h.fragment_le
    rw [hcount hskip, storeFragment_zero, Boot.ioFailed, if_neg hnot]
    cases answer with
    | true =>
      constructor
      · exact h.converted
      · intro _
        simp only [askBadSectorSkip, if_true]
        omega
      · exact Nat.one_pos
      · intro _
        rfl
      · exact h.le_first
      · exact h.first_le
      · exact h.untouched
    | false =>
      constructor
      · exact h.converted
      · intro hrunning
        exact absurd (.inl rfl) hrunning
      · exact h.fragment_pos
      · exact h.single
      · exact h.le_first
      · exact h.first_le
      · exact h.untouched

/-- **A turn of the loop keeps the boundary.** -/
theorem iterate_loopInv {i : Turn}
    (h : LoopInv good decryptDataUnits original start total first s)
    (hwhole : ¬TornWrite good s i) :
    LoopInv good decryptDataUnits original start total first
      (iterate good decryptDataUnits s i).1 := by
  unfold iterate
  by_cases hrun : s.Halted
  · rwa [if_pos hrun]
  · rw [if_neg hrun]
    cases hesc : i.escKeyPressed with
    | true =>
      constructor
      · exact h.converted
      · intro hrunning
        exact absurd (.inl rfl) hrunning
      · exact h.fragment_pos
      · exact h.single
      · exact h.le_first
      · exact h.first_le
      · exact h.untouched
    | false =>
      have hf := h.nextFragment hrun
      -- a call that fails while bad sectors are passed over was for one bad sector
      have hfail : ∀ ok, ¬accessSucceeds good (nextFragment s).sector
          (nextFragment s).fragmentSectorCount ok = true →
          (nextFragment s).skipBadSectors = true → good (nextFragment s).sector = false := by
        intro ok hok hskip
        rw [hf.single hskip] at hok
        exact accessSucceeds_good hok
      change LoopInv good decryptDataUnits original start total first
        (convertFragment good decryptDataUnits (nextFragment s) i)
      unfold convertFragment
      split
      · rename_i hread
        split
        · exact hf.fragmentDone (.inl (Nat.le_refl _))
        · rename_i hwrite
          apply hf.ioFailed i.skipAnswer (hfail _ hwrite)
          intro hskip
          by_contra hne
          exact hwhole ⟨hrun, hesc, hskip, hread, Bool.eq_false_iff.mpr hwrite,
            Nat.pos_of_ne_zero hne⟩
      · rename_i hread
        have hkeep : LoopInv good decryptDataUnits original start total first
            (ioFailed i.skipAnswer (storeFragment decryptDataUnits (nextFragment s) 0)) :=
          hf.ioFailed i.skipAnswer (hfail _ hread) (fun _ => rfl)
        rwa [storeFragment_zero] at hkeep

end

/-! ## The loop ends -/

/-- Turns that the loop can still take: one for each sector, and one that fails before bad sectors
    are passed over. -/
def LoopState.work (s : LoopState S) : Nat :=
  s.sectorsRemaining + if s.skipBadSectors then 0 else 1

theorem ioFailed_work {s : LoopState S} (answer : Bool) (hpos : 0 < s.fragmentSectorCount)
    (hle : s.fragmentSectorCount ≤ s.sectorsRemaining) :
    0 < (ioFailed answer s).fragmentSectorCount ∧
      ((ioFailed answer s).Halted ∨ (ioFailed answer s).work < s.work) := by
  cases hskip : s.skipBadSectors with
  | true =>
    rw [ioFailed, if_pos hskip]
    refine ⟨hpos, .inr ?_⟩
    simp only [LoopState.work, fragmentDone, hskip, if_true]
    omega
  | false =>
    have hnot : ¬s.skipBadSectors = true := by simp [hskip]
    rw [ioFailed, if_neg hnot]
    cases answer with
    | true =>
      refine ⟨Nat.one_pos, .inr ?_⟩
      simp [LoopState.work, askBadSectorSkip, hskip]
    | false => exact ⟨hpos, .inl (.inl rfl)⟩

/-- **A turn is progress.** -/
theorem iterate_work {s : LoopState S} (i : Turn) (hpos : 0 < s.fragmentSectorCount) :
    0 < (iterate good decryptDataUnits s i).1.fragmentSectorCount ∧
      ((iterate good decryptDataUnits s i).1.Halted ∨
        (iterate good decryptDataUnits s i).1.work < s.work) := by
  unfold iterate
  by_cases hrun : s.Halted
  · rw [if_pos hrun]
    exact ⟨hpos, .inl hrun⟩
  · rw [if_neg hrun]
    have hremaining : s.sectorsRemaining ≠ 0 := fun h => hrun (.inr h)
    cases hesc : i.escKeyPressed with
    | true => exact ⟨hpos, .inl (.inl rfl)⟩
    | false =>
      have hfragment : 0 < (nextFragment s).fragmentSectorCount := by
        simp only [nextFragment]
        split <;> omega
      have hle : (nextFragment s).fragmentSectorCount ≤ (nextFragment s).sectorsRemaining := by
        simp only [nextFragment]
        split <;> omega
      have hwork : (nextFragment s).work = s.work := rfl
      change 0 < (convertFragment good decryptDataUnits (nextFragment s) i).fragmentSectorCount ∧
        ((convertFragment good decryptDataUnits (nextFragment s) i).Halted ∨
          (convertFragment good decryptDataUnits (nextFragment s) i).work < s.work)
      rw [← hwork]
      unfold convertFragment
      split
      · split
        · refine ⟨hfragment, .inr ?_⟩
          have hless : (nextFragment s).sectorsRemaining - (nextFragment s).fragmentSectorCount <
              (nextFragment s).sectorsRemaining := by omega
          exact Nat.add_lt_add_right hless _
        · exact ioFailed_work i.skipAnswer hfragment hle
      · exact ioFailed_work i.skipAnswer hfragment hle

theorem run_halted {s : LoopState S} (is : List Turn) (h : s.Halted) :
    (run (iterate good decryptDataUnits) s is).1.Halted := by
  have hstep : ∀ (s : LoopState S) (i : Turn), s.Halted → True →
      (iterate good decryptDataUnits s i).1.Halted := by
    intro s i hs _
    rwa [iterate, if_pos hs]
  exact run_invariant hstep h (along_of_forall (fun _ _ _ => trivial))

theorem run_halts {s : LoopState S} (is : List Turn) (hpos : 0 < s.fragmentSectorCount)
    (hwork : s.work ≤ is.length) : (run (iterate good decryptDataUnits) s is).1.Halted := by
  induction is generalizing s with
  | nil =>
    right
    have hzero : s.work = 0 := Nat.le_zero.mp hwork
    exact (Nat.add_eq_zero_iff.mp hzero).1
  | cons i is ih =>
    rw [run_cons]
    have hwork' : 0 < (iterate good decryptDataUnits s i).1.fragmentSectorCount ∧
        ((iterate good decryptDataUnits s i).1.Halted ∨
          (iterate good decryptDataUnits s i).1.work < s.work) := iterate_work i hpos
    obtain ⟨hpos', hhalted | hless⟩ := hwork'
    · exact run_halted is hhalted
    · apply ih hpos'
      simp only [List.length_cons] at hwork
      omega

/-- **The loop ends**, whatever it meets. -/
theorem loop_halts {s : LoopState S} (turns : Nat → Turn) (hpos : 0 < s.fragmentSectorCount) :
    (decryptLoop good decryptDataUnits s turns).Halted := by
  apply run_halts _ hpos
  rw [List.length_map, List.length_range, LoopState.work]
  split <;> omega

/-- Without Esc, and with bad sectors passed over when asked, the loop is not left early. -/
theorem iterate_notStopped {s : LoopState S} {i : Turn} (hs : s.stopped = false)
    (hesc : i.escKeyPressed = false) (hanswer : i.skipAnswer = true) :
    (iterate good decryptDataUnits s i).1.stopped = false := by
  have hfailed : ∀ s : LoopState S, s.stopped = false →
      (ioFailed i.skipAnswer s).stopped = false := by
    intro s hs
    unfold ioFailed
    rw [hanswer]
    split
    · exact hs
    · exact hs
  simp only [iterate, hesc, Bool.false_eq_true, if_false]
  split
  · exact hs
  · unfold convertFragment
    split
    · split
      · exact hs
      · exact hfailed _ hs
    · exact hfailed _ hs

theorem loop_finishes {s : LoopState S} {turns : Nat → Turn} (hpos : 0 < s.fragmentSectorCount)
    (hs : s.stopped = false) (hesc : ∀ k, (turns k).escKeyPressed = false)
    (hanswer : ∀ k, (turns k).skipAnswer = true) :
    (decryptLoop good decryptDataUnits s turns).sectorsRemaining = 0 := by
  have hrunning : (decryptLoop good decryptDataUnits s turns).stopped = false := by
    have hstep : ∀ (s : LoopState S) (i : Turn), s.stopped = false →
        i.escKeyPressed = false ∧ i.skipAnswer = true →
        (iterate good decryptDataUnits s i).1.stopped = false := by
      intro s i hs hi
      exact iterate_notStopped hs hi.1 hi.2
    apply run_invariant hstep hs
    apply along_of_forall
    intro i hi _
    obtain ⟨k, -, rfl⟩ := List.mem_map.mp hi
    exact ⟨hesc k, hanswer k⟩
  rcases loop_halts turns hpos with hstopped | hzero
  · rw [hrunning] at hstopped
    cases hstopped
  · exact hzero

end Loop

/-! ## The header after the update -/

section Header

variable {C : Ciphers} {a : AlgorithmId} {dk header plain : Bytes} {info : BootCryptoInfo}

/-- The header sector opens under the header key, and says `info`. -/
structure OpensWith (C : Ciphers) (a : AlgorithmId) (dk header : Bytes) (info : BootCryptoInfo) :
    Prop where
  length_eq : header.length = volumeHeaderEffectiveSize
  read : readVolumeHeader C a dk header = some info

/-- What the fields of a header with another length are; all others are as before. -/
structure LengthPatched (header patched : Bytes) (length : UInt64) : Prop where
  length_eq : patched.length = volumeHeaderEffectiveSize
  frame : ∀ off n, (off + n ≤ 116 ∨ 124 ≤ off) → (off + n ≤ 252 ∨ 256 ≤ off) →
    slice patched off n = slice header off n
  length_field : slice patched headerOffsetEncryptedAreaLength 8 = beBytes 8 length.toNat
  crc_eq : slice patched headerOffsetHeaderCrc 4 = beBytes 4 (getCrc32
    (slice patched headerOffsetMagic (headerOffsetHeaderCrc - headerOffsetMagic))).toNat

theorem lengthPatched_patchAreaLength (hlen : header.length = volumeHeaderEffectiveSize)
    (length : UInt64) : LengthPatched header (patchAreaLength header length) length := by
  have h512 : header.length = 512 := hlen
  simp only [patchAreaLength, headerOffsetEncryptedAreaLength, headerOffsetHeaderCrc,
    headerOffsetMagic]
  generalize hmid : patch header 116 (beBytes 8 length.toNat) = mid
  have hmidLen : mid.length = 512 := by
    rw [← hmid, length_patch (by simp; omega), h512]
  generalize hcrc : beBytes 4 (getCrc32 (slice mid 64 (252 - 64))).toNat = crc
  have hcrcLen : crc.length = 4 := by rw [← hcrc, length_beBytes]
  have hlast : ∀ off n, (off + n ≤ 252 ∨ 256 ≤ off) →
      slice (patch mid 252 crc) off n = slice mid off n := by
    intro off n h
    exact slice_patch_disjoint (by omega) (by omega)
  constructor
  · rw [length_patch (by omega)]
    exact hmidLen
  · intro off n h1 h2
    rw [hlast off n h2, ← hmid]
    exact slice_patch_disjoint (by omega) (by simp; omega)
  · rw [headerOffsetEncryptedAreaLength, hlast 116 8 (by omega), ← hmid]
    exact slice_patch_self (by omega) (by simp)
  · rw [headerOffsetHeaderCrc, headerOffsetMagic, hlast 64 (252 - 64) (by omega), hcrc]
    exact slice_patch_self (by omega) hcrcLen.symm

section

variable {patched : Bytes} {length : UInt64}

theorem LengthPatched.valid (hp : LengthPatched header patched length)
    (h : HeaderValid header) : HeaderValid patched := by
  obtain ⟨hmagic, -, hkey⟩ := h
  refine ⟨?_, ?_, ?_⟩
  · rw [← hmagic, getHeaderField32, getHeaderField32,
      hp.frame headerOffsetMagic 4 (.inl (by decide)) (.inl (by decide))]
  · intro _
    rw [getHeaderField32, hp.crc_eq, ofNat_beNat_beBytes32]
  · rw [hp.frame headerMasterKeydataOffset masterKeydataSize (.inr (by decide)) (.inr (by decide)),
      ← hkey, getHeaderField32, getHeaderField32,
      hp.frame headerOffsetKeyAreaCrc 4 (.inl (by decide)) (.inl (by decide))]

theorem LengthPatched.start_field (hp : LengthPatched header patched length) :
    getHeaderField64 patched headerOffsetEncryptedAreaStart =
      getHeaderField64 header headerOffsetEncryptedAreaStart := by
  rw [getHeaderField64, getHeaderField64,
    hp.frame headerOffsetEncryptedAreaStart 8 (.inl (by decide)) (.inl (by decide))]

theorem LengthPatched.areaLength (hp : LengthPatched header patched length) :
    getHeaderField64 patched headerOffsetEncryptedAreaLength = length := by
  rw [getHeaderField64, hp.length_field, ofNat_beNat_beBytes64]

end

theorem readVolumeHeader_some (h : readVolumeHeader C a dk header = some info) :
    ∃ plain, decryptStoredHeader C a dk header = some plain ∧ HeaderValid plain ∧
      info.encryptedAreaStart = getHeaderField64 plain headerOffsetEncryptedAreaStart ∧
      info.encryptedAreaLength = getHeaderField64 plain headerOffsetEncryptedAreaLength := by
  unfold readVolumeHeader at h
  split at h
  · cases h
  · rename_i plain hplain
    split at h
    · rename_i hvalid
      cases h
      exact ⟨plain, hplain, hvalid, rfl, rfl⟩
    · cases h

theorem readVolumeHeader_of_valid (hplain : decryptStoredHeader C a dk header = some plain)
    (hvalid : HeaderValid plain) :
    readVolumeHeader C a dk header = some
      { encryptedAreaStart := getHeaderField64 plain headerOffsetEncryptedAreaStart
        encryptedAreaLength := getHeaderField64 plain headerOffsetEncryptedAreaLength } := by
  simp only [readVolumeHeader, hplain, if_pos hvalid]

/-- **The updated header opens**, with the new length and the old start. -/
theorem updateAreaLength_opensWith (h : OpensWith C a dk header info) (sectorsRemaining : Nat) :
    OpensWith C a dk (updateAreaLength C a dk header sectorsRemaining)
      { info with
        encryptedAreaLength := UInt64.ofNat sectorsRemaining <<< lbSizeBitShiftDivisor } := by
  obtain ⟨plain, hplain, hvalid, hstart, hlength⟩ := readVolumeHeader_some h.read
  have hplainLen := length_decryptStoredHeader h.length_eq hplain
  have hp := lengthPatched_patchAreaLength hplainLen
    (UInt64.ofNat sectorsRemaining <<< lbSizeBitShiftDivisor)
  obtain ⟨out, henc, houtLen, hdec⟩ := encryptStoredHeader_some C a dk hp.length_eq
  have hupdate : updateAreaLength C a dk header sectorsRemaining = out := by
    simp only [updateAreaLength, h.read, hplain, henc]
    rfl
  rw [hupdate]
  refine ⟨houtLen, ?_⟩
  rw [readVolumeHeader_of_valid hdec (hp.valid hvalid), hp.start_field, hp.areaLength, hstart]

/-- A header that the driver opens with the same algorithm opens in the boot loader. -/
theorem opensWith_of_opensAs {driverInfo : CryptoInfo} (h : OpensAs C a dk header driverInfo) :
    OpensWith C a dk header
      { encryptedAreaStart := driverInfo.encryptedAreaStart
        encryptedAreaLength := driverInfo.encryptedAreaLength } := by
  have h512 : header.length = 512 := h.length_eq
  refine ⟨h.length_eq, ?_⟩
  have hread := h.read
  unfold readVolumeHeaderWith at hread
  split at hread
  · cases hread
  · rename_i decrypted hdec
    have hdecLen : decrypted.length = 448 := by
      rw [decryptBuffer_eq] at hdec
      rw [EncryptionAlgorithm.length_decryptBuffer hdec]
      exact length_slice (by rw [h512]; decide)
    have hpatch : patch header headerEncryptedDataOffset decrypted =
        slice header 0 headerEncryptedDataOffset ++ decrypted := by
      have hdrop : header.drop (64 + decrypted.length) = [] := List.drop_eq_nil_of_le (by omega)
      change header.take 64 ++ decrypted ++ header.drop (64 + decrypted.length) = _
      rw [hdrop, List.append_nil]
      rfl
    have hplain : decryptStoredHeader C a dk header =
        some (slice header 0 headerEncryptedDataOffset ++ decrypted) := by
      rw [decryptStoredHeader, hdec, Option.map_some, hpatch]
    obtain ⟨hr, hinfo⟩ := readDecryptedHeader_iff.mp hread
    rw [readVolumeHeader_of_valid hplain ⟨hr.magic, hr.headerCrc, hr.keyAreaCrc⟩, hinfo]
    rfl

end Header

/-! ## Runs -/

section Run

variable {S : Type} {C : Ciphers} {a : AlgorithmId} {dk : Bytes} {good : Nat → Bool}
  {decryptDataUnits : Nat → S → S} {original : Nat → S} {start total : Nat}

/-- The first sector of the encrypted area. -/
def BootCryptoInfo.startSector (info : BootCryptoInfo) : Nat :=
  (info.encryptedAreaStart >>> lbSizeBitShiftDivisor).toNat

/-- Its length in sectors, as the header has it. -/
def BootCryptoInfo.sectorCount (info : BootCryptoInfo) : Nat :=
  (info.encryptedAreaLength >>> lbSizeBitShiftDivisor).toNat

theorem toNat_shiftRight_divisor (v : UInt64) :
    (v >>> lbSizeBitShiftDivisor).toNat = v.toNat / 512 := by
  rw [UInt64.toNat_shiftRight, lbSizeBitShiftDivisor, Nat.shiftRight_eq_div_pow]
  rfl

theorem sectorCount_update {n : Nat} (h : n < 2 ^ 55) :
    ((UInt64.ofNat n <<< lbSizeBitShiftDivisor) >>> lbSizeBitShiftDivisor).toNat = n := by
  have hsize : UInt64.size = 2 ^ 64 := rfl
  have hn : (UInt64.ofNat n).toNat = n := UInt64.toNat_ofNat_of_lt' (by omega)
  have hnine : lbSizeBitShiftDivisor.toNat % 64 = 9 := rfl
  rw [toNat_shiftRight_divisor, UInt64.toNat_shiftLeft, hn, hnine, Nat.shiftLeft_eq,
    Nat.mod_eq_of_lt (by omega)]
  omega

/-- Before the loop the position is the end of the area. -/
theorem enterLoop_eq (disk : Nat → S) (info : BootCryptoInfo) :
    (enterLoop disk (mountVolume info)).sectorsRemaining = info.sectorCount ∧
      (info.sectorCount ≠ 0 →
        (enterLoop disk (mountVolume info)).sector = info.startSector + info.sectorCount) := by
  have hstart : info.startSector = info.encryptedAreaStart.toNat / 512 :=
    toNat_shiftRight_divisor _
  have hcount : info.sectorCount = info.encryptedAreaLength.toNat / 512 :=
    toNat_shiftRight_divisor _
  have hstartLt := info.encryptedAreaStart.toNat_lt
  have hlengthLt := info.encryptedAreaLength.toNat_lt
  by_cases hzero : info.encryptedAreaLength = 0
  · have hnone : mountVolume info = none := by simp [mountVolume, hzero]
    have hcountZero : info.sectorCount = 0 := by simp [hcount, hzero]
    rw [hnone]
    exact ⟨hcountZero.symm, fun h => absurd hcountZero h⟩
  · have hsome : mountVolume info = some
        { startSector := info.encryptedAreaStart >>> lbSizeBitShiftDivisor
          sectorCount := info.encryptedAreaLength >>> lbSizeBitShiftDivisor
          endSector := info.encryptedAreaLength >>> lbSizeBitShiftDivisor - 1 +
            info.encryptedAreaStart >>> lbSizeBitShiftDivisor } := by
      simp only [mountVolume, if_neg hzero]
    have hend : info.encryptedAreaLength >>> lbSizeBitShiftDivisor - 1 +
        info.encryptedAreaStart >>> lbSizeBitShiftDivisor + 1 =
        info.encryptedAreaLength >>> lbSizeBitShiftDivisor +
          info.encryptedAreaStart >>> lbSizeBitShiftDivisor := by
      rw [UInt64.add_assoc, UInt64.add_comm (info.encryptedAreaStart >>> _) 1,
        ← UInt64.add_assoc, UInt64.sub_add_cancel]
    rw [hsome]
    simp only [enterLoop, Option.map_some, Option.getD_some, hend]
    refine ⟨?_, ?_⟩
    · rw [UInt64.add_sub_cancel]
      rfl
    · intro _
      rw [UInt64.toNat_add]
      change (info.sectorCount + info.startSector) % 2 ^ 64 = _
      rw [Nat.mod_eq_of_lt (by omega), Nat.add_comm]

/-- The drive and its header agree: the header opens, and what it says remains is what remains. -/
structure Consistent (C : Ciphers) (a : AlgorithmId) (dk : Bytes) (good : Nat → Bool)
    (decryptDataUnits : Nat → S → S) (original : Nat → S) (info : BootCryptoInfo) (st : Host S)
    (info' : BootCryptoInfo) : Prop where
  opens : OpensWith C a dk st.header info'
  start_eq : info'.encryptedAreaStart = info.encryptedAreaStart
  sectors_le : info'.sectorCount ≤ info.sectorCount
  converted : Converted good decryptDataUnits original info.startSector info.sectorCount
    info'.sectorCount st.disk

/-- No turn of the run has a torn write. -/
def RunWhole (good : Nat → Bool) (decryptDataUnits : Nat → S → S) (C : Ciphers) (a : AlgorithmId)
    (dk : Bytes) (st : Host S) (r : RunInput) : Prop :=
  ∀ info, readVolumeHeader C a dk st.header = some info → r.mounted && r.decryptNow →
    Along (iterate good decryptDataUnits) (fun s i => ¬TornWrite good s i)
      (enterLoop st.disk (mountVolume info))
      ((List.range ((enterLoop st.disk (mountVolume info)).sectorsRemaining + 1)).map r.turns)

/-- A run to the end: the password is right, nobody presses Esc, and bad sectors are passed over
    when the question comes. -/
structure RunInput.Uninterrupted (r : RunInput) : Prop where
  mounted : r.mounted = true
  decryptNow : r.decryptNow = true
  noEsc : ∀ k, (r.turns k).escKeyPressed = false
  skip : ∀ k, (r.turns k).skipAnswer = true

theorem enterLoop_loopInv {info info' : BootCryptoInfo} {st : Host S}
    (h : Consistent C a dk good decryptDataUnits original info st info') :
    LoopInv good decryptDataUnits original info.startSector info.sectorCount info'.sectorCount
      (enterLoop st.disk (mountVolume info')) := by
  obtain ⟨hremaining, hsector⟩ := enterLoop_eq st.disk info'
  have hstart : info'.startSector = info.startSector := congrArg
    (fun v => (v >>> lbSizeBitShiftDivisor).toNat) h.start_eq
  constructor
  · rw [hremaining]
    exact h.converted
  · intro hrunning
    have hne : info'.sectorCount ≠ 0 := fun hzero => hrunning (.inr (hremaining.trans hzero))
    rw [hsector hne, hremaining, hstart]
  · exact Nat.succ_pos _
  · intro hskip
    cases hskip
  · rw [hremaining]
  · exact h.sectors_le
  · intro _
    exact hremaining

theorem loop_loopInv {first : Nat} {s : LoopState S} {turns : Nat → Turn}
    (h : LoopInv good decryptDataUnits original start total first s)
    (hwhole : Along (iterate good decryptDataUnits) (fun s i => ¬TornWrite good s i) s
      ((List.range (s.sectorsRemaining + 1)).map turns)) :
    LoopInv good decryptDataUnits original start total first
      (decryptLoop good decryptDataUnits s turns) :=
  run_invariant (fun _ _ => iterate_loopInv) h hwhole

/-- **A run keeps header and drive consistent**, and a run to the end leaves nothing encrypted. -/
theorem decryptDrive_consistent {info info' : BootCryptoInfo} {st : Host S} {r : RunInput}
    (h : Consistent C a dk good decryptDataUnits original info st info')
    (hwhole : RunWhole good decryptDataUnits C a dk st r) :
    ∃ info'', Consistent C a dk good decryptDataUnits original info
        (decryptDrive C a dk good decryptDataUnits st r).1 info'' ∧
      info''.sectorCount ≤ info'.sectorCount ∧
      (r.Uninterrupted → info''.sectorCount = 0) := by
  have hread := h.opens.read
  cases hgo : r.mounted && r.decryptNow with
  | false =>
    have hsame : decryptDrive C a dk good decryptDataUnits st r = (st, false) := by
      simp only [decryptDrive, hread, hgo]
    rw [hsame]
    refine ⟨info', h, Nat.le_refl _, ?_⟩
    intro hr
    simp [hr.mounted, hr.decryptNow] at hgo
  | true =>
    have henter := enterLoop_loopInv h
    have hinv := loop_loopInv henter (hwhole info' hread hgo)
    have hfinish : r.Uninterrupted → (decryptLoop good decryptDataUnits
        (enterLoop st.disk (mountVolume info')) r.turns).sectorsRemaining = 0 :=
      fun hr => loop_finishes henter.fragment_pos rfl hr.noEsc hr.skip
    have hdrive : decryptDrive C a dk good decryptDataUnits st r =
        if (decryptLoop good decryptDataUnits (enterLoop st.disk (mountVolume info'))
            r.turns).headerUpdateRequired then
          ({ header := updateAreaLength C a dk st.header (decryptLoop good decryptDataUnits
              (enterLoop st.disk (mountVolume info')) r.turns).sectorsRemaining
             disk := (decryptLoop good decryptDataUnits
              (enterLoop st.disk (mountVolume info')) r.turns).disk }, true)
        else ({ st with disk := (decryptLoop good decryptDataUnits
          (enterLoop st.disk (mountVolume info')) r.turns).disk }, false) := by
      simp only [decryptDrive, hread, hgo]
    rw [hdrive]
    generalize decryptLoop good decryptDataUnits (enterLoop st.disk (mountVolume info')) r.turns =
      s at hinv hfinish ⊢
    split
    · have hbound : s.sectorsRemaining < 2 ^ 55 := by
        have hle := hinv.le_first
        have hlength := info'.encryptedAreaLength.toNat_lt
        rw [BootCryptoInfo.sectorCount, toNat_shiftRight_divisor] at hle
        omega
      have hcount : BootCryptoInfo.sectorCount
          { info' with
            encryptedAreaLength := UInt64.ofNat s.sectorsRemaining <<< lbSizeBitShiftDivisor } =
          s.sectorsRemaining := sectorCount_update hbound
      refine ⟨_, ⟨updateAreaLength_opensWith h.opens _, h.start_eq, ?_, ?_⟩, ?_, ?_⟩
      · rw [hcount]
        exact Nat.le_trans hinv.le_first hinv.first_le
      · rw [hcount]
        exact hinv.converted
      · rw [hcount]
        exact hinv.le_first
      · intro hr
        rw [hcount]
        exact hfinish hr
    · rename_i hupdate
      have hfirst := hinv.untouched (Bool.eq_false_iff.mpr hupdate)
      refine ⟨info', ⟨h.opens, h.start_eq, h.sectors_le, ?_⟩, Nat.le_refl _, ?_⟩
      · rw [← hfirst]
        exact hinv.converted
      · intro hr
        rw [← hfirst]
        exact hfinish hr

theorem session_consistent {info : BootCryptoInfo} {st : Host S} {rs : List RunInput}
    (h : ∃ info', Consistent C a dk good decryptDataUnits original info st info')
    (hwhole : Along (decryptDrive C a dk good decryptDataUnits)
      (RunWhole good decryptDataUnits C a dk) st rs) :
    ∃ info', Consistent C a dk good decryptDataUnits original info
      (run (decryptDrive C a dk good decryptDataUnits) st rs).1 info' := by
  have hstep : ∀ (st : Host S) (r : RunInput),
      (∃ info', Consistent C a dk good decryptDataUnits original info st info') →
      RunWhole good decryptDataUnits C a dk st r →
      ∃ info', Consistent C a dk good decryptDataUnits original info
        (decryptDrive C a dk good decryptDataUnits st r).1 info' := by
    rintro st r ⟨info', hst⟩ hr
    obtain ⟨info'', hnext, -, -⟩ := decryptDrive_consistent hst hr
    exact ⟨info'', hnext⟩
  exact run_invariant hstep h hwhole

theorem consistent_refl {info : BootCryptoInfo} {st : Host S}
    (h : OpensWith C a dk st.header info) :
    Consistent C a dk good decryptDataUnits st.disk info st info where
  opens := h
  start_eq := rfl
  sectors_le := Nat.le_refl _
  converted := converted_refl _ _ _

/-- **Decryption is exact and resumable** in every session without a torn write: the header opens,
what it says is encrypted is as it was, what it does not is decrypted once or bad, and a run to the
end leaves nothing encrypted. -/
theorem decryption_resumable {info : BootCryptoInfo} {st : Host S}
    (hopens : OpensWith C a dk st.header info) {rs : List RunInput}
    (hwhole : Along (decryptDrive C a dk good decryptDataUnits)
      (RunWhole good decryptDataUnits C a dk) st rs) :
    (∃ info', Consistent C a dk good decryptDataUnits st.disk info
        (run (decryptDrive C a dk good decryptDataUnits) st rs).1 info') ∧
      ∀ r : RunInput, r.Uninterrupted →
        RunWhole good decryptDataUnits C a dk
          (run (decryptDrive C a dk good decryptDataUnits) st rs).1 r →
        ∃ info', info'.sectorCount = 0 ∧
          Consistent C a dk good decryptDataUnits st.disk info
            (decryptDrive C a dk good decryptDataUnits
              (run (decryptDrive C a dk good decryptDataUnits) st rs).1 r).1 info' := by
  have hsession := session_consistent ⟨info, consistent_refl hopens⟩ hwhole
  refine ⟨hsession, ?_⟩
  intro r hr hrun
  obtain ⟨info', hinfo'⟩ := hsession
  obtain ⟨info'', hnext, -, hzero⟩ := decryptDrive_consistent hinfo' hrun
  exact ⟨info'', hzero hr, hnext⟩

end Run

/-! ## An example -/

namespace Example

def headerKey : Bytes := List.replicate 192 1

theorem length_keys : ∀ k ∈ some (List.replicate 256 (7 : UInt8)), k.length = 256 := by
  intro k hk
  rw [← Option.some.inj hk]
  exact List.length_replicate

theorem length_salt : (List.replicate 64 (3 : UInt8)).length = 64 := List.length_replicate

theorem length_drawn : (List.replicate 256 (0 : UInt8)).length = 256 := List.length_replicate

/-- Two sectors behind the boot loader area are encrypted. -/
def request : HeaderRequest where
  ea := AlgorithmId.aes.ea
  masterKeydata := some (List.replicate 256 7)
  volumeSize := 1024
  hiddenVolumeSize := 0
  encryptedAreaStart := 32256
  encryptedAreaLength := 1024
  requiredProgramVersion := 0
  headerFlags := 1
  sectorSize := 512
  salt := List.replicate 64 3
  drawn := List.replicate 256 0
  length_masterKeydata := length_keys
  length_salt := length_salt
  length_drawn := length_drawn

def info : BootCryptoInfo where
  encryptedAreaStart := 32256
  encryptedAreaLength := 1024

theorem exists_header : ∃ header, OpensWith Ciphers.demo .aes headerKey header info := by
  obtain ⟨header, hheader⟩ : ∃ header,
      createVolumeHeaderInMemory Ciphers.demo request headerKey = .ok header :=
    createVolumeHeaderInMemory_isOk (a := .aes) rfl
      (show request.masterKeydata = some (List.replicate 256 7) from rfl) (by decide)
  have hlong : AlgorithmId.aes.getKeySize * 2 ≤ headerKey.length := by
    rw [headerKey, List.length_replicate]
    decide
  obtain ⟨-, driverInfo, hopens, -, -, -, -, hstart, hlength⟩ :=
    createVolumeHeaderInMemory_opens (a := .aes) rfl hlong (by decide) hheader
  have hboot := opensWith_of_opensAs hopens
  rw [hstart, hlength] at hboot
  exact ⟨header, hboot⟩

def increment : Nat → UInt8 → UInt8 := fun _ b => b + 1

/-- A write fails behind its first sector, and bad sectors are passed over from then on. -/
def tornRun : RunInput where
  mounted := true
  decryptNow := true
  turns k := ⟨false, true, k ≠ 0, 1, true⟩

/-- A write fails and has stored nothing; the user gives up. -/
def failedRun : RunInput where
  mounted := true
  decryptNow := true
  turns _ := ⟨false, true, false, 0, false⟩

end Example

theorem decryption_resumable_demo : ∃ header,
    ∃ info', Consistent Ciphers.demo .aes Example.headerKey (fun _ => true) Example.increment
      (fun _ => 0) Example.info
      (run (decryptDrive Ciphers.demo .aes Example.headerKey (fun _ => true) Example.increment)
        { header := header, disk := fun _ => 0 } [Example.failedRun]).1 info' := by
  obtain ⟨header, hheader⟩ := Example.exists_header
  have hwhole : Along
      (decryptDrive Ciphers.demo .aes Example.headerKey (fun _ => true) Example.increment)
      (RunWhole (fun _ => true) Example.increment Ciphers.demo .aes Example.headerKey)
      { header := header, disk := fun _ => 0 } [Example.failedRun] := by
    refine ⟨?_, trivial⟩
    intro info hread _
    have hinfo : info = Example.info := Option.some.inj (hread.symm.trans hheader.read)
    have hturns : Along (iterate (fun _ => true) Example.increment)
        (fun s i => ¬TornWrite (fun _ => true) s i)
        (enterLoop (fun _ => 0) (mountVolume Example.info))
        ((List.range ((enterLoop (S := UInt8) (fun _ => 0)
          (mountVolume Example.info)).sectorsRemaining + 1)).map Example.failedRun.turns) := by
      decide
    rw [hinfo]
    exact hturns
  exact ⟨header, (decryption_resumable hheader hwhole).1⟩

/-- The sector that the torn write stored is decrypted twice. -/
theorem torn_write_decrypts_twice : ∃ header,
    OpensWith Ciphers.demo .aes Example.headerKey header Example.info ∧
      ¬∃ info', Consistent Ciphers.demo .aes Example.headerKey (fun _ => true) Example.increment
        (fun _ => 0) Example.info
        (run (decryptDrive Ciphers.demo .aes Example.headerKey (fun _ => true) Example.increment)
          { header := header, disk := fun _ => 0 } [Example.tornRun]).1 info' := by
  obtain ⟨header, hheader⟩ := Example.exists_header
  refine ⟨header, hheader, ?_⟩
  rintro ⟨info', hconsistent⟩
  have hdisk : (run (decryptDrive Ciphers.demo .aes Example.headerKey (fun _ => true)
      Example.increment) { header := header, disk := fun _ => 0 } [Example.tornRun]).1.disk =
      (decryptLoop (fun _ => true) Example.increment
        (enterLoop (fun _ => 0) (mountVolume Example.info)) Example.tornRun.turns).disk := by
    have hread : readVolumeHeader Ciphers.demo .aes Example.headerKey header =
        some Example.info := hheader.read
    have hgo : (Example.tornRun.mounted && Example.tornRun.decryptNow) = true := rfl
    simp only [run, decryptDrive, hread, hgo]
    split <;> rfl
  have hconverted := hconsistent.converted
  rw [hdisk] at hconverted
  have htwice : (decryptLoop (fun _ => true) Example.increment
      (enterLoop (fun _ => 0) (mountVolume Example.info)) Example.tornRun.turns).disk 63 = 2 := by
    decide
  have hstart : Example.info.startSector = 63 := by decide
  have hcount : Example.info.sectorCount = 2 := by decide
  rw [hstart, hcount] at hconverted
  by_cases hleft : 63 < 63 + info'.sectorCount
  · have hsame := hconverted.ciphertext 63 hleft
    rw [htwice] at hsame
    exact absurd hsame (by decide)
  · have honce := hconverted.once 63 (Nat.le_of_not_lt hleft) (by decide)
    rw [htwice] at honce
    exact absurd honce (by decide)

end Boot
end VeraCrypt
