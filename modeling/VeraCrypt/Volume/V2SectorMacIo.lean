import VeraCrypt.Platform.File
import VeraCrypt.Volume.V2Format

/-!
# The sector MAC table of an open volume (`Volume/V2SectorMacIo.h`)

The table is one 16-byte slot for each data sector, from `tableBaseOffset` of the host on. A
range of sectors is a range of slots, read or written by one call.
-/

set_option autoImplicit false

namespace VeraCrypt

open Lib

structure V2SectorMacIo where
  /-- `none` is `V2_MODE_NONE`. -/
  mode : Option V2Mode
  macKey : Bytes
  sectorSize : UInt64
  tableBaseOffset : UInt64
  dataSectors : UInt64
  ignoreTags : Bool
  ignoredMismatchCount : UInt64
  firstIgnoredSector : UInt64
  deriving DecidableEq

namespace V2SectorMacIo

/-- The constructor. The key buffer is left as it is; nothing reads it before `configure`. -/
def init : V2SectorMacIo where
  mode := none
  macKey := []
  sectorSize := 0
  tableBaseOffset := 0
  dataSectors := 0
  ignoreTags := false
  ignoredMismatchCount := 0
  firstIgnoredSector := 0

def configure (P : Primitives) (mac : V2SectorMacIo) (mode : Option V2Mode) (masterKey : Bytes)
    (sectorSize tableBaseOffset dataSectors : UInt64) : V2SectorMacIo :=
  { mac with
    mode := mode
    sectorSize := sectorSize
    tableBaseOffset := tableBaseOffset
    dataSectors := dataSectors
    macKey := match mode with
      | some m => v2FormatDeriveModeKey P masterKey m
      | none => mac.macKey }

def isActive (mac : V2SectorMacIo) : Bool := mac.mode.isSome

/-- `BoundsCheck`: whether it returns. -/
def boundsCheck (mac : V2SectorMacIo) (firstSector count : UInt64) : Bool :=
  !(count = 0 || firstSector + count < firstSector || mac.dataSectors < firstSector + count)

/-- Where the slot of a sector lies in the host. -/
def slotPosition (mac : V2SectorMacIo) (sector : UInt64) : UInt64 :=
  mac.tableBaseOffset + v2FormatSlotOffset sector

/-- Sector `i` of a buffer of ciphertext. -/
def sectorCt (mac : V2SectorMacIo) (ct : Bytes) (i : Nat) : Bytes :=
  slice ct (i * mac.sectorSize.toNat) mac.sectorSize.toNat

/-- The tags of `count` sectors of ciphertext. -/
def tags (P : Primitives) (mac : V2SectorMacIo) (ct : Bytes) (firstSector count : UInt64) :
    Bytes :=
  (List.range count.toNat).flatMap (fun i =>
    v2FormatSectorTag P mac.macKey (firstSector + UInt64.ofNat i) (mac.sectorCt ct i))

/-- `UpdateRange`: the host afterwards. -/
def updateRange (P : Primitives) (mac : V2SectorMacIo) (host ct : Bytes)
    (firstSector count : UInt64) (accepts : Option Nat) : Bytes × Except Exception Unit :=
  if !mac.isActive ∨ count = 0 then (host, .ok ())
  else if !mac.boundsCheck firstSector count then (host, .error .parameterIncorrect)
  else
    let (host', done) := File.writeAt host (mac.slotPosition firstSector)
      (mac.tags P ct firstSector count) accepts
    (host', if done then .ok () else .error .systemException)

/-- One round of the loop of `VerifyRange`. -/
def verifySector (P : Primitives) (ct stored : Bytes) (firstSector : UInt64)
    (mac : V2SectorMacIo) (i : Nat) : Except Exception V2SectorMacIo :=
  let index := firstSector + UInt64.ofNat i
  if v2FormatSectorVerify P mac.macKey index (mac.sectorCt ct i)
      (slice stored (i * v2MacTagLen) v2MacTagLen) then .ok mac
  else if !mac.ignoreTags then .error .v2TagMismatch
  else
    .ok { mac with
      firstIgnoredSector :=
        if mac.ignoredMismatchCount = 0 then index else mac.firstIgnoredSector
      ignoredMismatchCount := mac.ignoredMismatchCount + 1 }

/-- `VerifyRange`: the counters of the override afterwards. -/
def verifyRange (P : Primitives) (mac : V2SectorMacIo) (host ct : Bytes)
    (firstSector count : UInt64) (readFails : Bool) (uninit : RandStream) :
    Except Exception V2SectorMacIo :=
  if !mac.isActive ∨ count = 0 then .ok mac
  else if !mac.boundsCheck firstSector count then .error .parameterIncorrect
  else
    match File.readInto host (mac.slotPosition firstSector) (count.toNat * v2MacTagLen) readFails
        uninit with
    | none => .error .systemException
    | some stored =>
      (List.range count.toNat).foldlM (verifySector P ct stored firstSector) mac

/-- `sectorsPerChunk` of `PopulateTable`. -/
def sectorsPerChunk : Nat := 256

/-- What the system does with the calls of the round of `PopulateTable` at a sector. -/
structure PopulateIo where
  readFails : Nat → Bool
  accepts : Nat → Option Nat

/-- The loop of `PopulateTable`, from sector `done` on: what is on the disk is read back and
    its tags are written. -/
def populateFrom (P : Primitives) (mac : V2SectorMacIo) (dataStartOffset : UInt64)
    (io : PopulateIo) (host : Bytes) (done : Nat) : Bytes × Except Exception Unit :=
  if _h : done < mac.dataSectors.toNat then
    let n := min sectorsPerChunk (mac.dataSectors.toNat - done)
    match File.readAt host (dataStartOffset + UInt64.ofNat done * mac.sectorSize)
        (n * mac.sectorSize.toNat) (io.readFails done) with
    | none => (host, .error .systemException)
    | some chunk =>
      if chunk.length ≠ n * mac.sectorSize.toNat then (host, .error .missingVolumeData)
      else
        match mac.updateRange P host chunk (UInt64.ofNat done) (UInt64.ofNat n)
            (io.accepts done) with
        | (host', .error e) => (host', .error e)
        | (host', .ok ()) => populateFrom P mac dataStartOffset io host' (done + n)
  else (host, .ok ())
termination_by mac.dataSectors.toNat - done
decreasing_by simp only [sectorsPerChunk]; omega

/-- `PopulateTable`. -/
def populateTable (P : Primitives) (mac : V2SectorMacIo) (host : Bytes)
    (dataStartOffset : UInt64) (io : PopulateIo) : Bytes × Except Exception Unit :=
  if !mac.isActive then (host, .error .parameterIncorrect)
  else populateFrom P mac dataStartOffset io host 0

theorem length_tags (P : Primitives) (mac : V2SectorMacIo) (ct : Bytes)
    (firstSector count : UInt64) :
    (mac.tags P ct firstSector count).length = count.toNat * v2MacTagLen := by
  have hlen := length_flatMap_const (l := List.range count.toNat)
    (f := fun i => v2FormatSectorTag P mac.macKey (firstSector + UInt64.ofNat i)
      (mac.sectorCt ct i)) (k := v2MacTagLen) (fun i _ => length_v2FormatSectorTag _ _ _ _)
  rwa [List.length_range] at hlen

/-- Whether updating a range of sectors stores a tag byte at byte `i` of the host. -/
def writesTagAt (mac : V2SectorMacIo) (firstSector count : UInt64) (accepts : Option Nat)
    (i : Nat) : Prop :=
  mac.isActive ∧ mac.boundsCheck firstSector count ∧
    (mac.slotPosition firstSector).toNat ≤ i ∧
    i < (mac.slotPosition firstSector).toNat +
      File.stored (mac.slotPosition firstSector) (count.toNat * v2MacTagLen) accepts

instance (mac : V2SectorMacIo) (firstSector count : UInt64) (accepts : Option Nat) (i : Nat) :
    Decidable (mac.writesTagAt firstSector count accepts i) :=
  inferInstanceAs (Decidable (_ ∧ _))

/-- **What `UpdateRange` does to the host**: the tag bytes of the range land at their slots,
    and no other byte changes. -/
theorem getElem?_updateRange (P : Primitives) {mac : V2SectorMacIo} {host ct : Bytes}
    {firstSector count : UInt64} {accepts : Option Nat} {i : Nat} (hi : i < host.length) :
    (mac.updateRange P host ct firstSector count accepts).1[i]? =
      if mac.writesTagAt firstSector count accepts i then
        (mac.tags P ct firstSector count)[i - (mac.slotPosition firstSector).toNat]?
      else host[i]? := by
  unfold updateRange
  split
  · rename_i hidle
    rw [if_neg]
    rintro ⟨hact, hbounds, -, -⟩
    rcases hidle with hoff | hzero
    · rw [hact] at hoff
      exact absurd hoff (by decide)
    · simp [boundsCheck, hzero] at hbounds
  · rename_i hact
    split
    · rename_i hbounds
      rw [if_neg]
      rintro ⟨-, hin, -, -⟩
      rw [hin] at hbounds
      exact absurd hbounds (by decide)
    · rename_i hbounds
      have hon : mac.isActive = true := by
        by_contra hoff
        exact hact (Or.inl (by simpa using hoff))
      have hin : mac.boundsCheck firstSector count = true := by simpa using hbounds
      simp only [File.getElem?_writeAt accepts hi, length_tags, writesTagAt, hon, hin, true_and]

/-- What `BoundsCheck` lets through: sectors of the table, counted without a wrap. -/
theorem le_of_boundsCheck {mac : V2SectorMacIo} {firstSector count : UInt64}
    (h : mac.boundsCheck firstSector count = true) :
    firstSector.toNat + count.toNat ≤ mac.dataSectors.toNat := by
  simp only [boundsCheck, Bool.not_eq_true', Bool.or_eq_false_iff, decide_eq_false_iff_not] at h
  obtain ⟨⟨-, hwrap⟩, hle⟩ := h
  rw [UInt64.lt_iff_toNat_lt, UInt64.toNat_add] at hwrap hle
  have hf := firstSector.toNat_lt
  have hc := count.toNat_lt
  omega

/-- A table that ends below `2^64` holds every tag byte that is ever written. -/
theorem in_table_of_writesTagAt {mac : V2SectorMacIo} {firstSector count : UInt64}
    {accepts : Option Nat} {i : Nat}
    (hfit : mac.tableBaseOffset.toNat + mac.dataSectors.toNat * v2MacTagLen < 2 ^ 64)
    (h : mac.writesTagAt firstSector count accepts i) :
    mac.tableBaseOffset.toNat ≤ i ∧
      i < mac.tableBaseOffset.toNat + mac.dataSectors.toNat * v2MacTagLen := by
  obtain ⟨-, hbounds, hlo, hhi⟩ := h
  have hle := le_of_boundsCheck hbounds
  have hst := File.stored_le (mac.slotPosition firstSector) (count.toNat * v2MacTagLen) accepts
  simp only [v2MacTagLen] at hfit hhi hst ⊢
  have hslot : (mac.slotPosition firstSector).toNat =
      mac.tableBaseOffset.toNat + firstSector.toNat * 16 := by
    have h16 : (UInt64.ofNat v2MacTagLen).toNat = 16 := rfl
    rw [slotPosition, v2FormatSlotOffset, UInt64.toNat_add, UInt64.toNat_mul, h16]
    omega
  omega

theorem length_le_updateRange (P : Primitives) (mac : V2SectorMacIo) (host ct : Bytes)
    (firstSector count : UInt64) (accepts : Option Nat) :
    host.length ≤ (mac.updateRange P host ct firstSector count accepts).1.length := by
  unfold updateRange
  split
  · exact Nat.le_refl _
  · split
    · exact Nat.le_refl _
    · exact File.length_le_writeAt _ _ _ _

theorem updateRange_ne_protected (P : Primitives) (mac : V2SectorMacIo) (host ct : Bytes)
    (firstSector count : UInt64) (accepts : Option Nat) :
    (mac.updateRange P host ct firstSector count accepts).2 ≠ .error .volumeProtected := by
  unfold updateRange
  split
  · simp
  · split
    · simp
    · simp only
      split <;> simp

/-! ## The population -/

theorem slotPosition_le (mac : V2SectorMacIo) (done : Nat) :
    (mac.slotPosition (UInt64.ofNat done)).toNat ≤
      mac.tableBaseOffset.toNat + done * v2MacTagLen := by
  have h16 : (UInt64.ofNat v2MacTagLen).toNat = v2MacTagLen := rfl
  have hmod : (UInt64.ofNat done).toNat ≤ done := by
    rw [UInt64.toNat_ofNat']
    exact Nat.mod_le _ _
  rw [slotPosition, v2FormatSlotOffset, UInt64.toNat_add, UInt64.toNat_mul, h16]
  have hmul := Nat.mul_le_mul_right v2MacTagLen hmod
  have hin := Nat.mod_le ((UInt64.ofNat done).toNat * v2MacTagLen) (2 ^ 64)
  have hout := Nat.mod_le (mac.tableBaseOffset.toNat +
    (UInt64.ofNat done).toNat * v2MacTagLen % 2 ^ 64) (2 ^ 64)
  omega

theorem length_updateRange_le {P : Primitives} {mac : V2SectorMacIo} {host ct : Bytes}
    {firstSector count : UInt64} {accepts : Option Nat} {bound : Nat}
    (h : File.stored (mac.slotPosition firstSector) (count.toNat * v2MacTagLen) accepts = 0 ∨
      (mac.slotPosition firstSector).toNat +
        File.stored (mac.slotPosition firstSector) (count.toNat * v2MacTagLen) accepts ≤ bound) :
    (mac.updateRange P host ct firstSector count accepts).1.length ≤ max host.length bound := by
  unfold updateRange
  split
  · exact Nat.le_max_left _ _
  · split
    · exact Nat.le_max_left _ _
    · apply File.length_writeAt_le
      rwa [length_tags]

/-- **One round of the population** that went on to the end. -/
theorem populateFrom_ok {P : Primitives} {mac : V2SectorMacIo} {dataStartOffset : UInt64}
    {io : PopulateIo} {host host' : Bytes} {done : Nat} (hlt : done < mac.dataSectors.toNat)
    (h : populateFrom P mac dataStartOffset io host done = (host', .ok ())) :
    ∃ chunk host1,
      File.readAt host (dataStartOffset + UInt64.ofNat done * mac.sectorSize)
        (min sectorsPerChunk (mac.dataSectors.toNat - done) * mac.sectorSize.toNat)
        (io.readFails done) = some chunk ∧
      chunk.length =
        min sectorsPerChunk (mac.dataSectors.toNat - done) * mac.sectorSize.toNat ∧
      mac.updateRange P host chunk (UInt64.ofNat done)
        (UInt64.ofNat (min sectorsPerChunk (mac.dataSectors.toNat - done))) (io.accepts done) =
        (host1, .ok ()) ∧
      populateFrom P mac dataStartOffset io host1
        (done + min sectorsPerChunk (mac.dataSectors.toNat - done)) = (host', .ok ()) := by
  rw [populateFrom, dif_pos hlt] at h
  simp only at h
  cases hread : File.readAt host (dataStartOffset + UInt64.ofNat done * mac.sectorSize)
      (min sectorsPerChunk (mac.dataSectors.toNat - done) * mac.sectorSize.toNat)
      (io.readFails done) with
  | none =>
    rw [hread] at h
    exact absurd (congrArg Prod.snd h) (by simp)
  | some chunk =>
    simp only [hread] at h
    by_cases hwhole : chunk.length =
        min sectorsPerChunk (mac.dataSectors.toNat - done) * mac.sectorSize.toNat
    · rw [if_neg (not_not.mpr hwhole)] at h
      cases hupdate : mac.updateRange P host chunk (UInt64.ofNat done)
          (UInt64.ofNat (min sectorsPerChunk (mac.dataSectors.toNat - done)))
          (io.accepts done) with
      | mk host1 result =>
        cases result with
        | error e =>
          rw [hupdate] at h
          exact absurd (congrArg Prod.snd h) (by simp)
        | ok u =>
          rw [hupdate] at h
          exact ⟨chunk, host1, rfl, hwhole, hupdate, h⟩
    · rw [if_pos hwhole] at h
      exact absurd (congrArg Prod.snd h) (by simp)

theorem populateFrom_end {P : Primitives} {mac : V2SectorMacIo} {dataStartOffset : UInt64}
    {io : PopulateIo} {host host' : Bytes} {done : Nat} (hge : mac.dataSectors.toNat ≤ done)
    (h : populateFrom P mac dataStartOffset io host done = (host', .ok ())) : host' = host := by
  rw [populateFrom, dif_neg (by omega)] at h
  exact (congrArg Prod.fst h).symm

/-- The sectors of a round fit `uint64`. -/
theorem toNat_roundSectors (mac : V2SectorMacIo) (done : Nat) :
    (UInt64.ofNat (min sectorsPerChunk (mac.dataSectors.toNat - done))).toNat =
      min sectorsPerChunk (mac.dataSectors.toNat - done) := by
  have hlt := mac.dataSectors.toNat_lt
  rw [UInt64.toNat_ofNat']
  omega

/-- Populating grows the file no further than to the end of each of its writes. -/
theorem length_populateFrom_le {P : Primitives} {mac : V2SectorMacIo} {dataStartOffset : UInt64}
    {io : PopulateIo} {bound : Nat}
    (hbound : ∀ done, done < mac.dataSectors.toNat →
      File.stored (mac.slotPosition (UInt64.ofNat done))
          (min sectorsPerChunk (mac.dataSectors.toNat - done) * v2MacTagLen) (io.accepts done) =
          0 ∨
        (mac.slotPosition (UInt64.ofNat done)).toNat +
          File.stored (mac.slotPosition (UInt64.ofNat done))
            (min sectorsPerChunk (mac.dataSectors.toNat - done) * v2MacTagLen)
            (io.accepts done) ≤ bound) :
    ∀ {k : Nat} {host host' : Bytes} {done : Nat}, mac.dataSectors.toNat - done ≤ k →
      populateFrom P mac dataStartOffset io host done = (host', .ok ()) →
      host.length ≤ host'.length ∧ host'.length ≤ max host.length bound := by
  intro k
  induction k with
  | zero =>
    intro host host' done hk h
    rw [populateFrom_end (by omega) h]
    exact ⟨Nat.le_refl _, Nat.le_max_left _ _⟩
  | succ k ih =>
    intro host host' done hk h
    by_cases hlt : done < mac.dataSectors.toNat
    · obtain ⟨chunk, host1, -, -, hupdate, hrest⟩ := populateFrom_ok hlt h
      have hgrow := length_le_updateRange P mac host chunk (UInt64.ofNat done)
        (UInt64.ofNat (min sectorsPerChunk (mac.dataSectors.toNat - done))) (io.accepts done)
      have hround := @length_updateRange_le P mac host chunk (UInt64.ofNat done)
        (UInt64.ofNat (min sectorsPerChunk (mac.dataSectors.toNat - done))) (io.accepts done)
        bound (by rw [toNat_roundSectors]; exact hbound done hlt)
      rw [hupdate] at hgrow hround
      have hstep : 0 < min sectorsPerChunk (mac.dataSectors.toNat - done) := by
        simp only [sectorsPerChunk]
        omega
      obtain ⟨hlow, hhigh⟩ := ih (by omega) hrest
      simp only at hgrow hround
      omega
    · rw [populateFrom_end (by omega) h]
      exact ⟨Nat.le_refl _, Nat.le_max_left _ _⟩

end V2SectorMacIo

end VeraCrypt
