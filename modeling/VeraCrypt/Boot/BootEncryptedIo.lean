import Mathlib.Tactic.Common
import VeraCrypt.Lib.Run
import Mathlib.Algebra.Group.Nat.Defs

/-!
# The encrypted drive of a running system (`BootEncryptedIo.cpp`)

Until the driver of the operating system takes over, `Int13Filter` answers the disk interrupt for
the encrypted drive: it reads and writes sectors through `ReadEncryptedSectors` and
`WriteEncryptedSectors`. With a hidden system the encrypted partition stands for the hidden volume
in the partition behind it.

What the operating system has in front of it is the drive `view`. `read_view` and `write_view` say
that a read gives it and that a write changes it as a drive does; `filter_consistent` carries both
to runs.
-/

set_option autoImplicit false

namespace VeraCrypt
namespace BootEncryptedIo

open Lib

/-! ## The two functions -/

inductive BiosResult where
  | success | invalidFunction | sectorNotFound
  deriving DecidableEq

/-- What mounting has set up: `EncryptedVirtualPartition`, where the hidden volume is, and the
    keys. The hidden volume is in the partition that follows the encrypted one. -/
structure BootDrive (S : Type) where
  drive : UInt8
  startSector : UInt64
  endSector : UInt64
  hiddenVolume : Bool
  hiddenVolumeStartSector : UInt64
  hiddenVolumeStartUnitNo : UInt64
  encryptDataUnits : UInt64 → S → S
  decryptDataUnits : UInt64 → S → S
  /-- The size of the drive; the BIOS knows no sectors behind it. -/
  driveSectors : Nat
  decrypt_encrypt : ∀ n b, decryptDataUnits n (encryptDataUnits n b) = b
  driveSectors_lt : driveSectors < 2 ^ 64
  hidden_behind : hiddenVolume = true → endSector < hiddenVolumeStartSector ∧
    hiddenVolumeStartSector.toNat + (endSector.toNat - startSector.toNat) < 2 ^ 64

section

variable {S : Type} (d : BootDrive S)

/-- The sector is one of the encrypted partition. -/
def BootDrive.Inside (sector : UInt64) : Prop := d.startSector ≤ sector ∧ sector ≤ d.endSector

instance (sector : UInt64) : Decidable (d.Inside sector) := inferInstanceAs (Decidable (_ ∧ _))

def readWritePartiallyCoversEncryptedArea (sector : UInt64) (sectorCount : UInt16) : Prop :=
  let readWriteEnd := sector + (sectorCount - 1).toUInt64
  (sector < d.startSector ∧ d.startSector ≤ readWriteEnd) ∨
    (d.startSector ≤ sector ∧ d.endSector < readWriteEnd)

instance (sector : UInt64) (sectorCount : UInt16) :
    Decidable (readWritePartiallyCoversEncryptedArea d sector sectorCount) :=
  inferInstanceAs (Decidable (_ ∨ _))

/-- `ReadSectors` -/
def readSectors (host : UInt64 → S) (sector : UInt64) (sectorCount : UInt16) : Option (List S) :=
  if sector.toNat + sectorCount.toNat ≤ d.driveSectors then
    some ((List.range sectorCount.toNat).map (fun i => host (sector + UInt64.ofNat i)))
  else none

/-- Where a read finds a sector: the request is remapped to the hidden volume. -/
def hostSector (sector : UInt64) : UInt64 :=
  if d.hiddenVolume = true ∧ d.Inside sector then
    sector - d.startSector + d.hiddenVolumeStartSector
  else sector

/-- The loop of `ReadEncryptedSectors` over the sectors that were read. -/
def decryptLoop : UInt64 → List S → List S
  | _, [] => []
  | sector, b :: bs =>
    (if d.hiddenVolume = true ∨ d.Inside sector then d.decryptDataUnits sector b else b) ::
      decryptLoop (sector + 1) bs

def readEncryptedSectors (host : UInt64 → S) (drive : UInt8) (sector : UInt64)
    (sectorCount : UInt16) : BiosResult × List S :=
  if d.hiddenVolume = true ∧ readWritePartiallyCoversEncryptedArea d sector sectorCount then
    (.invalidFunction, [])
  else
    match readSectors d host (hostSector d sector) sectorCount with
    | none => (.sectorNotFound, [])
    | some dest =>
      -- a hidden system has nothing encrypted outside of the partition
      if d.hiddenVolume = true ∧ ¬d.Inside sector then (.success, dest)
      else if drive = d.drive then
        (.success, decryptLoop d
          (if d.hiddenVolume then
            hostSector d sector - d.hiddenVolumeStartSector + d.hiddenVolumeStartUnitNo
          else hostSector d sector) dest)
      else (.success, dest)

/-- `ReadWriteSectors` for one sector that is written. -/
def writeSector (host : UInt64 → S) (sector : UInt64) (b : S) : Option (UInt64 → S) :=
  if sector.toNat < d.driveSectors then some (Function.update host sector b) else none

/-- The loop of `WriteEncryptedSectors`. -/
def writeLoop (drive : UInt8) (writeOffset : UInt64) :
    UInt64 → UInt64 → List S → (UInt64 → S) → BiosResult × (UInt64 → S)
  | _, _, [], host => (.success, host)
  | sector, dataUnitNo, b :: bs, host =>
    let sectorBuffer := if drive = d.drive ∧ d.Inside sector then
      d.encryptDataUnits dataUnitNo b else b
    match writeSector d host (sector + writeOffset) sectorBuffer with
    | none => (.sectorNotFound, host)
    | some host => writeLoop drive writeOffset (sector + 1) (dataUnitNo + 1) bs host

/-- How far a hidden system's writes are moved. -/
def writeOffset : UInt64 :=
  if d.hiddenVolume then d.hiddenVolumeStartSector - d.startSector else 0

def writeEncryptedSectors (host : UInt64 → S) (drive : UInt8) (sector : UInt64)
    (source : List S) : BiosResult × (UInt64 → S) :=
  if d.hiddenVolume = true ∧
      readWritePartiallyCoversEncryptedArea d sector (UInt16.ofNat source.length) then
    (.invalidFunction, host)
  else
    writeLoop d drive (writeOffset d) sector
      (if d.hiddenVolume then sector - d.startSector + d.hiddenVolumeStartUnitNo else sector)
      source host

/-! ## Requests -/

/-- A request for the encrypted drive; `source` is the memory a write takes its sectors from. -/
inductive Request (S : Type) where
  | read (sector : UInt64) (sectorCount : UInt16)
  | write (sector : UInt64) (sectorCount : UInt16) (source : Nat → S)

/-- The sectors a write gets. -/
def sourceSectors (sectorCount : UInt16) (source : Nat → S) : List S :=
  (List.range sectorCount.toNat).map source

/-- What `Int13Filter` does with a request; a read answers with the sectors. -/
def step (host : UInt64 → S) : Request S → (UInt64 → S) × Option (List S)
  | .read sector sectorCount =>
    (host, some (readEncryptedSectors d host d.drive sector sectorCount).2)
  | .write sector sectorCount source =>
    ((writeEncryptedSectors d host d.drive sector (sourceSectors sectorCount source)).2, none)

def result (host : UInt64 → S) : Request S → BiosResult
  | .read sector sectorCount => (readEncryptedSectors d host d.drive sector sectorCount).1
  | .write sector sectorCount source =>
    (writeEncryptedSectors d host d.drive sector (sourceSectors sectorCount source)).1

/-- A drive as the requests mean it. -/
def driveStep (disk : UInt64 → S) : Request S → (UInt64 → S) × Option (List S)
  | .read sector sectorCount =>
    (disk, some ((List.range sectorCount.toNat).map (fun i => disk (sector + UInt64.ofNat i))))
  | .write sector sectorCount source =>
    (fun t => if (t - sector).toNat < sectorCount.toNat then source (t - sector).toNat else disk t,
      none)

def dataUnitNo (sector : UInt64) : UInt64 :=
  if d.hiddenVolume then sector - d.startSector + d.hiddenVolumeStartUnitNo else sector

/-- The drive in front of the operating system. -/
def view (host : UInt64 → S) (sector : UInt64) : S :=
  if d.Inside sector then
    d.decryptDataUnits (dataUnitNo d sector) (host (hostSector d sector))
  else host (hostSector d sector)

/-! ## What a read gives -/

variable {d} {host : UInt64 → S}

theorem add_one_add_ofNat (a : UInt64) (i : Nat) :
    a + 1 + UInt64.ofNat i = a + UInt64.ofNat (i + 1) := by
  rw [UInt64.add_assoc, UInt64.add_comm 1, UInt64.ofNat_add]
  rfl

theorem decryptLoop_range (f : Nat → S) (n : Nat) (sector : UInt64) :
    decryptLoop d sector ((List.range n).map f) = (List.range n).map (fun i =>
      if d.hiddenVolume = true ∨ d.Inside (sector + UInt64.ofNat i) then
        d.decryptDataUnits (sector + UInt64.ofNat i) (f i)
      else f i) := by
  induction n generalizing sector f with
  | zero => rfl
  | succ n ih =>
    rw [List.range_succ_eq_map, List.map_cons, List.map_cons, decryptLoop, List.map_map,
      List.map_map, ih]
    have hzero : sector + UInt64.ofNat 0 = sector := UInt64.add_zero sector
    simp only [hzero, add_one_add_ofNat, Function.comp_apply, Nat.succ_eq_add_one]
    rfl

theorem toNat_add_ofNat {sector : UInt64} {n i : Nat} (hi : i < n)
    (hwrap : sector.toNat + n ≤ 2 ^ 64) : (sector + UInt64.ofNat i).toNat = sector.toNat + i := by
  have hsize : UInt64.size = 2 ^ 64 := rfl
  rw [UInt64.toNat_add, UInt64.toNat_ofNat_of_lt' (by omega), Nat.mod_eq_of_lt (by omega)]

/-- A range that does not partly cover the partition is in it or in front of it. -/
theorem inside_or_front {sector : UInt64} {sectorCount : UInt16}
    (hcovers : ¬readWritePartiallyCoversEncryptedArea d sector sectorCount)
    (hpos : 0 < sectorCount.toNat) (hwrap : sector.toNat + sectorCount.toNat ≤ 2 ^ 64) :
    d.startSector ≤ sector ∧ sector.toNat + sectorCount.toNat ≤ d.endSector.toNat + 1 ∨
      sector < d.startSector ∧ sector.toNat + sectorCount.toNat ≤ d.startSector.toNat := by
  have hcount := sectorCount.toNat_lt
  have hone : (1 : UInt16).toNat = 1 := rfl
  have hpred : (sectorCount - 1).toUInt64.toNat = sectorCount.toNat - 1 := by
    rw [UInt16.toNat_toUInt64, UInt16.toNat_sub, hone]
    omega
  have hend : (sector + (sectorCount - 1).toUInt64).toNat =
      sector.toNat + (sectorCount.toNat - 1) := by
    rw [UInt64.toNat_add, hpred, Nat.mod_eq_of_lt (by omega)]
  simp only [readWritePartiallyCoversEncryptedArea, not_or, not_and, UInt64.not_le,
    UInt64.not_lt] at hcovers
  obtain ⟨hfront, hin⟩ := hcovers
  by_cases hstart : d.startSector ≤ sector
  · have hle := UInt64.le_iff_toNat_le.mp (hin hstart)
    exact .inl ⟨hstart, by omega⟩
  · have hlt := UInt64.lt_iff_toNat_lt.mp (hfront (UInt64.not_le.mp hstart))
    exact .inr ⟨UInt64.not_le.mp hstart, by omega⟩

theorem hostSector_inside {sector : UInt64} (hhidden : d.hiddenVolume = true)
    (hin : d.Inside sector) :
    hostSector d sector = sector - d.startSector + d.hiddenVolumeStartSector :=
  if_pos ⟨hhidden, hin⟩

theorem hostSector_outside {sector : UInt64} (hout : ¬d.Inside sector) :
    hostSector d sector = sector := if_neg (fun h => hout h.2)

theorem hostSector_normal {sector : UInt64} (hnormal : ¬d.hiddenVolume = true) :
    hostSector d sector = sector := if_neg (fun h => hnormal h.1)

/-- The hidden volume keeps the order of the sectors. -/
theorem toNat_hostSector {sector : UInt64} (hhidden : d.hiddenVolume = true)
    (hin : d.Inside sector) : (hostSector d sector).toNat =
      d.hiddenVolumeStartSector.toNat + (sector.toNat - d.startSector.toNat) := by
  obtain ⟨-, hfits⟩ := d.hidden_behind hhidden
  have hstart := UInt64.le_iff_toNat_le.mp hin.1
  have hend := UInt64.le_iff_toNat_le.mp hin.2
  rw [hostSector_inside hhidden hin, UInt64.toNat_add, UInt64.toNat_sub_of_le _ _ hin.1,
    Nat.mod_eq_of_lt (by omega), Nat.add_comm]

/-- A sector that a hidden system can ask for: those behind the partition are refused. -/
def Reachable (d : BootDrive S) (sector : UInt64) : Prop :=
  d.hiddenVolume = true → d.Inside sector ∨ sector < d.startSector

/-- A range of a hidden system that is not refused: its sectors follow each other on the drive
    too. -/
theorem range_in_hidden {sector : UInt64} {n i : Nat} (hstart : d.startSector ≤ sector)
    (hend : sector.toNat + n ≤ d.endSector.toNat + 1) (hwrap : sector.toNat + n ≤ 2 ^ 64)
    (hi : i < n) : d.Inside (sector + UInt64.ofNat i) := by
  have hsum := toNat_add_ofNat hi hwrap
  have hstart' := UInt64.le_iff_toNat_le.mp hstart
  refine ⟨UInt64.le_iff_toNat_le.mpr ?_, UInt64.le_iff_toNat_le.mpr ?_⟩
  · omega
  · omega

theorem range_in_front {sector : UInt64} {n i : Nat}
    (hend : sector.toNat + n ≤ d.startSector.toNat) (hi : i < n) :
    sector + UInt64.ofNat i < d.startSector := by
  have hstart := d.startSector.toNat_lt
  have hsum : (sector + UInt64.ofNat i).toNat = sector.toNat + i :=
    toNat_add_ofNat hi (by omega)
  exact UInt64.lt_iff_toNat_lt.mpr (by omega)

theorem not_inside_of_lt {sector : UInt64} (h : sector < d.startSector) : ¬d.Inside sector :=
  fun hin => UInt64.not_le.mpr h hin.1

theorem readSectors_some {sector : UInt64} {sectorCount : UInt16} {dest : List S}
    (h : readSectors d host sector sectorCount = some dest) :
    sector.toNat + sectorCount.toNat < 2 ^ 64 ∧
      dest = (List.range sectorCount.toNat).map (fun i => host (sector + UInt64.ofNat i)) := by
  have hlt := d.driveSectors_lt
  unfold readSectors at h
  split at h
  · cases h
    exact ⟨by omega, rfl⟩
  · cases h

/-- **A read gives the drive in front of the operating system**, and only of sectors it can ask
for. -/
theorem read_view {sector : UInt64} {sectorCount : UInt16}
    (hres : (readEncryptedSectors d host d.drive sector sectorCount).1 = .success) :
    (readEncryptedSectors d host d.drive sector sectorCount).2 =
        (List.range sectorCount.toNat).map (fun i => view d host (sector + UInt64.ofNat i)) ∧
      ∀ i < sectorCount.toNat, Reachable d (sector + UInt64.ofNat i) := by
  unfold readEncryptedSectors at hres ⊢
  by_cases hhidden : d.hiddenVolume = true
  · by_cases hcovers : readWritePartiallyCoversEncryptedArea d sector sectorCount
    · rw [if_pos ⟨hhidden, hcovers⟩] at hres
      cases hres
    rw [if_neg (fun h => hcovers h.2)] at hres ⊢
    cases hread : readSectors d host (hostSector d sector) sectorCount with
    | none =>
      rw [hread] at hres
      cases hres
    | some dest =>
      obtain ⟨hfits, rfl⟩ := readSectors_some hread
      by_cases hpos : 0 < sectorCount.toNat
      · by_cases hin : d.Inside sector
        · have hplace := toNat_hostSector hhidden hin
          obtain ⟨hbehind, -⟩ := d.hidden_behind hhidden
          have hbehind' := UInt64.lt_iff_toNat_lt.mp hbehind
          have hend' := UInt64.le_iff_toNat_le.mp hin.2
          have hstart' := UInt64.le_iff_toNat_le.mp hin.1
          have hwrap : sector.toNat + sectorCount.toNat ≤ 2 ^ 64 := by omega
          rcases inside_or_front hcovers hpos hwrap with ⟨hstart, hend⟩ | ⟨hfront, -⟩
          · refine ⟨?_, fun i hi _ => .inl (range_in_hidden hstart hend hwrap hi)⟩
            simp only [hin, not_true_eq_false, and_false, if_false, if_true, hhidden,
              decryptLoop_range, true_or]
            apply List.map_congr_left
            intro i hi
            have hini := range_in_hidden hstart hend hwrap (List.mem_range.mp hi)
            rw [view, if_pos hini, dataUnitNo, if_pos hhidden, hostSector_inside hhidden hini,
              hostSector_inside hhidden hin]
            congr 1
            · grind
            · congr 1
              grind
          · exact absurd hin (not_inside_of_lt hfront)
        · rw [hostSector_outside hin] at hfits ⊢
          rcases inside_or_front hcovers hpos (Nat.le_of_lt hfits) with ⟨hstart, hend⟩ | ⟨-, hend⟩
          · have hlast : sector ≤ d.endSector := UInt64.le_iff_toNat_le.mpr (by omega)
            exact absurd ⟨hstart, hlast⟩ hin
          · refine ⟨?_, fun i hi _ => .inr (range_in_front hend hi)⟩
            simp only [hhidden, hin, not_false_eq_true, and_self, if_true]
            apply List.map_congr_left
            intro i hi
            have hout := not_inside_of_lt (range_in_front hend (List.mem_range.mp hi))
            rw [view, if_neg hout, hostSector_outside hout]
      · have hzero : sectorCount.toNat = 0 := Nat.eq_zero_of_not_pos hpos
        simp only [hzero, List.range_zero, List.map_nil]
        refine ⟨?_, fun i hi => absurd hi (Nat.not_lt_zero i)⟩
        split
        · rfl
        · split <;> rfl
  · have hreach : ∀ i < sectorCount.toNat, Reachable d (sector + UInt64.ofNat i) :=
      fun i _ h => absurd h hhidden
    refine ⟨?_, hreach⟩
    rw [if_neg (fun h => hhidden h.1), hostSector_normal hhidden] at hres ⊢
    cases hread : readSectors d host sector sectorCount with
    | none =>
      rw [hread] at hres
      cases hres
    | some dest =>
      obtain ⟨-, rfl⟩ := readSectors_some hread
      have hnormal : d.hiddenVolume = false := Bool.eq_false_iff.mpr hhidden
      simp only [hnormal, Bool.false_eq_true, false_and, if_false, if_true, decryptLoop_range,
        false_or]
      apply List.map_congr_left
      intro i _
      simp only [view, dataUnitNo, hostSector_normal hhidden, hnormal, Bool.false_eq_true, if_false]

/-! ## What a write stores -/

/-- Sector `i` of a write as it is stored. -/
def storedSector (d : BootDrive S) (sector dataUnitNo : UInt64) (source : Nat → S) (i : Nat) : S :=
  if d.Inside (sector + UInt64.ofNat i) then
    d.encryptDataUnits (dataUnitNo + UInt64.ofNat i) (source i)
  else source i

theorem storedSector_succ (sector unitNo : UInt64) (source : Nat → S) (i : Nat) :
    storedSector d (sector + 1) (unitNo + 1) (source ∘ Nat.succ) i =
      storedSector d sector unitNo source (i + 1) := by
  simp only [storedSector, add_one_add_ofNat, Function.comp_apply, Nat.succ_eq_add_one]

/-- The distance to the next sector. -/
theorem toNat_sub_add_one {t a : UInt64} (h : t ≠ a) :
    0 < (t - a).toNat ∧ (t - (a + 1)).toNat = (t - a).toNat - 1 := by
  have hne : t.toNat ≠ a.toNat := fun heq => h (UInt64.toNat_inj.mp heq)
  have ht := t.toNat_lt
  have ha := a.toNat_lt
  have hone : (1 : UInt64).toNat = 1 := rfl
  rw [UInt64.toNat_sub, UInt64.toNat_sub, UInt64.toNat_add, hone]
  omega

theorem toNat_sub_self_add_one (t : UInt64) : (t - (t + 1)).toNat = 2 ^ 64 - 1 := by
  have ht := t.toNat_lt
  have hone : (1 : UInt64).toNat = 1 := rfl
  rw [UInt64.toNat_sub, UInt64.toNat_add, hone]
  omega

theorem writeLoop_range {offset : UInt64} {n : Nat} (hn : n < 2 ^ 64) {source : Nat → S}
    {sector unitNo : UInt64}
    (hres : (writeLoop d d.drive offset sector unitNo ((List.range n).map source) host).1 =
      .success) (t : UInt64) :
    (writeLoop d d.drive offset sector unitNo ((List.range n).map source) host).2 t =
      if (t - (sector + offset)).toNat < n then
        storedSector d sector unitNo source (t - (sector + offset)).toNat
      else host t := by
  induction n generalizing sector unitNo source host with
  | zero => rfl
  | succ n ih =>
    rw [List.range_succ_eq_map, List.map_cons, List.map_map] at hres ⊢
    have hfirst : (if d.Inside sector then d.encryptDataUnits unitNo (source 0) else source 0) =
        storedSector d sector unitNo source 0 := by
      have hs : sector + UInt64.ofNat 0 = sector := UInt64.add_zero sector
      have hu : unitNo + UInt64.ofNat 0 = unitNo := UInt64.add_zero unitNo
      simp only [storedSector, hs, hu]
    simp only [writeLoop, true_and, hfirst, writeSector] at hres ⊢
    by_cases hdrive : (sector + offset).toNat < d.driveSectors
    · simp only [if_pos hdrive] at hres ⊢
      have hrest := ih (by omega) hres
      have hnext : sector + 1 + offset = sector + offset + 1 := by
        rw [UInt64.add_assoc, UInt64.add_comm 1, UInt64.add_assoc]
      rw [hrest, hnext]
      by_cases ht : t = sector + offset
      · have hfar : ¬(t - (sector + offset + 1)).toNat < n := by
          rw [ht, toNat_sub_self_add_one]
          omega
        have hhere : (t - (sector + offset)).toNat = 0 := by
          rw [ht, UInt64.sub_self]
          rfl
        rw [if_neg hfar, hhere, if_pos (Nat.succ_pos n), ht, Function.update_self]
      · obtain ⟨hpos, hpred⟩ := toNat_sub_add_one ht
        have hsucc : (t - (sector + offset)).toNat - 1 + 1 = (t - (sector + offset)).toNat := by
          omega
        rw [hpred, storedSector_succ, hsucc, Function.update_of_ne ht]
        by_cases hlt : (t - (sector + offset)).toNat < n + 1
        · rw [if_pos hlt, if_pos (by omega)]
        · rw [if_neg hlt, if_neg (by omega)]
    · simp only [if_neg hdrive] at hres
      cases hres

/-- The sectors of a write by their distance from its first one. -/
theorem exists_of_toNat_sub_lt {t a : UInt64} {n : Nat} (h : (t - a).toNat < n) :
    ∃ i < n, t = a + UInt64.ofNat i := by
  refine ⟨(t - a).toNat, h, ?_⟩
  rw [UInt64.ofNat_toNat, UInt64.add_comm, UInt64.sub_add_cancel]

theorem toNat_sub_of_eq_add {t a : UInt64} {i : Nat} (hi : i < 2 ^ 64)
    (h : t = a + UInt64.ofNat i) : (t - a).toNat = i := by
  rw [h, UInt64.add_comm, UInt64.add_sub_cancel]
  exact UInt64.toNat_ofNat_of_lt' hi

/-- What a request must be for the drive to stay consistent: a hidden system writes nothing in front
    of the partition, and nothing past the last sector number. -/
def Request.Meets (d : BootDrive S) : Request S → Prop
  | .read _ _ => True
  | .write sector sectorCount _ => d.hiddenVolume = true → 0 < sectorCount.toNat →
      d.startSector ≤ sector ∧ sector.toNat + sectorCount.toNat ≤ 2 ^ 64

section

variable {sector : UInt64} {sectorCount : UInt16} {source : Nat → S}

theorem length_sourceSectors :
    UInt16.ofNat (sourceSectors sectorCount source).length = sectorCount := by
  rw [sourceSectors, List.length_map, List.length_range, UInt16.ofNat_toNat]

/-- What an accepted write leaves on the drive. -/
theorem writeEncryptedSectors_host
    (hres : (writeEncryptedSectors d host d.drive sector
      (sourceSectors sectorCount source)).1 = .success) (t : UInt64) :
    (writeEncryptedSectors d host d.drive sector (sourceSectors sectorCount source)).2 t =
        (if (t - (sector + writeOffset d)).toNat < sectorCount.toNat then
          storedSector d sector (dataUnitNo d sector) source
            (t - (sector + writeOffset d)).toNat
        else host t) ∧
      (d.hiddenVolume = true → ¬readWritePartiallyCoversEncryptedArea d sector sectorCount) := by
  have hcount := sectorCount.toNat_lt
  unfold writeEncryptedSectors at hres ⊢
  rw [length_sourceSectors] at hres ⊢
  split at hres
  · cases hres
  · rename_i hcovers
    rw [if_neg hcovers]
    exact ⟨writeLoop_range (by omega) hres t, fun h1 h2 => hcovers ⟨h1, h2⟩⟩

/-- A hidden system's write that is not refused and meets the condition is in the partition. -/
theorem write_inside
    (hres : (writeEncryptedSectors d host d.drive sector
      (sourceSectors sectorCount source)).1 = .success)
    (hmeets : (Request.write sector sectorCount source).Meets d)
    (hhidden : d.hiddenVolume = true) (hpos : 0 < sectorCount.toNat) :
    d.startSector ≤ sector ∧ sector.toNat + sectorCount.toNat ≤ d.endSector.toNat + 1 ∧
      sector.toNat + sectorCount.toNat ≤ 2 ^ 64 := by
  obtain ⟨hstart, hwrap⟩ := hmeets hhidden hpos
  have hcovers := (writeEncryptedSectors_host hres 0).2 hhidden
  rcases inside_or_front hcovers hpos hwrap with ⟨-, hend⟩ | ⟨hfront, -⟩
  · exact ⟨hstart, hend, hwrap⟩
  · exact absurd hstart (UInt64.not_le.mpr hfront)

/-- Where a write goes is where a read of the sector goes. -/
theorem add_writeOffset
    (hin : d.hiddenVolume = true → ∀ i < sectorCount.toNat, d.Inside (sector + UInt64.ofNat i))
    {i : Nat} (hi : i < sectorCount.toNat) :
    sector + writeOffset d + UInt64.ofNat i = hostSector d (sector + UInt64.ofNat i) := by
  by_cases hhidden : d.hiddenVolume = true
  · rw [hostSector_inside hhidden (hin hhidden i hi), writeOffset, if_pos hhidden]
    grind
  · rw [hostSector_normal hhidden, writeOffset, if_neg hhidden, UInt64.add_zero]

/-- Two sectors that can be asked for are not at one place of the drive. -/
theorem hostSector_injective {a b : UInt64} (ha : Reachable d a) (hb : d.hiddenVolume = true →
    d.Inside b) (h : hostSector d a = hostSector d b) : a = b := by
  by_cases hhidden : d.hiddenVolume = true
  · have hin := hb hhidden
    rcases ha hhidden with hina | hfront
    · rw [hostSector_inside hhidden hin, hostSector_inside hhidden hina] at h
      grind
    · -- the hidden volume is behind the partition
      have hplace := toNat_hostSector hhidden hin
      rw [← h, hostSector_outside (not_inside_of_lt hfront)] at hplace
      have hbehind := UInt64.lt_iff_toNat_lt.mp (d.hidden_behind hhidden).1
      have hfront' := UInt64.lt_iff_toNat_lt.mp hfront
      have hstart := UInt64.le_iff_toNat_le.mp hin.1
      have hend := UInt64.le_iff_toNat_le.mp hin.2
      omega
  · rwa [hostSector_normal hhidden, hostSector_normal hhidden] at h

/-- **A write changes the drive in front of the operating system as a drive does.** -/
theorem write_view
    (hres : (writeEncryptedSectors d host d.drive sector
      (sourceSectors sectorCount source)).1 = .success)
    (hmeets : (Request.write sector sectorCount source).Meets d) {t : UInt64}
    (ht : Reachable d t) :
    view d (writeEncryptedSectors d host d.drive sector (sourceSectors sectorCount source)).2 t =
      if (t - sector).toNat < sectorCount.toNat then source (t - sector).toNat
      else view d host t := by
  have hcount := sectorCount.toNat_lt
  have hin : d.hiddenVolume = true → ∀ i < sectorCount.toNat,
      d.Inside (sector + UInt64.ofNat i) := by
    intro hhidden i hi
    obtain ⟨hstart, hend, hwrap⟩ := write_inside hres hmeets hhidden (by omega)
    exact range_in_hidden hstart hend hwrap hi
  have hhost := fun t => (writeEncryptedSectors_host hres t).1
  by_cases hlt : (t - sector).toNat < sectorCount.toNat
  · rw [if_pos hlt]
    obtain ⟨i, hi, rfl⟩ := exists_of_toNat_sub_lt hlt
    have hindex : (sector + UInt64.ofNat i - sector).toNat = i :=
      toNat_sub_of_eq_add (by omega) rfl
    have hplace : (hostSector d (sector + UInt64.ofNat i) -
        (sector + writeOffset d)).toNat = i :=
      toNat_sub_of_eq_add (by omega) (add_writeOffset hin hi).symm
    have hunit : dataUnitNo d (sector + UInt64.ofNat i) =
        dataUnitNo d sector + UInt64.ofNat i := by
      unfold dataUnitNo
      split
      · grind
      · rfl
    rw [hindex, view, hhost, hplace, if_pos hi, storedSector, hunit]
    by_cases hinside : d.Inside (sector + UInt64.ofNat i)
    · rw [if_pos hinside, if_pos hinside, d.decrypt_encrypt]
    · rw [if_neg hinside, if_neg hinside]
  · rw [if_neg hlt]
    -- a sector beside the range is stored elsewhere
    have hout : ¬(hostSector d t - (sector + writeOffset d)).toNat < sectorCount.toNat := by
      intro hmeet
      obtain ⟨i, hi, hplace⟩ := exists_of_toNat_sub_lt hmeet
      rw [add_writeOffset hin hi] at hplace
      have hsame := hostSector_injective ht (fun hhidden => hin hhidden i hi) hplace
      exact hlt (by rwa [toNat_sub_of_eq_add (by omega) hsame])
    simp only [view, hhost, if_neg hout]

end

/-! ## Runs -/

/-- No sector of the range is in the encrypted partition. -/
def Outside (d : BootDrive S) (sector : UInt64) (sectorCount : UInt16) : Prop :=
  ∀ i < sectorCount.toNat, ¬d.Inside (sector + UInt64.ofNat i)

/-- What a single request must keep: a write changes only sectors that a read of its range fetches,
    and a range outside of the partition is passed through. -/
def StepConsistent (d : BootDrive S) (host : UInt64 → S) : Request S → Prop
  | .read sector sectorCount => Outside d sector sectorCount →
      (step d host (.read sector sectorCount)).2 =
        some ((List.range sectorCount.toNat).map (fun i => host (sector + UInt64.ofNat i)))
  | .write sector sectorCount source =>
      (∀ t, (step d host (.write sector sectorCount source)).1 t ≠ host t →
        ∃ i < sectorCount.toNat, t = hostSector d sector + UInt64.ofNat i) ∧
      (Outside d sector sectorCount → ∀ i < sectorCount.toNat,
        (step d host (.write sector sectorCount source)).1 (sector + UInt64.ofNat i) = source i)

theorem step_consistent {r : Request S} (hres : result d host r = .success) (hmeets : r.Meets d) :
    StepConsistent d host r := by
  cases r with
  | read sector sectorCount =>
    intro hout
    have hview := (read_view hres).1
    simp only [step, hview, Option.some.injEq]
    apply List.map_congr_left
    intro i hi
    have hout' := hout i (List.mem_range.mp hi)
    rw [view, if_neg hout', hostSector_outside hout']
  | write sector sectorCount source =>
    have hcount := sectorCount.toNat_lt
    have hin : d.hiddenVolume = true → ∀ i < sectorCount.toNat,
        d.Inside (sector + UInt64.ofNat i) := by
      intro hhidden i hi
      obtain ⟨hstart, hend, hwrap⟩ := write_inside hres hmeets hhidden (by omega)
      exact range_in_hidden hstart hend hwrap hi
    have hhost := fun t => (writeEncryptedSectors_host hres t).1
    refine ⟨?_, ?_⟩
    · intro t hchanged
      by_cases hlt : (t - (sector + writeOffset d)).toNat < sectorCount.toNat
      · obtain ⟨i, hi, rfl⟩ := exists_of_toNat_sub_lt hlt
        have hfirst : sector + writeOffset d + UInt64.ofNat 0 =
            hostSector d (sector + UInt64.ofNat 0) := add_writeOffset hin (by omega)
        have hzero : ∀ v : UInt64, v + UInt64.ofNat 0 = v := UInt64.add_zero
        rw [hzero, hzero] at hfirst
        exact ⟨i, hi, by rw [hfirst]⟩
      · refine absurd ?_ hchanged
        change (writeEncryptedSectors d host d.drive sector
          (sourceSectors sectorCount source)).2 t = host t
        rw [hhost, if_neg hlt]
    · intro hout i hi
      change (writeEncryptedSectors d host d.drive sector (sourceSectors sectorCount source)).2
        (sector + UInt64.ofNat i) = source i
      have hplace : (sector + UInt64.ofNat i - (sector + writeOffset d)).toNat = i := by
        apply toNat_sub_of_eq_add (by omega)
        rw [add_writeOffset hin hi, hostSector_outside (hout i hi)]
      rw [hhost, hplace, if_pos hi, storedSector, if_neg (hout i hi)]

/-- **The filter is a consistent drive** in every run of accepted requests that meet the condition:
reads answer as a drive does that holds what was last written, and every single request keeps to
its sectors. -/
theorem filter_consistent (d : BootDrive S) {host : UInt64 → S} {rs : List (Request S)}
    (hrs : Along (step d) (fun host r => result d host r = .success ∧ r.Meets d) host rs) :
    (run (step d) host rs).2 = (run driveStep (view d host) rs).2 ∧
      Along (step d) (StepConsistent d) host rs := by
  refine ⟨?_, ?_⟩
  · have hstep : ∀ (host disk : UInt64 → S) (r : Request S),
        (∀ t, Reachable d t → view d host t = disk t) →
        (result d host r = .success ∧ r.Meets d) →
        (∀ t, Reachable d t → view d (step d host r).1 t = (driveStep disk r).1 t) ∧
          (step d host r).2 = (driveStep disk r).2 := by
      rintro host disk r hview ⟨hres, hmeets⟩
      cases r with
      | read sector sectorCount =>
        obtain ⟨hdata, hreach⟩ := read_view hres
        refine ⟨hview, ?_⟩
        simp only [step, driveStep, hdata, Option.some.injEq]
        apply List.map_congr_left
        intro i hi
        exact hview _ (hreach i (List.mem_range.mp hi))
      | write sector sectorCount source =>
        refine ⟨?_, rfl⟩
        intro t ht
        simp only [step, driveStep, write_view hres hmeets ht, hview t ht]
    exact (run_simulates hstep (fun _ _ => rfl) hrs).2
  · have htrue : ∀ (host : UInt64 → S) (r : Request S), True →
        (result d host r = .success ∧ r.Meets d) → True := fun _ _ _ _ => trivial
    have hfollows : ∀ (host : UInt64 → S) (r : Request S), True →
        (result d host r = .success ∧ r.Meets d) → StepConsistent d host r :=
      fun _ _ _ h => step_consistent h.1 h.2
    exact along_mono htrue hfollows trivial hrs

end

/-! ## An example -/

namespace Example

/-- A hidden system: the partition of the sectors 10 to 19, the hidden volume from sector 30 on. -/
def drive : BootDrive UInt8 where
  drive := 0x80
  startSector := 10
  endSector := 19
  hiddenVolume := true
  hiddenVolumeStartSector := 30
  hiddenVolumeStartUnitNo := 100
  encryptDataUnits n b := b + n.toUInt8
  decryptDataUnits n b := b - n.toUInt8
  driveSectors := 64
  decrypt_encrypt n b := UInt8.add_sub_cancel b n.toUInt8
  driveSectors_lt := by decide
  hidden_behind := by decide

end Example

theorem filter_consistent_demo :
    (run (step Example.drive) (fun _ => 0)
      [.write 12 2 (fun i => UInt8.ofNat i + 7), .read 11 3, .read 0 2]).2 =
      (run driveStep (view Example.drive (fun _ => 0))
        [.write 12 2 (fun i => UInt8.ofNat i + 7), .read 11 3, .read 0 2]).2 := by
  refine (filter_consistent Example.drive ?_).1
  refine ⟨⟨by decide, ?_⟩, ⟨by decide, trivial⟩, ⟨by decide, trivial⟩, trivial⟩
  exact fun _ _ => ⟨by decide, by decide⟩

/-- In front of the partition a hidden system does not read what it wrote: the write went to sector
25, the read to sector 5. -/
theorem front_write_lost :
    Along (step Example.drive) (fun host r => result Example.drive host r = .success)
      (fun _ => 0) [.write 5 1 (fun _ => 7), .read 5 1] ∧
      (run (step Example.drive) (fun _ => 0) [.write 5 1 (fun _ => 7), .read 5 1]).2 ≠
        (run driveStep (view Example.drive (fun _ => 0))
          [.write 5 1 (fun _ => 7), .read 5 1]).2 ∧
      ¬StepConsistent Example.drive (fun _ => 0) (.write 5 1 (fun _ => 7)) := by
  refine ⟨by decide, by decide, ?_⟩
  rintro ⟨hframe, -⟩
  obtain ⟨i, hi, hsector⟩ := hframe 25 (by decide)
  have hzero : i = 0 := Nat.lt_one_iff.mp hi
  rw [hzero] at hsector
  exact absurd hsector (by decide)

end BootEncryptedIo
end VeraCrypt
