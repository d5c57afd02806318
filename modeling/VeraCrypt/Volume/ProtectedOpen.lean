import VeraCrypt.Volume.KeyslotSession

/-!
# What an open leaves in the protected range

The two members that hold the protected range are written in one place: at the end of a native
open. The constructor leaves them as the memory was, and the open by a keyslot returns before
that place, with the protection that was asked for. So `Open` is honest about the range when
what it returns does not depend on the memory and is the range of the hidden volume
(`RangeHonest`), and it is that exactly as far as no keyslot opens the volume and the hidden
header states a range at all (`rangeHonest_iff`).
-/

set_option autoImplicit false

namespace VeraCrypt

open Lib

/-- The memory with the two words where the range will be. -/
def OpenMemory.withRange (mem : OpenMemory) (rangeStart rangeEnd : UInt64) : OpenMemory :=
  { mem with protectedRangeStart := rangeStart, protectedRangeEnd := rangeEnd }

def Volume.withRange (v : Volume) (rangeStart rangeEnd : UInt64) : Volume :=
  { v with protectedRangeStart := rangeStart, protectedRangeEnd := rangeEnd }

namespace OpenEnv

/-- The protected range of `v` is the host range of the hidden volume that opens with the
    protection password, and is not empty. -/
def HiddenRange (env : OpenEnv) (req : OpenRequest) (v : Volume) : Prop :=
  ∃ p, env.openHidden req = .ok p ∧
    v.protectedRangeStart = p.volumeDataOffset ∧
    v.protectedRangeEnd.toNat = p.volumeDataOffset.toNat + p.volumeDataSize.toNat ∧
    v.protectedRangeStart < v.protectedRangeEnd

/-- Whatever the memory held where the range is kept, a volume that comes out of the open under
    hidden volume protection has the range of the hidden volume. -/
def RangeHonest (env : OpenEnv) (mem : OpenMemory) (req : OpenRequest) : Prop :=
  ∀ rangeStart rangeEnd v, openVolume env (mem.withRange rangeStart rangeEnd) req = .ok v →
    v.protection = .hiddenVolumeReadOnly → env.HiddenRange req v

/-- No header accepts the password, and a keyslot does. -/
def OpensByKeyslot (env : OpenEnv) (mem : OpenMemory) (req : OpenRequest) : Prop :=
  env.findHeader req = .ok none ∧ ∃ v, env.openKeyslot mem req = .ok (some v)

/-- A header accepts the password, and its volume is to be protected. -/
def ProtectsNatively (env : OpenEnv) (mem : OpenMemory) (req : OpenRequest) : Prop :=
  ∃ layout header v, env.findHeader req = .ok (some (layout, header)) ∧
    env.openNative mem req layout header = .ok v ∧ v.protection = .hiddenVolumeReadOnly ∧
    v.type ≠ .hidden

/-- The data range of a volume holds a byte and ends below `2^64`. -/
def StatesRange (p : Volume) : Prop :=
  0 < p.volumeDataSize.toNat ∧ p.volumeDataOffset.toNat + p.volumeDataSize.toNat < 2 ^ 64

/-! ## The memory of the range -/

theorem placeOnDrive_withRange (env : OpenEnv) (v : Volume) (rangeStart rangeEnd : UInt64) :
    env.placeOnDrive (v.withRange rangeStart rangeEnd) =
      (env.placeOnDrive v).map (·.withRange rangeStart rangeEnd) := by
  have hsame : (v.withRange rangeStart rangeEnd).layout = v.layout ∧
      (v.withRange rangeStart rangeEnd).header = v.header := ⟨rfl, rfl⟩
  unfold placeOnDrive
  rw [hsame.1, hsame.2]
  by_cases hdrive : (!v.layout.hasDriveHeader) = true
  · simp only [hdrive, if_true]
    rfl
  · by_cases hout : env.partitionDeviceStartOffset < v.header.encryptedAreaStart ∨
        v.header.encryptedAreaStart + v.header.encryptedAreaLength ≤
          env.partitionDeviceStartOffset
    · simp only [hdrive, hout, if_true]
      rfl
    · simp only [hdrive, hout, if_false]
      rfl

theorem discover_withRange (env : OpenEnv) (mem : OpenMemory) (v : Volume)
    (rangeStart rangeEnd : UInt64) :
    env.discover (mem.withRange rangeStart rangeEnd) (v.withRange rangeStart rangeEnd) =
      (env.discover mem v).withRange rangeStart rangeEnd := by
  have hmode : env.discoverMode (mem.withRange rangeStart rangeEnd)
      (v.withRange rangeStart rangeEnd) = env.discoverMode mem v := rfl
  unfold discover
  rw [hmode]
  split <;> rfl

/-- A native open passes the memory of the range on and does not look at it. -/
theorem openNative_withRange (env : OpenEnv) (mem : OpenMemory) (req : OpenRequest)
    (layout : VolumeLayout) (header : VolumeHeader) (rangeStart rangeEnd : UInt64) :
    env.openNative (mem.withRange rangeStart rangeEnd) req layout header =
      (env.openNative mem req layout header).map (·.withRange rangeStart rangeEnd) := by
  have hvol : env.volumeOf (mem.withRange rangeStart rangeEnd) req layout header =
      (env.volumeOf mem req layout header).withRange rangeStart rangeEnd := rfl
  unfold openNative
  rw [hvol, placeOnDrive_withRange]
  cases env.placeOnDrive (env.volumeOf mem req layout header) with
  | error e => rfl
  | ok w => exact congrArg Except.ok (discover_withRange env mem w rangeStart rangeEnd)

/-- A keyslot open hands out whatever the memory of the range held. -/
theorem openKeyslot_withRange (env : OpenEnv) (mem : OpenMemory) (req : OpenRequest)
    (rangeStart rangeEnd : UInt64) :
    env.openKeyslot (mem.withRange rangeStart rangeEnd) req =
      (env.openKeyslot mem req).map (Option.map (·.withRange rangeStart rangeEnd)) := by
  have hslot : env.openSlot (mem.withRange rangeStart rangeEnd) req = env.openSlot mem req := rfl
  unfold openKeyslot
  rw [hslot]
  split
  · rfl
  · split
    · rfl
    · split
      · rfl
      · split
        · rfl
        · rename_i header _
          cases header <;> rfl

/-! ## The range of a native open -/

theorem hiddenRange_of_protectRange {env : OpenEnv} {req : OpenRequest} {w v : Volume}
    (h : env.protectRange req w = .ok v) (hprot : v.protection = .hiddenVolumeReadOnly) :
    w.protection = .hiddenVolumeReadOnly ∧ w.type ≠ .hidden ∧
      ∃ p, env.openHidden req = .ok p ∧ v.protectedRangeStart = p.volumeDataOffset ∧
        v.protectedRangeEnd = p.volumeDataOffset + p.volumeDataSize := by
  unfold protectRange at h
  split at h
  · rename_i hw
    split at h
    · exact absurd h (by simp)
    · rename_i htype
      split at h
      · split at h <;> exact absurd h (by simp)
      · rename_i p hp
        rw [← Except.ok.inj h]
        exact ⟨hw, htype, p, hp, rfl, rfl⟩
  · rename_i hw
    rw [← Except.ok.inj h] at hprot
    exact absurd hprot hw

theorem protectRange_ok {env : OpenEnv} {req : OpenRequest} {w p : Volume}
    (hw : w.protection = .hiddenVolumeReadOnly) (htype : w.type ≠ .hidden)
    (hp : env.openHidden req = .ok p) :
    env.protectRange req w =
      .ok (w.withRange p.volumeDataOffset (p.volumeDataOffset + p.volumeDataSize)) := by
  unfold protectRange
  rw [if_pos hw, if_neg htype, hp]
  rfl

/-- Start and end are those of a non-empty range exactly when the hidden volume states one. -/
theorem statesRange_iff (p : Volume) :
    (p.volumeDataOffset + p.volumeDataSize).toNat =
        p.volumeDataOffset.toNat + p.volumeDataSize.toNat ∧
      p.volumeDataOffset < p.volumeDataOffset + p.volumeDataSize ↔ StatesRange p := by
  have hoff := p.volumeDataOffset.toNat_lt
  have hsize := p.volumeDataSize.toNat_lt
  rw [UInt64.lt_iff_toNat_lt, UInt64.toNat_add]
  unfold StatesRange
  constructor
  · rintro ⟨hend, hlt⟩
    constructor <;> omega
  · rintro ⟨hpos, hfit⟩
    constructor <;> omega

/-- A volume that opens by a keyslot has no range at all: with zeros in the memory it is empty. -/
theorem not_rangeHonest_of_keyslot {env : OpenEnv} {mem : OpenMemory} {req : OpenRequest}
    (hreq : req.protection = .hiddenVolumeReadOnly) (hslot : env.OpensByKeyslot mem req) :
    ¬ env.RangeHonest mem req := by
  obtain ⟨hnone, v, hv⟩ := hslot
  intro h
  have hopen : openVolume env (mem.withRange 0 0) req = .ok (v.withRange 0 0) := by
    unfold openVolume openWith
    rw [hnone, openKeyslot_withRange, hv]
    rfl
  obtain ⟨opened, header, -, -, rfl⟩ := openKeyslot_some hv
  obtain ⟨p, -, -, -, hlt⟩ := h 0 0 _ hopen hreq
  exact UInt64.lt_irrefl 0 hlt

/-- **When the protection is real.** -/
theorem rangeHonest_iff (env : OpenEnv) (mem : OpenMemory) (req : OpenRequest) :
    env.RangeHonest mem req ↔
      ¬ (req.protection = .hiddenVolumeReadOnly ∧ env.OpensByKeyslot mem req) ∧
      (env.ProtectsNatively mem req → ∀ p, env.openHidden req = .ok p → StatesRange p) := by
  constructor
  · intro h
    constructor
    · rintro ⟨hreq, hslot⟩
      exact not_rangeHonest_of_keyslot hreq hslot h
    · rintro ⟨layout, header, w, hfind, hw, hprot, htype⟩ p hp
      have hnative := openNative_withRange env mem req layout header 0 0
      rw [hw] at hnative
      have hopen : openVolume env (mem.withRange 0 0) req =
          .ok (w.withRange p.volumeDataOffset (p.volumeDataOffset + p.volumeDataSize)) := by
        unfold openVolume openWith
        rw [hfind]
        simp only [hnative, Except.map]
        rw [protectRange_ok (w := w.withRange 0 0) hprot htype hp]
        rfl
      obtain ⟨p', hp', -, hend, hlt⟩ := h 0 0 _ hopen hprot
      have hpp : p' = p := Except.ok.inj (hp'.symm.trans hp)
      subst hpp
      exact (statesRange_iff p').mp ⟨hend, hlt⟩
  · rintro ⟨hslot, hnative⟩ rangeStart rangeEnd v hopen hprot
    rcases openWith_ok hopen with ⟨layout, header, w, hfind, hw, hv⟩ | ⟨hnone, hv⟩
    · obtain ⟨hwp, hwt, p, hp, hstart, hend⟩ := hiddenRange_of_protectRange hv hprot
      rw [openNative_withRange] at hw
      cases hw₀ : env.openNative mem req layout header with
      | error e =>
        rw [hw₀] at hw
        exact absurd hw (by simp [Except.map])
      | ok w₀ =>
        rw [hw₀] at hw
        have hwe : w = w₀.withRange rangeStart rangeEnd := (Except.ok.inj hw).symm
        subst hwe
        have hstates := hnative ⟨layout, header, w₀, hfind, hw₀, hwp, hwt⟩ p hp
        obtain ⟨hsum, hlt⟩ := (statesRange_iff p).mpr hstates
        exact ⟨p, hp, hstart, by rw [hend]; exact hsum, by rw [hstart, hend]; exact hlt⟩
    · rw [openKeyslot_withRange] at hv
      cases hv₀ : env.openKeyslot mem req with
      | error e =>
        rw [hv₀] at hv
        exact absurd hv (by simp [Except.map])
      | ok found =>
        cases found with
        | none =>
          rw [hv₀] at hv
          exact absurd hv (by simp [Except.map])
        | some v₀ =>
          rw [hv₀] at hv
          have hve : v = v₀.withRange rangeStart rangeEnd :=
            (Option.some.inj (Except.ok.inj hv)).symm
          subst hve
          obtain ⟨opened, header, -, -, rfl⟩ := openKeyslot_some hv₀
          exact absurd ⟨hprot, hnone, _, hv₀⟩ hslot

end OpenEnv

def SlotContainer.protectedRequest : OpenRequest :=
  { SlotContainer.slotRequest with protection := .hiddenVolumeReadOnly }

/-- **A protected mount that protects nothing**: the container opened by its slot, with the
    hidden volume to be protected. -/
theorem SlotContainer.unprotected :
    ¬ ∀ (env : OpenEnv) (mem : OpenMemory) (req : OpenRequest), env.RangeHonest mem req := by
  intro h
  have hslot : SlotContainer.env.OpensByKeyslot SlotContainer.memory
      SlotContainer.protectedRequest :=
    ⟨SlotContainer.findHeader_passphrase rfl rfl rfl rfl rfl, _,
      SlotContainer.openKeyslot_passphrase rfl rfl rfl rfl⟩
  exact OpenEnv.not_rangeHonest_of_keyslot rfl hslot (h _ _ _)

end VeraCrypt
