import VeraCrypt.Volume.KeyslotSession
import VeraCrypt.Volume.V2Contents

/-!
# Mounting a version 2 volume again

Nothing on disk says that a volume carries tags: every mount looks for the mode whose key explains
the slot of the first sector. A session that ends with that sector known leaves a volume whose table
is found again, and the next session goes on from what the first one knows (`session_remounted`).
-/

set_option autoImplicit false

namespace VeraCrypt

open Lib

/-- A mode is found by reading a sector and its slot under a key of full length. -/
theorem discoverMode_found {env : OpenEnv} {mem : OpenMemory} {v : Volume} {mode : V2Mode}
    (h : env.discoverMode mem v = some (some mode)) :
    v.volumeDataSize / v.sectorSize ≠ 0 ∧
      (0 < v.header.ea.algorithm.getKeySize * 2 ∧
        v.header.ea.algorithm.getKeySize * 2 ≤ v.header.dataAreaKey.length) ∧
      ∃ sector0 tag0,
        File.readInto env.host v.volumeDataOffset v.sectorSize.toNat
          (env.readFails v.volumeDataOffset) mem.sector0 = some sector0 ∧
        File.readInto env.host (v.volumeDataOffset + v.volumeDataSize + v2FormatSlotOffset 0)
          v2MacTagLen (env.readFails (v.volumeDataOffset + v.volumeDataSize + v2FormatSlotOffset 0))
          mem.tag0 = some tag0 ∧
        v2FormatDiscoverMode env.P (OpenEnv.macMasterKey v.header) sector0 tag0 = some mode := by
  unfold OpenEnv.discoverMode at h
  simp only at h
  split at h
  · cases h
  · rename_i hsome
    split at h
    · cases h
    · rename_i sector0 hsector
      split at h
      · cases h
      · rename_i tag0 htag
        split at h
        · rename_i hkey
          exact ⟨hsome, hkey, sector0, tag0, hsector, htag, Option.some.inj h⟩
        · cases h

/-- The mode whose key explains a tag is found, unless the other key explains it as well. -/
theorem v2FormatDiscoverMode_of_verify {P : Primitives} {masterKey ct tag : Bytes} {mode : V2Mode}
    (h : v2FormatSectorVerify P (v2FormatDeriveModeKey P masterKey mode) 0 ct tag = true) :
    v2FormatDiscoverMode P masterKey ct tag = some mode ∨
      mode = .hctr2 ∧
        v2FormatSectorVerify P (v2FormatDeriveModeKey P masterKey .adiantum) 0 ct tag = true := by
  unfold v2FormatDiscoverMode
  simp only [List.foldl_cons, List.foldl_nil]
  cases mode with
  | adiantum =>
    rw [if_pos h]
    exact .inl rfl
  | hctr2 =>
    by_cases hother :
        v2FormatSectorVerify P (v2FormatDeriveModeKey P masterKey .adiantum) 0 ct tag = true
    · exact .inr ⟨rfl, hother⟩
    · rw [if_neg hother, if_pos h]
      exact .inl rfl

/-- A mode that is found explains the tag. -/
theorem verify_of_v2FormatDiscoverMode {P : Primitives} {masterKey ct tag : Bytes} {mode : V2Mode}
    (h : v2FormatDiscoverMode P masterKey ct tag = some mode) :
    v2FormatSectorVerify P (v2FormatDeriveModeKey P masterKey mode) 0 ct tag = true := by
  unfold v2FormatDiscoverMode at h
  simp only [List.foldl_cons, List.foldl_nil] at h
  split at h
  · rename_i hverify
    rw [← Option.some.inj h]
    exact hverify
  · split at h
    · rename_i hverify
      rw [← Option.some.inj h]
      exact hverify
    · cases h

namespace Volume

/-! ## The volume of a header -/

/-- The volume of a header, armed with a mode. -/
def armed (env : OpenEnv) (mem : OpenMemory) (req : OpenRequest) (layout : VolumeLayout)
    (header : VolumeHeader) (mode : V2Mode) : Volume :=
  { env.volumeOf mem req layout header with
    v2Mac := V2SectorMacIo.init.configure env.P (some mode) (OpenEnv.macMasterKey header)
      header.sectorSize.toUInt64
      (layout.getDataOffset header + layout.getDataSize header env.volumeHostSize)
      (layout.getDataSize header env.volumeHostSize / header.sectorSize.toUInt64) }

/-- The volume as another mount makes it: what the request and the memory of the mount set. -/
def Remounted (v w : Volume) : Prop :=
  ∃ protection rangeStart rangeEnd pim, w = { v with
    protection := protection
    protectedRangeStart := rangeStart
    protectedRangeEnd := rangeEnd
    pim := pim }

section
variable {env env' : OpenEnv} {mem mem' : OpenMemory} {req req' : OpenRequest}
  {layout : VolumeLayout} {header : VolumeHeader} {v w : Volume} {mode : V2Mode}

theorem openNative_of_not_drive (hdrive : layout.hasDriveHeader = false) :
    env.openNative mem req layout header =
      .ok (env.discover mem (env.volumeOf mem req layout header)) := by
  rw [OpenEnv.openNative, OpenEnv.placeOnDrive_of_not_drive env hdrive]

theorem openNative_of_discoverMode (hdrive : layout.hasDriveHeader = false)
    (h : env.discoverMode mem (env.volumeOf mem req layout header) = some (some mode)) :
    env.openNative mem req layout header = .ok (armed env mem req layout header mode) := by
  rw [openNative_of_not_drive hdrive, OpenEnv.discover, h]
  rfl

/-- An active volume has had its mode found. -/
theorem armed_of_openNative (hdrive : layout.hasDriveHeader = false)
    (h : env.openNative mem req layout header = .ok v) (hactive : v.v2Mac.isActive = true) :
    ∃ mode, v = armed env mem req layout header mode ∧
      env.discoverMode mem (env.volumeOf mem req layout header) = some (some mode) := by
  rw [openNative_of_not_drive hdrive] at h
  have hv := Except.ok.inj h
  rw [OpenEnv.discover] at hv
  split at hv
  · rw [← hv] at hactive
    cases hactive
  · rw [← hv] at hactive
    cases hactive
  · rename_i mode hmode
    exact ⟨mode, hv.symm, hmode⟩

theorem remounted_armed (hP : env'.P = env.P) (hlen : env'.host.length = env.host.length)
    (hscope : req'.partitionInSystemEncryptionScope = req.partitionInSystemEncryptionScope) :
    Remounted (armed env mem req layout header mode) (armed env' mem' req' layout header mode) := by
  have hsize : env'.volumeHostSize = env.volumeHostSize := congrArg UInt64.ofNat hlen
  refine ⟨req'.protection, mem'.protectedRangeStart, mem'.protectedRangeEnd, req'.pim, ?_⟩
  simp only [armed, OpenEnv.volumeOf, hsize, hP, hscope]

theorem V2Geometry.remounted {n : Nat} (hv : V2Geometry v n) (h : Remounted v w) :
    V2Geometry w n := by
  obtain ⟨_, _, _, _, rfl⟩ := h
  exact ⟨hv.active, hv.ignoreTags, hv.notSystem, hv.complete, hv.mac_sectorSize,
    hv.sectorSize_pos, hv.sectorSize_units, hv.whole, hv.base_eq, hv.fits, hv.addressable⟩

theorem Remounted.v2Mac_eq (h : Remounted v w) : w.v2Mac = v.v2Mac := by
  obtain ⟨_, _, _, _, rfl⟩ := h
  rfl

theorem Remounted.tagValid_iff {P : Primitives} {host : Bytes} {i : Nat} (h : Remounted v w) :
    TagValid P w host i ↔ TagValid P v host i := by
  obtain ⟨_, _, _, _, rfl⟩ := h
  exact Iff.rfl

theorem Remounted.plainAt_eq {C : Ciphers} {host : Bytes} {i : Nat} (h : Remounted v w) :
    w.plainAt C host i = v.plainAt C host i := by
  obtain ⟨_, _, _, _, rfl⟩ := h
  rfl

/-- The reads of the search: the first sector and its slot. -/
theorem V2Geometry.readInto_sector {host : Bytes} (hv : V2Geometry v host.length)
    (hpos : 0 < v.v2Mac.dataSectors.toNat) (uninit : RandStream) :
    File.readInto host v.volumeDataOffset v.sectorSize.toNat false uninit =
      some (v.sectorAt host 0) := by
  have hfits := hv.fits
  have hbase := hv.base_eq
  have hmax := hv.addressable
  have hone := Nat.mul_le_mul_right v.sectorSize.toNat hpos
  rw [Nat.succ_mul, Nat.zero_mul, Nat.zero_add, hv.whole] at hone
  rw [File.readInto_whole uninit (by omega) (by omega), sectorAt, Nat.zero_mul, Nat.add_zero]

theorem V2Geometry.readInto_slot {host : Bytes} (hv : V2Geometry v host.length)
    (hpos : 0 < v.v2Mac.dataSectors.toNat) (uninit : RandStream) :
    File.readInto host v.v2Mac.tableBaseOffset v2MacTagLen false uninit =
      some (v.slotAt host 0) := by
  have hfits := hv.fits
  have hmax := hv.addressable
  have htags := Nat.mul_le_mul_right v2MacTagLen hpos
  rw [Nat.succ_mul, Nat.zero_mul, Nat.zero_add] at htags
  rw [File.readInto_whole uninit (by omega) (by omega), slotAt, Nat.zero_mul, Nat.add_zero]

theorem armed_dataSectors_pos
    (hfound : env.discoverMode mem (env.volumeOf mem req layout header) = some (some mode)) :
    0 < (armed env mem req layout header mode).v2Mac.dataSectors.toNat := by
  refine Nat.pos_of_ne_zero ?_
  intro hzero
  exact (discoverMode_found hfound).1 (UInt64.toNat_inj.mp hzero)

/-- A mode is found where the first sector is valid under it. -/
theorem tagValid_of_discoverMode
    (hv : V2Geometry (armed env mem req layout header mode) env.host.length)
    (hfound : env.discoverMode mem (env.volumeOf mem req layout header) = some (some mode))
    (hreads : ∀ position, env.readFails position = false) :
    TagValid env.P (armed env mem req layout header mode) env.host 0 := by
  have hpos := armed_dataSectors_pos hfound
  have hslots : v2FormatSlotOffset 0 = 0 := by decide
  obtain ⟨-, -, sector0, tag0, hsector, htag, hmode⟩ := discoverMode_found hfound
  rw [hreads] at hsector
  rw [hreads, hslots, UInt64.add_zero] at htag
  have hsector0 : sector0 = (armed env mem req layout header mode).sectorAt env.host 0 :=
    Option.some.inj (hsector.symm.trans (hv.readInto_sector hpos mem.sector0))
  have htag0 : tag0 = (armed env mem req layout header mode).slotAt env.host 0 :=
    Option.some.inj (htag.symm.trans (hv.readInto_slot hpos mem.tag0))
  have hverify := verify_of_v2FormatDiscoverMode hmode
  rw [hsector0, htag0, v2FormatSectorVerify, ctEqual_iff (by
    rw [length_v2FormatSectorTag]
    exact (hv.length_slotAt hpos).symm)] at hverify
  exact hverify.symm

/-- The search finds the mode of a volume whose first sector is valid. -/
theorem discoverMode_again {host : Bytes} (hv : V2Geometry (armed env mem req layout header mode)
      host.length)
    (hfound : env.discoverMode mem (env.volumeOf mem req layout header) = some (some mode))
    (hvalid : TagValid env.P (armed env mem req layout header mode) host 0)
    (hP : env'.P = env.P) (hhost : env'.host = host) (hlen : host.length = env.host.length)
    (hreads : ∀ position, env'.readFails position = false) :
    env'.discoverMode mem' (env'.volumeOf mem' req' layout header) = some (some mode) ∨
      mode = .hctr2 ∧ v2FormatSectorVerify env.P
        (v2FormatDeriveModeKey env.P (OpenEnv.macMasterKey header) .adiantum) 0
        ((armed env mem req layout header mode).sectorAt host 0)
        ((armed env mem req layout header mode).slotAt host 0) = true := by
  obtain ⟨hsome, hkey, -⟩ := discoverMode_found hfound
  have hsize : env'.volumeHostSize = env.volumeHostSize := by
    rw [OpenEnv.volumeHostSize, OpenEnv.volumeHostSize, hhost, hlen]
  have hslots : v2FormatSlotOffset 0 = 0 := by decide
  have hpos := armed_dataSectors_pos hfound
  have hdiscover : env'.discoverMode mem' (env'.volumeOf mem' req' layout header) =
      some (v2FormatDiscoverMode env'.P (OpenEnv.macMasterKey header)
        ((armed env mem req layout header mode).sectorAt host 0)
        ((armed env mem req layout header mode).slotAt host 0)) := by
    refine discoverMode_of_reads (v := env'.volumeOf mem' req' layout header) ?_ ?_ ?_ hkey
    · simp only [OpenEnv.volumeOf, hsize]
      exact hsome
    · rw [hreads, hhost]
      exact hv.readInto_sector hpos mem'.sector0
    · simp only [OpenEnv.volumeOf, hsize, hslots, UInt64.add_zero]
      rw [hreads, hhost]
      exact hv.readInto_slot hpos mem'.tag0
  have hverify : v2FormatSectorVerify env.P
      (v2FormatDeriveModeKey env.P (OpenEnv.macMasterKey header) mode) 0
      ((armed env mem req layout header mode).sectorAt host 0)
      ((armed env mem req layout header mode).slotAt host 0) = true := by
    rw [hvalid]
    exact ctEqual_self _
  rw [hdiscover, hP]
  cases v2FormatDiscoverMode_of_verify hverify with
  | inl hmode => exact .inl (congrArg some hmode)
  | inr hother => exact .inr hother

/-! ## The next session -/

/-- A run of calls keeps what is known and the length of the host. -/
theorem Session.run_calls {C : Ciphers} {P : Primitives} {s : Volume × Bytes} {k : Contents}
    (h : Session C P v s k) (hmax : v.sectorSize.toNat ≤ 4096) {calls : List Call}
    (hcalls : ∀ c ∈ calls, c.Inside v) :
    Session C P v (run (callStep C P) s calls).1
        (observed (observe v) k (transcript (callStep C P) s calls)) ∧
      (run (callStep C P) s calls).1.2.length = s.2.length := by
  have hstep : ∀ t k c, (Session C P v t k ∧ t.2.length = s.2.length) → Call.Inside v c →
      (Session C P v (callStep C P t c).1 (observe v k c (callStep C P t c).2) ∧
        (callStep C P t c).1.2.length = s.2.length) ∧ Faithful v k c (callStep C P t c).2 := by
    intro t k c ht hc
    obtain ⟨hnext, hfaithful⟩ := ht.1.step hmax hc
    exact ⟨⟨hnext, (ht.1.length_host hmax hc).trans ht.2⟩, hfaithful⟩
  exact (run_accepted hstep ⟨h, rfl⟩ hcalls).2

/-- **A version 2 volume outlives its mount.** When the first sector is known at the end of a
    session, the next mount finds the table again, and the session on it goes on from what the
    first one knows. The exception is a first sector that has one tag under both keys. -/
theorem session_remounted {env env' : OpenEnv} {mem mem' : OpenMemory} {req req' : OpenRequest}
    {layout : VolumeLayout} {header : VolumeHeader} {v : Volume} {k : Contents}
    {calls : List Call} {d : Bytes}
    (hopen : env.openNative mem req layout header = .ok v)
    (hdrive : layout.hasDriveHeader = false) (hv : V2Geometry v env.host.length)
    (hknown : ∀ i < v.v2Mac.dataSectors.toNat, ∀ d, k i = some d →
      TagValid env.P v env.host i ∧ v.plainAt env.C env.host i = d)
    (hcalls : ∀ c ∈ calls, c.Inside v) (hC : env'.C = env.C) (hP : env'.P = env.P)
    (hhost : env'.host = (run (callStep env.C env.P) (v, env.host) calls).1.2)
    (hreads : ∀ position, env'.readFails position = false)
    (hscope : req'.partitionInSystemEncryptionScope = req.partitionInSystemEncryptionScope)
    (hzero : observed (observe v) k (transcript (callStep env.C env.P) (v, env.host) calls) 0 =
      some d) :
    ∃ v', env'.openNative mem' req' layout header = .ok v' ∧
      ((∀ calls' : List Call, (∀ c ∈ calls', c.Inside v') →
          Lib.Accepted (observe v') (Faithful v')
            (observed (observe v) k (transcript (callStep env.C env.P) (v, env.host) calls))
            (transcript (callStep env'.C env'.P) (v', env'.host) calls')) ∨
        v.v2Mac.mode = some .hctr2 ∧
          v2FormatSectorTag env.P
              (v2FormatDeriveModeKey env.P (OpenEnv.macMasterKey header) .adiantum) 0
              (v.sectorAt env'.host 0) =
            v2FormatSectorTag env.P
              (v2FormatDeriveModeKey env.P (OpenEnv.macMasterKey header) .hctr2) 0
              (v.sectorAt env'.host 0)) := by
  obtain ⟨mode, rfl, hfound⟩ := armed_of_openNative hdrive hopen hv.active
  have hmax : (armed env mem req layout header mode).sectorSize.toNat ≤ 4096 := by
    show header.sectorSize.toUInt64.toNat ≤ 4096
    rw [UInt32.toNat_toUInt64]
    exact UInt32.le_iff_toNat_le.mp header.sectorSize_valid.2.1
  have hpos := armed_dataSectors_pos hfound
  have hstart : Session env.C env.P (armed env mem req layout header mode)
      (armed env mem req layout header mode, env.host) k := ⟨Recounted.refl _, hv, hknown⟩
  obtain ⟨hend, hlen⟩ := hstart.run_calls hmax hcalls
  rw [← hhost] at hlen
  have hlast := hend.geometry
  have hkept := hend.known
  rw [← hhost] at hlast hkept
  obtain ⟨hvalid, -⟩ := hkept 0 hpos d hzero
  have hremount : Remounted (armed env mem req layout header mode)
      (armed env' mem' req' layout header mode) := remounted_armed hP hlen hscope
  cases discoverMode_again hlast hfound hvalid hP rfl hlen hreads with
  | inl hagain =>
    refine ⟨armed env' mem' req' layout header mode, openNative_of_discoverMode hdrive hagain,
      .inl ?_⟩
    intro calls' hcalls'
    rw [hC, hP]
    refine (session_faithful env.C env.P (hlast.remounted hremount) ?_ ?_ calls' hcalls').1
    · exact hmax
    · intro i hi e he
      rw [hremount.v2Mac_eq] at hi
      rw [hremount.tagValid_iff, hremount.plainAt_eq]
      exact hkept i hi e he
  | inr hother =>
    obtain ⟨hmode, hverify⟩ := hother
    subst hmode
    refine ⟨_, openNative_of_not_drive hdrive, .inr ⟨rfl, ?_⟩⟩
    rw [v2FormatSectorVerify, hvalid, ctEqual_iff (by simp [tagOf])] at hverify
    exact hverify

end

/-- The volume of the container with a MAC table. -/
theorem armed_geometry (mode : V2Mode) :
    V2Geometry (armed SlotContainer.env SlotContainer.memory SlotContainer.request .v2Normal
      SlotContainer.header mode) SlotContainer.env.host.length := by
  have hlen : SlotContainer.env.host.length = 1048576 := SlotContainer.length_host
  rw [hlen]
  refine ⟨rfl, rfl, rfl, rfl, rfl, ?_, ?_, ?_, ?_, ?_, by decide⟩
  · show 0 < (512 : UInt64).toNat
    decide
  · show (512 : UInt64).toNat % 512 = 0
    decide
  · show (1489 : UInt64).toNat * (512 : UInt64).toNat = (762368 : UInt64).toNat
    decide
  · show (893440 : UInt64).toNat = (131072 : UInt64).toNat + (762368 : UInt64).toNat
    decide
  · show (893440 : UInt64).toNat + (1489 : UInt64).toNat * v2MacTagLen ≤ 1048576
    decide

/-- A read that the system fails. -/
def failedRead : Call := .read 0 512 { data := true, tags := false, uninit := fun _ => 0 }

theorem callStep_failedRead (C : Ciphers) (P : Primitives) (v : Volume) (host : Bytes) :
    ∃ e, callStep C P (v, host) failedRead = ((v, host), .data (.error e)) := by
  have hnone : File.readAt host (v.hostOffset 0) 512 true = none := by simp [File.readAt]
  rw [failedRead, callStep, readSectors]
  dsimp only
  rw [hnone]
  split
  · rename_i hok
    split at hok <;> cases hok
  · exact ⟨_, rfl⟩

/-- The container is read once, without an answer, and mounted again as read-only: what is known of
    its first sector stays known. -/
theorem session_remounted_demo : ∃ (v : Volume) (d : Bytes) (v' : Volume),
    SlotContainer.env.openNative SlotContainer.memory SlotContainer.request .v2Normal
      SlotContainer.header = .ok v ∧
    SlotContainer.env.openNative SlotContainer.memory
      { SlotContainer.request with protection := .readOnly } .v2Normal SlotContainer.header =
        .ok v' ∧
      ((∀ calls' : List Call, (∀ c ∈ calls', c.Inside v') →
          Lib.Accepted (observe v') (Faithful v') (fun i => if i = 0 then some d else none)
            (transcript (callStep .demo .demo) (v', SlotContainer.host) calls')) ∨
        v.v2Mac.mode = some .hctr2 ∧
          v2FormatSectorTag .demo
              (v2FormatDeriveModeKey .demo (OpenEnv.macMasterKey SlotContainer.header) .adiantum) 0
              (v.sectorAt SlotContainer.host 0) =
            v2FormatSectorTag .demo
              (v2FormatDeriveModeKey .demo (OpenEnv.macMasterKey SlotContainer.header) .hctr2) 0
              (v.sectorAt SlotContainer.host 0)) := by
  obtain ⟨mode, hfound⟩ := (@discoverMode_iff SlotContainer.env SlotContainer.memory
    SlotContainer.request .v2Normal SlotContainer.header
    (OpenEnv.headerFits_of_findHeader SlotContainer.findHeader_request).2).mpr
    SlotContainer.hasMacTable
  have hopen := openNative_of_discoverMode rfl hfound
  have hv := armed_geometry mode
  have hvalid := tagValid_of_discoverMode hv hfound (fun _ => rfl)
  have hknown : ∀ i < (armed SlotContainer.env SlotContainer.memory SlotContainer.request .v2Normal
        SlotContainer.header mode).v2Mac.dataSectors.toNat, ∀ d,
      (fun i => if i = 0 then some ((armed SlotContainer.env SlotContainer.memory
        SlotContainer.request .v2Normal SlotContainer.header mode).plainAt SlotContainer.env.C
          SlotContainer.env.host 0) else none : Contents) i = some d →
      TagValid SlotContainer.env.P (armed SlotContainer.env SlotContainer.memory
          SlotContainer.request .v2Normal SlotContainer.header mode) SlotContainer.env.host i ∧
        (armed SlotContainer.env SlotContainer.memory SlotContainer.request .v2Normal
          SlotContainer.header mode).plainAt SlotContainer.env.C SlotContainer.env.host i = d := by
    intro i hi d hd
    dsimp only at hd
    split at hd
    · rename_i hi0
      subst hi0
      exact ⟨hvalid, Option.some.inj hd⟩
    · cases hd
  have hinside : ∀ c ∈ [failedRead], c.Inside (armed SlotContainer.env SlotContainer.memory
      SlotContainer.request .v2Normal SlotContainer.header mode) := by
    intro c hc
    rw [List.mem_singleton.mp hc]
    refine ⟨?_, ?_, ?_⟩
    · show (0 : UInt64).toNat % (512 : UInt64).toNat = 0
      decide
    · show 512 % (512 : UInt64).toNat = 0
      decide
    · show (0 : UInt64).toNat + 512 ≤ (762368 : UInt64).toNat
      decide
  obtain ⟨e, he⟩ := callStep_failedRead SlotContainer.env.C SlotContainer.env.P
    (armed SlotContainer.env SlotContainer.memory SlotContainer.request .v2Normal
      SlotContainer.header mode) SlotContainer.env.host
  obtain ⟨v', hv', hnext⟩ := @session_remounted _ SlotContainer.env _ SlotContainer.memory _
    { SlotContainer.request with protection := .readOnly } _ _ _ _ [failedRead] _ hopen rfl hv
    hknown hinside rfl rfl
    (by rw [run_cons, he]; rfl) (fun _ => rfl) rfl (by rw [transcript_cons, he]; rfl)
  rw [transcript_cons, he] at hnext
  exact ⟨_, _, v', hopen, hv', hnext⟩

end Volume

end VeraCrypt
