import VeraCrypt.Volume.KeyslotSession

/-!
# The check in front of a hidden volume

A hidden volume lies at the end of the outer volume's data area, and so does the MAC table of a
version 2 volume. Before `CreateVolume` makes a hidden volume it opens the outer one and goes on
only if no table was found. The question put to the open volume is whether its table is armed, and
that is not whether the volume has one: a keyslot open never looks, and an open whose reads fail
does not find out. `createsOnlyInV1_iff` says that these are all the cases in which the check goes
on without knowing, and `keyslot_hides_table` is one in which every sector has its tag.
-/

set_option autoImplicit false

namespace VeraCrypt

open Lib

/-! ## The check -/

/-- Why a hidden volume is refused. -/
inductive HostCheckError where
  | outerPasswordNeeded | outerNotOpened | outerIsV2
  deriving DecidableEq

/-- The options of the command line that the check reads, and what is entered when it asks.
    `applyKeyfiles` is `Keyfile::ApplyListToPassword` for the keyfiles given. -/
structure HiddenCreation where
  argSkipV2HostCheck : Bool
  nonInteractive : Bool
  argOuterPassword : Option Bytes
  argOuterPim : Int
  askedPassword : Bytes
  askedPim : Int
  argHash : Option Pkcs5Kdf
  hasKeyfiles : Bool
  applyKeyfiles : Bytes → Except Exception Bytes

namespace HiddenCreation

/-- The password and PIM of the outer volume. -/
def outerCredential (creation : HiddenCreation) : Except HostCheckError (Bytes × Int) :=
  match creation.argOuterPassword with
  | some password => .ok (password, creation.argOuterPim)
  | none =>
    if creation.nonInteractive then .error .outerPasswordNeeded
    else .ok (creation.askedPassword, creation.askedPim)

/-- The open of the outer volume. -/
def outerRequest (creation : HiddenCreation) (password : Bytes) (pim : Int) : OpenRequest where
  password := password
  pim := pim
  kdf := creation.argHash
  hasKeyfiles := creation.hasKeyfiles
  protection := .readOnly
  protectionPassword := []
  protectionPim := 0
  protectionKdf := none
  protectionHasKeyfiles := false
  volumeType := .normal
  useBackupHeaders := false
  partitionInSystemEncryptionScope := false

/-- What is asked of `Volume::Open`: the keyfiles are applied in it, so they fail as it does. -/
def outerOpen (creation : HiddenCreation) : Except HostCheckError OpenRequest :=
  match creation.outerCredential with
  | .error e => .error e
  | .ok (password, pim) =>
    match creation.applyKeyfiles password with
    | .error _ => .error .outerNotOpened
    | .ok passwordKey => .ok (creation.outerRequest passwordKey pim)

/-- The check of `TextUserInterface::CreateVolume`: whether it goes on to create the volume. -/
def v2HostCheck (env : OpenEnv) (mem : OpenMemory) (creation : HiddenCreation) :
    Except HostCheckError Unit :=
  if creation.argSkipV2HostCheck then .ok ()
  else
    match creation.outerOpen with
    | .error e => .error e
    | .ok req =>
      match openVolume env mem req with
      -- a wrong password cannot be told from a version 2 volume
      | .error _ => .error .outerNotOpened
      | .ok outerVolume =>
        if outerVolume.v2Mac.isActive then .error .outerIsV2 else .ok ()

end HiddenCreation

/-! ## What it is for -/

/-- A read at the position comes back. -/
def OpenEnv.Readable (env : OpenEnv) (position : UInt64) : Prop :=
  env.readFails position = false ∧ position.toNat ≤ offsetMax

/-- The search for a table can be carried out: there is no sector to look at, or the first sector
    and its slot can be read. -/
def DiscoveryReadable (env : OpenEnv) (layout : VolumeLayout) (header : VolumeHeader) : Prop :=
  let dataOffset := layout.getDataOffset header
  let dataSize := layout.getDataSize header env.volumeHostSize
  dataSize / header.sectorSize.toUInt64 = 0 ∨
    (env.Readable dataOffset ∧ env.Readable (dataOffset + dataSize + v2FormatSlotOffset 0))

/-- **A version 2 volume**: under the key of a mode every data sector has its tag in its slot
    behind the data. -/
def PopulatedTable (env : OpenEnv) (layout : VolumeLayout) (header : VolumeHeader) : Prop :=
  let dataOffset := (layout.getDataOffset header).toNat
  let dataSize := layout.getDataSize header env.volumeHostSize
  let tableOffset := (layout.getDataOffset header + dataSize).toNat
  let sectorSize := header.sectorSize.toUInt64.toNat
  let sectors := (dataSize / header.sectorSize.toUInt64).toNat
  0 < sectors ∧ dataOffset + sectors * sectorSize ≤ env.host.length ∧
    tableOffset + sectors * v2MacTagLen ≤ env.host.length ∧
    ∃ mode, ∀ i < sectors,
      slice env.host (tableOffset + i * v2MacTagLen) v2MacTagLen =
        v2FormatSectorTag env.P (v2FormatDeriveModeKey env.P (OpenEnv.macMasterKey header) mode)
          (UInt64.ofNat i) (slice env.host (dataOffset + i * sectorSize) sectorSize)

/-- **What the check promises**: where it lets a hidden volume be created it knows the outer one.
    A header accepted the credential, the search for a table could be carried out, and there is
    none. -/
def CreatesOnlyInV1 (env : OpenEnv) (mem : OpenMemory) (creation : HiddenCreation) : Prop :=
  creation.v2HostCheck env mem = .ok () →
    ∃ req layout header, creation.outerOpen = .ok req ∧
      env.findHeader req = .ok (some (layout, header)) ∧
      DiscoveryReadable env layout header ∧ ¬ PopulatedTable env layout header

/-- The open of the outer volume decides the question: no keyslot opens, and where a header does
    the search for a table can be carried out. -/
def OpenDecides (env : OpenEnv) (mem : OpenMemory) (creation : HiddenCreation) : Prop :=
  ∀ req, creation.outerOpen = .ok req →
    (env.findHeader req = .ok none → ∀ v, env.openKeyslot mem req ≠ .ok (some v)) ∧
    ∀ layout header, env.findHeader req = .ok (some (layout, header)) →
      DiscoveryReadable env layout header

section
variable {env : OpenEnv} {mem : OpenMemory} {creation : HiddenCreation} {req : OpenRequest}
  {layout : VolumeLayout} {header : VolumeHeader}

/-! ## The search for a table -/

/-- A read into a buffer comes back exactly where the position can be read. -/
theorem readInto_isSome_iff {position : UInt64} {n : Nat} {uninit : RandStream} :
    (∃ got, File.readInto env.host position n (env.readFails position) uninit = some got) ↔
      env.Readable position := by
  unfold File.readInto File.readAt OpenEnv.Readable
  by_cases hfails : env.readFails position = true ∨ offsetMax < position.toNat
  · rw [if_pos hfails]
    constructor
    · rintro ⟨got, hgot⟩
      exact absurd hgot (by simp)
    · rintro ⟨hread, hpos⟩
      rcases hfails with hfails | hfails
      · exact absurd (hread.symm.trans hfails) (by simp)
      · exact absurd hfails (Nat.not_lt.mpr hpos)
  · rw [if_neg hfails]
    obtain ⟨hread, hpos⟩ := not_or.mp hfails
    exact ⟨fun _ => ⟨by simpa using hread, Nat.le_of_not_lt hpos⟩, fun _ => ⟨_, rfl⟩⟩

/-- The search is carried out exactly where it can be. -/
theorem discoverMode_isSome_iff (v : Volume) :
    (∃ found, env.discoverMode mem v = some found) ↔
      (v.volumeDataSize / v.sectorSize = 0 ∨ (env.Readable v.volumeDataOffset ∧
        env.Readable (v.volumeDataOffset + v.volumeDataSize + v2FormatSlotOffset 0))) := by
  unfold OpenEnv.discoverMode
  simp only
  by_cases hnone : v.volumeDataSize / v.sectorSize = 0
  · rw [if_pos hnone]
    exact ⟨fun _ => Or.inl hnone, fun _ => ⟨_, rfl⟩⟩
  rw [if_neg hnone]
  constructor
  · rintro ⟨found, h⟩
    split at h
    · exact absurd h (by simp)
    · rename_i sector0 hsector
      split at h
      · exact absurd h (by simp)
      · rename_i tag0 htag
        exact Or.inr ⟨readInto_isSome_iff.mp ⟨sector0, hsector⟩,
          readInto_isSome_iff.mp ⟨tag0, htag⟩⟩
  · rintro (hzero | ⟨hsector, htag⟩)
    · exact absurd hzero hnone
    · obtain ⟨sector0, hsector⟩ := readInto_isSome_iff.mpr hsector
      obtain ⟨tag0, htag⟩ := readInto_isSome_iff.mpr htag
      rw [hsector]
      simp only
      rw [htag]
      simp only
      split <;> exact ⟨_, rfl⟩

/-- A version 2 volume whose first sector and slot can be read shows its table. -/
theorem hasMacTable_of_populated (hread : DiscoveryReadable env layout header)
    (h : PopulatedTable env layout header) : HasMacTable env mem layout header := by
  obtain ⟨hpos, hdata, htable, mode, htags⟩ := h
  have hsome : layout.getDataSize header env.volumeHostSize / header.sectorSize.toUInt64 ≠ 0 := by
    intro hzero
    rw [hzero] at hpos
    exact absurd hpos (Nat.lt_irrefl 0)
  rcases hread with hzero | ⟨hsector, hslot⟩
  · exact absurd hzero hsome
  · have hfirst := htags 0 hpos
    rw [Nat.zero_mul, Nat.zero_mul, Nat.add_zero, Nat.add_zero] at hfirst
    have hslotPos : layout.getDataOffset header + layout.getDataSize header env.volumeHostSize +
        v2FormatSlotOffset 0 =
          layout.getDataOffset header + layout.getDataSize header env.volumeHostSize :=
      UInt64.add_zero _
    rw [hslotPos] at hslot
    have hone := Nat.mul_le_mul_right header.sectorSize.toUInt64.toNat (Nat.succ_le_of_lt hpos)
    have hone' := Nat.mul_le_mul_right v2MacTagLen (Nat.succ_le_of_lt hpos)
    have hin : (layout.getDataOffset header).toNat + header.sectorSize.toUInt64.toNat ≤
        env.host.length := by omega
    have hin' : (layout.getDataOffset header +
        layout.getDataSize header env.volumeHostSize).toNat + v2MacTagLen ≤ env.host.length := by
      omega
    have hsectorRead := File.readInto_whole mem.sector0 hin hsector.2
    have hslotRead := File.readInto_whole mem.tag0 hin' hslot.2
    rw [← hsector.1] at hsectorRead
    rw [← hslot.1, ← hslotPos] at hslotRead
    refine ⟨hsome, _, _, mode, hsectorRead, hslotRead, ?_⟩
    rw [hslotPos, hfirst]
    exact ctEqual_self _

/-! ## The outcome of the check -/

/-- The open of the outer volume by its header. -/
theorem openVolume_outer (hreq : creation.outerOpen = .ok req)
    (hfind : env.findHeader req = .ok (some (layout, header))) :
    openVolume env mem req = .ok (env.discover mem (env.volumeOf mem req layout header)) := by
  obtain ⟨password, pim, rfl⟩ : ∃ password pim, req = creation.outerRequest password pim := by
    unfold HiddenCreation.outerOpen at hreq
    split at hreq
    · exact absurd hreq (by simp)
    · split at hreq
      · exact absurd hreq (by simp)
      · exact ⟨_, _, (Except.ok.inj hreq).symm⟩
  exact OpenEnv.openVolume_of_findHeader hfind (hasDriveHeader_of_findHeader hfind rfl)
    (fun h => VolumeProtection.noConfusion h)

/-- The open of the outer volume by a keyslot. -/
theorem openVolume_of_openKeyslot {v : Volume} (hnone : env.findHeader req = .ok none)
    (hslot : env.openKeyslot mem req = .ok (some v)) : openVolume env mem req = .ok v := by
  unfold openVolume OpenEnv.openWith
  simp only [hnone, hslot]

theorem isActive_discover (v : Volume) (hidle : v.v2Mac.isActive = false) :
    (env.discover mem v).v2Mac.isActive = true ↔
      ∃ mode, env.discoverMode mem v = some (some mode) := by
  unfold OpenEnv.discover
  split
  · rename_i hmode
    rw [hmode]
    simp [hidle]
  · rename_i hmode
    rw [hmode]
    simp [hidle]
  · rename_i mode hmode
    rw [hmode]
    exact ⟨fun _ => ⟨mode, rfl⟩, fun _ => rfl⟩

/-- **When the check goes on**: the outer volume opens, and the open volume has no table armed. -/
theorem v2HostCheck_ok_iff (hskip : creation.argSkipV2HostCheck = false) :
    creation.v2HostCheck env mem = .ok () ↔
      ∃ req v, creation.outerOpen = .ok req ∧ openVolume env mem req = .ok v ∧
        v.v2Mac.isActive = false := by
  unfold HiddenCreation.v2HostCheck
  rw [hskip, if_neg Bool.false_ne_true]
  cases hreq : creation.outerOpen with
  | error e => simp
  | ok req =>
    cases hopen : openVolume env mem req with
    | error e => simp [hopen]
    | ok v =>
      simp only
      cases hactive : v.v2Mac.isActive with
      | true => simp [hopen, hactive]
      | false => simp [hopen, hactive]

/-- **The check keeps its promise exactly where the open decides.** -/
theorem createsOnlyInV1_iff (env : OpenEnv) (mem : OpenMemory) (creation : HiddenCreation)
    (hskip : creation.argSkipV2HostCheck = false) :
    CreatesOnlyInV1 env mem creation ↔ OpenDecides env mem creation := by
  unfold CreatesOnlyInV1 OpenDecides
  rw [v2HostCheck_ok_iff hskip]
  constructor
  · intro h req hreq
    constructor
    · intro hnone v hslot
      -- the keyslot session has no table armed, and the check goes on
      have hopen := openVolume_of_openKeyslot hnone hslot
      obtain ⟨req', layout, header, hreq', hfind, -⟩ :=
        h ⟨req, v, hreq, hopen, v2Mac_of_openKeyslot hslot⟩
      cases Except.ok.inj (hreq.symm.trans hreq')
      exact absurd (hnone.symm.trans hfind) (by simp)
    · intro layout header hfind
      by_contra hread
      have hidle : (env.discover mem (env.volumeOf mem req layout header)).v2Mac.isActive =
          false := by
        rw [Bool.eq_false_iff, ne_eq, isActive_discover _ rfl]
        rintro ⟨mode, hmode⟩
        exact hread ((discoverMode_isSome_iff _).mp ⟨_, hmode⟩)
      obtain ⟨req', layout', header', hreq', hfind', hread', -⟩ :=
        h ⟨req, _, hreq, openVolume_outer hreq hfind, hidle⟩
      cases Except.ok.inj (hreq.symm.trans hreq')
      obtain ⟨rfl, rfl⟩ := Prod.mk.inj (Option.some.inj (Except.ok.inj (hfind.symm.trans hfind')))
      exact hread hread'
  · rintro h ⟨req, v, hreq, hopen, hidle⟩
    obtain ⟨hslot, hheader⟩ := h req hreq
    rcases OpenEnv.openWith_ok hopen with ⟨layout, header, -, hfind, -, -⟩ | ⟨hnone, hkeyslot⟩
    · have hread := hheader layout header hfind
      refine ⟨req, layout, header, hreq, hfind, hread, ?_⟩
      intro hpopulated
      have hmode := (@discoverMode_iff env mem req layout header
        (OpenEnv.headerFits_of_findHeader hfind).2).mpr
        (hasMacTable_of_populated hread hpopulated)
      have harmed := (isActive_discover (env.volumeOf mem req layout header) rfl).mpr hmode
      rw [Except.ok.inj ((openVolume_outer hreq hfind).symm.trans hopen)] at harmed
      exact absurd (harmed.symm.trans hidle) (by simp)
    · exact absurd hkeyslot (hslot hnone v)

end

/-! ## A version 2 volume with a keyslot -/

namespace SlotContainer

/-- The key of the tags. -/
def macKey : Bytes := v2FormatDeriveModeKey .demo (OpenEnv.macMasterKey header) .hctr2

/-- The tags of 1489 sectors of zeros. -/
def table : Bytes :=
  ((List.range 1489).map (fun i =>
    v2FormatSectorTag .demo macKey (UInt64.ofNat i) (List.replicate 512 0))).flatten

/-- The container with the tags of all its sectors. -/
def v2Env : OpenEnv := { env with host := patch host 893440 table }

/-- A creation that names the outer volume by a password. -/
def creation (outerPassword : Bytes) : HiddenCreation where
  argSkipV2HostCheck := false
  nonInteractive := true
  argOuterPassword := some outerPassword
  argOuterPim := 0
  askedPassword := []
  askedPim := 0
  argHash := some .hmacSha512
  hasKeyfiles := false
  applyKeyfiles := .ok

theorem outerOpen_creation (password : Bytes) :
    (creation password).outerOpen = .ok ((creation password).outerRequest password 0) := rfl

/-- With the password of its header the open of the container decides the question. -/
theorem createsOnlyInV1_demo : CreatesOnlyInV1 env memory (creation [7]) := by
  apply (createsOnlyInV1_iff env memory (creation [7]) rfl).mpr
  intro req hreq
  cases Except.ok.inj ((outerOpen_creation [7]).symm.trans hreq)
  have hfind : env.findHeader ((creation [7]).outerRequest [7] 0) = .ok (some (.v2Normal, header)) :=
    findHeader_password rfl rfl (by decide) rfl rfl
  constructor
  · intro hnone
    exact absurd (hfind.symm.trans hnone) (by simp)
  · intro layout header' hfind'
    obtain ⟨rfl, rfl⟩ := Prod.mk.inj (Option.some.inj (Except.ok.inj (hfind.symm.trans hfind')))
    exact Or.inr ⟨⟨rfl, by decide⟩, ⟨rfl, by decide⟩⟩

theorem length_table : table.length = 23824 := by
  rw [table, length_flatten_const (n := 16)]
  · rw [List.length_map, List.length_range]
  · intro part hpart
    obtain ⟨i, -, rfl⟩ := List.mem_map.mp hpart
    exact length_v2FormatSectorTag _ _ _ _

theorem length_v2Host : v2Env.host.length = 1048576 := by
  show (patch host 893440 table).length = _
  rw [length_patch (by rw [length_host, length_table]; decide), length_host]

/-- In front of the table the container is as it was. -/
theorem slice_v2Host {off n : Nat} (h : off + n ≤ 893440) :
    slice v2Env.host off n = slice env.host off n :=
  slice_patch_disjoint (by rw [length_host]; decide) (Or.inl h)

/-- The data of the container is zeros. -/
theorem slice_zeros {off n : Nat} (hlo : 1536 ≤ off) (hhi : off + n ≤ 893440) :
    slice env.host off n = List.replicate n 0 := by
  have hfront := length_front
  have hrec := length_record
  show slice host off n = _
  rw [host, slice_append_right (by omega), slice_append_right (by omega),
    slice_append_left (by rw [List.length_replicate]; omega)]
  exact slice_replicate (by omega)

theorem populatedTable : PopulatedTable v2Env .v2Normal header := by
  have hlen := length_v2Host
  refine ⟨by decide, by rw [hlen]; decide, by rw [hlen]; decide, .hctr2, ?_⟩
  intro i hi
  have hsectors : (VolumeLayout.getDataSize .v2Normal header v2Env.volumeHostSize /
      header.sectorSize.toUInt64).toNat = 1489 := by decide
  rw [hsectors] at hi
  have hslot : slice v2Env.host (893440 + i * 16) 16 =
      v2FormatSectorTag .demo macKey (UInt64.ofNat i) (List.replicate 512 0) := by
    show slice (patch host 893440 table) (893440 + i * 16) 16 = _
    rw [slice_patch_within (by rw [length_host]; decide) (by rw [length_table]; omega), table,
      ← List.append_nil (List.flatten _), slice_flatten _ [] (by rw [List.length_map, List.length_range]; exact hi),
      List.getElem_map, List.getElem_range]
    intro part hpart
    obtain ⟨j, -, rfl⟩ := List.mem_map.mp hpart
    exact length_v2FormatSectorTag _ _ _ _
  have hsector : slice v2Env.host (131072 + i * 512) 512 = List.replicate 512 0 := by
    rw [slice_v2Host (by omega)]
    exact slice_zeros (by omega) (by omega)
  show slice v2Env.host (893440 + i * 16) 16 =
    v2FormatSectorTag .demo macKey (UInt64.ofNat i) (slice v2Env.host (131072 + i * 512) 512)
  rw [hslot, hsector]

theorem v2Env_passphrase :
    v2Env.findHeader ((creation [9]).outerRequest [9] 0) = .ok none := by
  have hlen : volumeHeaderSize ≤ v2Env.host.length := by
    rw [length_v2Host]
    decide
  have hderive : v2Env.K.deriveKey .hmacSha512 [9] 0 (slice v2Env.host 0 saltSize) =
      some (List.replicate headerKeyDerivationSize 9) := rfl
  apply OpenEnv.findHeader_none (List.cons_ne_nil _ _) rfl (by decide) hderive ?_ (fun _ => rfl)
    rfl rfl rfl rfl hlen
  intro a ha
  rw [slice_v2Host (by decide)]
  have hblock : slice env.host encryptedHeaderDataOffset bytesPerXtsBlock =
      slice host encryptedHeaderDataOffset bytesPerXtsBlock := rfl
  rw [hblock, first_block]
  exact rejects_other a ha

theorem v2Env_slot : v2Env.openKeyslot memory ((creation [9]).outerRequest [9] 0) =
    .ok (some (v2Env.volumeOf memory ((creation [9]).outerRequest [9] 0) .v2Normal
      (header.rehoused volumeHeaderSize .hmacSha512))) := by
  have hlen : volumeHeaderSize ≤ v2Env.host.length := by
    rw [length_v2Host]
    decide
  have hholds : HoldsSlot v2Env.P v2Env.keyslotCfg v2Env.host 0 [9] (0 :: payload) := by
    obtain ⟨salt, fill, hsalt, hfill, hrec⟩ := holdsSlot
    have hin : effectiveHeaderSize + 0 * keyslotTableStride + keyslotTableStride ≤ 893440 := by
      decide
    have hsame : labeledRecord env.P env.keyslotCfg [9] salt fill (0 :: payload) =
        labeledRecord .demo cfg [9] salt fill (0 :: payload) := rfl
    exact ⟨salt, fill, hsalt, hfill, (slice_v2Host hin).trans (hrec.trans hsame)⟩
  have hslot : v2Env.openSlot memory ((creation [9]).outerRequest [9] 0) =
      some { vmk := payload, flags := 0 } :=
    OpenEnv.openSlot_of_holdsSlot hlen (fun _ => rfl) (fun _ _ => List.Perm.refl _) (by decide)
      length_payload hholds (fun j hj => absurd hj (Nat.not_lt_zero j))
  exact OpenEnv.openKeyslot_of_openSlot hslot (by decide) headerOfPayload_eq (by decide) rfl rfl

theorem v2Env_password : v2Env.findHeader request = .ok (some (.v2Normal, header)) := by
  have hholds : HoldsHeader .demo v2Env.host 0 Volume.outerHeader salt headerKey := by
    have holds : HoldsHeader .demo env.host 0 Volume.outerHeader salt headerKey := holdsHeader
    obtain ⟨-, buf, henc, hfront⟩ := holds
    have hin : 0 + effectiveHeaderSize ≤ 893440 := by decide
    exact ⟨by rw [length_v2Host]; decide, buf, henc, (slice_v2Host hin).trans hfront⟩
  exact OpenEnv.findHeader_of_holdsHeader hholds rfl rfl length_outerKey (by decide)
    (List.cons_ne_nil _ _) rfl (by decide) rfl rfl (by decide) rfl rfl rfl

/-- **The check goes on over a full table.** The password of the container opens a version 2
    volume in which every sector has its tag. Asked with the passphrase of its keyslot, the check
    lets a hidden volume be created in it. -/
theorem keyslot_hides_table :
    v2Env.findHeader request = .ok (some (.v2Normal, header)) ∧
      PopulatedTable v2Env .v2Normal header ∧
      (creation [9]).v2HostCheck v2Env memory = .ok () ∧
      ¬ CreatesOnlyInV1 v2Env memory (creation [9]) := by
  have hgoes : (creation [9]).v2HostCheck v2Env memory = .ok () := by
    have hopen := openVolume_of_openKeyslot v2Env_passphrase v2Env_slot
    have hskip : (creation [9]).argSkipV2HostCheck = false := rfl
    exact (v2HostCheck_ok_iff hskip).mpr ⟨_, _, outerOpen_creation [9], hopen,
      v2Mac_of_openKeyslot v2Env_slot⟩
  refine ⟨v2Env_password, populatedTable, hgoes, ?_⟩
  intro h
  obtain ⟨req, layout, header', hreq, hfind, -⟩ := h hgoes
  cases Except.ok.inj ((outerOpen_creation [9]).symm.trans hreq)
  exact absurd (v2Env_passphrase.symm.trans hfind) (by simp)

end SlotContainer

end VeraCrypt
