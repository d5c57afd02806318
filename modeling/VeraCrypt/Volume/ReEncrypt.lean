import VeraCrypt.Volume.KeyslotSession

/-!
# Re-encrypting the header

`ReEncryptHeader` writes a buffer of the header size of the layout. On a version 2 layout that
is the whole header group of 64 KiB, and `EncryptNew` fills everything behind the 512 bytes of
the header with the encryption of zeros. The keyslots of the group stand there. So the header is
replaced and the slots are kept when the header size is 512 bytes, and on a group of 64 KiB when
every byte of the slack that is written is already what zeros encrypt to
(`reEncryptHeader_keepsSlots_iff`).
-/

set_option autoImplicit false

namespace VeraCrypt

open Lib

/-! ## Two areas -/

section

variable {cfg : KeyslotStoreCfg} {area area' : KeyslotArea}

/-- `area'` holds what `area` holds, and maybe more behind it. -/
def KeyslotArea.Extends (area' area : KeyslotArea) : Prop :=
  (∀ i, i < area.size → area'.bytes[i]? = area.bytes[i]?) ∧
    ∀ off, area'.readFails off = area.readFails off

theorem KeyslotArea.Extends.size_le (h : area'.Extends area) : area.size ≤ area'.size := by
  by_contra hlt
  have hlast := h.1 area'.size (by omega)
  rw [List.getElem?_eq_none (show area'.bytes.length ≤ area'.size from Nat.le_refl _),
    List.getElem?_eq_getElem (show area'.size < area.bytes.length from Nat.not_le.mp hlt)] at hlast
  exact absurd hlast (by simp)

theorem KeyslotArea.Extends.read (h : area'.Extends area) {off n : Nat}
    (hin : off + n ≤ area.size) : area'.read off n = area.read off n := by
  have hslice : slice area'.bytes off n = slice area.bytes off n := by
    apply List.ext_getElem?
    intro i
    rw [getElem?_slice, getElem?_slice]
    by_cases hi : i < n
    · rw [if_pos hi, if_pos hi, h.1 (off + i) (by omega)]
    · rw [if_neg hi, if_neg hi]
  have hle := h.size_le
  unfold KeyslotArea.read
  rw [hslice, h.2 off]
  by_cases hfail : area.readFails off = false
  · rw [if_pos ⟨by omega, hfail⟩, if_pos ⟨hin, hfail⟩]
  · rw [if_neg (by rintro ⟨-, hno⟩; exact hfail hno),
      if_neg (by rintro ⟨-, hno⟩; exact hfail hno)]

theorem KeyslotArea.Extends.nSlots_le (h : area'.Extends area) :
    nSlots cfg area ≤ nSlots cfg area' := by
  have hdiv := Nat.div_le_div_right (c := keyslotTableStride) h.size_le
  unfold nSlots
  simp only
  split <;> split <;> split <;> omega

/-- **A slot that opens goes on opening** in an area that holds the same bytes. -/
theorem keyslotOpen_extends (P : Primitives) (hl : isLabeled cfg.backend = true)
    (h : area'.Extends area) {pass : Bytes} {opened : Opened}
    (hopen : keyslotOpen P cfg area pass = some opened) :
    keyslotOpen P cfg area' pass = some opened := by
  by_cases hfit : recFits cfg
  · rw [keyslotOpen_labeled P hl hfit] at hopen ⊢
    obtain ⟨blob, hblob, hopened⟩ := Option.map_eq_some_iff.mp hopen
    have hmatch : ∀ i, i < nSlots cfg area →
        matchAt P cfg area' pass i = matchAt P cfg area pass i := by
      intro i hi
      unfold matchAt
      rw [h.read (slot_le_size hi)]
    obtain ⟨i, hi, hsome, hbefore⟩ := findSome?_range_eq_some_iff.mp hblob
    have hblob' : firstMatch P cfg area' pass = some blob := by
      unfold firstMatch
      rw [findSome?_range_eq_some_iff]
      refine ⟨i, hi.trans_le h.nSlots_le, by rw [hmatch i hi, hsome], ?_⟩
      intro j hj
      rw [hmatch j (hj.trans hi), hbefore j hj]
    rw [hblob', Option.map_some, hopened]
  · rw [keyslotOpen_of_not_fits P hfit] at hopen
    exact absurd hopen (by simp)

end

/-! ## What is asked of a header rewrite -/

/-- Where the header to rewrite stands: `none` where there is no such place. -/
def Volume.headerPosition (v : Volume) (host : Bytes) (backupHeader : Bool) : Option UInt64 :=
  if !backupHeader then some (UInt64.ofNat v.layout.getHeaderOffset)
  else
    match v.layout.getBackupHeaderOffset with
    | none => none
    | some back =>
      if host.length < back then none else some (UInt64.ofNat (host.length - back))

/-- The keyslots of a header group: the slack behind the header, as the host has it. -/
def groupSlots (host : Bytes) (position : UInt64) : KeyslotArea where
  bytes := slice host (position.toNat + effectiveHeaderSize)
    (volumeHeaderSize - effectiveHeaderSize)
  readFails _ := false
  writeFault _ := none

/-- Only the 512 bytes of the header have changed, and a passphrase that opened a slot of the
    group opens it to the same. -/
def KeepsSlots (v : Volume) (host host' : Bytes) (backupHeader : Bool) : Prop :=
  (∀ i, i < host.length →
    (∀ position, v.headerPosition host backupHeader = some position →
      i < position.toNat ∨ position.toNat + effectiveHeaderSize ≤ i) →
    host'[i]? = host[i]?) ∧
  ∀ position, v.headerPosition host backupHeader = some position →
    ∀ (P : Primitives) (cfg : KeyslotStoreCfg) (pass : Bytes) (opened : Opened),
      isLabeled cfg.backend = true →
      keyslotOpen P cfg (groupSlots host position) pass = some opened →
      keyslotOpen P cfg (groupSlots host' position) pass = some opened

/-- Byte `i` of a new header group behind its header: a byte of the encryption of zeros. -/
def slackByte (C : Ciphers) (h : VolumeHeader) (newHeaderKey : Bytes) (i : Nat) : Option UInt8 :=
  ((headerAlgorithm h.ea.algorithm newHeaderKey).encryptBlockAt C 0
    ((i - encryptedHeaderDataOffset) / bytesPerXtsBlock)
    (List.replicate bytesPerXtsBlock 0))[(i - encryptedHeaderDataOffset) % bytesPerXtsBlock]?

/-- The call is refused: a volume that is read-only, a salt or a key of the wrong length. -/
def ReEncryptRefused (v : Volume) (newSalt newHeaderKey : Bytes) : Prop :=
  v.protection = .readOnly ∨ newSalt.length ≠ saltSize ∨
    newHeaderKey.length < v.header.ea.algorithm.getKeySize * 2

/-- The slack that is written over already holds what zeros encrypt to. -/
def SlackIsEncryptedZeros (C : Ciphers) (v : Volume) (host newHeaderKey : Bytes)
    (backupHeader : Bool) (accepts : Option Nat) : Prop :=
  ∀ position, v.headerPosition host backupHeader = some position →
    ∀ i, effectiveHeaderSize ≤ i →
      i < File.stored position v.layout.getHeaderSize accepts →
      position.toNat + i < host.length →
      host[position.toNat + i]? = slackByte C v.header newHeaderKey i

/-! ## What is written -/

/-- Behind its header a new header group is the encryption of zeros. -/
theorem getElem?_encryptNew_slack {C : Ciphers} {h : VolumeHeader} {salt headerKey data : Bytes}
    {i : Nat} (hok : HeaderSizeOk h.headerSize) (hkey : h.dataAreaKey.length = dataKeyAreaMaxSize)
    (hsalt : salt.length = saltSize)
    (hdata : (headerAlgorithm h.ea.algorithm headerKey).encryptBuffer C
      (serialize h (h.headerSize - encryptedHeaderDataOffset)) 0 = some data)
    (hlo : effectiveHeaderSize ≤ i) (hhi : i < h.headerSize) :
    (salt ++ data)[i]? = slackByte C h headerKey i := by
  obtain ⟨hfits, hblocks⟩ := hok
  have hlo' : 512 ≤ i := hlo
  have hblocks' : h.headerSize % 16 = 0 := hblocks
  have hser := length_serialize h (h.headerSize - encryptedHeaderDataOffset) hkey
    (show 448 ≤ h.headerSize - 64 by omega)
  have hsalt' : salt.length = 64 := hsalt
  have hser' : (serialize h (h.headerSize - encryptedHeaderDataOffset)).length =
      h.headerSize - 64 := hser
  have hblock : (i - 64) / 16 < (serialize h (h.headerSize - encryptedHeaderDataOffset)).length /
      16 := by rw [hser']; omega
  have hslice := EncryptionAlgorithm.slice_encryptBuffer hdata hblock
  -- the block lies in the padding
  have hzero : slice (serialize h (h.headerSize - encryptedHeaderDataOffset))
      ((i - 64) / 16 * bytesPerXtsBlock) bytesPerXtsBlock = List.replicate bytesPerXtsBlock 0 := by
    have hfront : (serializeFields h ++ (beBytes 4 (getCrc32 (serializeFields h)).toNat ++
        h.dataAreaKey)).length = 448 := by
      rw [List.length_append, List.length_append, length_serializeFields, length_beBytes, hkey]
      rfl
    have hsplit : serialize h (h.headerSize - encryptedHeaderDataOffset) =
        (serializeFields h ++ (beBytes 4 (getCrc32 (serializeFields h)).toNat ++
          h.dataAreaKey)) ++ List.replicate (h.headerSize - 64 - 448) 0 := by
      simp only [serialize, List.append_assoc]
      rfl
    rw [hsplit, slice_append_right (by rw [hfront]; show 448 ≤ (i - 64) / 16 * 16; omega), hfront]
    exact slice_replicate (show (i - 64) / 16 * 16 - 448 + 16 ≤ h.headerSize - 64 - 448 by omega)
  have hbyte := congrArg (fun b => b[(i - 64) % 16]?) hslice
  simp only [getElem?_slice] at hbyte
  rw [if_pos (show (i - 64) % 16 < bytesPerXtsBlock from Nat.mod_lt _ (by decide)), hzero] at hbyte
  have hplace : (i - 64) / 16 * bytesPerXtsBlock + (i - 64) % 16 = i - 64 :=
    Nat.div_add_mod' (i - 64) 16
  rw [hplace] at hbyte
  rw [List.getElem?_append_right (by omega), hsalt']
  exact hbyte

section

variable {C : Ciphers} {v : Volume} {host newSalt newHeaderKey : Bytes} {backupHeader : Bool}
  {accepts : Option Nat}

/-- A refused call, and one with no place to write, leave the host alone. -/
theorem reEncryptHeader_refused
    (h : ReEncryptRefused v newSalt newHeaderKey ∨ v.headerPosition host backupHeader = none) :
    (v.reEncryptHeader C host backupHeader newSalt newHeaderKey accepts).1 = host := by
  unfold Volume.reEncryptHeader
  by_cases hread : v.protection = .readOnly
  · rw [if_pos hread]
  rw [if_neg hread]
  cases henc : encryptNew C v.header v.layout.getHeaderSize newSalt newHeaderKey with
  | error e => rfl
  | ok buf =>
    obtain ⟨-, hsalt, hlong, -⟩ := encryptNew_ok henc
    have hnone : v.headerPosition host backupHeader = none := by
      rcases h with (hro | hs | hk) | hnone
      · exact absurd hro hread
      · exact absurd hsalt hs
      · exact absurd hlong (Nat.not_le.mpr hk)
      · exact hnone
    unfold Volume.headerPosition at hnone
    simp only
    by_cases hback : (!backupHeader) = true
    · rw [if_pos hback] at hnone
      exact absurd hnone (by simp)
    rw [if_neg hback] at hnone ⊢
    cases hsome : v.layout.getBackupHeaderOffset with
    | none => rfl
    | some back =>
      simp only [hsome] at hnone ⊢
      by_cases hshort : host.length < back
      · rw [if_pos hshort]
      · rw [if_neg hshort] at hnone
        exact absurd hnone (by simp)

variable (C accepts) in
/-- A call that is not refused writes the new group at the place of the header. -/
theorem reEncryptHeader_writes {position : UInt64}
    (hfits : OpenEnv.HeaderFits v.layout v.header)
    (hacc : ¬ ReEncryptRefused v newSalt newHeaderKey)
    (hpos : v.headerPosition host backupHeader = some position) :
    ∃ data, (headerAlgorithm v.header.ea.algorithm newHeaderKey).encryptBuffer C
        (serialize v.header (v.header.headerSize - encryptedHeaderDataOffset)) 0 = some data ∧
      newSalt.length = saltSize ∧ (newSalt ++ data).length = v.layout.getHeaderSize ∧
      (v.reEncryptHeader C host backupHeader newSalt newHeaderKey accepts).1 =
        (File.writeAt host position (newSalt ++ data) accepts).1 := by
  obtain ⟨hsize, hkey⟩ := hfits
  have hok : HeaderSizeOk v.header.headerSize := by rw [hsize]; exact headerSizeOk_layout v.layout
  have hread : ¬ v.protection = .readOnly := fun h => hacc (Or.inl h)
  have hsalt : newSalt.length = saltSize := by
    by_contra h
    exact hacc (Or.inr (Or.inl h))
  have hlong : v.header.ea.algorithm.getKeySize * 2 ≤ newHeaderKey.length := by
    by_contra h
    exact hacc (Or.inr (Or.inr (Nat.not_le.mp h)))
  obtain ⟨data, hdata, henc⟩ := encryptNew_isSome C hok hkey hsalt hlong
  have hlen := EncryptionAlgorithm.length_encryptBuffer hdata
  rw [length_serialize v.header _ hkey (by have h := hok.1; exact Nat.le_sub_of_add_le h)] at hlen
  rw [hsize] at henc
  refine ⟨data, hdata, hsalt, ?_, ?_⟩
  · have hfit : 64 + 448 ≤ v.header.headerSize := hok.1
    rw [List.length_append, hsalt, hlen, hsize]
    rw [hsize] at hfit
    exact Nat.add_sub_cancel' (show 64 ≤ v.layout.getHeaderSize by omega)
  · unfold Volume.headerPosition at hpos
    unfold Volume.reEncryptHeader
    rw [if_neg hread, henc]
    simp only
    by_cases hprimary : (!backupHeader) = true
    · rw [if_pos hprimary] at hpos ⊢
      rw [Option.some.inj hpos]
    rw [if_neg hprimary] at hpos ⊢
    cases hsome : v.layout.getBackupHeaderOffset with
    | none =>
      simp only [hsome] at hpos
      exact absurd hpos (by simp)
    | some back =>
      simp only [hsome] at hpos ⊢
      by_cases hshort : host.length < back
      · rw [if_pos hshort] at hpos
        exact absurd hpos (by simp)
      · rw [if_neg hshort] at hpos ⊢
        rw [Option.some.inj hpos]

/-- What a rewrite leaves at a byte behind the header. -/
theorem getElem?_reEncryptHeader {position : UInt64} {i : Nat}
    (hfits : OpenEnv.HeaderFits v.layout v.header)
    (hacc : ¬ ReEncryptRefused v newSalt newHeaderKey)
    (hpos : v.headerPosition host backupHeader = some position)
    (hlo : effectiveHeaderSize ≤ i) (hin : position.toNat + i < host.length) :
    (v.reEncryptHeader C host backupHeader newSalt newHeaderKey accepts).1[position.toNat + i]? =
      if i < File.stored position v.layout.getHeaderSize accepts then
        slackByte C v.header newHeaderKey i
      else host[position.toNat + i]? := by
  obtain ⟨data, hdata, hsalt, hlen, heq⟩ :=
    reEncryptHeader_writes C accepts hfits hacc hpos
  rw [heq, File.getElem?_writeAt accepts hin, hlen]
  have hle := File.stored_le position v.layout.getHeaderSize accepts
  by_cases hi : i < File.stored position v.layout.getHeaderSize accepts
  · rw [if_pos (by omega), if_pos hi, Nat.add_sub_cancel_left]
    exact getElem?_encryptNew_slack (by rw [hfits.1]; exact headerSizeOk_layout v.layout) hfits.2
      hsalt hdata hlo (by rw [hfits.1]; omega)
  · rw [if_neg (by omega), if_neg hi]

/-- A header rewrite keeps what stands in front of the header. -/
theorem reEncryptHeader_before {position : UInt64} {i : Nat}
    (hfits : OpenEnv.HeaderFits v.layout v.header)
    (hpos : v.headerPosition host backupHeader = some position)
    (hbefore : i < position.toNat) (hin : i < host.length) :
    (v.reEncryptHeader C host backupHeader newSalt newHeaderKey accepts).1[i]? = host[i]? := by
  by_cases href : ReEncryptRefused v newSalt newHeaderKey
  · rw [reEncryptHeader_refused (Or.inl href)]
  · obtain ⟨data, -, -, -, heq⟩ :=
      reEncryptHeader_writes C accepts hfits href hpos
    rw [heq]
    exact File.writeAt_frame accepts hin (Or.inl hbefore)

end

/-! ## When the slots are kept -/

/-- The slots follow from the bytes. -/
theorem keepsSlots_of_frame {v : Volume} {host host' : Bytes} {backupHeader : Bool}
    (h : ∀ i, i < host.length →
      (∀ position, v.headerPosition host backupHeader = some position →
        i < position.toNat ∨ position.toNat + effectiveHeaderSize ≤ i) →
      host'[i]? = host[i]?) : KeepsSlots v host host' backupHeader := by
  refine ⟨h, ?_⟩
  intro position hpos P cfg pass opened hl hopen
  have hext : (groupSlots host' position).Extends (groupSlots host position) := by
    constructor
    · intro i hi
      have hi' : i < (slice host (position.toNat + effectiveHeaderSize)
          (volumeHeaderSize - effectiveHeaderSize)).length := hi
      rw [slice, List.length_take, List.length_drop] at hi'
      unfold groupSlots
      simp only
      rw [getElem?_slice, getElem?_slice, if_pos (by omega), if_pos (by omega)]
      apply h _ (by omega)
      intro position' hpos'
      rw [Option.some.inj (hpos'.symm.trans hpos)]
      exact Or.inr (by omega)
    · intro off
      rfl
  exact keyslotOpen_extends P hl hext hopen

/-- A byte of slack that is overwritten by another one is not kept. -/
theorem not_keepsSlots {C : Ciphers} {v : Volume} {host newSalt newHeaderKey : Bytes}
    {backupHeader : Bool} {accepts : Option Nat} {position : UInt64} {i : Nat}
    (hfits : OpenEnv.HeaderFits v.layout v.header)
    (hacc : ¬ ReEncryptRefused v newSalt newHeaderKey)
    (hpos : v.headerPosition host backupHeader = some position)
    (hlo : effectiveHeaderSize ≤ i)
    (hstored : i < File.stored position v.layout.getHeaderSize accepts)
    (hin : position.toNat + i < host.length)
    (hne : host[position.toNat + i]? ≠ slackByte C v.header newHeaderKey i) :
    ¬ KeepsSlots v host
      (v.reEncryptHeader C host backupHeader newSalt newHeaderKey accepts).1 backupHeader := by
  intro h
  have hkept := h.1 (position.toNat + i) hin (by
    intro position' hpos'
    rw [Option.some.inj (hpos'.symm.trans hpos)]
    exact Or.inr (by omega))
  rw [getElem?_reEncryptHeader hfits hacc hpos hlo hin, if_pos hstored] at hkept
  exact hne hkept.symm

/-- The header of an open volume fits its layout. -/
theorem headerFits_of_openVolume {env : OpenEnv} {mem : OpenMemory} {req : OpenRequest}
    {v : Volume} (hopen : openVolume env mem req = .ok v) :
    OpenEnv.HeaderFits v.layout v.header := by
  rcases OpenEnv.openWith_ok hopen with ⟨layout, header, w, hfind, hw, hv⟩ | ⟨-, hv⟩
  · obtain ⟨hlayout, hheader⟩ := OpenEnv.layout_of_protectRange hv
    obtain ⟨hlayout', hheader'⟩ := OpenEnv.layout_of_openNative hw
    rw [hlayout, hheader, hlayout', hheader']
    exact OpenEnv.headerFits_of_findHeader hfind
  · obtain ⟨opened, header, -, hheader, rfl⟩ := OpenEnv.openKeyslot_some hv
    exact OpenEnv.headerFits_of_payload hheader

/-- **When a password change keeps the keyslots.** -/
theorem reEncryptHeader_keepsSlots_iff {env : OpenEnv} {mem : OpenMemory} {req : OpenRequest}
    {v : Volume} (hopen : openVolume env mem req = .ok v) (host : Bytes) (backupHeader : Bool)
    (newSalt newHeaderKey : Bytes) (accepts : Option Nat) :
    KeepsSlots v host
        (v.reEncryptHeader env.C host backupHeader newSalt newHeaderKey accepts).1
        backupHeader ↔
      ReEncryptRefused v newSalt newHeaderKey ∨
        SlackIsEncryptedZeros env.C v host newHeaderKey backupHeader accepts := by
  have hfits := headerFits_of_openVolume hopen
  constructor
  · intro h
    by_cases href : ReEncryptRefused v newSalt newHeaderKey
    · exact Or.inl href
    · refine Or.inr ?_
      intro position hpos i hlo hhi hin
      by_contra hne
      exact not_keepsSlots hfits href hpos hlo hhi hin hne h
  · intro h
    apply keepsSlots_of_frame
    intro i hi hout
    by_cases href : ReEncryptRefused v newSalt newHeaderKey
    · rw [reEncryptHeader_refused (Or.inl href)]
    · cases hpos : v.headerPosition host backupHeader with
      | none => rw [reEncryptHeader_refused (Or.inr hpos)]
      | some position =>
        rcases hout position hpos with hbefore | hbehind
        · exact reEncryptHeader_before hfits hpos hbefore hi
        · have hplace : i = position.toNat + (i - position.toNat) := by omega
          have hlo : effectiveHeaderSize ≤ i - position.toNat := by omega
          rw [hplace] at hi ⊢
          rw [getElem?_reEncryptHeader hfits href hpos hlo hi]
          split
          · rename_i hstored
            rcases h with hno | hzeros
            · exact absurd hno href
            · exact (hzeros position hpos _ hlo hstored hi).symm
          · rfl

/-! ## A password change -/

namespace SlotContainer

theorem reEncryptHeader_keepsSlots_demo :
    KeepsSlots nativeVolume host
        (nativeVolume.reEncryptHeader env.C host false salt (List.replicate 192 8) none).1 false ↔
      ReEncryptRefused nativeVolume salt (List.replicate 192 8) ∨
        SlackIsEncryptedZeros env.C nativeVolume host (List.replicate 192 8) false none :=
  reEncryptHeader_keepsSlots_iff openVolume_password host false salt (List.replicate 192 8) none

theorem nativeVolume_header : nativeVolume.layout = .v2Normal ∧ nativeVolume.header = header ∧
    nativeVolume.protection = .none := by
  rw [nativeVolume, OpenEnv.protection_discover, OpenEnv.layout_discover, OpenEnv.header_discover]
  exact ⟨rfl, rfl, rfl⟩

/-- The slot's record starts with the magic, 512 bytes into the container. -/
theorem host_record : host[512]? = some 0x56 := by
  have hfront := length_front
  have hmagic : slice record 0 4 = ksMagic :=
    magic_labeledRecord .demo (show 46 + 450 + 32 ≤ 1024 by decide) List.length_replicate
      List.length_replicate (by rw [List.length_cons, length_payload]; rfl)
  have hfirst := congrArg (fun xs => xs[0]?) hmagic
  rw [getElem?_slice, if_pos (by omega), Nat.zero_add] at hfirst
  rw [host, List.getElem?_append_right (by omega), hfront, Nat.sub_self,
    List.getElem?_append_left (by rw [length_record]; omega), hfirst]
  rfl

/-- **A password change wipes the keyslots.** The container with a new header password. -/
theorem reEncryptHeader_wipes :
    ¬ ∀ (env : OpenEnv) (mem : OpenMemory) (req : OpenRequest) (v : Volume),
      openVolume env mem req = .ok v →
      ∀ (host : Bytes) (backupHeader : Bool) (newSalt newHeaderKey : Bytes)
        (accepts : Option Nat),
        KeepsSlots v host
          (v.reEncryptHeader env.C host backupHeader newSalt newHeaderKey accepts).1
          backupHeader := by
  intro h
  obtain ⟨hlayout, hheader, hprot⟩ := nativeVolume_header
  have hkeeps := h env memory request nativeVolume openVolume_password host false salt
    (List.replicate 192 8) none
  have hpos : nativeVolume.headerPosition host false = some 0 := by
    unfold Volume.headerPosition
    rw [hlayout]
    rfl
  have href : ¬ ReEncryptRefused nativeVolume salt (List.replicate 192 8) := by
    unfold ReEncryptRefused
    rw [hprot, hheader, List.length_replicate]
    rintro (hro | hsalt | hkey)
    · exact absurd hro (by decide)
    · exact hsalt List.length_replicate
    · exact absurd hkey (by decide)
  have hslack : slackByte env.C nativeVolume.header (List.replicate 192 8) 512 = some 8 := by
    rw [hheader]
    decide +kernel
  refine not_keepsSlots (headerFits_of_openVolume openVolume_password) href hpos (i := 512)
    (Nat.le_refl _) (by rw [hlayout]; decide) (by rw [length_host]; decide) ?_ hkeeps
  rw [hslack]
  show host[0 + 512]? ≠ some 8
  rw [host_record]
  decide

end SlotContainer

end VeraCrypt
