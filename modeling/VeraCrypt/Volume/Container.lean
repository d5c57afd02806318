import VeraCrypt.Keyslot.Parallel
import VeraCrypt.Keyslot.StoreSpec
import VeraCrypt.Volume.HeaderCrypt
import VeraCrypt.Volume.Open
import VeraCrypt.Volume.Protection

/-!
# What a file must hold to open

`Volume/Open.lean` says what an open makes of a file. Here is the other way round: a file whose
first 512 bytes are those of a header opens with the password of that header
(`findHeader_of_holdsHeader`), a file whose header group decrypts to no header under any
algorithm is passed over (`findHeader_none`), and a file with a record in its header slack opens
that slot (`openSlot_of_holdsSlot`). None of this depends on what else the file holds.
-/

set_option autoImplicit false

namespace VeraCrypt

open Lib

/-- The host holds, at a position, a header under a salt and a header key; what stands behind it
    in its group is left open. -/
def HoldsHeader (C : Ciphers) (host : Bytes) (position : Nat) (h : VolumeHeader)
    (salt headerKey : Bytes) : Prop :=
  position + h.headerSize ≤ host.length ∧
    ∃ buf, encryptNew C h h.headerSize salt headerKey = .ok buf ∧
      slice host position effectiveHeaderSize = slice buf 0 effectiveHeaderSize

/-- The host holds a keyslot record in slot `i` of its header slack. -/
def HoldsSlot (P : Primitives) (cfg : KeyslotStoreCfg) (host : Bytes) (i : Nat)
    (pass blob : Bytes) : Prop :=
  ∃ salt fill, salt.length = keyslotSaltSize ∧ fill.length = keyslotTableStride ∧
    slice host (effectiveHeaderSize + i * keyslotTableStride) keyslotTableStride =
      labeledRecord P cfg pass salt fill blob

/-- What `EncryptNew` returns, where it does. -/
def createdHeader (C : Ciphers) (h : VolumeHeader) (size : Nat) (salt headerKey : Bytes) : Bytes :=
  match encryptNew C h size salt headerKey with
  | .ok buf => buf
  | .error _ => []

theorem createdHeader_eq {C : Ciphers} {h : VolumeHeader} {size : Nat} {salt headerKey buf : Bytes}
    (henc : encryptNew C h size salt headerKey = .ok buf) :
    createdHeader C h size salt headerKey = buf := by
  rw [createdHeader, henc]

/-! ## One derivation function asked for -/

/-- The names of the functions offered outside of a boot drive are distinct. -/
theorem filter_getName {kdf : Pkcs5Kdf} (h : kdf ∈ getAvailableKdfs) :
    getAvailableKdfs.filter (fun p => p.getName = kdf.getName) = [kdf] := by
  have hall : ∀ p ∈ getAvailableKdfs,
      getAvailableKdfs.filter (fun q => q.getName = p.getName) = [p] := by decide
  exact hall kdf h

section

variable {C : Ciphers} {K : KeyDerivation} {size : Nat} {encryptedData password : Bytes}
  {pim : Int} {kdf : Pkcs5Kdf} {algorithms : List AlgorithmId}

/-- `Decrypt` with the function asked for, and no hardware factor. -/
theorem decryptHeader_asked {headerKey : Bytes} (hpw : password ≠ [])
    (hkdf : kdf ∈ getAvailableKdfs)
    (hderive : K.deriveKey kdf password pim (slice encryptedData 0 saltSize) = some headerKey) :
    decryptHeader C K size encryptedData password pim (some kdf) getAvailableKdfs algorithms
        false =
      decryptWithHeaderKey C size encryptedData headerKey kdf algorithms := by
  have hlen : ¬ password.length < 1 := by
    have hpos := List.length_pos_iff.mpr hpw
    omega
  unfold decryptHeader decryptWithEffectivePassword
  rw [if_neg hlen]
  simp only [Bool.false_eq_true, if_false]
  rw [filter_getName hkdf]
  simp only [firstM, hderive]
  cases decryptWithHeaderKey C size encryptedData headerKey kdf algorithms with
  | error e => rfl
  | ok found => cases found <;> rfl

/-- A key under which the first block is not the start of a header is passed over. -/
theorem decryptWithAlgorithm_none {headerKey : Bytes} {a : AlgorithmId} (hok : HeaderSizeOk size)
    (hlen : encryptedData.length = size)
    (hmagic : slice ((headerAlgorithm a headerKey).decryptBlockAt C 0 0
      (slice encryptedData encryptedHeaderDataOffset bytesPerXtsBlock)) 0 4 ≠ headerMagic) :
    decryptWithAlgorithm C size encryptedData headerKey kdf a = .ok none := by
  obtain ⟨hfits, hblocks⟩ := hok
  have hfits' : 64 + 448 ≤ size := hfits
  have hblocks' : size % 16 = 0 := hblocks
  have hlen' : (slice encryptedData encryptedHeaderDataOffset
      (size - encryptedHeaderDataOffset)).length = size - encryptedHeaderDataOffset :=
    length_slice (show 64 + (size - 64) ≤ encryptedData.length by omega)
  unfold decryptWithAlgorithm
  split
  · rfl
  · have hwhole : (slice encryptedData encryptedHeaderDataOffset
        (size - encryptedHeaderDataOffset)).length % bytesPerXtsBlock = 0 := by
      rw [hlen']
      show (size - 64) % 16 = 0
      omega
    obtain ⟨part, hpart⟩ := EncryptionAlgorithm.decryptBuffer_isSome C
      (headerAlgorithm a headerKey) hwhole 0
    have hfirst := EncryptionAlgorithm.slice_decryptBuffer (i := 0) hpart
      (by rw [hlen']; show 0 < (size - 64) / 16; omega)
    have hinner : slice (slice encryptedData encryptedHeaderDataOffset
        (size - encryptedHeaderDataOffset)) (0 * bytesPerXtsBlock) bytesPerXtsBlock =
          slice encryptedData encryptedHeaderDataOffset bytesPerXtsBlock :=
      slice_slice (show 0 * 16 + 16 ≤ size - 64 by omega)
    rw [hinner] at hfirst
    have hfour : slice part 0 4 = slice (slice part (0 * bytesPerXtsBlock) bytesPerXtsBlock) 0 4 :=
      (slice_slice (show 0 + 4 ≤ 16 by omega)).symm
    rw [hpart]
    simp only
    unfold deserialize
    rw [if_neg (not_not.mpr ((EncryptionAlgorithm.length_decryptBuffer hpart).trans hlen')),
      if_pos (by rw [hfour, hfirst]; exact hmagic)]

end

/-! ## The native search -/

namespace OpenEnv

section

variable {env : OpenEnv} {req : OpenRequest}

/-- The read of a header of the host. -/
theorem readHeader_at {layout : VolumeLayout} (hdrive : layout.hasDriveHeader = false)
    (hscope : req.partitionInSystemEncryptionScope = false)
    (hbackup : req.useBackupHeaders = false)
    (hread : env.readFails (UInt64.ofNat layout.getHeaderOffset) = false)
    (hlen : layout.getHeaderOffset + layout.getHeaderSize ≤ env.host.length) :
    env.readHeader req layout =
      .ok (some (slice env.host layout.getHeaderOffset layout.getHeaderSize)) := by
  have hoff : (UInt64.ofNat layout.getHeaderOffset).toNat = layout.getHeaderOffset := by
    cases layout <;> rfl
  have hmax : layout.getHeaderOffset ≤ offsetMax := by
    cases layout <;> decide
  have hgot : File.readAt env.host (UInt64.ofNat layout.getHeaderOffset) layout.getHeaderSize
      (env.readFails (UInt64.ofNat layout.getHeaderOffset)) =
      some (slice env.host layout.getHeaderOffset layout.getHeaderSize) := by
    unfold File.readAt
    rw [if_neg, hoff]
    rintro (hfail | hbig)
    · exact absurd (hread.symm.trans hfail) (by simp)
    · rw [hoff] at hbig
      omega
  have hwhole : (slice env.host layout.getHeaderOffset layout.getHeaderSize).length =
      layout.getHeaderSize := length_slice hlen
  unfold readHeader
  simp only [hdrive, hscope, hbackup, Bool.false_eq_true, if_false, hgot, hwhole, if_true]

/-- The read of the primary header. -/
theorem readHeader_primary (hscope : req.partitionInSystemEncryptionScope = false)
    (hbackup : req.useBackupHeaders = false) (hread : env.readFails 0 = false)
    (hlen : volumeHeaderSize ≤ env.host.length) :
    env.readHeader req .v2Normal = .ok (some (slice env.host 0 volumeHeaderSize)) :=
  readHeader_at rfl hscope hbackup hread (by
    show 0 + volumeHeaderSize ≤ env.host.length
    omega)

/-- The first layout tried is that of version 2, whatever is asked for but a hidden volume. -/
theorem availableLayouts_head {type : VolumeType} (h : type ≠ .hidden) :
    ∃ layouts, VolumeLayout.getAvailableLayouts type = .v2Normal :: layouts := by
  cases type with
  | unknown => exact ⟨_, rfl⟩
  | normal => exact ⟨_, rfl⟩
  | hidden => exact absurd rfl h

/-- What the first round of the search makes of the primary header. -/
theorem tryLayout_primary (hscope : req.partitionInSystemEncryptionScope = false)
    (hbackup : req.useBackupHeaders = false) (hread : env.readFails 0 = false)
    (hlen : volumeHeaderSize ≤ env.host.length) :
    env.tryLayout req .v2Normal =
      match decryptHeader env.C env.K volumeHeaderSize (slice env.host 0 volumeHeaderSize)
          req.password req.pim req.kdf getAvailableKdfs getAvailableAlgorithms
          (env.K.hkfShouldApply false) with
      | .error e => .error e
      | .ok header => .ok (true, header.map (settleLayout .v2Normal)) := by
  unfold tryLayout
  rw [readHeader_primary hscope hbackup hread hlen]
  simp only [hbackup, Bool.false_eq_true, false_and, if_false]
  rfl

/-- **A file opens with the password of its header.** -/
theorem findHeader_of_holdsHeader {h : VolumeHeader} {salt headerKey : Bytes} {kdf : Pkcs5Kdf}
    (hholds : HoldsHeader env.C env.host 0 h salt headerKey)
    (hsize : h.headerSize = volumeHeaderSize) (halg : h.ea.algorithm = .aes)
    (hkey : h.dataAreaKey.length = dataKeyAreaMaxSize)
    (hver : 0x10b ≤ h.requiredMinProgramVersion ∧ h.requiredMinProgramVersion ≤ versionNumber)
    (hpw : req.password ≠ []) (hkdf : req.kdf = some kdf) (hmem : kdf ∈ getAvailableKdfs)
    (hderive : env.K.deriveKey kdf req.password req.pim salt = some headerKey)
    (hfactor : env.K.hkfShouldApply false = false) (htype : req.volumeType ≠ .hidden)
    (hscope : req.partitionInSystemEncryptionScope = false)
    (hbackup : req.useBackupHeaders = false) (hread : env.readFails 0 = false) :
    env.findHeader req = .ok (some (.v2Normal, rereadHeader h volumeHeaderSize
      (slice (serialize h (volumeHeaderSize - encryptedHeaderDataOffset)) 0 keyslotPayloadSize)
      .aes kdf)) := by
  obtain ⟨hlen, buf, henc, hfront⟩ := hholds
  rw [hsize, Nat.zero_add] at hlen
  have hgroup : (slice env.host 0 volumeHeaderSize).length = h.headerSize := by
    rw [hsize]
    exact length_slice (by omega)
  have hinner : slice (slice env.host 0 volumeHeaderSize) 0 effectiveHeaderSize =
      slice buf 0 effectiveHeaderSize :=
    (slice_slice (show 0 + 512 ≤ 65536 by omega)).trans hfront
  have hopens := decryptWithAlgorithm_encryptNew kdf henc
    (by rw [hsize]; exact headerSizeOk_layout .v2Normal) hkey hver.2 hgroup hinner
  -- the salt is the one the key was derived with
  have hsalt : slice (slice env.host 0 volumeHeaderSize) 0 saltSize = salt := by
    obtain ⟨-, hsaltLen, -, data, -, rfl⟩ := encryptNew_ok henc
    have hfirst := congrArg (fun xs => slice xs 0 saltSize) hinner
    have hleft : slice (slice (slice env.host 0 volumeHeaderSize) 0 effectiveHeaderSize) 0
        saltSize = slice (slice env.host 0 volumeHeaderSize) 0 saltSize :=
      slice_slice (show 0 + 64 ≤ 512 by omega)
    have hright : slice (slice (salt ++ data) 0 effectiveHeaderSize) 0 saltSize =
        slice (salt ++ data) 0 saltSize := slice_slice (show 0 + 64 ≤ 512 by omega)
    simp only [hleft, hright] at hfirst
    rw [hfirst, slice_append_left (by omega), slice_all (by omega)]
  obtain ⟨layouts, hlayouts⟩ := availableLayouts_head htype
  have hdec : decryptHeader env.C env.K volumeHeaderSize (slice env.host 0 volumeHeaderSize)
      req.password req.pim req.kdf getAvailableKdfs getAvailableAlgorithms
      (env.K.hkfShouldApply false) = .ok (some (rereadHeader h volumeHeaderSize
        (slice (serialize h (volumeHeaderSize - encryptedHeaderDataOffset)) 0
          keyslotPayloadSize) .aes kdf)) := by
    rw [hkdf, hfactor, decryptHeader_asked hpw hmem (by rw [hsalt]; exact hderive)]
    rw [hsize, halg] at hopens
    unfold decryptWithHeaderKey getAvailableAlgorithms
    rw [firstM, hopens]
  have hsettle : ¬ h.requiredMinProgramVersion < 0x10b := UInt16.not_lt.mpr hver.1
  unfold findHeader
  rw [hlayouts, searchLayouts, tryLayout_primary hscope hbackup hread hlen, hdec]
  simp only [Bool.false_eq_true, false_and, if_false, Option.map_some, settleLayout,
    rereadHeader, hsettle, and_false]

/-- A layout whose header no algorithm finds under the key is passed over. -/
theorem tryLayout_rejects {layout : VolumeLayout} {headerKey : Bytes} {kdf : Pkcs5Kdf}
    (hlayout : layout = .v2Normal ∨ layout = .v2Hidden) (hpw : req.password ≠ [])
    (hkdf : req.kdf = some kdf) (hmem : kdf ∈ getAvailableKdfs)
    (hderive : env.K.deriveKey kdf req.password req.pim
      (slice env.host layout.getHeaderOffset saltSize) = some headerKey)
    (hmagic : ∀ a ∈ getAvailableAlgorithms,
      slice ((headerAlgorithm a headerKey).decryptBlockAt env.C 0 0
        (slice env.host (layout.getHeaderOffset + encryptedHeaderDataOffset) bytesPerXtsBlock)) 0 4 ≠
          headerMagic)
    (hfactor : ∀ hidden, env.K.hkfShouldApply hidden = false)
    (hscope : req.partitionInSystemEncryptionScope = false)
    (hbackup : req.useBackupHeaders = false)
    (hread : env.readFails (UInt64.ofNat layout.getHeaderOffset) = false)
    (hlen : layout.getHeaderOffset + volumeHeaderSize ≤ env.host.length) :
    env.tryLayout req layout = .ok (true, none) := by
  have hdrive : layout.hasDriveHeader = false := by
    rcases hlayout with rfl | rfl <;> rfl
  have hsize : layout.getHeaderSize = volumeHeaderSize := by
    rcases hlayout with rfl | rfl <;> rfl
  have hkdfs : layout.getSupportedKeyDerivationFunctions = getAvailableKdfs := by
    rcases hlayout with rfl | rfl <;> rfl
  have halgs : headerAlgorithms layout = getAvailableAlgorithms := by
    rcases hlayout with rfl | rfl <;> rfl
  have hgroup : (slice env.host layout.getHeaderOffset volumeHeaderSize).length =
      volumeHeaderSize := length_slice hlen
  have hsalt : slice (slice env.host layout.getHeaderOffset volumeHeaderSize) 0 saltSize =
      slice env.host (layout.getHeaderOffset + 0) saltSize :=
    slice_slice (show 0 + 64 ≤ 65536 by omega)
  have hblock : slice (slice env.host layout.getHeaderOffset volumeHeaderSize)
      encryptedHeaderDataOffset bytesPerXtsBlock =
        slice env.host (layout.getHeaderOffset + encryptedHeaderDataOffset) bytesPerXtsBlock :=
    slice_slice (show 64 + 16 ≤ 65536 by omega)
  have hdec : decryptHeader env.C env.K volumeHeaderSize
      (slice env.host layout.getHeaderOffset volumeHeaderSize) req.password req.pim req.kdf
      getAvailableKdfs getAvailableAlgorithms (env.K.hkfShouldApply (layout.getType = .hidden)) =
        .ok none := by
    rw [hkdf, hfactor, decryptHeader_asked hpw hmem (by rw [hsalt]; exact hderive)]
    apply firstM_none
    intro a ha
    apply decryptWithAlgorithm_none (headerSizeOk_layout .v2Normal) hgroup
    rw [hblock]
    exact hmagic a ha
  unfold tryLayout
  rw [readHeader_at hdrive hscope hbackup hread (by rw [hsize]; exact hlen), hsize, hkdfs, halgs]
  simp only [hbackup, Bool.false_eq_true, false_and, if_false, hdec, Option.map_none]

/-- The drive's header is out of the scope of a volume. -/
theorem tryLayout_drive (hscope : req.partitionInSystemEncryptionScope = false)
    (hbackup : req.useBackupHeaders = false) :
    env.tryLayout req .systemEncryption = .ok (false, none) := by
  unfold tryLayout readHeader
  simp [hbackup, hscope, VolumeLayout.hasDriveHeader]

/-- **A password under which no algorithm finds a header is passed over.** -/
theorem findHeader_none {headerKey : Bytes} {kdf : Pkcs5Kdf} (hpw : req.password ≠ [])
    (hkdf : req.kdf = some kdf) (hmem : kdf ∈ getAvailableKdfs)
    (hderive : env.K.deriveKey kdf req.password req.pim (slice env.host 0 saltSize) =
      some headerKey)
    (hmagic : ∀ a ∈ getAvailableAlgorithms,
      slice ((headerAlgorithm a headerKey).decryptBlockAt env.C 0 0
        (slice env.host encryptedHeaderDataOffset bytesPerXtsBlock)) 0 4 ≠ headerMagic)
    (hfactor : ∀ hidden, env.K.hkfShouldApply hidden = false) (htype : req.volumeType = .normal)
    (hscope : req.partitionInSystemEncryptionScope = false)
    (hbackup : req.useBackupHeaders = false) (hread : env.readFails 0 = false)
    (hlen : volumeHeaderSize ≤ env.host.length) : env.findHeader req = .ok none := by
  have hoff : VolumeLayout.getHeaderOffset .v2Normal = 0 := rfl
  have hprimary : env.tryLayout req .v2Normal = .ok (true, none) :=
    tryLayout_rejects (Or.inl rfl) hpw hkdf hmem hderive
      (by rw [hoff, Nat.zero_add]; exact hmagic) hfactor hscope hbackup hread
      (by rw [hoff, Nat.zero_add]; exact hlen)
  -- the version 1 layout is skipped, and the drive's header is out of scope
  have hlayouts : VolumeLayout.getAvailableLayouts .normal =
      [.v2Normal, .v1Normal, .systemEncryption] := rfl
  unfold findHeader
  rw [htype, hlayouts, searchLayouts, hprimary]
  simp [searchLayouts, tryLayout_drive hscope hbackup]

/-- The same for an open that looks for a hidden volume as well. -/
theorem findHeader_unknown_none (htype : req.volumeType = .unknown)
    (hscope : req.partitionInSystemEncryptionScope = false)
    (hbackup : req.useBackupHeaders = false)
    (hprimary : env.tryLayout req .v2Normal = .ok (true, none))
    (hhidden : env.tryLayout req .v2Hidden = .ok (true, none)) :
    env.findHeader req = .ok none := by
  have hlayouts : VolumeLayout.getAvailableLayouts .unknown =
      [.v2Normal, .v1Normal, .v2Hidden, .systemEncryption] := rfl
  unfold findHeader
  rw [htype, hlayouts, searchLayouts, hprimary]
  simp [searchLayouts, hhidden, tryLayout_drive hscope hbackup]

/-! ## The slots -/

/-- The keyslot area of a file that holds the whole header group. -/
theorem keyslotArea_bytes (mem : OpenMemory) (hlen : volumeHeaderSize ≤ env.host.length) :
    (env.keyslotArea mem).bytes = slice env.host 512 (volumeHeaderSize - 512) := by
  have hon : (slice env.host 512 (volumeHeaderSize - 512)).length = volumeHeaderSize - 512 :=
    length_slice (by simp only [volumeHeaderSize] at hlen ⊢; omega)
  simp only [keyslotArea]
  rw [hon, Nat.sub_self]
  exact List.append_nil _

/-- **A file opens the slot whose record was made for the passphrase**, when no slot in front of
    it does. -/
theorem openSlot_of_holdsSlot {mem : OpenMemory} {i : Nat} {flags : UInt8} {vmk : Bytes}
    (hlen : volumeHeaderSize ≤ env.host.length) (hreads : ∀ position, env.readFails position = false)
    (hpf : ∀ round n, (env.parallelFor round n).Perm (List.range n)) (hi : i < 63)
    (hvmk : vmk.length = 1 + keyslotPayloadSize)
    (hholds : HoldsSlot env.P env.keyslotCfg env.host i req.password (flags :: vmk))
    (hfirst : ∀ j, j < i →
      matchAt env.P env.keyslotCfg (env.keyslotArea mem) req.password j = none) :
    env.openSlot mem req = some { vmk := vmk, flags := flags } := by
  obtain ⟨salt, fill, hsalt, hfill, hrec⟩ := hholds
  have hbytes := keyslotArea_bytes mem hlen
  have hsize : (env.keyslotArea mem).size = 65024 := by
    unfold KeyslotArea.size
    rw [hbytes]
    exact length_slice (show 512 + 65024 ≤ env.host.length from hlen)
  have hslots : nSlots env.keyslotCfg (env.keyslotArea mem) = 63 := by
    unfold nSlots
    rw [hsize]
    rfl
  have hct : (ctOf env.keyslotCfg).toNat = 450 := rfl
  have hplen : plenOf env.keyslotCfg = 450 := rfl
  have hfit : recFits env.keyslotCfg := show (46 : Int) + 450 + 32 ≤ 1024 by decide
  have hslot : slotAt (env.keyslotArea mem) i =
      labeledRecord env.P env.keyslotCfg req.password salt fill (flags :: vmk) := by
    rw [← hrec, slotAt, hbytes]
    exact slice_slice (show i * 1024 + 1024 ≤ 65024 by omega)
  have hread : (env.keyslotArea mem).read (i * keyslotTableStride) keyslotTableStride =
      some (slotAt (env.keyslotArea mem) i) :=
    KeyslotArea.read_of_ok (by rw [hsize]; show i * 1024 + 1024 ≤ 65024; omega) (hreads _)
  have hblob : (flags :: vmk).length = (ctOf env.keyslotCfg).toNat := by
    rw [List.length_cons, hvmk, hct]
    rfl
  have hmatch : matchAt env.P env.keyslotCfg (env.keyslotArea mem) req.password i =
      some (flags :: vmk) := by
    rw [matchAt_of_read env.P hread, hslot,
      recUnwrapCT_labeledRecord env.P (recFits_labeled rfl hfit) hsalt hfill hblob]
    rfl
  have hfound : firstMatch env.P env.keyslotCfg (env.keyslotArea mem) req.password =
      some (flags :: vmk) := by
    unfold firstMatch
    rw [findSome?_range_eq_some_iff, hslots]
    exact ⟨i, hi, hmatch, hfirst⟩
  have hmerge : afMerge env.P (flags :: vmk) (plenOf env.keyslotCfg) (afOf env.keyslotCfg) =
      flags :: vmk := afMerge_one env.P (by rw [hplen]; decide) hblob
  unfold openSlot
  rw [keyslotOpenParallel_eq_keyslotOpen env.P hpf, keyslotOpen_labeled env.P rfl hfit,
    hfound, Option.map_some, hmerge, openedV1_cons _ _ hvmk]

end

/-! ## The header of an open volume -/

/-- Every layout's header holds a keyslot payload. -/
theorem keyslotPayloadSize_le_headerSize (layout : VolumeLayout) :
    keyslotPayloadSize + encryptedHeaderDataOffset ≤ layout.getHeaderSize := by
  cases layout <;> decide

/-- Settling on a layout keeps what `Deserialize` read. -/
theorem settleLayout_eq {tried layout : VolumeLayout} {found header : VolumeHeader}
    (h : (layout, header) = settleLayout tried found)
    (hsize : found.headerSize = tried.getHeaderSize) :
    header = { found with headerSize := layout.getHeaderSize } ∧
      (layout = tried ∨ layout = .v1Normal) := by
  unfold settleLayout at h
  split at h
  · obtain ⟨hlayout, hheader⟩ := Prod.mk.inj h
    rw [hheader, hlayout]
    exact ⟨rfl, Or.inr rfl⟩
  · obtain ⟨hlayout, hheader⟩ := Prod.mk.inj h
    rw [hheader, hlayout, ← hsize]
    exact ⟨rfl, Or.inl rfl⟩

/-- A header has the size its layout asks for, and a whole key area. -/
def HeaderFits (layout : VolumeLayout) (header : VolumeHeader) : Prop :=
  header.headerSize = layout.getHeaderSize ∧ header.dataAreaKey.length = dataKeyAreaMaxSize

theorem headerFits_of_deserialize {layout : VolumeLayout} {part : Bytes} {a : AlgorithmId}
    {pkcs5 : Pkcs5Kdf} {header : VolumeHeader}
    (hd : deserialize layout.getHeaderSize part a pkcs5 = .ok (some header)) :
    HeaderFits layout header := by
  obtain ⟨hlen, -, -, hkey, hsize, -⟩ := deserialize_some hd
  have hfits := keyslotPayloadSize_le_headerSize layout
  refine ⟨hsize, ?_⟩
  rw [hkey]
  apply length_slice
  rw [hlen]
  simp only [keyslotPayloadSize] at hfits
  omega

theorem headerFits_of_findHeader {env : OpenEnv} {req : OpenRequest} {layout : VolumeLayout}
    {header : VolumeHeader} (hfind : env.findHeader req = .ok (some (layout, header))) :
    HeaderFits layout header := by
  obtain ⟨tried, part, a, pkcs5, found, hd, hsettle, -⟩ := findHeader_some hfind
  obtain ⟨hsize, hkey⟩ := headerFits_of_deserialize hd
  obtain ⟨rfl, -⟩ := settleLayout_eq hsettle hsize
  exact ⟨rfl, hkey⟩

theorem headerFits_of_payload {vmk : Bytes} {header : VolumeHeader}
    (h : headerOfPayload vmk = .ok (some header)) : HeaderFits .v2Normal header := by
  unfold headerOfPayload at h
  split at h
  · exact absurd h (by simp)
  · unfold rebuildFromKeyslot at h
    split at h
    · exact absurd h (by simp)
    · exact headerFits_of_deserialize h

/-- Placing, discovering and protecting leave layout and header alone. -/
theorem layout_of_openNative {env : OpenEnv} {mem : OpenMemory} {req : OpenRequest}
    {layout : VolumeLayout} {header : VolumeHeader} {v : Volume}
    (h : env.openNative mem req layout header = .ok v) : v.layout = layout ∧ v.header = header := by
  obtain ⟨w, hw, rfl⟩ := openNative_ok h
  have hplaced : w.layout = layout ∧ w.header = header := by
    unfold placeOnDrive at hw
    simp only at hw
    split at hw
    · rw [← Except.ok.inj hw]
      exact ⟨rfl, rfl⟩
    · split at hw
      · exact absurd hw (by simp)
      · rw [← Except.ok.inj hw]
        exact ⟨rfl, rfl⟩
  rw [layout_discover, header_discover]
  exact hplaced

theorem layout_of_protectRange {env : OpenEnv} {req : OpenRequest} {w v : Volume}
    (h : env.protectRange req w = .ok v) : v.layout = w.layout ∧ v.header = w.header := by
  unfold protectRange at h
  split at h
  · split at h
    · exact absurd h (by simp)
    · split at h
      · split at h <;> exact absurd h (by simp)
      · rw [← Except.ok.inj h]
        exact ⟨rfl, rfl⟩
  · rw [Except.ok.inj h]
    exact ⟨rfl, rfl⟩

/-! ## What opens -/

section

variable {env : OpenEnv} {mem : OpenMemory} {req : OpenRequest}

/-- The volume of a header found outside of a drive, when nothing else is to be protected. -/
theorem openVolume_of_findHeader {layout : VolumeLayout} {header : VolumeHeader}
    (hfind : env.findHeader req = .ok (some (layout, header)))
    (hdrive : layout.hasDriveHeader = false) (hprot : req.protection ≠ .hiddenVolumeReadOnly) :
    openVolume env mem req = .ok (env.discover mem (env.volumeOf mem req layout header)) := by
  have hplaced := placeOnDrive_of_not_drive env (v := env.volumeOf mem req layout header) hdrive
  have hprot' : (env.discover mem (env.volumeOf mem req layout header)).protection ≠
      .hiddenVolumeReadOnly := by
    rw [protection_discover]
    exact hprot
  unfold openVolume openWith
  simp only [hfind]
  unfold openNative
  rw [hplaced]
  simp only
  unfold protectRange
  rw [if_neg hprot']

/-- The volume of a slot. -/
theorem openKeyslot_of_openSlot {opened : Opened} {header : VolumeHeader}
    (hslot : env.openSlot mem req = some opened)
    (hduress : opened.flags &&& keyslotFlagDuress = 0)
    (hheader : headerOfPayload opened.vmk = .ok (some header))
    (htype : req.volumeType ≠ .hidden) (hscope : req.partitionInSystemEncryptionScope = false)
    (hbackup : req.useBackupHeaders = false) :
    env.openKeyslot mem req = .ok (some (env.volumeOf mem req .v2Normal header)) := by
  unfold openKeyslot
  rw [if_neg (by rw [hscope, hbackup]; simp [htype]), hslot]
  simp only
  rw [if_neg (not_not.mpr hduress), hheader]
  rfl

/-- A slot is opened when no header accepts the password. -/
theorem openVolume_of_openSlot {opened : Opened} {header : VolumeHeader}
    (hnone : env.findHeader req = .ok none) (hslot : env.openSlot mem req = some opened)
    (hduress : opened.flags &&& keyslotFlagDuress = 0)
    (hheader : headerOfPayload opened.vmk = .ok (some header))
    (htype : req.volumeType ≠ .hidden) (hscope : req.partitionInSystemEncryptionScope = false)
    (hbackup : req.useBackupHeaders = false) :
    openVolume env mem req = .ok (env.volumeOf mem req .v2Normal header) := by
  have hkeyslot := openKeyslot_of_openSlot hslot hduress hheader htype hscope hbackup
  unfold openVolume openWith
  simp only [hnone, hkeyslot]

end

end OpenEnv

/-! ## A container -/

/-- A derivation that repeats the first byte of the password. For runs on concrete inputs
    only. -/
def KeyDerivation.demo : KeyDerivation where
  deriveKey _ password _ _ := some (List.replicate headerKeyDerivationSize (password.headD 0))
  effectivePasswords password _ := some [password]
  hkfShouldApply _ := false
  completionOrder l := l
  perm_completionOrder l := List.Perm.refl l

namespace SlotContainer

def salt : Bytes := List.replicate saltSize 0
def headerKey : Bytes := List.replicate headerKeyDerivationSize 7

/-- The header group of `Volume.outerHeader` as it was created. -/
def headerGroup : Bytes :=
  createdHeader .demo Volume.outerHeader volumeHeaderSize salt headerKey

/-- What a slot for that header holds. -/
def payload : Bytes :=
  0 :: slice (serialize Volume.outerHeader (volumeHeaderSize - encryptedHeaderDataOffset)) 0
    keyslotPayloadSize

/-- A source of zeros behind every memory that is not written. -/
def memory : OpenMemory where
  protectedRangeStart := 0
  protectedRangeEnd := 0
  sector0 _ := 0
  tag0 _ := 0
  keyslotArea _ := 0
  keyslotBatch _ := 0

/-- The configuration a mount searches the slots with. -/
def cfg : KeyslotStoreCfg where
  backend := .header
  kdf := (KeyslotStoreCfg.demo .header 0).kdf
  cost := 500000
  vmkLen := 1 + keyslotPayloadSize
  maxSlots := 63
  afStripes := 0
  policy := 0

def record : Bytes :=
  labeledRecord .demo cfg [9] (List.replicate keyslotSaltSize 0)
    (List.replicate keyslotTableStride 0) (0 :: payload)

/-- The tag of a first sector of zeros. -/
def tag : Bytes :=
  v2FormatSectorTag .demo
    (v2FormatDeriveModeKey .demo (OpenEnv.macMasterKey Volume.outerHeader) .hctr2) 0
    (List.replicate 512 0)

/-- A container of 1 MiB: the header under the password `07`, in slot 0 a wrapping of it under
    the passphrase `09`, a data area of zeros and the tag of its first sector. -/
def host : Bytes :=
  slice headerGroup 0 effectiveHeaderSize ++
    (record ++ (List.replicate 891904 0 ++ (tag ++ List.replicate 155120 0)))

def env : OpenEnv where
  C := .demo
  P := .demo
  K := .demo
  keyslotKdf := (KeyslotStoreCfg.demo .header 0).kdf
  parallelFor _ n := List.range n
  host := host
  readFails _ := false
  isDevice := false
  driveDevice := none
  partitionDeviceStartOffset := 0
  deviceSectorSize := 512
  protectedMemory := memory

/-- A mount with the password of the header. -/
def request : OpenRequest where
  password := [7]
  pim := 0
  kdf := some .hmacSha512
  hasKeyfiles := false
  protection := .none
  protectionPassword := []
  protectionPim := 0
  protectionKdf := none
  protectionHasKeyfiles := false
  volumeType := .normal
  useBackupHeaders := false
  partitionInSystemEncryptionScope := false

/-- The header that is read back. -/
def header : VolumeHeader :=
  rereadHeader Volume.outerHeader volumeHeaderSize payload.tail .aes .hmacSha512

theorem length_outerKey : Volume.outerHeader.dataAreaKey.length = dataKeyAreaMaxSize := by
  have hkey : Volume.outerHeader.dataAreaKey =
      List.replicate 32 1 ++ List.replicate 32 2 ++ List.replicate 192 0 := rfl
  rw [hkey, List.length_append, List.length_append, List.length_replicate,
    List.length_replicate, List.length_replicate]
  rfl

theorem headerGroup_eq : ∃ data,
    (headerAlgorithm .aes headerKey).encryptBuffer .demo
      (serialize Volume.outerHeader (volumeHeaderSize - encryptedHeaderDataOffset)) 0 =
        some data ∧
    encryptNew .demo Volume.outerHeader volumeHeaderSize salt headerKey = .ok headerGroup ∧
    headerGroup = salt ++ data := by
  have hsalt : salt.length = saltSize := List.length_replicate
  have hlong : Volume.outerHeader.ea.algorithm.getKeySize * 2 ≤ headerKey.length := by
    rw [headerKey, List.length_replicate]
    decide
  obtain ⟨data, hdata, henc⟩ := encryptNew_isSome .demo (headerSizeOk_layout .v2Normal)
    length_outerKey hsalt hlong
  have hsize : Volume.outerHeader.headerSize = volumeHeaderSize := rfl
  have halg : Volume.outerHeader.ea.algorithm = .aes := rfl
  rw [hsize, halg] at hdata
  rw [hsize] at henc
  have hgroup : headerGroup = salt ++ data := createdHeader_eq henc
  exact ⟨data, hdata, by rw [henc, hgroup], hgroup⟩

theorem length_front : (slice headerGroup 0 effectiveHeaderSize).length = 512 := by
  obtain ⟨data, hdata, -, hgroup⟩ := headerGroup_eq
  have hlen := EncryptionAlgorithm.length_encryptBuffer hdata
  rw [length_serialize Volume.outerHeader _ length_outerKey (by decide)] at hlen
  apply length_slice
  rw [hgroup, List.length_append, hlen, salt, List.length_replicate]
  decide

theorem length_payload : payload.length = 1 + keyslotPayloadSize := by
  have hser := length_serialize Volume.outerHeader (volumeHeaderSize - encryptedHeaderDataOffset)
    length_outerKey (by decide)
  rw [payload, List.length_cons, length_slice (by rw [hser]; decide)]
  rfl

theorem length_record : record.length = 1024 :=
  length_labeledRecord .demo (show 46 + 450 + 32 ≤ 1024 by decide) List.length_replicate
    List.length_replicate (by rw [List.length_cons, length_payload]; rfl)

theorem length_tag : tag.length = 16 := length_v2FormatSectorTag _ _ _ _

theorem length_host : host.length = 1048576 := by
  rw [host, List.length_append, List.length_append, List.length_append, List.length_append,
    List.length_replicate, List.length_replicate, length_front, length_record, length_tag]

theorem holdsHeader : HoldsHeader env.C env.host 0 Volume.outerHeader salt headerKey := by
  obtain ⟨data, -, henc, -⟩ := headerGroup_eq
  refine ⟨by rw [show env.host = host from rfl, length_host]; decide, headerGroup, henc, ?_⟩
  have hfront := length_front
  show slice host 0 effectiveHeaderSize = _
  rw [host, slice_append_left (by rw [hfront]; decide), slice_all (by rw [hfront]; decide)]

theorem holdsSlot : HoldsSlot env.P env.keyslotCfg env.host 0 [9] (0 :: payload) := by
  refine ⟨List.replicate keyslotSaltSize 0, List.replicate keyslotTableStride 0,
    List.length_replicate, List.length_replicate, ?_⟩
  have hfront := length_front
  have hrec := length_record
  show slice host (effectiveHeaderSize + 0 * keyslotTableStride) keyslotTableStride = record
  rw [host, slice_append_right (by rw [hfront]; decide), hfront,
    slice_append_left (by rw [hrec]; decide)]
  exact slice_all (by rw [hrec]; decide)

/-- The first block of the header as it stands in the container. -/
theorem first_block : slice host encryptedHeaderDataOffset bytesPerXtsBlock =
    [81, 66, 85, 70, 7, 2, 6, 12, 59, 108, 98, 253, 7, 7, 7, 7] := by
  obtain ⟨data, hdata, -, hgroup⟩ := headerGroup_eq
  have hser := length_serialize Volume.outerHeader (volumeHeaderSize - encryptedHeaderDataOffset)
    length_outerKey (by decide)
  have hblock := EncryptionAlgorithm.slice_encryptBuffer (i := 0) hdata
    (by rw [hser]; decide)
  have hsalt : salt.length = 64 := List.length_replicate
  have hfront := length_front
  have hin : slice (slice headerGroup 0 effectiveHeaderSize) encryptedHeaderDataOffset
      bytesPerXtsBlock = slice headerGroup (0 + encryptedHeaderDataOffset) bytesPerXtsBlock :=
    slice_slice (by decide)
  rw [host, slice_append_left (by rw [hfront]; decide), hin, hgroup,
    slice_append_right (by rw [hsalt]; decide), hsalt]
  exact hblock.trans (by decide +kernel)

/-- Under the other passphrase no algorithm finds a header there. -/
theorem rejects_other : ∀ a ∈ getAvailableAlgorithms,
    slice ((headerAlgorithm a (List.replicate headerKeyDerivationSize 9)).decryptBlockAt .demo 0 0
      [81, 66, 85, 70, 7, 2, 6, 12, 59, 108, 98, 253, 7, 7, 7, 7]) 0 4 ≠ headerMagic := by
  decide +kernel

/-! ### How it opens -/

variable {req : OpenRequest}

theorem findHeader_password (hpw : req.password = [7]) (hkdf : req.kdf = some .hmacSha512)
    (htype : req.volumeType ≠ .hidden) (hscope : req.partitionInSystemEncryptionScope = false)
    (hbackup : req.useBackupHeaders = false) :
    env.findHeader req = .ok (some (.v2Normal, header)) :=
  OpenEnv.findHeader_of_holdsHeader holdsHeader rfl rfl length_outerKey (by decide)
    (by rw [hpw]; simp) hkdf (by decide) (by rw [hpw]; rfl) rfl htype hscope hbackup rfl

theorem findHeader_request : env.findHeader request = .ok (some (.v2Normal, header)) :=
  findHeader_password rfl rfl (by decide) rfl rfl

theorem findHeader_passphrase (hpw : req.password = [9]) (hkdf : req.kdf = some .hmacSha512)
    (htype : req.volumeType = .normal) (hscope : req.partitionInSystemEncryptionScope = false)
    (hbackup : req.useBackupHeaders = false) : env.findHeader req = .ok none := by
  have hlen : volumeHeaderSize ≤ env.host.length := by
    show volumeHeaderSize ≤ host.length
    rw [length_host]
    decide
  have hderive : env.K.deriveKey .hmacSha512 req.password req.pim (slice env.host 0 saltSize) =
      some (List.replicate headerKeyDerivationSize 9) := by
    rw [hpw]
    rfl
  apply OpenEnv.findHeader_none (by rw [hpw]; simp) hkdf (by decide) hderive ?_ (fun _ => rfl)
    htype hscope hbackup rfl hlen
  intro a ha
  have hblock : slice env.host encryptedHeaderDataOffset bytesPerXtsBlock =
      slice host encryptedHeaderDataOffset bytesPerXtsBlock := rfl
  rw [hblock, first_block]
  exact rejects_other a ha

theorem openSlot_passphrase (hpw : req.password = [9]) (mem : OpenMemory) :
    env.openSlot mem req = some { vmk := payload, flags := 0 } := by
  have hlen : volumeHeaderSize ≤ env.host.length := by
    show volumeHeaderSize ≤ host.length
    rw [length_host]
    decide
  exact OpenEnv.openSlot_of_holdsSlot hlen (fun _ => rfl) (fun _ _ => List.Perm.refl _)
    (i := 0) (by decide) length_payload (by rw [hpw]; exact holdsSlot)
    (fun j hj => absurd hj (Nat.not_lt_zero j))

end SlotContainer

end VeraCrypt
