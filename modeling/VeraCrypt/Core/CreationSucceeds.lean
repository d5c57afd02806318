import VeraCrypt.Core.CreationGeometry

/-!
# A creation that succeeds

On a host that carries out every read and write, the creation of a file-hosted version 2 volume
without a file system runs to its end: every fragment encrypts, every read of the population
lies in the area written before it, and every offset is one the system can address.
-/

set_option autoImplicit false

namespace VeraCrypt

open Lib

/-- A host that carries out every read and write. -/
def HostIo.Sound (io : HostIo) : Prop :=
  ∀ position n, io.read position n = true ∧ io.write position n = true

theorem File.stored_all {position : UInt64} {size : Nat}
    (h : position.toNat + size ≤ offsetMax) : File.stored position size none = size := by
  rw [File.stored, Option.getD_none, Nat.min_self]
  omega

theorem OpenFile.write_isOk {file : OpenFile} {io : HostIo} {data : Bytes} (hio : io.Sound)
    (hdev : file.isDevice = false) (hpos : file.position + data.length ≤ offsetMax) :
    ∃ file', file.write io data = .ok file' := by
  have h64 : (UInt64.ofNat file.position).toNat = file.position := by
    rw [UInt64.toNat_ofNat']
    exact Nat.mod_eq_of_lt (Nat.lt_of_le_of_lt (Nat.le_of_add_right_le hpos) (by decide))
  have htakes : file.takes io file.position data.length = true := by
    rw [OpenFile.takes, (hio _ _).2, hdev]
    rfl
  unfold OpenFile.write
  simp only [htakes, if_true, File.writeAt]
  rw [File.stored_all (by rw [h64]; exact hpos)]
  exact ⟨_, if_pos (decide_eq_true rfl)⟩

/-- The encryption of whole blocks at the front of a buffer. -/
theorem EncryptionAlgorithm.encryptSectors_isSome (C : Ciphers) (ea : EncryptionAlgorithm)
    {data : Bytes} {sectorIndex sectorCount sectorSize : UInt64}
    (hlen : (sectorCount * sectorSize).toNat ≤ data.length)
    (hwhole : (sectorCount * sectorSize).toNat % bytesPerXtsBlock = 0) :
    ∃ ct, ea.encryptSectors C data sectorIndex sectorCount sectorSize = some ct := by
  have hfront : (data.take (sectorCount * sectorSize).toNat).length % bytesPerXtsBlock = 0 := by
    rw [List.length_take, Nat.min_eq_left hlen]
    exact hwhole
  obtain ⟨out, hout⟩ := encryptBuffer_isSome C ea hfront
    (sectorIndex * sectorSize / encryptionDataUnitSize)
  exact ⟨_, by rw [encryptSectors, hout]; rfl⟩

namespace V2SectorMacIo

theorem boundsCheck_of_le {mac : V2SectorMacIo} {done n : Nat} (hn : 0 < n)
    (hle : done + n ≤ mac.dataSectors.toNat) :
    mac.boundsCheck (UInt64.ofNat done) (UInt64.ofNat n) = true := by
  have hlt := mac.dataSectors.toNat_lt
  have hdone : (UInt64.ofNat done).toNat = done := by
    rw [UInt64.toNat_ofNat']
    omega
  have hcount : (UInt64.ofNat n).toNat = n := by
    rw [UInt64.toNat_ofNat']
    omega
  have hzero : (0 : UInt64).toNat = 0 := rfl
  simp only [boundsCheck, Bool.not_eq_true', Bool.or_eq_false_iff, decide_eq_false_iff_not]
  refine ⟨⟨?_, ?_⟩, ?_⟩
  · intro h
    rw [← UInt64.toNat_inj, hcount, hzero] at h
    omega
  · rw [UInt64.lt_iff_toNat_lt, UInt64.toNat_add, hdone, hcount]
    omega
  · rw [UInt64.lt_iff_toNat_lt, UInt64.toNat_add, hdone, hcount]
    omega

/-- Tags that lie at addresses are stored. -/
theorem updateRange_isOk (P : Primitives) {mac : V2SectorMacIo} (host ct : Bytes) {done n : Nat}
    (hn : 0 < n) (hle : done + n ≤ mac.dataSectors.toNat)
    (hend : mac.tableBaseOffset.toNat + mac.dataSectors.toNat * v2MacTagLen ≤ offsetMax) :
    ∃ host', mac.updateRange P host ct (UInt64.ofNat done) (UInt64.ofNat n) none =
      (host', .ok ()) := by
  have hlt := mac.dataSectors.toNat_lt
  have hcount : (UInt64.ofNat n).toNat = n := by
    rw [UInt64.toNat_ofNat']
    omega
  unfold updateRange
  by_cases hidle : (!mac.isActive) = true ∨ UInt64.ofNat n = 0
  · rw [if_pos hidle]
    exact ⟨host, rfl⟩
  · have hbounds : ¬ (!mac.boundsCheck (UInt64.ofNat done) (UInt64.ofNat n)) = true := by
      rw [boundsCheck_of_le hn hle]
      decide
    rw [if_neg hidle, if_neg hbounds]
    have hslot := mac.slotPosition_le done
    have hall : File.stored (mac.slotPosition (UInt64.ofNat done)) (n * v2MacTagLen) none =
        n * v2MacTagLen := by
      apply File.stored_all
      simp only [v2MacTagLen] at hslot hend ⊢
      omega
    simp only [File.writeAt, length_tags, hcount, hall, decide_true, if_true]
    exact ⟨_, rfl⟩

/-- The population of a table behind data that is there. -/
theorem populateFrom_isOk (P : Primitives) {mac : V2SectorMacIo} {dataStart : UInt64}
    {io : PopulateIo} (hreads : ∀ done, io.readFails done = false)
    (haccepts : ∀ done, io.accepts done = none) {k : Nat} :
    ∀ {host : Bytes} {done : Nat}, mac.dataSectors.toNat - done ≤ k →
      mac.tableBaseOffset.toNat + mac.dataSectors.toNat * v2MacTagLen ≤ offsetMax →
      dataStart.toNat + mac.dataSectors.toNat * mac.sectorSize.toNat ≤ offsetMax →
      dataStart.toNat + mac.dataSectors.toNat * mac.sectorSize.toNat ≤ host.length →
      ∃ host', populateFrom P mac dataStart io host done = (host', .ok ()) := by
  induction k with
  | zero =>
    intro host done hk _ _ _
    rw [populateFrom, dif_neg (by omega)]
    exact ⟨host, rfl⟩
  | succ k ih =>
    intro host done hk htable hdata hin
    by_cases hlt : done < mac.dataSectors.toNat
    · have hn : 0 < min sectorsPerChunk (mac.dataSectors.toNat - done) := by
        simp only [sectorsPerChunk]
        omega
      have hround : done + min sectorsPerChunk (mac.dataSectors.toNat - done) ≤
          mac.dataSectors.toNat := by omega
      have hmul := Nat.mul_le_mul_right mac.sectorSize.toNat hround
      rw [Nat.add_mul] at hmul
      have hposition : (dataStart + UInt64.ofNat done * mac.sectorSize).toNat =
          dataStart.toNat + done * mac.sectorSize.toNat := by
        have hmax : offsetMax < 2 ^ 64 := by decide
        have hsectors := mac.dataSectors.toNat_lt
        have hdone : (UInt64.ofNat done).toNat = done := by
          rw [UInt64.toNat_ofNat']
          omega
        rw [UInt64.toNat_add, UInt64.toNat_mul, hdone,
          Nat.mod_eq_of_lt (a := done * mac.sectorSize.toNat) (by omega),
          Nat.mod_eq_of_lt (by omega)]
      have hread : File.readAt host (dataStart + UInt64.ofNat done * mac.sectorSize)
          (min sectorsPerChunk (mac.dataSectors.toNat - done) * mac.sectorSize.toNat)
          (io.readFails done) =
          some (slice host (dataStart.toNat + done * mac.sectorSize.toNat)
            (min sectorsPerChunk (mac.dataSectors.toNat - done) * mac.sectorSize.toNat)) := by
        have hok : ¬ (io.readFails done = true ∨
            offsetMax < (dataStart + UInt64.ofNat done * mac.sectorSize).toNat) := by
          rw [hreads, hposition]
          rintro (hfails | hfar)
          · exact absurd hfails (by decide)
          · omega
        rw [File.readAt, if_neg hok, hposition]
      have hwhole := @length_slice UInt8 host (dataStart.toNat + done * mac.sectorSize.toNat)
        (min sectorsPerChunk (mac.dataSectors.toNat - done) * mac.sectorSize.toNat) (by omega)
      obtain ⟨host1, hupdate⟩ := updateRange_isOk P host
        (slice host (dataStart.toNat + done * mac.sectorSize.toNat)
          (min sectorsPerChunk (mac.dataSectors.toNat - done) * mac.sectorSize.toNat))
        hn hround htable
      have hgrow := length_le_updateRange P mac host
        (slice host (dataStart.toNat + done * mac.sectorSize.toNat)
          (min sectorsPerChunk (mac.dataSectors.toNat - done) * mac.sectorSize.toNat))
        (UInt64.ofNat done)
        (UInt64.ofNat (min sectorsPerChunk (mac.dataSectors.toNat - done))) none
      rw [hupdate] at hgrow
      obtain ⟨host', hrest⟩ := @ih host1
        (done + min sectorsPerChunk (mac.dataSectors.toNat - done)) (by omega) htable
        hdata (Nat.le_trans hin hgrow)
      refine ⟨host', ?_⟩
      rw [populateFrom, dif_pos hlt]
      simp only [hread]
      rw [if_neg (not_not.mpr hwhole), haccepts, hupdate]
      exact hrest
    · rw [populateFrom, dif_neg hlt]
      exact ⟨host, rfl⟩

end V2SectorMacIo

namespace VolumeCreator

section
variable {C : Ciphers} {P : Primitives} {K : KeyDerivation} {fatFormat : FatFormat}
  {options : VolumeCreationOptions} {draws : CreationDraws} {io : HostIo} {c : Creation}

theorem writeEncrypted_isOk (C : Ciphers) (ea : EncryptionAlgorithm) (hio : io.Sound)
    {pass : DataPass} {buffer : Bytes} {n : Nat} (hdev : pass.file.isDevice = false)
    (hn : n ≤ buffer.length) (hpos : pass.file.position + n ≤ offsetMax) :
    ∃ pass', pass.writeEncrypted C ea io buffer n = .ok pass' := by
  have hmax : offsetMax < 2 ^ 64 := by decide
  have hunit : encryptionDataUnitSize.toNat = 512 := rfl
  have hcount : (UInt64.ofNat n / encryptionDataUnitSize * encryptionDataUnitSize).toNat =
      n / 512 * 512 := by
    have h64 : (UInt64.ofNat n).toNat = n := by
      rw [UInt64.toNat_ofNat']
      omega
    rw [UInt64.toNat_mul, UInt64.toNat_div, hunit, h64]
    omega
  obtain ⟨ct, hct⟩ := @EncryptionAlgorithm.encryptSectors_isSome C ea buffer
    (UInt64.ofNat pass.writeOffset / encryptionDataUnitSize)
    (UInt64.ofNat n / encryptionDataUnitSize) encryptionDataUnitSize (by rw [hcount]; omega)
    (by rw [hcount]; simp only [bytesPerXtsBlock]; omega)
  have hlen : (ct.take n).length = n := by
    rw [List.length_take, EncryptionAlgorithm.length_encryptSectors hct, Nat.min_eq_left hn]
  obtain ⟨file, hwrite⟩ := @OpenFile.write_isOk _ _ (ct.take n) hio hdev
    (by rw [hlen]; exact hpos)
  refine ⟨{ file := file, writeOffset := pass.writeOffset + n }, ?_⟩
  unfold DataPass.writeEncrypted
  simp only [hct, bind_eq_ok]
  exact ⟨file, hwrite, rfl⟩

theorem fillFrom_isOk (C : Ciphers) (ea : EncryptionAlgorithm) (hio : io.Sound)
    {endOffset rounds : Nat} : ∀ {pass : DataPass}, pass.file.isDevice = false →
      pass.file.position = pass.writeOffset → pass.file.position ≤ offsetMax →
      endOffset ≤ offsetMax → ∃ pass', fillFrom C ea io endOffset pass rounds = .ok pass' := by
  induction rounds with
  | zero =>
    intro pass _ _ _ _
    exact ⟨pass, rfl⟩
  | succ rounds ih =>
    intro pass hdev hoffset hpos hend
    unfold fillFrom
    by_cases hleft : pass.writeOffset < endOffset
    · rw [if_pos hleft]
      have hn : min optimalWriteSize (endOffset - pass.writeOffset) ≤
          (List.replicate optimalWriteSize (0 : UInt8)).length := by
        rw [List.length_replicate]
        exact Nat.min_le_left _ _
      obtain ⟨mid, hwrite⟩ := writeEncrypted_isOk C ea hio hdev hn (by omega)
      have hround := writeEncrypted_ok hpos hn hwrite
      have hmid : mid.file.position = mid.writeOffset := by
        rw [hround.wrote.position_eq, hround.writeOffset_eq, hoffset]
      obtain ⟨pass', hrest⟩ := ih (hround.wrote.isDevice_eq.trans hdev) hmid
        hround.wrote.position_le hend
      exact ⟨pass', bind_eq_ok.mpr ⟨mid, hwrite, hrest⟩⟩
    · rw [if_neg hleft]
      exact ⟨pass, rfl⟩

/-! ## The headers -/

theorem createHeader_isOk (C : Ciphers) {headerSize : Nat} {o : VolumeHeaderCreationOptions}
    (hs : SectorSizeValid o.sectorSize) (hok : HeaderSizeOk headerSize)
    (hdata : o.dataKey.length = o.ea.algorithm.getKeySize * 2) (hsalt : o.salt.length = saltSize)
    (hkey : o.ea.algorithm.getKeySize * 2 ≤ o.headerKey.length) :
    ∃ buffer, createHeader C headerSize o = .ok (newHeader headerSize o hs, buffer) := by
  have harea : (newHeader headerSize o hs).dataAreaKey.length = dataKeyAreaMaxSize := by
    have hle := getKeySize_le o.ea.algorithm
    simp only [newHeader, List.length_append, List.length_replicate]
    omega
  obtain ⟨data, -, henc⟩ := encryptNew_isSome C (h := newHeader headerSize o hs) hok harea hsalt
    hkey
  have henc' : encryptNew C (newHeader headerSize o hs) headerSize o.salt o.headerKey =
      .ok (o.salt ++ data) := henc
  refine ⟨o.salt ++ data, ?_⟩
  unfold createHeader
  rw [if_neg (by rintro (h | h); exact h hdata; exact h hsalt), dif_pos hs, henc']

theorem fakeHiddenHeader_isOk (C : Ciphers) (options : VolumeCreationOptions)
    {sectorSize : UInt32} (hs : SectorSizeValid sectorSize) (hostSize : UInt64)
    (masterKey salt headerKey : RandStream) :
    ∃ buffer, fakeHiddenHeader C options sectorSize hostSize masterKey salt headerKey =
      .ok buffer := by
  have hkey : options.ea.getKeySize * 2 ≤ largestSerializedKeySize := by
    cases options.ea <;> decide
  unfold fakeHiddenHeader
  simp only [VolumeLayout.getMaxDataSize, bind_eq_ok]
  obtain ⟨buffer, hcreate⟩ := createHeader_isOk C (o :=
    { ea := dataAlgorithm options (masterKey.bytes 0 (options.ea.getKeySize * 2))
      kdf := options.volumeHeaderKdf
      type := .hidden
      sectorSize := sectorSize
      volumeDataStart :=
        hostSize - UInt64.ofNat (VolumeLayout.v2Hidden.getHeaderSize * 2) - options.size
      volumeDataSize := _
      dataKey := masterKey.bytes 0 (options.ea.getKeySize * 2)
      salt := salt.bytes 0 saltSize
      headerKey := headerKey.bytes 0 largestSerializedKeySize })
    hs (headerSizeOk_layout .v2Hidden) (RandStream.length_bytes _ _ _)
    (RandStream.length_bytes _ _ _) (by rw [RandStream.length_bytes]; exact hkey)
  exact ⟨buffer, _, rfl, _, hcreate, rfl⟩

theorem writeHeaderGroup_isOk (hio : io.Sound) {header : Bytes} {fake : Except Exception Bytes}
    {file : OpenFile} (hdev : file.isDevice = false) (hheader : header.length = volumeHeaderSize)
    (hfake : ∃ hidden, fake = .ok hidden ∧ hidden.length = volumeHeaderSize)
    (hpos : file.position + volumeHeaderGroupSize ≤ offsetMax) :
    ∃ file', writeHeaderGroup options io header fake file = .ok file' := by
  obtain ⟨hidden, hhidden, hlen⟩ := hfake
  rw [volumeHeaderGroupSize_eq] at hpos
  obtain ⟨mid, hfirst⟩ := @OpenFile.write_isOk _ _ header hio hdev
    (by rw [hheader]; omega)
  have hwrote := (OpenFile.write_ok (by omega) hfirst).1
  have hmid : mid.position + hidden.length ≤ offsetMax := by
    rw [hwrote.position_eq, hheader, hlen]
    omega
  obtain ⟨file', hsecond⟩ := OpenFile.write_isOk hio (hwrote.isDevice_eq.trans hdev) hmid
  unfold writeHeaderGroup
  by_cases hnormal : options.type = .normal
  · refine ⟨file', bind_eq_ok.mpr ⟨mid, hfirst, ?_⟩⟩
    rw [if_pos hnormal]
    exact bind_eq_ok.mpr ⟨hidden, hhidden, hsecond⟩
  · refine ⟨mid, bind_eq_ok.mpr ⟨mid, hfirst, ?_⟩⟩
    rw [if_neg hnormal]

/-! ## The creation -/

theorem drawMasterKey_isOk {keySize : Nat} (hsize : options.ea.getKeySize = keySize)
    (hkdf : options.volumeHeaderKdf ≠ .argon2)
    (hhalves : slice (draws.masterKey.bytes 0 (keySize * 2)) 0 keySize ≠
      slice (draws.masterKey.bytes 0 (keySize * 2)) keySize keySize) :
    drawMasterKey options draws =
      .ok (draws.masterKey.bytes 0 (options.ea.getKeySize * 2)) := by
  subst hsize
  unfold drawMasterKey
  simp only
  rw [if_neg (fun h => hkdf h.1), if_neg hhalves]

/-- A file-hosted version 2 volume of a size that divides, formatted in full and without a file
    system. -/
structure PlainV2 (K : KeyDerivation) (options : VolumeCreationOptions) (draws : CreationDraws) :
    Prop where
  isDevice : options.isDevice = false
  normal : options.type = .normal
  v2Format : options.v2Format = true
  full : options.quick = false
  fat : options.fat = false
  size_le : options.size.toNat ≤ offsetMax
  headers_le : totalVolumeHeadersSize ≤ options.size
  divides : ∃ usable tableOffset,
    v2FormatSplitDataArea (requestedDataArea options) 512 = some (usable, tableOffset)
  masterKey : drawMasterKey options draws =
    .ok (draws.masterKey.bytes 0 (options.ea.getKeySize * 2))
  headerKey : ∀ salt, ∃ headerKey, deriveHeaderKey K options salt = .ok headerKey ∧
    options.ea.getKeySize * 2 ≤ headerKey.length

theorem createVolume_isOk (C : Ciphers) (hio : io.Sound) (hp : PlainV2 K options draws)
    (disk : Bytes) : ∃ c, createVolume C K options draws io disk = .ok c := by
  obtain ⟨usable, tableOffset, hsplit⟩ := hp.divides
  obtain ⟨headerKey, hderive, hlong⟩ := hp.headerKey (draws.salt.bytes 0 saltSize)
  have hs : SectorSizeValid 512 := by decide
  have hopen : openHost options disk =
      ({ bytes := [], position := 0, isDevice := false }, options.size) := by
    rw [openHost, if_pos ⟨by rw [hp.isDevice]; rfl, hp.normal⟩, hp.full]
    rfl
  have hsector : selectSectorSize options options.size = .ok 512 := by
    rw [selectSectorSize, hp.isDevice]
    rfl
  have hlayout : selectLayout options options.size = .ok .v2Normal := by
    rw [selectLayout, hp.normal]
  have hexact := splitExact_of_valid hs (requestedDataArea options)
  obtain ⟨-, data, table, hd⟩ := v2FormatSplitDataArea_some hexact hsplit
  have hsize : volumeDataSize options .v2Normal 512 = .ok usable := by
    have harea : VolumeLayout.v2Normal.getMaxDataSize options.size =
        .ok (requestedDataArea options) := by
      rw [VolumeLayout.getMaxDataSize, if_neg (UInt64.not_lt.mpr hp.headers_le)]
      rfl
    have husable : usableDataSize options (requestedDataArea options) 512 = .ok usable := by
      rw [usableDataSize, hp.v2Format, hp.full, hsplit]
      rfl
    have hne : ¬ usable < 1 := by
      rw [UInt64.lt_iff_toNat_lt, hd.usable_eq]
      have hpos := Nat.mul_pos hd.data_pos hexact.1
      have hone : (1 : UInt64).toNat = 1 := rfl
      omega
    refine bind_eq_ok.mpr ⟨_, harea, bind_eq_ok.mpr ⟨_, husable, ?_⟩⟩
    rw [if_neg hne]
  obtain ⟨buffer, hcreate⟩ := createHeader_isOk C (o :=
    { ea := dataAlgorithm options (draws.masterKey.bytes 0 (options.ea.getKeySize * 2))
      kdf := options.volumeHeaderKdf
      type := options.type
      sectorSize := 512
      volumeDataStart := volumeDataStart options .v2Normal options.size
      volumeDataSize := usable
      dataKey := draws.masterKey.bytes 0 (options.ea.getKeySize * 2)
      salt := draws.salt.bytes 0 saltSize
      headerKey := headerKey })
    hs (headerSizeOk_layout .v2Normal) (RandStream.length_bytes _ _ _)
    (RandStream.length_bytes _ _ _) hlong
  have hbuffer : buffer.length = volumeHeaderSize := by
    obtain ⟨hs', hheader, hkey, henc⟩ := createHeader_ok hcreate
    rw [hheader] at henc
    exact length_encryptNew_newHeader hs' hkey (by decide) henc
  obtain ⟨fake, hfake⟩ := fakeHiddenHeader_isOk C options hs options.size draws.hiddenMasterKey
    draws.hiddenSalt draws.hiddenHeaderKey
  obtain ⟨file, hgroup⟩ := @writeHeaderGroup_isOk options _ hio _ _
    { bytes := [], position := 0, isDevice := false } rfl hbuffer
    ⟨fake, hfake, length_fakeHiddenHeader hfake⟩ (by decide)
  unfold createVolume
  simp only [hopen, bind_eq_ok]
  exact ⟨_, 512, hsector, _, hlayout, _, hsize, _, hp.masterKey, _, hderive, _, hcreate, _, rfl,
    _, hgroup, rfl⟩

/-- **A plain version 2 volume is created.** -/
theorem creation_isOk (C : Ciphers) (P : Primitives) (fatFormat : FatFormat) (hio : io.Sound)
    (hp : PlainV2 K options draws) (disk : Bytes) :
    ∃ c file, createVolume C K options draws io disk = .ok c ∧
      creationThread C P K fatFormat options draws io c = .ok file := by
  obtain ⟨c, hcreate⟩ := createVolume_isOk C hio hp disk
  have hc := createVolume_ok hcreate
  have hv := hc.v2 hp.v2Format hp.normal
  have hr := hv.regions P
  have hfront := hc.wrote hp.normal
  have hgetSize : c.layout.getDataSize c.header c.hostSize = c.header.volumeDataSize := by
    rw [hv.layout_eq]
    rfl
  have hstart : c.layout.getDataOffset c.header = UInt64.ofNat volumeHeaderGroupSize := by
    rw [hv.layout_eq]
    exact hv.dataStart_eq
  have hgroup : (UInt64.ofNat volumeHeaderGroupSize).toNat = volumeHeaderGroupSize := by decide
  have hbase : (UInt64.ofNat volumeHeaderGroupSize + c.header.volumeDataSize).toNat =
      volumeHeaderGroupSize + c.header.volumeDataSize.toNat := by
    rw [← hr.base_eq, ← hgetSize, ← hstart]
    rfl
  have hsize := hp.size_le
  have harea := hr.area_eq
  have hbehind := hr.behind_eq
  have hbehindLe := hr.behind_le
  have hdev : c.file.isDevice = false := by
    refine hfront.isDevice_eq.trans ?_
    show (openHost options disk).1.isDevice = false
    rw [openHost, if_pos ⟨by rw [hp.isDevice]; rfl, hp.normal⟩]
  have hnotSmall : ¬ c.header.volumeDataSize < 1 := by
    have hpos := hr.usable_pos
    have hone : (1 : UInt64).toNat = 1 := rfl
    rw [UInt64.lt_iff_toNat_lt]
    omega
  -- the data area
  have hseek : c.file.seekAt (UInt64.ofNat volumeHeaderGroupSize) =
      .ok { c.file with position := volumeHeaderGroupSize } := by
    rw [OpenFile.seekAt, if_neg (by decide), hgroup]
  obtain ⟨pass, hfill⟩ := @fillFrom_isOk _ C (fillAlgorithm options draws) hio
    (volumeHeaderGroupSize + c.header.volumeDataSize.toNat)
    (fillRounds (volumeHeaderGroupSize + c.header.volumeDataSize.toNat)
      { file := { c.file with position := volumeHeaderGroupSize }
        writeOffset := volumeHeaderGroupSize })
    { file := { c.file with position := volumeHeaderGroupSize }
      writeOffset := volumeHeaderGroupSize }
    hdev rfl (show volumeHeaderGroupSize ≤ offsetMax by decide) (by omega)
  have hpass := fillFrom_ok (show volumeHeaderGroupSize ≤ offsetMax by decide)
    (le_fillRounds _ _) hfill
  rw [Nat.add_sub_cancel_left] at hpass
  have hdata : writeDataArea C fatFormat options draws io c c.header.volumeDataSize
      (volumeHeaderGroupSize + c.header.volumeDataSize.toNat)
      { file := { c.file with position := volumeHeaderGroupSize }
        writeOffset := volumeHeaderGroupSize } = .ok pass := by
    have hformat : ∀ p, formatFilesystem C fatFormat options io c c.header.volumeDataSize p =
        .ok p := by
      intro p
      rw [formatFilesystem, hp.fat]
      rfl
    refine bind_eq_ok.mpr ⟨_, hformat _, ?_⟩
    rw [hp.full, if_neg (by decide)]
    exact hfill
  -- the table
  have hlength : volumeHeaderGroupSize + c.header.volumeDataSize.toNat ≤
      pass.file.bytes.length := by
    have hlen := hpass.wrote.length_eq
    have hpos := hr.usable_pos
    rw [if_neg (by omega)] at hlen
    exact hlen ▸ Nat.le_max_right _ _
  have hpassDev : pass.file.isDevice = false := hpass.wrote.isDevice_eq.trans hdev
  obtain ⟨bytes, hpopulate⟩ := @V2SectorMacIo.populateFrom_isOk P (creationMac P c) (UInt64.ofNat volumeHeaderGroupSize)
    (populateIo (creationMac P c) (UInt64.ofNat volumeHeaderGroupSize) pass.file io)
    (fun done => by simp only [populateIo, (hio _ _).1, Bool.not_true])
    (fun done => by
      simp only [populateIo, OpenFile.takes, (hio _ _).2, hpassDev, Bool.not_false,
        Bool.true_or, Bool.and_self, if_true])
    ((creationMac P c).dataSectors.toNat - 0) pass.file.bytes 0
    (Nat.le_refl _) (by have htable := hr.table_le; omega)
    (by rw [hgroup, hr.usable_eq]; omega) (by rw [hgroup, hr.usable_eq]; exact hlength)
  have harmed : populateV2 P options io c pass.file =
      .ok { pass.file with bytes := bytes, position := (behindTable c).toNat } := by
    unfold populateV2
    rw [hp.v2Format, if_neg (by decide)]
    simp only [V2SectorMacIo.populateTable, hstart]
    rw [if_neg (by simp [creationMac, V2SectorMacIo.configure, V2SectorMacIo.isActive]),
      hpopulate]
    simp only [OpenFile.seekAt]
    rw [if_neg (by omega)]
  -- the backup headers
  obtain ⟨o, hs, hheader, hea, hkey, -, -⟩ := hc.header_eq
  have hdataKey : o.dataKey.length = o.ea.algorithm.getKeySize * 2 := by
    rw [hkey, hea, hc.masterKey_ok]
    rfl
  have hdataArea : c.header.dataAreaKey.length = dataKeyAreaMaxSize := by
    have hle := getKeySize_le o.ea.algorithm
    rw [hheader]
    simp only [newHeader, List.length_append, List.length_replicate]
    omega
  obtain ⟨headerKey, hderive, hlong⟩ := hp.headerKey (draws.backupSalt.bytes 0 saltSize)
  have hheaderSize : c.header.headerSize = c.layout.getHeaderSize := by
    rw [hheader]
    rfl
  have halgorithm : c.header.ea.algorithm = options.ea := by
    rw [hheader]
    show o.ea.algorithm = options.ea
    rw [hea]
    rfl
  obtain ⟨data, -, henc⟩ := @encryptNew_isSome c.header (draws.backupSalt.bytes 0 saltSize) headerKey C
    (by rw [hheaderSize]; exact headerSizeOk_layout _) hdataArea (RandStream.length_bytes _ _ _)
    (by rw [halgorithm]; exact hlong)
  rw [hheaderSize] at henc
  have hbackup : (draws.backupSalt.bytes 0 saltSize ++ data).length = volumeHeaderSize := by
    rw [hheader, hv.layout_eq] at henc
    exact length_encryptNew_newHeader hs hdataKey (by decide) henc
  obtain ⟨fake, hfake⟩ := fakeHiddenHeader_isOk C options hv.sectorSize_valid c.hostSize
    draws.backupHiddenMasterKey draws.backupHiddenSalt draws.backupHiddenHeaderKey
  obtain ⟨file, hgroupOk⟩ := @writeHeaderGroup_isOk options _ hio _ _
    { pass.file with bytes := bytes, position := (behindTable c).toNat } hpassDev
    hbackup ⟨fake, hfake, length_fakeHiddenHeader hfake⟩
    (show (behindTable c).toNat + volumeHeaderGroupSize ≤ offsetMax by omega)
  have hstay : seekBackup options c
      { pass.file with bytes := bytes, position := (behindTable c).toNat } =
      .ok { pass.file with bytes := bytes, position := (behindTable c).toNat } := by
    rw [seekBackup, if_neg (by rw [hp.full, hp.normal]; simp)]
  refine ⟨c, file, hcreate, ?_⟩
  unfold creationThread
  rw [hgetSize, hstart]
  simp only [hbase, hgroup]
  rw [if_neg hnotSmall]
  refine bind_eq_ok.mpr ⟨_, hseek, bind_eq_ok.mpr ⟨_, hdata, bind_eq_ok.mpr ⟨_, harmed, ?_⟩⟩⟩
  exact bind_eq_ok.mpr ⟨_, hderive, bind_eq_ok.mpr ⟨_, henc, bind_eq_ok.mpr ⟨_, hstay,
    hgroupOk⟩⟩⟩

end

end VolumeCreator

end VeraCrypt
