import VeraCrypt.Core.VolumeCreator
import VeraCrypt.Lib.Except
import VeraCrypt.Volume.HeaderCrypt
import VeraCrypt.Volume.V2Split

/-!
# Where a creation ends

The creator writes from the front to the back, so what it writes is followed by one relation
between the file before and after (`Wrote`): the position moves on, and the file grows to it
where it was shorter. The table of a version 2 volume is written at its offsets and grows the
file no further than the creator then seeks. The backup headers are the last thing written,
and they end the host if and only if data and table fill the area between the headers.
-/

set_option autoImplicit false

namespace VeraCrypt

open Lib

/-! ## Sequential writes -/

/-- `file'` is `file` after sequential writes of `n` bytes in all. -/
structure Wrote (file file' : OpenFile) (n : Nat) : Prop where
  isDevice_eq : file'.isDevice = file.isDevice
  position_eq : file'.position = file.position + n
  length_eq : file'.bytes.length =
    if n = 0 then file.bytes.length else max file.bytes.length (file.position + n)
  device : file.isDevice = true → file'.bytes.length = file.bytes.length
  position_le : file'.position ≤ offsetMax

theorem Wrote.refl {file : OpenFile} (hpos : file.position ≤ offsetMax) : Wrote file file 0 :=
  ⟨rfl, rfl, rfl, fun _ => rfl, hpos⟩

theorem Wrote.trans {file file' file'' : OpenFile} {n m : Nat} (h : Wrote file file' n)
    (h' : Wrote file' file'' m) : Wrote file file'' (n + m) := by
  refine ⟨h'.isDevice_eq.trans h.isDevice_eq, ?_, ?_, ?_, h'.position_le⟩
  · rw [h'.position_eq, h.position_eq, Nat.add_assoc]
  · rw [h'.length_eq, h.length_eq, h.position_eq]
    split <;> split <;> split <;> omega
  · intro hdev
    rw [h'.device (h.isDevice_eq.trans hdev), h.device hdev]

theorem Wrote.length_le {file file' : OpenFile} {n : Nat} (h : Wrote file file' n) :
    file.bytes.length ≤ file'.bytes.length := by
  rw [h.length_eq]
  split <;> omega

/-- **One write that returned.** -/
theorem OpenFile.write_ok {file file' : OpenFile} {io : HostIo} {data : Bytes}
    (hpos : file.position ≤ offsetMax) (h : file.write io data = .ok file') :
    Wrote file file' data.length ∧
      file'.bytes = pwrite 0 file.bytes file.position data := by
  have h64 : (UInt64.ofNat file.position).toNat = file.position := by
    rw [UInt64.toNat_ofNat']
    exact Nat.mod_eq_of_lt (Nat.lt_of_le_of_lt hpos (by decide))
  unfold OpenFile.write at h
  simp only [File.writeAt, h64] at h
  generalize hacc : (if file.takes io file.position data.length then none else some 0) = accepts
    at h
  by_cases hdone : File.stored (UInt64.ofNat file.position) data.length accepts = data.length
  · simp only [hdone, decide_true, if_true, List.take_length] at h
    have hroom : data.length ≤ offsetMax - file.position := by
      have hle : File.stored (UInt64.ofNat file.position) data.length accepts ≤
          offsetMax - (UInt64.ofNat file.position).toNat := Nat.min_le_right _ _
      rw [hdone, h64] at hle
      exact hle
    have htakes : data ≠ [] → file.takes io file.position data.length = true := by
      intro hne
      by_contra hno
      rw [if_neg hno] at hacc
      rw [← hacc, File.stored, Option.getD_some, Nat.zero_min, Nat.zero_min] at hdone
      exact hne (List.eq_nil_of_length_eq_zero hdone.symm)
    cases h
    refine ⟨⟨rfl, rfl, ?_, ?_, ?_⟩, rfl⟩
    · by_cases hne : data = []
      · rw [hne, pwrite_nil]
        rfl
      · rw [length_pwrite 0 _ _ hne, if_neg (fun h0 => hne (List.eq_nil_of_length_eq_zero h0))]
    · intro hdev
      show (pwrite 0 file.bytes file.position data).length = file.bytes.length
      by_cases hne : data = []
      · rw [hne, pwrite_nil]
      · have hin := htakes hne
        simp only [OpenFile.takes, hdev, Bool.not_true, Bool.false_or, Bool.and_eq_true,
          decide_eq_true_iff] at hin
        rw [length_pwrite 0 _ _ hne, Nat.max_eq_left hin.2]
    · show file.position + data.length ≤ offsetMax
      omega
  · simp only [decide_eq_false hdone] at h
    exact absurd h (by simp)

theorem OpenFile.seekAt_ok {file file' : OpenFile} {position : UInt64}
    (h : file.seekAt position = .ok file') :
    file' = { file with position := position.toNat } ∧ file'.position ≤ offsetMax := by
  unfold OpenFile.seekAt at h
  obtain ⟨hle, heq⟩ := guard_eq_ok.mp h
  cases heq
  exact ⟨rfl, Nat.not_lt.mp hle⟩

namespace VolumeCreator

section
variable {C : Ciphers} {ea : EncryptionAlgorithm} {io : HostIo}

/-! ## The data area -/

/-- A step of the pass that wrote `n` bytes. -/
structure Passed (pass pass' : DataPass) (n : Nat) : Prop where
  wrote : Wrote pass.file pass'.file n
  writeOffset_eq : pass'.writeOffset = pass.writeOffset + n

theorem Passed.trans {pass pass' pass'' : DataPass} {n m : Nat} (h : Passed pass pass' n)
    (h' : Passed pass' pass'' m) : Passed pass pass'' (n + m) :=
  ⟨h.wrote.trans h'.wrote, by rw [h'.writeOffset_eq, h.writeOffset_eq, Nat.add_assoc]⟩

theorem writeEncrypted_ok {pass pass' : DataPass} {buffer : Bytes} {n : Nat}
    (hpos : pass.file.position ≤ offsetMax) (hn : n ≤ buffer.length)
    (h : pass.writeEncrypted C ea io buffer n = .ok pass') : Passed pass pass' n := by
  unfold DataPass.writeEncrypted at h
  cases hct : ea.encryptSectors C buffer
      (UInt64.ofNat pass.writeOffset / encryptionDataUnitSize)
      (UInt64.ofNat n / encryptionDataUnitSize) encryptionDataUnitSize with
  | none =>
    rw [hct] at h
    exact absurd h (by simp)
  | some ct =>
    simp only [hct, bind_eq_ok] at h
    obtain ⟨file, hwrite, hpass⟩ := h
    have hlen : (ct.take n).length = n := by
      rw [List.length_take, EncryptionAlgorithm.length_encryptSectors hct, Nat.min_eq_left hn]
    have hwrote := (OpenFile.write_ok hpos hwrite).1
    rw [hlen] at hwrote
    cases hpass
    exact ⟨hwrote, rfl⟩

theorem flushOutputBuffer_ok {pass pass' : DataPass} {outputBuffer : Bytes}
    (hpos : pass.file.position ≤ offsetMax)
    (h : flushOutputBuffer C ea io pass outputBuffer = .ok pass') :
    Passed pass pass' outputBuffer.length := by
  unfold flushOutputBuffer at h
  by_cases hne : 0 < outputBuffer.length
  · rw [if_pos hne] at h
    exact writeEncrypted_ok hpos (Nat.le_refl _) h
  · rw [if_neg hne] at h
    cases h
    rw [Nat.eq_zero_of_not_pos hne]
    exact ⟨Wrote.refl hpos, rfl⟩

/-- The sectors of the formatter reach the file one behind the other. -/
theorem writeSectors_ok {sectors : List Bytes} : ∀ {pass pass' : DataPass} {outputBuffer : Bytes},
    pass.file.position ≤ offsetMax →
    writeSectors C ea io pass outputBuffer sectors = .ok pass' →
    Passed pass pass' (outputBuffer.length + sectors.flatten.length) := by
  induction sectors with
  | nil =>
    intro pass pass' outputBuffer hpos h
    exact flushOutputBuffer_ok hpos h
  | cons sector sectors ih =>
    intro pass pass' outputBuffer hpos h
    have hsplit : outputBuffer.length + (sector :: sectors).flatten.length =
        (outputBuffer ++ sector).length + sectors.flatten.length := by
      rw [List.flatten_cons, List.length_append, List.length_append, Nat.add_assoc]
    rw [hsplit]
    unfold writeSectors at h
    obtain ⟨-, h⟩ := guard_eq_ok.mp h
    by_cases hfull : optimalWriteSize ≤ (outputBuffer ++ sector).length
    · rw [if_pos hfull, bind_eq_ok] at h
      obtain ⟨mid, hflush, hrest⟩ := h
      have hfirst := flushOutputBuffer_ok hpos hflush
      have hlater := ih hfirst.wrote.position_le hrest
      rw [List.length_nil, Nat.zero_add] at hlater
      exact hfirst.trans hlater
    · rw [if_neg hfull] at h
      exact ih hpos h

/-- The rounds of the fill reach the end. -/
theorem fillFrom_ok {endOffset rounds : Nat} : ∀ {pass pass' : DataPass},
    pass.file.position ≤ offsetMax →
    endOffset - pass.writeOffset ≤ rounds * optimalWriteSize →
    fillFrom C ea io endOffset pass rounds = .ok pass' →
    Passed pass pass' (endOffset - pass.writeOffset) := by
  induction rounds with
  | zero =>
    intro pass pass' hpos henough h
    have hdone : endOffset - pass.writeOffset = 0 := by omega
    cases h
    rw [hdone]
    exact ⟨Wrote.refl hpos, rfl⟩
  | succ rounds ih =>
    intro pass pass' hpos henough h
    unfold fillFrom at h
    by_cases hleft : pass.writeOffset < endOffset
    · rw [if_pos hleft, bind_eq_ok] at h
      obtain ⟨mid, hwrite, hrest⟩ := h
      have hn : min optimalWriteSize (endOffset - pass.writeOffset) ≤
          (List.replicate optimalWriteSize (0 : UInt8)).length := by
        rw [List.length_replicate]
        exact Nat.min_le_left _ _
      have hround := writeEncrypted_ok hpos hn hwrite
      have hmid := hround.writeOffset_eq
      rw [Nat.succ_mul] at henough
      have hlater := ih hround.wrote.position_le (by omega) hrest
      have hall := hround.trans hlater
      have hsum : min optimalWriteSize (endOffset - pass.writeOffset) +
          (endOffset - mid.writeOffset) = endOffset - pass.writeOffset := by omega
      rwa [hsum] at hall
    · rw [if_neg hleft] at h
      have hdone : endOffset - pass.writeOffset = 0 := by omega
      cases h
      rw [hdone]
      exact ⟨Wrote.refl hpos, rfl⟩

theorem le_fillRounds (endOffset : Nat) (pass : DataPass) :
    endOffset - pass.writeOffset ≤ fillRounds endOffset pass * optimalWriteSize := by
  unfold fillRounds
  have hpos : 0 < optimalWriteSize := by decide
  have hdiv := Nat.div_add_mod (endOffset - pass.writeOffset + optimalWriteSize - 1)
    optimalWriteSize
  have hmod := Nat.mod_lt (endOffset - pass.writeOffset + optimalWriteSize - 1) hpos
  rw [Nat.mul_comm] at hdiv
  omega

end

/-- The bytes of the file system that the formatter hands over. -/
def formattedBytes (fatFormat : FatFormat) (options : VolumeCreationOptions)
    (filesystemSize : UInt64) (sectorSize : UInt32) : Nat :=
  if options.fat then
    match fatFormat filesystemSize options.filesystemClusterSize sectorSize with
    | .ok sectors => sectors.flatten.length
    | .error _ => 0
  else 0

section
variable {C : Ciphers} {P : Primitives} {K : KeyDerivation} {fatFormat : FatFormat}
  {options : VolumeCreationOptions} {draws : CreationDraws} {io : HostIo} {c : Creation}

theorem formatFilesystem_ok {size : UInt64} {pass pass' : DataPass}
    (hpos : pass.file.position ≤ offsetMax)
    (h : formatFilesystem C fatFormat options io c size pass = .ok pass') :
    Passed pass pass' (formattedBytes fatFormat options size c.sectorSize) := by
  unfold formatFilesystem at h
  unfold formattedBytes
  cases hfat : options.fat with
  | false =>
    simp only [hfat, Bool.not_false, if_true] at h
    cases h
    exact ⟨Wrote.refl hpos, rfl⟩
  | true =>
    simp only [hfat, Bool.not_true, Bool.false_eq_true, if_false] at h
    obtain ⟨-, h⟩ := guard_eq_ok.mp h
    obtain ⟨sectors, hsectors, hwrite⟩ := bind_eq_ok.mp h
    simp only [hsectors, if_true]
    have hpass := writeSectors_ok hpos hwrite
    rwa [List.length_nil, Nat.zero_add] at hpass

/-- A full format writes the file system and fills up to the end of the area. -/
theorem writeDataArea_ok {size : UInt64} {endOffset : Nat} {pass pass' : DataPass}
    (hquick : options.quick = false) (hpos : pass.file.position ≤ offsetMax)
    (h : writeDataArea C fatFormat options draws io c size endOffset pass = .ok pass') :
    Passed pass pass' (max (formattedBytes fatFormat options size c.sectorSize)
      (endOffset - pass.writeOffset)) := by
  unfold writeDataArea at h
  obtain ⟨mid, hformat, hfill⟩ := bind_eq_ok.mp h
  rw [hquick, if_neg (by decide)] at hfill
  have hfirst := formatFilesystem_ok hpos hformat
  have hlater := fillFrom_ok hfirst.wrote.position_le (le_fillRounds _ _) hfill
  have hall := hfirst.trans hlater
  rw [hfirst.writeOffset_eq] at hall
  generalize formattedBytes fatFormat options size c.sectorSize = formatted at hall
  have hsum : formatted + (endOffset - (pass.writeOffset + formatted)) =
      max formatted (endOffset - pass.writeOffset) := by omega
  rwa [hsum] at hall

/-! ## The table -/

/-- What populating leaves of the file: a length, and the position behind the table. -/
structure Populated (P : Primitives) (c : Creation) (file file' : OpenFile) : Prop where
  isDevice_eq : file'.isDevice = file.isDevice
  position_eq : file'.position = (behindTable c).toNat
  position_le : file'.position ≤ offsetMax
  length_le : file.bytes.length ≤ file'.bytes.length
  length_le_table : file'.bytes.length ≤ max file.bytes.length
    ((creationMac P c).tableBaseOffset.toNat +
      (creationMac P c).dataSectors.toNat * v2MacTagLen)
  device : file.isDevice = true → file'.bytes.length = file.bytes.length

theorem populateV2_ok {file file' : OpenFile} (hv2 : options.v2Format = true)
    (h : populateV2 P options io c file = .ok file') : Populated P c file file' := by
  unfold populateV2 at h
  simp only [hv2, Bool.not_true, Bool.false_eq_true, if_false] at h
  cases hpop : (creationMac P c).populateTable P file.bytes (c.layout.getDataOffset c.header)
      (populateIo (creationMac P c) (c.layout.getDataOffset c.header) file io) with
  | mk bytes result =>
    cases result with
    | error e =>
      rw [hpop] at h
      exact absurd h (by simp)
    | ok u =>
      rw [hpop] at h
      obtain ⟨rfl, hmax⟩ := OpenFile.seekAt_ok h
      unfold V2SectorMacIo.populateTable at hpop
      rw [if_neg (by simp [creationMac, V2SectorMacIo.configure, V2SectorMacIo.isActive])] at hpop
      have hstored : ∀ done,
          File.stored ((creationMac P c).slotPosition (UInt64.ofNat done))
            (min V2SectorMacIo.sectorsPerChunk ((creationMac P c).dataSectors.toNat - done) *
              v2MacTagLen)
            ((populateIo (creationMac P c) (c.layout.getDataOffset c.header) file io).accepts
              done) ≤
            min V2SectorMacIo.sectorsPerChunk ((creationMac P c).dataSectors.toNat - done) *
              v2MacTagLen := fun done => File.stored_le _ _ _
      have htable := @V2SectorMacIo.length_populateFrom_le _ _ _ _
        ((creationMac P c).tableBaseOffset.toNat +
          (creationMac P c).dataSectors.toNat * v2MacTagLen) (fun done hlt => Or.inr (by
        have hslot := (creationMac P c).slotPosition_le done
        have hle := hstored done
        simp only [v2MacTagLen, V2SectorMacIo.sectorsPerChunk] at hslot hle ⊢
        omega)) _ _ _ _ (Nat.le_refl _) hpop
      refine ⟨rfl, rfl, hmax, htable.1, htable.2, ?_⟩
      intro hdev
      have hdevice := @V2SectorMacIo.length_populateFrom_le _ _ _ _ file.bytes.length
        (fun done hlt => by
          by_cases htakes : file.takes io
              ((creationMac P c).slotPosition (UInt64.ofNat done)).toNat
              (min V2SectorMacIo.sectorsPerChunk ((creationMac P c).dataSectors.toNat - done) *
                v2MacTagLen) = true
          · have hin := htakes
            simp only [OpenFile.takes, hdev, Bool.not_true, Bool.false_or, Bool.and_eq_true,
              decide_eq_true_iff] at hin
            exact Or.inr (Nat.le_trans (Nat.add_le_add_left (hstored done) _) hin.2)
          · left
            simp only [populateIo, if_neg htakes, File.stored, Option.getD_some, Nat.zero_min])
        _ _ _ _ (Nat.le_refl _) hpop
      exact Nat.le_antisymm (Nat.le_trans hdevice.2 (Nat.le_of_eq (Nat.max_self _))) hdevice.1

/-! ## The headers -/

theorem length_encryptNew_newHeader {headerSize : Nat} {o : VolumeHeaderCreationOptions}
    (hs : SectorSizeValid o.sectorSize) (hkey : o.dataKey.length = o.ea.algorithm.getKeySize * 2)
    (hsize : keyslotPayloadSize + encryptedHeaderDataOffset ≤ headerSize)
    {salt headerKey buffer : Bytes}
    (h : encryptNew C (newHeader headerSize o hs) headerSize salt headerKey = .ok buffer) :
    buffer.length = headerSize := by
  obtain ⟨-, hsalt, -, data, hdata, rfl⟩ := encryptNew_ok h
  have harea : (newHeader headerSize o hs).dataAreaKey.length = dataKeyAreaMaxSize := by
    have hle := getKeySize_le o.ea.algorithm
    simp only [newHeader, List.length_append, List.length_replicate]
    omega
  have hlen := EncryptionAlgorithm.length_encryptBuffer hdata
  have hwhole := length_serialize (newHeader headerSize o hs)
    (headerSize - encryptedHeaderDataOffset) harea (by omega)
  rw [List.length_append, hlen, hsalt]
  have hheader : (newHeader headerSize o hs).headerSize = headerSize := rfl
  rw [hheader, hwhole]
  simp only [encryptedHeaderDataOffset] at hsize ⊢
  omega

theorem createHeader_ok {headerSize : Nat} {o : VolumeHeaderCreationOptions}
    {header : VolumeHeader} {buffer : Bytes}
    (h : createHeader C headerSize o = .ok (header, buffer)) :
    ∃ hs : SectorSizeValid o.sectorSize, header = newHeader headerSize o hs ∧
      o.dataKey.length = o.ea.algorithm.getKeySize * 2 ∧
      encryptNew C header headerSize o.salt o.headerKey = .ok buffer := by
  unfold createHeader at h
  obtain ⟨hlen, h⟩ := guard_eq_ok.mp h
  by_cases hs : SectorSizeValid o.sectorSize
  · rw [dif_pos hs] at h
    cases henc : encryptNew C (newHeader headerSize o hs) headerSize o.salt o.headerKey with
    | error e =>
      rw [henc] at h
      exact absurd h (by simp)
    | ok headerBuffer =>
      rw [henc] at h
      cases h
      exact ⟨hs, rfl, by by_contra hne; exact hlen (Or.inl hne), henc⟩
  · rw [dif_neg hs] at h
    exact absurd h (by simp)

theorem length_fakeHiddenHeader {sectorSize : UInt32} {hostSize : UInt64}
    {masterKey salt headerKey : RandStream} {buffer : Bytes}
    (h : fakeHiddenHeader C options sectorSize hostSize masterKey salt headerKey = .ok buffer) :
    buffer.length = volumeHeaderSize := by
  unfold fakeHiddenHeader at h
  simp only [bind_eq_ok] at h
  obtain ⟨size, -, ⟨header, buffer'⟩, hcreate, heq⟩ := h
  obtain ⟨hs, rfl, hkey, henc⟩ := createHeader_ok hcreate
  cases heq
  exact length_encryptNew_newHeader hs hkey (by decide) henc

theorem volumeHeaderGroupSize_eq :
    volumeHeaderGroupSize = volumeHeaderSize + volumeHeaderSize := Nat.two_mul _

/-- Both headers of a group are written, the first one where the file stands. -/
theorem writeHeaderGroup_ok {header : Bytes} {fake : Except Exception Bytes}
    {file file' : OpenFile} (hnormal : options.type = .normal)
    (hpos : file.position ≤ offsetMax) (hheader : header.length = volumeHeaderSize)
    (hfake : ∀ hidden, fake = .ok hidden → hidden.length = volumeHeaderSize)
    (h : writeHeaderGroup options io header fake file = .ok file') :
    Wrote file file' volumeHeaderGroupSize ∧
      slice file'.bytes file.position volumeHeaderSize = header := by
  unfold writeHeaderGroup at h
  obtain ⟨mid, hfirst, h⟩ := bind_eq_ok.mp h
  rw [if_pos hnormal] at h
  obtain ⟨hidden, hhidden, hsecond⟩ := bind_eq_ok.mp h
  obtain ⟨hwrote, hbytes⟩ := OpenFile.write_ok hpos hfirst
  obtain ⟨hwrote', hbytes'⟩ := OpenFile.write_ok hwrote.position_le hsecond
  rw [hheader] at hwrote
  rw [hfake hidden hhidden] at hwrote'
  have hboth := hwrote.trans hwrote'
  rw [← volumeHeaderGroupSize_eq] at hboth
  refine ⟨hboth, ?_⟩
  have hin : file.position + volumeHeaderSize ≤ mid.bytes.length := by
    rw [hwrote.length_eq, if_neg (by decide)]
    exact Nat.le_max_right _ _
  rw [hbytes', slice_pwrite_before 0 hin (Nat.le_of_eq hwrote.position_eq.symm), hbytes, ← hheader]
  exact slice_pwrite_self 0 _ _ _

/-! ## What `CreateVolume` leaves -/

/-- A creation that got as far as the thread. -/
structure Created (options : VolumeCreationOptions) (disk : Bytes) (c : Creation) : Prop where
  hostSize_eq : c.hostSize = (openHost options disk).2
  sectorSize_ok : selectSectorSize options c.hostSize = .ok c.sectorSize
  layout_ok : selectLayout options c.hostSize = .ok c.layout
  dataSize_ok : volumeDataSize options c.layout c.sectorSize = .ok c.header.volumeDataSize
  masterKey_ok : c.masterKey.length = options.ea.getKeySize * 2
  header_eq : ∃ (o : VolumeHeaderCreationOptions) (hs : SectorSizeValid o.sectorSize),
    c.header = newHeader c.layout.getHeaderSize o hs ∧
      o.ea = dataAlgorithm options c.masterKey ∧ o.dataKey = c.masterKey ∧
      o.sectorSize = c.sectorSize ∧
      o.volumeDataStart = volumeDataStart options c.layout c.hostSize
  wrote : options.type = .normal →
    Wrote { (openHost options disk).1 with position := 0 } c.file volumeHeaderGroupSize

theorem createVolume_ok {disk : Bytes} (h : createVolume C K options draws io disk = .ok c) :
    Created options disk c := by
  unfold createVolume at h
  simp only [bind_eq_ok] at h
  obtain ⟨sectorSize, hsector, layout, hlayout, dataSize, hdata, masterKey, hmaster, headerKey,
    hderive, ⟨header, buffer⟩, hcreate, file, hseek, file', hgroup, heq⟩ := h
  cases heq
  obtain ⟨hs, rfl, hkey, henc⟩ := createHeader_ok hcreate
  obtain ⟨rfl, hpos⟩ := OpenFile.seekAt_ok hseek
  refine ⟨rfl, hsector, hlayout, hdata, ?_, ⟨_, hs, rfl, rfl, rfl, rfl, rfl⟩, ?_⟩
  · unfold drawMasterKey at hmaster
    obtain ⟨-, hmaster⟩ := guard_eq_ok.mp hmaster
    obtain ⟨-, hmaster⟩ := guard_eq_ok.mp hmaster
    cases hmaster
    exact RandStream.length_bytes _ _ _
  · intro hnormal
    have hl : layout = .v2Normal := by
      rw [selectLayout, hnormal] at hlayout
      cases hlayout
      rfl
    subst hl
    have hbuffer := length_encryptNew_newHeader hs hkey (by decide) henc
    exact (writeHeaderGroup_ok hnormal hpos hbuffer
      (fun hidden hhidden => length_fakeHiddenHeader hhidden) hgroup).1

end

/-! ## The geometry -/

/-- The sector size a creation asks for. -/
def requestedSectorSize (options : VolumeCreationOptions) : UInt32 :=
  if options.isDevice then options.deviceSectorSize else 512

/-- The data area of a normal volume of the requested size. -/
def requestedDataArea (options : VolumeCreationOptions) : UInt64 :=
  options.size - totalVolumeHeadersSize

section
variable {C : Ciphers} {P : Primitives} {K : KeyDerivation} {fatFormat : FatFormat}
  {options : VolumeCreationOptions} {draws : CreationDraws} {io : HostIo} {disk : Bytes}
  {c : Creation}

/-- What has been settled of a normal version 2 volume. -/
structure V2Created (options : VolumeCreationOptions) (c : Creation) : Prop where
  full : options.quick = false
  layout_eq : c.layout = .v2Normal
  dataStart_eq : c.header.encryptedAreaStart = UInt64.ofNat volumeHeaderGroupSize
  sectorSize_eq : c.sectorSize = requestedSectorSize options
  sectorSize_valid : SectorSizeValid c.sectorSize
  size_le : totalVolumeHeadersSize ≤ options.size
  split : ∃ tableOffset, v2FormatSplitDataArea (requestedDataArea options) c.sectorSize =
    some (c.header.volumeDataSize, tableOffset)

/-- An area of nothing is not divided. -/
theorem v2FormatSplitDataArea_zero {sectorSize : UInt32} (hs : SectorSizeValid sectorSize) :
    v2FormatSplitDataArea 0 sectorSize = none := by
  obtain ⟨hlow, hhigh, -⟩ := hs
  have hne : sectorSize ≠ 0 := by
    rintro rfl
    exact absurd hlow (by decide)
  have hsmall : (0 : UInt64) < 2 * v2SectorBytes sectorSize := by
    rw [UInt32.le_iff_toNat_le] at hlow hhigh
    have hlow' : 512 ≤ sectorSize.toNat := hlow
    have hhigh' : sectorSize.toNat ≤ 4096 := hhigh
    have htwo : (2 : UInt64).toNat = 2 := rfl
    have hzero : (0 : UInt64).toNat = 0 := rfl
    rw [v2SectorBytes, if_neg hne, UInt64.lt_iff_toNat_lt, UInt64.toNat_mul,
      UInt32.toNat_toUInt64, htwo, hzero]
    omega
  unfold v2FormatSplitDataArea
  simp only
  rw [if_pos hsmall]

theorem Created.v2 (hc : Created options disk c) (hv2 : options.v2Format = true)
    (hnormal : options.type = .normal) : V2Created options c := by
  have hlayout : c.layout = .v2Normal := by
    have h := hc.layout_ok
    rw [selectLayout, hnormal] at h
    exact (Except.ok.inj h).symm
  have hsector : c.sectorSize = requestedSectorSize options := by
    have h := hc.sectorSize_ok
    unfold selectSectorSize at h
    unfold requestedSectorSize
    cases hdev : options.isDevice with
    | false =>
      rw [hdev] at h
      exact (Except.ok.inj h).symm
    | true =>
      rw [hdev] at h
      obtain ⟨-, h⟩ := guard_eq_ok.mp h
      obtain ⟨-, h⟩ := guard_eq_ok.mp h
      exact (Except.ok.inj h).symm
  obtain ⟨o, hs, hheader, -, -, hoSector, hoStart⟩ := hc.header_eq
  have hvalid : SectorSizeValid c.sectorSize := by
    rw [← hoSector]
    exact hs
  obtain ⟨area, harea, h⟩ := bind_eq_ok.mp hc.dataSize_ok
  obtain ⟨size, husable, h⟩ := bind_eq_ok.mp h
  obtain ⟨-, h⟩ := guard_eq_ok.mp h
  unfold usableDataSize at husable
  rw [hv2] at husable
  obtain ⟨hfull, husable⟩ := guard_eq_ok.mp husable
  rw [hlayout] at harea
  cases hsplit : v2FormatSplitDataArea area c.sectorSize with
  | none =>
    rw [hsplit] at husable
    exact absurd husable (by simp)
  | some split =>
    obtain ⟨usable, tableOffset⟩ := split
    rw [hsplit] at husable
    cases husable
    cases h
    have hsize : ¬ options.size < totalVolumeHeadersSize := by
      intro hlt
      have hzero : area = 0 := by
        have h0 := Except.ok.inj harea
        rw [if_pos hlt] at h0
        exact h0.symm
      rw [hzero, v2FormatSplitDataArea_zero hvalid] at hsplit
      exact absurd hsplit (by simp)
    have hrequested : area = requestedDataArea options := by
      have h0 := Except.ok.inj harea
      rw [if_neg hsize] at h0
      exact h0.symm
    refine ⟨by simpa using hfull, hlayout, ?_, hsector, hvalid, UInt64.not_lt.mp hsize,
      tableOffset, ?_⟩
    · rw [hheader]
      show o.volumeDataStart = _
      rw [hoStart, volumeDataStart, hnormal, hlayout]
      rfl
    · rw [← hrequested]
      exact hsplit

theorem v2SectorBytes_of_valid {sectorSize : UInt32} (hs : SectorSizeValid sectorSize) :
    v2SectorBytes sectorSize = sectorSize.toUInt64 := by
  have hne : sectorSize ≠ 0 := by
    rintro rfl
    exact absurd hs.1 (by decide)
  rw [v2SectorBytes, if_neg hne]

theorem splitExact_of_valid {sectorSize : UInt32} (hs : SectorSizeValid sectorSize)
    (total : UInt64) : SplitExact total (v2SectorBytes sectorSize) := by
  have hlow : 512 ≤ sectorSize.toNat := UInt32.le_iff_toNat_le.mp hs.1
  rw [v2SectorBytes_of_valid hs]
  refine splitExact_of_le total ?_ sectorSize.toNat_lt
  rw [UInt32.toNat_toUInt64]
  exact Nat.le_trans (by decide) hlow

/-- The regions of a version 2 volume as natural numbers. -/
structure Regions (P : Primitives) (options : VolumeCreationOptions) (c : Creation) : Prop where
  area_eq : (requestedDataArea options).toNat + 2 * volumeHeaderGroupSize = options.size.toNat
  usable_pos : 0 < c.header.volumeDataSize.toNat
  behind_eq : (behindTable c).toNat = volumeHeaderGroupSize + c.header.volumeDataSize.toNat +
    (v2FormatMacTableBytes (c.header.volumeDataSize / c.sectorSize.toUInt64) c.sectorSize).toNat
  behind_le : (behindTable c).toNat ≤
    volumeHeaderGroupSize + (requestedDataArea options).toNat
  table_le : (creationMac P c).tableBaseOffset.toNat +
    (creationMac P c).dataSectors.toNat * v2MacTagLen ≤ (behindTable c).toNat
  base_eq : (creationMac P c).tableBaseOffset.toNat =
    volumeHeaderGroupSize + c.header.volumeDataSize.toNat
  usable_eq : (creationMac P c).dataSectors.toNat * (creationMac P c).sectorSize.toNat =
    c.header.volumeDataSize.toNat

theorem V2Created.regions (P : Primitives) (hv : V2Created options c) : Regions P options c := by
  obtain ⟨tableOffset, hsplit⟩ := hv.split
  have hexact := splitExact_of_valid hv.sectorSize_valid (requestedDataArea options)
  obtain ⟨-, data, table, hd⟩ := v2FormatSplitDataArea_some hexact hsplit
  have hss := v2SectorBytes_of_valid hv.sectorSize_valid
  have hsum := hd.total_eq
  have hdpos := hd.data_pos
  have hpos := hexact.1
  have husable := hd.usable_eq
  have hused := hd.used_le
  have hslots := hd.used
  rw [hss] at hsum hpos husable hused hslots
  generalize hs : c.sectorSize.toUInt64 = ss at hsum hpos husable hused hslots
  have harea : (requestedDataArea options).toNat + 2 * volumeHeaderGroupSize =
      options.size.toNat := by
    have hle := UInt64.le_iff_toNat_le.mp hv.size_le
    have h4 : totalVolumeHeadersSize.toNat = 2 * volumeHeaderGroupSize := by decide
    rw [h4] at hle
    rw [requestedDataArea, UInt64.toNat_sub_of_le _ _ hv.size_le, h4]
    omega
  have hquot : (requestedDataArea options / ss).toNat * ss.toNat ≤
      (requestedDataArea options).toNat := by
    rw [UInt64.toNat_div]
    exact Nat.div_mul_le_self _ _
  have hin : (data + table) * ss.toNat ≤ (requestedDataArea options).toNat :=
    Nat.le_trans (Nat.mul_le_mul_right _ hused) hquot
  rw [← hsum] at hin
  have hdataPos : 0 < c.header.volumeDataSize.toNat := by
    rw [husable]
    exact Nat.mul_pos hdpos hpos
  have hsize := options.size.toNat_lt
  have hgroup : (UInt64.ofNat volumeHeaderGroupSize).toNat = volumeHeaderGroupSize := by decide
  have hstart : (c.layout.getDataOffset c.header) = UInt64.ofNat volumeHeaderGroupSize := by
    rw [hv.layout_eq]
    exact hv.dataStart_eq
  have hgetSize : c.layout.getDataSize c.header c.hostSize = c.header.volumeDataSize := by
    rw [hv.layout_eq]
    rfl
  have hbase : (UInt64.ofNat volumeHeaderGroupSize + c.header.volumeDataSize).toNat =
      volumeHeaderGroupSize + c.header.volumeDataSize.toNat := by
    rw [UInt64.toNat_add, hgroup]
    exact Nat.mod_eq_of_lt (by omega)
  have hbehind : (behindTable c).toNat =
      volumeHeaderGroupSize + c.header.volumeDataSize.toNat +
        (v2FormatMacTableBytes (c.header.volumeDataSize / c.sectorSize.toUInt64)
          c.sectorSize).toNat := by
    unfold behindTable
    simp only
    rw [hstart, hgetSize, UInt64.toNat_add, hbase, hs]
    exact Nat.mod_eq_of_lt (by omega)
  have hmacBase : (creationMac P c).tableBaseOffset =
      UInt64.ofNat volumeHeaderGroupSize + c.header.volumeDataSize := by
    show c.layout.getDataOffset c.header + c.layout.getDataSize c.header c.hostSize = _
    rw [hstart, hgetSize]
  have hmacSectors : (creationMac P c).dataSectors.toNat = data := by
    show (c.layout.getDataSize c.header c.hostSize / c.sectorSize.toUInt64).toNat = data
    rw [hgetSize, hs, UInt64.toNat_div, husable]
    exact Nat.mul_div_cancel _ hpos
  have hslotBytes : data * v2MacTagLen ≤
      (v2FormatMacTableBytes (c.header.volumeDataSize / ss) c.sectorSize).toNat := by
    have htable := hd.table_eq
    rw [hss, hs] at htable
    rw [htable]
    refine (ceilDiv_le_iff hpos).mp ?_
    have hceil : data + table = data + (data * v2MacTagLen + ss.toNat - 1) / ss.toNat := hslots
    omega
  refine ⟨harea, hdataPos, hbehind, ?_, ?_, ?_, ?_⟩
  · rw [hbehind, hs]
    omega
  · rw [hbehind, hmacBase, hbase, hmacSectors, hs]
    omega
  · rw [hmacBase, hbase]
  · rw [hmacSectors, husable, ← hs]
    rfl

/-- What the thread leaves of a normal version 2 volume. -/
structure Finished (C : Ciphers) (K : KeyDerivation) (fatFormat : FatFormat)
    (options : VolumeCreationOptions) (draws : CreationDraws) (disk : Bytes) (c : Creation)
    (file : OpenFile) : Prop where
  position_eq : file.position = (behindTable c).toNat + volumeHeaderGroupSize
  grown : options.isDevice = false → file.bytes.length =
    max (volumeHeaderGroupSize +
        formattedBytes fatFormat options c.header.volumeDataSize c.sectorSize)
      ((behindTable c).toNat + volumeHeaderGroupSize)
  device : options.isDevice = true → file.bytes.length = disk.length
  formatted_le : volumeHeaderGroupSize +
    formattedBytes fatFormat options c.header.volumeDataSize c.sectorSize ≤ file.bytes.length
  backup : ∃ headerKey backupHeader,
    encryptNew C c.header c.layout.getHeaderSize (draws.backupSalt.bytes 0 saltSize) headerKey =
      .ok backupHeader ∧
    slice file.bytes (behindTable c).toNat volumeHeaderSize = backupHeader

theorem creationThread_ok {file : OpenFile} (hc : Created options disk c)
    (hv2 : options.v2Format = true) (hnormal : options.type = .normal)
    (h : creationThread C P K fatFormat options draws io c = .ok file) :
    Finished C K fatFormat options draws disk c file := by
  have hv := hc.v2 hv2 hnormal
  have hr := hv.regions P
  have hgetSize : c.layout.getDataSize c.header c.hostSize = c.header.volumeDataSize := by
    rw [hv.layout_eq]
    rfl
  have hstart : c.layout.getDataOffset c.header = UInt64.ofNat volumeHeaderGroupSize := by
    rw [hv.layout_eq]
    exact hv.dataStart_eq
  have hgroup : (UInt64.ofNat volumeHeaderGroupSize).toNat = volumeHeaderGroupSize := by decide
  unfold creationThread at h
  obtain ⟨-, h⟩ := guard_eq_ok.mp h
  simp only [bind_eq_ok] at h
  obtain ⟨front, hseek, pass, hdata, populated, hpopulate, hbackup⟩ := h
  obtain ⟨rfl, hpos⟩ := OpenFile.seekAt_ok hseek
  rw [hgetSize] at hdata
  have hpass := writeDataArea_ok hv.full hpos hdata
  have htable := populateV2_ok hv2 hpopulate
  unfold writeBackupHeaders at hbackup
  simp only [bind_eq_ok] at hbackup
  obtain ⟨headerKey, -, backupHeader, henc, seeked, hseekBackup, hlast⟩ := hbackup
  have hstay : seeked = populated := by
    unfold seekBackup at hseekBackup
    rw [if_neg (by rw [hv.full, hnormal]; simp)] at hseekBackup
    exact (Except.ok.inj hseekBackup).symm
  subst hstay
  have hheader : backupHeader.length = volumeHeaderSize := by
    obtain ⟨o, hs, hheader, hea, hkey, -, -⟩ := hc.header_eq
    rw [hheader, hv.layout_eq] at henc
    refine length_encryptNew_newHeader hs ?_ (by decide) henc
    rw [hkey, hea, hc.masterKey_ok]
    rfl
  obtain ⟨hwrote, hslice⟩ := writeHeaderGroup_ok hnormal htable.position_le hheader
    (fun hidden hhidden => length_fakeHiddenHeader hhidden) hlast
  have hfront := hc.wrote hnormal
  rw [htable.position_eq] at hslice
  have hbase : (UInt64.ofNat volumeHeaderGroupSize + c.header.volumeDataSize).toNat =
      volumeHeaderGroupSize + c.header.volumeDataSize.toNat := by
    rw [← hr.base_eq, ← hgetSize, ← hstart]
    rfl
  have husable := hr.usable_pos
  have hdataLen := hpass.wrote.length_eq
  simp only [hbase, hstart, hgroup, Nat.add_sub_cancel_left] at hdataLen
  rw [if_neg (by omega)] at hdataLen
  have hlow := htable.length_le
  have hgrow := hwrote.length_le
  refine ⟨?_, ?_, ?_, by omega, ⟨headerKey, backupHeader, henc, hslice⟩⟩
  · rw [hwrote.position_eq, htable.position_eq]
  · intro hfile
    have hnew : (openHost options disk).1.bytes.length = 0 := by
      rw [openHost, if_pos ⟨by rw [hfile]; rfl, hnormal⟩, hv.full]
      rfl
    have hfrontLen : c.file.bytes.length = volumeHeaderGroupSize := by
      rw [hfront.length_eq, if_neg (by decide)]
      show max (openHost options disk).1.bytes.length (0 + volumeHeaderGroupSize) = _
      rw [hnew, Nat.zero_add, Nat.zero_max]
    rw [hfrontLen] at hdataLen
    have hbehind := hr.behind_eq
    have hhigh := htable.length_le_table
    have hin := hr.table_le
    have hend := hwrote.length_eq
    rw [if_neg (show volumeHeaderGroupSize ≠ 0 by decide), htable.position_eq] at hend
    omega
  · intro hdev
    have hdisk : (openHost options disk).1.bytes.length = disk.length := by
      rw [openHost, if_neg (by rw [hdev]; simp)]
    have hopen : (openHost options disk).1.isDevice = true := by
      rw [openHost, if_neg (by rw [hdev]; simp)]
      exact hdev
    have h1 : c.file.isDevice = true := hfront.isDevice_eq.trans hopen
    have h2 : pass.file.isDevice = true := hpass.wrote.isDevice_eq.trans h1
    have h3 : seeked.isDevice = true := htable.isDevice_eq.trans h2
    rw [hwrote.device h3, htable.device h2, hpass.wrote.device h1]
    show c.file.bytes.length = disk.length
    rw [hfront.device hopen]
    exact hdisk

end

end VolumeCreator

end VeraCrypt
