import VeraCrypt.Format.InPlaceImage

/-!
# Runs that keep the data

What every run of the machine keeps, when its steps meet a condition (`Event.Meets`): whenever no
run is active, the backup header opens and says where each byte of the file system is
(`Located`). The invariant (`Safe`) speaks of the disk while a run is active too. The condition
excludes what the program does not survive:

* a failed write of the backup header that leaves what the next update cannot mend;
* a failed write of a decryption, which is not undone, that reaches what is still encrypted;
* a chunk to decrypt that starts inside the concealed portion and ends behind it, of which too
  much is concealed;
* an error in the last loop of a decryption before the backup header is gone, when the file system
  is not concealed any more.
-/

set_option autoImplicit false

namespace VeraCrypt
namespace Format

open Lib Common

variable {P : Partition}

/-! ## The header sector -/

theorem headerAt_congr {d d' : Device}
    (h : ∀ i, P.backupHeaderOffset ≤ i → i < P.backupHeaderOffset + 512 → d' i = d i) :
    headerAt P d' = headerAt P d := by
  apply bytesOf_congr
  intro i hi
  have hi512 : i < 512 := hi
  exact h (P.backupHeaderOffset + i) (by omega) (by omega)

theorem headerAt_written (d : Device) (buf : Buffer) :
    headerAt P (writeAt d P.backupHeaderOffset volumeHeaderEffectiveSize buf) =
      bytesOf buf volumeHeaderEffectiveSize :=
  bytesOf_congr (fun _ hi => writeAt_inside hi)

/-- The header has the key `dk`, and an update makes it say `info` with the new boundary. -/
structure Mends (P : Partition) (dk : Bytes) (info : CryptoInfo) (header : Bytes) : Prop where
  key : P.headerKey (slice header 0 pkcs5SaltSize) = dk
  mendable : Mendable P.C P.a dk header info

/-- The header opens and says `info`, with `r` bytes not encrypted yet. -/
structure Records (P : Partition) (dk : Bytes) (info : CryptoInfo) (r : Nat) (header : Bytes) :
    Prop where
  key : P.headerKey (slice header 0 pkcs5SaltSize) = dk
  opens : ∃ flags, OpensAs P.C P.a dk header
    (info.withArea (UInt64.ofNat (r + volumeDataOffset)) (UInt64.ofNat (P.volumeSize - r)) flags)

theorem Records.mends {dk header : Bytes} {info : CryptoInfo} {r : Nat}
    (h : Records P dk info r header) : Mends P dk info header := by
  rcases h with ⟨hkey, flags, hopens⟩
  refine ⟨hkey, hopens.mendable.length_eq, ?_⟩
  rcases hopens.mendable.plain with ⟨decrypted, hdec, hlegible, start, length, flags', hinfo⟩
  rw [withArea_withArea] at hinfo
  exact ⟨decrypted, hdec, hlegible, start, length, flags', hinfo⟩

section

variable {s : Session} {d : Device} {r : Nat}

theorem writeHeader_ok (header : Bytes) : writeHeader P d .ok (.ok header) =
    (writeAt d P.backupHeaderOffset volumeHeaderEffectiveSize (bufferOf header), true) := by
  rw [writeHeader]

theorem writeHeader_writeError (torn : Buffer) (header : Bytes) :
    writeHeader P d (.writeError torn) (.ok header) =
      (writeAt d P.backupHeaderOffset volumeHeaderEffectiveSize torn, false) := by
  rw [writeHeader]

theorem writeHeader_frame (io : HeaderIO) (header : Except Status Bytes) {i : Nat}
    (hi : i < P.backupHeaderOffset) : (writeHeader P d io header).1 i = d i := by
  have hwritten : ∀ buf, writeAt d P.backupHeaderOffset volumeHeaderEffectiveSize buf i = d i :=
    fun buf => writeAt_outside (Or.inl hi)
  cases io with
  | readError => rfl
  | ok =>
    cases header with
    | error _ => rfl
    | ok header =>
      rw [writeHeader_ok]
      dsimp only
      exact hwritten (bufferOf header)
  | writeError torn =>
    cases header with
    | error _ => rfl
    | ok header =>
      rw [writeHeader_writeError]
      dsimp only
      exact hwritten torn

/-- An update is behind the data. -/
theorem headerUpdate_frame (schedule : List (Cipher × Bytes × Bytes)) (io : HeaderIO) {i : Nat}
    (hi : i < P.backupHeaderOffset) : (headerUpdate P schedule s io d).1 i = d i :=
  writeHeader_frame io _ hi

theorem closing_frame (io : HeaderIO) {i : Nat} (hi : i < P.backupHeaderOffset) :
    closing P s io d i = d i := by
  unfold closing
  split
  · exact headerUpdate_frame _ io hi
  · rfl

/-- The header that an update computes. -/
theorem updateHeader_records (hm : Mends P s.dk s.info (headerAt P d)) (hn : Numbers P s r) :
    ∃ header, updateHeader P.C (headerSchedule P s.dk) (headerAt P d)
        (UInt64.ofNat s.encryptedAreaStart) (UInt64.ofNat s.encryptedAreaLength)
        s.info.headerFlags = .ok header ∧
      header.length = volumeHeaderEffectiveSize ∧ Records P s.dk s.info r header := by
  rcases updateHeader_opens hm.mendable (UInt64.ofNat s.encryptedAreaStart)
    (UInt64.ofNat s.encryptedAreaLength) s.info.headerFlags with ⟨header, hup, hsalt, hopens⟩
  refine ⟨header, hup, hopens.length_eq, ?_, ?_⟩
  · have hkey := hm.key
    show P.headerKey (slice header 0 headerEncryptedDataOffset) = s.dk
    rw [hsalt]
    exact hkey
  · refine ⟨s.info.headerFlags ||| headerFlagNonsysInplaceEnc, ?_⟩
    rw [hn.start_eq, hn.length_eq] at hopens
    exact hopens

theorem fastVolumeHeaderUpdate_ok (hm : Mends P s.dk s.info (headerAt P d)) (hn : Numbers P s r) :
    (fastVolumeHeaderUpdate P s .ok d).2 = true ∧
      Records P s.dk s.info r (headerAt P (fastVolumeHeaderUpdate P s .ok d).1) := by
  rcases updateHeader_records hm hn with ⟨header, hup, hlen, hrec⟩
  rw [fastVolumeHeaderUpdate, headerUpdate, hup, writeHeader_ok]
  have hwritten : headerAt P
      (writeAt d P.backupHeaderOffset volumeHeaderEffectiveSize (bufferOf header)) = header := by
    rw [headerAt_written, ← hlen, bytesOf_bufferOf]
  refine ⟨rfl, ?_⟩
  dsimp only
  rw [hwritten]
  exact hrec

end

/-! ## The condition -/

/-- A failed header write leaves what the next update mends. -/
def HeaderIO.Mild (P : Partition) (s : Session) : HeaderIO → Prop
  | .ok => True
  | .readError => True
  | .writeError torn => Mends P s.dk s.info (bytesOf torn volumeHeaderEffectiveSize)

/-- The last header write of a run, if it fails, leaves what opens with the boundary `r`. -/
def HeaderIO.Lasting (P : Partition) (s : Session) (r : Nat) : HeaderIO → Prop
  | .ok => True
  | .readError => True
  | .writeError torn => Records P s.dk s.info r (bytesOf torn volumeHeaderEffectiveSize)

/-- A header update, and the closing one behind it, which succeeds on an error path. -/
def HeaderIO.Guarded (P : Partition) (s : Session) (update close : HeaderIO) : Prop :=
  update.Mild P s ∧ (update = .ok ∨ close = .ok)

/-- The header update behind a core loop. Where the loop has made no turn, no closing update
follows. -/
def HeaderIO.GuardedEnd (P : Partition) (s : Session) (update close : HeaderIO) : Prop :=
  update.Guarded P s close ∧
    (s.encryptedAreaSizeChanged = false →
      update.Lasting P s (s.encryptedAreaStart - volumeDataOffset))

def EncryptIO.Meets (P : Partition) (s : Session) : EncryptIO → Prop
  | .readError close => close = .ok
  | .writeError _ _ close => close = .ok
  | .written _ update pause close =>
    update.Guarded P s close ∧
      ∀ p ∈ pause, p.Guarded P s close ∧ close.Lasting P s (s.remainingBytes - s.workChunkSize)

/-- The chunk that is decrypted next is concealed as far as the file system is. -/
def Session.ConcealsWell (s : Session) : Prop :=
  let below := s.encryptedAreaStart - volumeDataOffset
  below = 0 ∨ initialConcealPortionSize ≤ below ∨
    below + s.workChunkSize ≤ initialConcealPortionSize

def DecryptIO.Meets (P : Partition) (s : Session) (d : Device) : DecryptIO → Prop
  | .readError close => close = .ok
  | .writeError torn close =>
    close = .ok ∧ ∀ k, volumeDataOffset ≤ k → k < s.workChunkSize →
      torn k = d (s.encryptedAreaStart - volumeDataOffset + k)
  | .written update pause close =>
    s.ConcealsWell ∧ update.Guarded P s close ∧ ∀ p ∈ pause, p.Guarded P s close

/-- A schedule under which the header just updated does not decrypt to a header. -/
def Refused (P : Partition) (s : Session) (d : Device)
    (schedule : List (Cipher × Bytes × Bytes)) : Prop :=
  ∀ header, updateHeader P.C (headerSchedule P s.dk) (headerAt P d)
      (UInt64.ofNat s.encryptedAreaStart) (UInt64.ofNat s.encryptedAreaLength)
      s.info.headerFlags = .ok header →
    ∀ updated, updateHeader P.C schedule header (UInt64.ofNat s.encryptedAreaStart)
      (UInt64.ofNat s.encryptedAreaLength) s.info.headerFlags ≠ .ok updated

def FinalIO.schedule : FinalIO → List (Cipher × Bytes × Bytes)
  | .fault schedule _ => schedule
  | .done schedule _ _ => schedule

/-- Nothing, or no error, becomes of the closing update behind a finalisation. -/
def FinalIO.Meets (P : Partition) (s : Session) (d : Device) (close : HeaderIO) (final : FinalIO) :
    Prop :=
  Refused P s d final.schedule ∨
    final.schedule = headerSchedule P s.dk ∧ close.Lasting P s 0

/-- What the last loop of a decryption leaves of the backup header does not open. -/
def DecryptEndIO.Meets (P : Partition) (left : Device) : DecryptEndIO → Prop
  | .concealError => True
  | .zeroError _ _ => openBackupHeader P left = none
  | .done => openBackupHeader P left = none

/-- **The condition on a step.** -/
def Event.Meets (P : Partition) (st : State) (e : Event) : Prop :=
  match st.phase, e with
  | .encrypting s, .encryptTurn io => io.Meets P s
  | .encrypting s, .encryptEnd update final close =>
    update.GuardedEnd P s close ∧ final.Meets P s st.disk close
  | .decrypting s, .decryptTurn io => io.Meets P s st.disk
  | .decrypting s, .decryptEnd update final close =>
    update.GuardedEnd P s close ∧ final.Meets P (Format.decryptEnd P s update final close st.disk).disk
  | _, _ => True

/-! ## The invariant -/

/-- The header describes this partition, under the master keys `keys`. -/
structure Describes (P : Partition) (keys : List (Cipher × Bytes × Bytes)) (info : CryptoInfo) :
    Prop where
  volumeSize_eq : info.volumeSize = UInt64.ofNat P.volumeSize
  legacyVolume_eq : info.legacyVolume = false
  hiddenVolume_eq : info.hiddenVolume = false
  schedule_eq : info.schedule = keys

variable (P) in
/-- No run is active, and nothing is lost. -/
structure Stands (keys : List (Cipher × Bytes × Bytes)) (fs d : Device) (dk : Bytes)
    (info : CryptoInfo) (r : Nat) : Prop where
  describes : Describes P keys info
  records : Records P dk info r (headerAt P d)
  image : Image P (dataCipher P.C keys) fs d r

variable (P) in
/-- A run is active at the boundary `r`; the header says `r₀`. -/
structure Running (keys : List (Cipher × Bytes × Bytes)) (fs d : Device) (s : Session)
    (r r₀ : Nat) : Prop where
  numbers : Numbers P s r
  describes : Describes P keys s.info
  records : Records P s.dk s.info r₀ (headerAt P d)
  image : Image P (dataCipher P.C keys) fs d r
  recorded_le : r₀ ≤ P.volumeSize
  recorded_whole : r₀ % 512 = 0
  unchanged : s.encryptedAreaSizeChanged = false → r₀ = r

/-- The volume behind the primary header is the file system. -/
def IsVolume (P : Partition) (fs d : Device) : Prop :=
  ∃ info, OpensAs P.C P.a (P.headerKey (slice (bytesOf d volumeHeaderEffectiveSize) 0 pkcs5SaltSize))
      (bytesOf d volumeHeaderEffectiveSize) info ∧
    info.volumeSize.toNat = P.volumeSize ∧ info.encryptedAreaStart.toNat = volumeDataOffset ∧
    info.encryptedAreaLength.toNat = P.volumeSize ∧
    ∀ i < P.volumeSize,
      decryptAt (dataCipher P.C info.schedule) d (i + info.encryptedAreaStart.toNat) = fs i

/-- The file system is back in its place. -/
def Restored (P : Partition) (fs d : Device) : Prop := ∀ i < P.volumeSize, d i = fs i

def Safe (P : Partition) (keys : List (Cipher × Bytes × Bytes)) (fs : Device) (st : State) : Prop :=
  match st.phase with
  | .idle .decrypted => Restored P fs st.disk ∧ openBackupHeader P st.disk = none
  | .idle .zeroingFailed => Restored P fs st.disk ∧ openBackupHeader P st.disk = none
  | .idle .encrypted => (∃ dk info r, Stands P keys fs st.disk dk info r) ∧ IsVolume P fs st.disk
  | .idle _ => ∃ dk info r, Stands P keys fs st.disk dk info r
  | .encrypting s => ∃ r₀, s.remainingBytes ≤ r₀ ∧
    Running P keys fs st.disk s s.remainingBytes r₀
  | .decrypting s => ∃ r r₀, s.remainingBytes = P.volumeSize - r ∧
    Running P keys fs st.disk s r r₀

/-! ## Closing a run -/

section

variable {keys : List (Cipher × Bytes × Bytes)} {fs d : Device} {s : Session} {r r₀ : Nat}

/-- What a run that ends early has to leave for its closing update. -/
structure Mended (P : Partition) (keys : List (Cipher × Bytes × Bytes)) (fs d : Device)
    (s : Session) (r : Nat) : Prop where
  numbers : Numbers P s r
  describes : Describes P keys s.info
  mends : Mends P s.dk s.info (headerAt P d)
  image : Image P (dataCipher P.C keys) fs d r
  unchanged : s.encryptedAreaSizeChanged = false → Records P s.dk s.info r (headerAt P d)

theorem Running.mended (h : Running P keys fs d s r r₀) : Mended P keys fs d s r := by
  refine
    { numbers := h.numbers
      describes := h.describes
      mends := h.records.mends
      image := h.image
      unchanged := ?_ }
  intro hch
  rw [← h.unchanged hch]
  exact h.records

/-- **The closing update of an error path.** -/
theorem Mended.closing_ok (h : Mended P keys fs d s r) :
    ∃ dk info r, Stands P keys fs (closing P s .ok d) dk info r := by
  refine ⟨s.dk, s.info, r, h.describes, ?_, h.image.congr (fun i hi => closing_frame .ok hi)⟩
  unfold closing
  split
  · exact (fastVolumeHeaderUpdate_ok h.mends h.numbers).2
  · rename_i hch
    exact h.unchanged (Bool.eq_false_iff.mpr hch)

/-- An update that succeeds, or a failed one that is mild. -/
theorem Mended.update (h : Mended P keys fs d s r) {io : HeaderIO} (hio : io.Mild P s)
    (hlast : s.encryptedAreaSizeChanged = false → io.Lasting P s r) :
    Mended P keys fs (fastVolumeHeaderUpdate P s io d).1 s r ∧
      ((fastVolumeHeaderUpdate P s io d).2 = true →
        Records P s.dk s.info r (headerAt P (fastVolumeHeaderUpdate P s io d).1)) ∧
      (io = .ok → (fastVolumeHeaderUpdate P s io d).2 = true) := by
  have himage : Image P (dataCipher P.C keys) fs (fastVolumeHeaderUpdate P s io d).1 r :=
    h.image.congr (fun i hi => headerUpdate_frame _ io hi)
  rcases updateHeader_records h.mends h.numbers with ⟨header, hup, -, -⟩
  cases io with
  | ok =>
    have hok := fastVolumeHeaderUpdate_ok h.mends h.numbers
    exact ⟨⟨h.numbers, h.describes, hok.2.mends, himage, fun _ => hok.2⟩, fun _ => hok.2,
      fun _ => hok.1⟩
  | readError =>
    exact ⟨⟨h.numbers, h.describes, h.mends, himage, h.unchanged⟩, fun hf => Bool.noConfusion hf,
      fun hf => nomatch hf⟩
  | writeError torn =>
    have hresult : fastVolumeHeaderUpdate P s (.writeError torn) d =
        (writeAt d P.backupHeaderOffset volumeHeaderEffectiveSize torn, false) := by
      rw [fastVolumeHeaderUpdate, headerUpdate, hup, writeHeader_writeError]
    rw [hresult] at himage ⊢
    dsimp only at himage ⊢
    refine ⟨⟨h.numbers, h.describes, ?_, himage, ?_⟩, fun hf => Bool.noConfusion hf,
      fun hf => nomatch hf⟩
    · rw [headerAt_written]
      exact hio
    · rw [headerAt_written]
      exact hlast

/-- The closing update of a run that has updated the header already. -/
theorem Mended.closing_lasting (h : Mended P keys fs d s r)
    (hrec : Records P s.dk s.info r (headerAt P d)) {io : HeaderIO} (hio : io.Lasting P s r) :
    Stands P keys fs (closing P s io d) s.dk s.info r := by
  refine ⟨h.describes, ?_, h.image.congr (fun i hi => closing_frame io hi)⟩
  unfold closing
  split
  · rcases updateHeader_records h.mends h.numbers with ⟨header, hup, -, -⟩
    cases io with
    | ok => exact (fastVolumeHeaderUpdate_ok h.mends h.numbers).2
    | readError => exact hrec
    | writeError torn =>
      rw [fastVolumeHeaderUpdate, headerUpdate, hup, writeHeader_writeError]
      dsimp only
      rw [headerAt_written]
      exact hio
  · exact hrec

/-- The update of a turn. -/
theorem Mended.updateWhenDue (h : Mended P keys fs d s r) (hch : s.encryptedAreaSizeChanged = true)
    (hrec : Records P s.dk s.info r₀ (headerAt P d)) {io : HeaderIO} (hio : io.Mild P s) :
    Mended P keys fs (updateWhenDue P s io d).1 s r ∧
      ((updateWhenDue P s io d).2.1 = true → ∃ r₁, (r₁ = r ∨ r₁ = r₀) ∧
        Records P s.dk s.info r₁ (headerAt P (updateWhenDue P s io d).1)) ∧
      (io = .ok → (updateWhenDue P s io d).2.1 = true) := by
  unfold Format.updateWhenDue
  split
  · rcases h.update hio (fun hfalse => by rw [hch] at hfalse; cases hfalse) with ⟨hm, hr, hok⟩
    exact ⟨hm, fun htrue => ⟨r, Or.inl rfl, hr htrue⟩, hok⟩
  · exact ⟨h, fun _ => ⟨r₀, Or.inr rfl, hrec⟩, fun _ => rfl⟩

/-- The session that a turn goes on with. -/
theorem updateWhenDue_session (io : HeaderIO) :
    ∃ distance, (updateWhenDue P s io d).2.2 = { s with lastHeaderUpdateDistance := distance } := by
  unfold updateWhenDue
  split
  · exact ⟨0, rfl⟩
  · exact ⟨s.lastHeaderUpdateDistance, rfl⟩

/-- A session in which only the distance to the last update is another. -/
theorem Mended.of_distance (h : Mended P keys fs d s r) (distance : Nat) :
    Mended P keys fs d { s with lastHeaderUpdateDistance := distance } r :=
  ⟨⟨h.numbers.start_eq, h.numbers.length_eq⟩, h.describes, h.mends, h.image, h.unchanged⟩

end

/-! ## The turns -/

section

variable {keys : List (Cipher × Bytes × Bytes)} {fs d : Device} {s : Session} {r r₀ : Nat}

/-- A write in front of the backup header. -/
theorem headerAt_writeAt {off n : Nat} {buf : Buffer} (h : off + n ≤ P.backupHeaderOffset) :
    headerAt P (writeAt d off n buf) = headerAt P d :=
  headerAt_congr (fun _ hi _ => writeAt_outside (Or.inr (h.trans hi)))

theorem headerAt_undoFailedWrite {buf : Buffer}
    (h : s.encryptedAreaStart ≤ P.backupHeaderOffset) (hle : s.workChunkSize ≤ s.encryptedAreaStart) :
    headerAt P (undoFailedWrite P s buf d) = headerAt P d := by
  unfold undoFailedWrite
  dsimp only
  split
  · exact headerAt_writeAt (by omega)
  · rfl

/-- A turn of an encryption that has written its chunk. -/
theorem Running.encryptedBy (h : Running P keys fs d s s.remainingBytes r₀) (wipes : List Buffer) :
    Mended P keys fs
        (writeAt (overwrite d (s.encryptedAreaStart - s.workChunkSize) s.workChunkSize wipes)
          (s.encryptedAreaStart - s.workChunkSize) s.workChunkSize (encryptedChunk P s d))
        (s.encryptedBy s.workChunkSize) (s.remainingBytes - s.workChunkSize) ∧
      headerAt P
        (writeAt (overwrite d (s.encryptedAreaStart - s.workChunkSize) s.workChunkSize wipes)
          (s.encryptedAreaStart - s.workChunkSize) s.workChunkSize (encryptedChunk P s d)) =
        headerAt P d := by
  have hle := workChunkSize_le s
  have hV := P.backupHeaderOffset_eq
  have hH := volumeDataOffset_eq
  have hr := h.image.le
  have hstart := h.numbers.start_eq
  have hlength := h.numbers.length_eq
  have hheader : headerAt P (writeAt d (s.encryptedAreaStart - s.workChunkSize) s.workChunkSize
      (encryptedChunk P s d)) = headerAt P d := headerAt_writeAt (by omega)
  rw [writeAt_overwrite]
  refine ⟨?_, hheader⟩
  refine
    { numbers := ⟨?_, ?_⟩
      describes := h.describes
      mends := ?_
      image := image_encryptTurn h.image h.numbers h.describes.schedule_eq
      unchanged := fun hfalse => Bool.noConfusion hfalse }
  · show s.encryptedAreaStart - s.workChunkSize = _
    omega
  · show s.encryptedAreaLength + s.workChunkSize = _
    omega
  · rw [hheader]
    exact h.records.mends

/-- **A turn of an encryption.** -/
theorem encryptTurn_safe (h : Running P keys fs d s s.remainingBytes r₀)
    (hr₀ : s.remainingBytes ≤ r₀) {io : EncryptIO} (hio : io.Meets P s) :
    Safe P keys fs (encryptTurn P s io d) := by
  have hwhole : ¬(s.workChunkSize % dataUnitSize ≠ 0) := by
    have hmod := workChunkSize_whole (s := s) h.image.whole
    exact not_not_intro hmod
  cases io with
  | readError close =>
    rw [show close = .ok from hio]
    exact h.mended.closing_ok
  | writeError wipes torn close =>
    rw [show close = .ok from hio, encryptTurn, if_neg hwhole]
    have hle := workChunkSize_le s
    have hV := P.backupHeaderOffset_eq
    have hH := volumeDataOffset_eq
    have hr := h.image.le
    have hstart := h.numbers.start_eq
    have hheader : headerAt P (undoFailedWrite P s (encryptedChunk P s d)
        (writeAt (overwrite d (s.encryptedAreaStart - s.workChunkSize) s.workChunkSize wipes)
          (s.encryptedAreaStart - s.workChunkSize) s.workChunkSize torn)) = headerAt P d := by
      rw [headerAt_undoFailedWrite (by omega) (by omega), writeAt_overwrite,
        headerAt_writeAt (by omega)]
    have hm : Mended P keys fs (undoFailedWrite P s (encryptedChunk P s d)
        (writeAt (overwrite d (s.encryptedAreaStart - s.workChunkSize) s.workChunkSize wipes)
          (s.encryptedAreaStart - s.workChunkSize) s.workChunkSize torn)) s s.remainingBytes := by
      refine
        { numbers := h.numbers
          describes := h.describes
          mends := ?_
          image := image_undoFailedWrite h.image h.numbers h.describes.schedule_eq wipes torn
          unchanged := ?_ }
      · rw [hheader]
        exact h.records.mends
      · rw [hheader]
        exact h.mended.unchanged
    exact hm.closing_ok
  | written wipes update pause close =>
    rcases hio with ⟨⟨hmild, hcover⟩, hpause⟩
    rcases h.encryptedBy wipes with ⟨hm, hheader⟩
    rw [encryptTurn, if_neg hwhole]
    dsimp only
    generalize writeAt (overwrite d (s.encryptedAreaStart - s.workChunkSize) s.workChunkSize wipes)
      (s.encryptedAreaStart - s.workChunkSize) s.workChunkSize (encryptedChunk P s d) = d' at *
    have hrec : Records P s.dk s.info r₀ (headerAt P d') := by
      rw [hheader]
      exact h.records
    rcases hm.updateWhenDue rfl hrec hmild with ⟨hm', hrec', hok⟩
    rcases updateWhenDue_session (P := P) (s := s.encryptedBy s.workChunkSize) (d := d') update with
      ⟨distance, hsession⟩
    by_cases hfine : (updateWhenDue P (s.encryptedBy s.workChunkSize) update d').2.1 = false
    · -- the update has failed, so the closing one succeeds
      rw [if_pos hfine]
      rcases hcover with hup | hclose
      · rw [hok hup] at hfine
        cases hfine
      · rw [hclose]
        exact hm'.closing_ok
    · rw [if_neg hfine]
      rcases hrec' (by simpa using hfine) with ⟨r₁, hr₁, hrec₁⟩
      cases pause with
      | none =>
        have hle := hm'.image.le
        have hwhole : (s.remainingBytes - s.workChunkSize) % 512 = 0 := hm'.image.whole
        have hle₀ := h.recorded_le
        have hwhole₀ := h.recorded_whole
        rw [hsession]
        refine ⟨r₁, ?_, ?_⟩
        · show s.remainingBytes - s.workChunkSize ≤ r₁
          omega
        · exact
            { numbers := ⟨hm'.numbers.start_eq, hm'.numbers.length_eq⟩
              describes := hm'.describes
              records := hrec₁
              image := hm'.image
              recorded_le := by omega
              recorded_whole := by omega
              unchanged := fun hfalse => Bool.noConfusion hfalse }
      | some pause =>
        rcases hpause pause rfl with ⟨⟨hmild', hcover'⟩, hlast⟩
        rw [hsession]
        have hm'' := hm'.of_distance distance
        rcases hm''.update hmild' (fun hfalse => Bool.noConfusion hfalse) with ⟨hmp, hrecp, hokp⟩
        rcases hcover' with hup | hclose
        · exact ⟨_, _, _, hmp.closing_lasting (hrecp (hokp hup)) hlast⟩
        · rw [hclose]
          exact hmp.closing_ok

end

end Format
end VeraCrypt
