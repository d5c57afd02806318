import VeraCrypt.Format.InPlaceRuns

/-!
# Crashes during in-place encryption

The machine may stop at any point of a run of `EncryptPartitionInPlaceResume`: between two writes,
or inside one, of which any part is then on the disk. A later run opens the backup header and goes
on from the boundary that it finds there. Between two updates of the header the boundary in it
lags behind, by up to 64 MiB, while each chunk is written 128 KiB behind the place where it was
read. So a resumed run reads again what has been overwritten already.

`crash_survives_iff` says exactly which disks a resumed run makes a volume of: those whose header
opens, and on which no byte in front of the recorded boundary has changed. `crash_loses_data` is a
stop behind the first chunk, which no run survives.
-/

set_option autoImplicit false

namespace VeraCrypt
namespace Format

open Lib Common

variable {P : Partition} {keys : List (Cipher × Bytes × Bytes)} {fs d : Device} {s : Session}
  {r r₀ : Nat}

/-! ## Running to completion -/

/-- The turns of a run in which nothing fails and that is not cancelled. -/
def turnEvents (turns : List (List Buffer)) : List Event :=
  turns.map (fun wipes => .encryptTurn (.written wipes .ok none .ok))

/-- A run of `EncryptPartitionInPlaceResume` takes `d` to `d'` without a failure. -/
def Completes (P : Partition) (d d' : Device) : Prop :=
  ∃ turns schedule passes last,
    (run (step P) (idle .halted d)
      (.encrypt :: (turnEvents turns ++ [.encryptEnd .ok (.done schedule passes last) .ok]))).1 =
      idle .encrypted d'

/-- The run can be resumed to its completion, and the volume is then the file system. -/
def Survives (P : Partition) (fs d : Device) : Prop :=
  (∃ d', Completes P d d') ∧ ∀ d', Completes P d d' → IsVolume P fs d'

/-- The header opens, and in front of the boundary that it records no byte has changed. -/
def Intact (P : Partition) (fs d : Device) : Prop :=
  ∃ dk info, openBackupHeader P d = some (dk, info) ∧
    ∀ i < info.encryptedAreaStart.toNat - volumeDataOffset, d i = concealed fs i

theorem turn_meets (wipes : List Buffer) (st : State) :
    (Event.encryptTurn (.written wipes .ok none .ok)).Meets P st := by
  rcases st with ⟨d, last | s | s⟩
  · trivial
  · exact ⟨⟨trivial, Or.inl rfl⟩, fun p hp => nomatch hp⟩
  · trivial

/-- The turns of a run that does not fail keep the invariant. -/
theorem turns_safe {st : State} (h : Safe P keys fs st) (turns : List (List Buffer)) :
    Safe P keys fs (run (step P) st (turnEvents turns)).1 := by
  apply run_safe h
  apply along_of_forall
  intro e he st
  rcases List.mem_map.mp he with ⟨wipes, -, rfl⟩
  exact turn_meets wipes st

/-- A turn that does not fail goes on with what remains. -/
theorem encryptTurn_next (h : Running P keys fs d s s.remainingBytes r₀) (wipes : List Buffer) :
    ∃ d' s', encryptTurn P s (.written wipes .ok none .ok) d =
        { disk := d', phase := .encrypting s' } ∧
      s'.remainingBytes = s.remainingBytes - s.workChunkSize := by
  have hwhole : ¬(s.workChunkSize % dataUnitSize ≠ 0) := by
    have hmod := workChunkSize_whole (s := s) h.image.whole
    exact not_not_intro hmod
  rcases h.encryptedBy wipes with ⟨hm, hheader⟩
  rw [encryptTurn, if_neg hwhole]
  dsimp only
  generalize writeAt (overwrite d (s.encryptedAreaStart - s.workChunkSize) s.workChunkSize wipes)
    (s.encryptedAreaStart - s.workChunkSize) s.workChunkSize (encryptedChunk P s d) = d' at *
  have hrec : Records P s.dk s.info r₀ (headerAt P d') := by
    rw [hheader]
    exact h.records
  rcases hm.updateWhenDue rfl hrec (show HeaderIO.Mild P _ .ok from trivial) with ⟨-, -, hok⟩
  rcases updateWhenDue_session (P := P) (s := s.encryptedBy s.workChunkSize) (d := d') .ok with
    ⟨distance, hsession⟩
  rw [if_neg (by rw [hok rfl]; decide), hsession]
  exact ⟨_, _, rfl, rfl⟩

/-- The same as a step of the run. -/
theorem turn_runs (h : Running P keys fs d s s.remainingBytes r₀) (hr₀ : s.remainingBytes ≤ r₀)
    (hpos : 0 < s.remainingBytes) (wipes : List Buffer) : ∃ d' s' r₁,
    (run (step P) { disk := d, phase := .encrypting s } (turnEvents [wipes])).1 =
        { disk := d', phase := .encrypting s' } ∧
      Running P keys fs d' s' s'.remainingBytes r₁ ∧ s'.remainingBytes ≤ r₁ ∧
      s'.remainingBytes = s.remainingBytes - s.workChunkSize := by
  rcases encryptTurn_next h wipes with ⟨d', s', hturn, hrem⟩
  have hstep : (run (step P) { disk := d, phase := .encrypting s } (turnEvents [wipes])).1 =
      { disk := d', phase := .encrypting s' } := by
    rw [turnEvents, List.map_cons, run_cons, step_encryptTurn _ _ _ hpos, hturn]
    rfl
  have hsafe := turns_safe (safe_encrypting h rfl hr₀) [wipes]
  rw [hstep] at hsafe
  rcases hsafe with ⟨r₁, hr₁, hrunning⟩
  exact ⟨d', s', r₁, hstep, hrunning, hr₁, hrem⟩

theorem turnEvents_cons (wipes : List Buffer) (turns : List (List Buffer)) :
    turnEvents (wipes :: turns) = turnEvents [wipes] ++ turnEvents turns := rfl

/-- Turns that do not fail do not end the run. -/
theorem turns_encrypting (h : Running P keys fs d s s.remainingBytes r₀)
    (hr₀ : s.remainingBytes ≤ r₀) (turns : List (List Buffer)) : ∃ d' s',
    (run (step P) { disk := d, phase := .encrypting s } (turnEvents turns)).1 =
      { disk := d', phase := .encrypting s' } := by
  induction turns generalizing d s r₀ with
  | nil => exact ⟨d, s, rfl⟩
  | cons wipes turns ih =>
    rw [turnEvents_cons, (run_append _ _ _).1]
    by_cases hpos : 0 < s.remainingBytes
    · rcases turn_runs h hr₀ hpos wipes with ⟨d', s', r₁, hrun, hrunning, hr₁, -⟩
      rw [hrun]
      exact ih hrunning hr₁
    · have hstill : (run (step P) { disk := d, phase := .encrypting s } (turnEvents [wipes])).1 =
          { disk := d, phase := .encrypting s } := by
        rw [turnEvents, List.map_cons, run_cons]
        exact if_neg hpos
      rw [hstill]
      exact ih h hr₀

/-- Enough turns leave nothing to encrypt. By induction on a bound of what remains. -/
theorem exists_turns {n : Nat} (h : Running P keys fs d s s.remainingBytes r₀)
    (hr₀ : s.remainingBytes ≤ r₀) (hn : s.remainingBytes ≤ n) : ∃ turns d' s',
    (run (step P) { disk := d, phase := .encrypting s } (turnEvents turns)).1 =
      { disk := d', phase := .encrypting s' } ∧ s'.remainingBytes = 0 := by
  induction n generalizing d s r₀ with
  | zero => exact ⟨[], d, s, rfl, Nat.le_zero.mp hn⟩
  | succ n ih =>
    by_cases hzero : s.remainingBytes = 0
    · exact ⟨[], d, s, rfl, hzero⟩
    · have hpos := Nat.pos_of_ne_zero hzero
      have hw : 0 < s.workChunkSize := Nat.lt_min.mpr ⟨hpos, by decide⟩
      rcases turn_runs h hr₀ hpos [] with ⟨d', s', r₁, hrun, hrunning, hr₁, hrem⟩
      rcases ih hrunning hr₁ (by omega) with ⟨turns, d'', s'', hruns, hend⟩
      refine ⟨[] :: turns, d'', s'', ?_, hend⟩
      rw [turnEvents_cons, (run_append _ _ _).1, hrun, hruns]

/-- **A run can be completed** from where the data is kept, and makes the volume. -/
theorem Stands.survives {dk : Bytes} {info : CryptoInfo} (h : Stands P keys fs d dk info r) :
    Survives P fs d := by
  rcases h.startEncrypting_eq .halted with ⟨s, hstart, hrunning, hrem, -⟩
  rw [← hrem] at hrunning
  have hsafe : Safe P keys fs { disk := d, phase := .encrypting s } :=
    safe_encrypting hrunning rfl le_rfl
  constructor
  · rcases exists_turns hrunning le_rfl le_rfl with ⟨turns, d', s', hrun, hzero⟩
    have hsafe' := turns_safe hsafe turns
    rw [hrun] at hsafe'
    rcases hsafe' with ⟨r₁, -, hrunning'⟩
    let pass : FinalPass :=
      { salt := List.replicate pkcs5SaltSize 0
        length_salt := List.length_replicate
        drawn := List.replicate masterKeydataSize 0
        length_drawn := List.length_replicate
        reserved := fun _ => 0
        hidden := fun _ => 0 }
    rcases encryptEnd_done hrunning' hzero .ok [] [] pass with ⟨d'', hend, -⟩
    refine ⟨d'', turns, [], [], pass, ?_⟩
    rw [run_cons, step_encrypt, hstart, (run_append _ _ _).1, hrun, run_cons,
      step_encryptEnd _ _ _ _ _ hzero, hend, run]
  · rintro d' ⟨turns, schedule, passes, last, hrun⟩
    rw [run_cons, step_encrypt, hstart, (run_append _ _ _).1] at hrun
    have hsafe' := turns_safe hsafe turns
    have hphase : ∃ d₁ s₁, (run (step P) { disk := d, phase := .encrypting s }
        (turnEvents turns)).1 = { disk := d₁, phase := .encrypting s₁ } :=
      turns_encrypting hrunning le_rfl turns
    rcases hphase with ⟨d₁, s₁, hphase⟩
    rw [hphase] at hsafe' hrun
    rcases hsafe' with ⟨r₁, -, hrunning'⟩
    by_cases hzero : s₁.remainingBytes = 0
    · rcases encryptEnd_done hrunning' hzero .ok schedule passes last with ⟨d₂, hend, hvolume⟩
      rw [run_cons, step_encryptEnd _ _ _ _ _ hzero, hend, run] at hrun
      have hd : d₂ = d' := congrArg State.disk hrun
      rw [← hd]
      exact hvolume
    · have hstill : (step P { disk := d₁, phase := .encrypting s₁ }
          (.encryptEnd .ok (.done schedule passes last) .ok)).1 =
          { disk := d₁, phase := .encrypting s₁ } := if_neg hzero
      rw [run_cons, hstill, run] at hrun
      exact absurd (congrArg State.phase hrun) (by rintro ⟨⟩)

/-- Where nothing can be resumed, nothing is completed. -/
theorem not_completes_of_unopened (h : openBackupHeader P d = none) (d' : Device) :
    ¬Completes P d d' := by
  rintro ⟨turns, schedule, passes, last, hrun⟩
  have hstill : ∀ es : List Event, (∀ e ∈ es, e ≠ .encrypt ∧ e ≠ .decrypt) →
      (run (step P) (idle .halted d) es).1 = idle .halted d := by
    intro es hes
    induction es with
    | nil => rfl
    | cons e es ih =>
      have hstep : (step P (idle .halted d) e).1 = idle .halted d := by
        cases e with
        | encrypt => exact absurd rfl (hes .encrypt List.mem_cons_self).1
        | decrypt => exact absurd rfl (hes .decrypt List.mem_cons_self).2
        | encryptTurn | encryptEnd | decryptTurn | decryptEnd => rfl
      rw [run_cons, hstep]
      exact ih (fun e' he' => hes e' (List.mem_cons_of_mem e he'))
  rw [run_cons, step_encrypt, (start_unopened .halted h).1, hstill] at hrun
  · exact absurd (congrArg State.phase hrun) (by rintro ⟨⟩)
  · intro e he
    rcases List.mem_append.mp he with he | he
    · rcases List.mem_map.mp he with ⟨wipes, -, rfl⟩
      exact ⟨fun hf => (nomatch hf), fun hf => (nomatch hf)⟩
    · rw [List.mem_singleton] at he
      rw [he]
      exact ⟨fun hf => (nomatch hf), fun hf => (nomatch hf)⟩

/-! ## What a resumed run makes of a disk -/

/-- A disk is a volume of one file system at most. -/
theorem IsVolume.unique {fs' : Device} (h : IsVolume P fs d) (h' : IsVolume P fs' d) {i : Nat}
    (hi : i < P.volumeSize) : fs i = fs' i := by
  rcases h with ⟨info, hopens, -, -, -, hdata⟩
  rcases h' with ⟨info', hopens', -, -, -, hdata'⟩
  have hsome : some info = some info' := Except.ok.inj (hopens.read.symm.trans hopens'.read)
  rw [← hdata i hi, ← hdata' i hi, Option.some.inj hsome]

theorem concealed_congr {fs' : Device} {i : Nat} (h : fs i = fs' i) :
    concealed fs i = concealed fs' i := by
  unfold concealed
  rw [h]

/-- Every disk holds some file system, as a run takes it to: what is in front of the recorded
boundary, revealed, and what the rest decrypts to. -/
theorem image_of_disk {c : UnitCipher dataUnitSize} (hle : r ≤ P.volumeSize) (hwhole : r % 512 = 0)
    (hcipher : ∀ i, r ≤ i → i < P.volumeSize → decryptAt c d (i + volumeDataOffset) = fs i) :
    Image P c (fun i => if i < r then concealed d i else fs i) d r := by
  refine { le := hle, whole := hwhole, plain := ?_, cipher := ?_ }
  · intro i hi
    have hback := congrFun (concealed_concealed d) i
    rw [← hback]
    exact concealed_congr (if_pos hi).symm
  · intro i hri hi
    exact (hcipher i hri hi).trans (if_neg (Nat.not_lt.mpr hri)).symm

/-- **What is behind the boundary being right, it depends on what is in front of it.** -/
theorem survives_iff_intact {dk : Bytes} {info : CryptoInfo} (hdescribes : Describes P keys info)
    (hrecords : Records P dk info r (headerAt P d)) (hle : r ≤ P.volumeSize) (hwhole : r % 512 = 0)
    (hcipher : ∀ i, r ≤ i → i < P.volumeSize →
      decryptAt (dataCipher P.C keys) d (i + volumeDataOffset) = fs i) :
    Survives P fs d ↔ Intact P fs d := by
  rcases hrecords.open_eq with ⟨flags, hopen⟩
  have hV := P.volumeSize_lt
  have hH := volumeDataOffset_eq
  have hboundary : (UInt64.ofNat (r + volumeDataOffset)).toNat - volumeDataOffset = r := by
    rw [toNat_ofNat_of_lt (by omega), Nat.add_sub_cancel]
  constructor
  · rintro ⟨⟨d', hd'⟩, hvolume⟩
    have hsurvives : Survives P (fun i => if i < r then concealed d i else fs i) d :=
      Stands.survives ⟨hdescribes, hrecords, image_of_disk hle hwhole hcipher⟩
    refine ⟨dk, _, hopen, ?_⟩
    intro i hi
    rw [withArea_encryptedAreaStart, hboundary] at hi
    have hsame : concealed d i = fs i := by
      have hunique := (hsurvives.2 d' hd').unique (hvolume d' hd') (show i < P.volumeSize by omega)
      rwa [if_pos hi] at hunique
    have hback := congrFun (concealed_concealed d) i
    rw [← hback]
    exact concealed_congr hsame
  · rintro ⟨dk', info', hopen', hplain⟩
    have hinfo : info' = info.withArea (UInt64.ofNat (r + volumeDataOffset))
        (UInt64.ofNat (P.volumeSize - r)) flags :=
      congrArg Prod.snd (Option.some.inj (hopen'.symm.trans hopen))
    rw [hinfo, withArea_encryptedAreaStart, hboundary] at hplain
    exact Stands.survives ⟨hdescribes, hrecords,
      { le := hle, whole := hwhole, plain := hplain, cipher := hcipher }⟩

theorem not_survives_of_unopened (h : openBackupHeader P d = none) :
    ¬Survives P fs d ∧ ¬Intact P fs d := by
  constructor
  · rintro ⟨⟨d', hd'⟩, -⟩
    exact not_completes_of_unopened h d' hd'
  · rintro ⟨dk, info, hopen, -⟩
    rw [h] at hopen
    cases hopen

/-! ## Stops -/

/-- Where a run of `EncryptPartitionInPlaceResume` stops: in the writes of a chunk, or in undoing
them, behind some wiping passes; in the header update behind a chunk; in the one behind the loop or
behind an error, which may have left anything in the range of the chunk; or in the header area at
the front. The write that it stops in leaves any bytes in its range: those that stood there too, and
all that it writes, so a stop between two writes is one of these. -/
inductive Stop where
  | chunk (wipes : List Buffer) (torn : Buffer)
  | update (wipes : List Buffer) (torn : Buffer)
  | closing (left torn : Buffer)
  | final (front torn : Buffer)

/-- The disk behind the chunk of a turn. -/
def chunkDisk (P : Partition) (s : Session) (d : Device) (wipes : List Buffer) (buf : Buffer) :
    Device :=
  let w := s.workChunkSize
  let off := s.encryptedAreaStart - w
  writeAt (overwrite d off w wipes) off w buf

section

variable {wipes : List Buffer} {buf : Buffer}

/-- The chunk is in front of the header. -/
theorem headerAt_chunkDisk (d : Device) (hn : Numbers P s s.remainingBytes)
    (hr : s.remainingBytes ≤ P.volumeSize) (wipes : List Buffer) (buf : Buffer) :
    headerAt P (chunkDisk P s d wipes buf) = headerAt P d := by
  have hV := P.backupHeaderOffset_eq
  have hH := volumeDataOffset_eq
  have hle := workChunkSize_le s
  have hoff := encryptedOffset hn
  rw [chunkDisk, writeAt_overwrite]
  exact headerAt_writeAt (by omega)

theorem chunkDisk_frame (hn : Numbers P s s.remainingBytes) {i : Nat}
    (hi : i < s.remainingBytes - s.workChunkSize + volumeDataOffset ∨
      s.remainingBytes + volumeDataOffset ≤ i) : chunkDisk P s d wipes buf i = d i := by
  have hle := workChunkSize_le s
  have hoff := encryptedOffset hn
  rw [chunkDisk, writeAt_overwrite, writeAt_outside (by omega)]

theorem chunkDisk_inside (hn : Numbers P s s.remainingBytes) {k : Nat}
    (hk : k < s.workChunkSize) :
    chunkDisk P s d wipes buf (s.remainingBytes - s.workChunkSize + volumeDataOffset + k) =
      buf k := by
  rw [chunkDisk, writeAt_overwrite, encryptedOffset hn, writeAt_inside hk]

end

/-- The disk at a stop. -/
def stopDisk (P : Partition) (s : Session) (d : Device) : Stop → Device
  | .chunk wipes torn => chunkDisk P s d wipes torn
  | .update wipes torn =>
    writeAt (chunkDisk P s d wipes (encryptedChunk P s d)) P.backupHeaderOffset
      volumeHeaderEffectiveSize torn
  | .closing left torn =>
    writeAt (chunkDisk P s d [] left) P.backupHeaderOffset volumeHeaderEffectiveSize torn
  | .final front torn =>
    writeAt (writeAt (fastVolumeHeaderUpdate P s .ok d).1 0 volumeHeaderGroupSize front)
      P.backupHeaderOffset volumeHeaderEffectiveSize torn

/-- A header sector that is half written and yet passes the three checks of a header is the old one
or the new one. -/
def HeaderTorn (P : Partition) (before after torn : Device) : Prop :=
  headerAt P torn = headerAt P before ∨ headerAt P torn = headerAt P after ∨
    openBackupHeader P torn = none

/-- The run is at this point. -/
def Stop.Possible (P : Partition) (s : Session) (d : Device) (stop : Stop) : Prop :=
  match stop with
  | .chunk _ _ => 0 < s.remainingBytes
  | .update wipes _ =>
    0 < s.remainingBytes ∧
      HeaderTorn P d (fastVolumeHeaderUpdate P (s.encryptedBy s.workChunkSize) .ok
        (chunkDisk P s d wipes (encryptedChunk P s d))).1 (stopDisk P s d stop)
  | .closing left _ =>
    HeaderTorn P d (fastVolumeHeaderUpdate P s .ok (chunkDisk P s d [] left)).1
      (stopDisk P s d stop)
  | .final _ _ =>
    s.remainingBytes = 0 ∧
      HeaderTorn P (fastVolumeHeaderUpdate P s .ok d).1 (fastVolumeHeaderUpdate P s .ok d).1
        (stopDisk P s d stop)

/-- A stop with the header of a boundary behind which the disk is right. -/
theorem survives_iff_of_header {d' d₁ : Device} {r₁ : Nat} {sn : Session}
    (himage : Image P (dataCipher P.C keys) fs d' r) (hdescribes : Describes P keys sn.info)
    (hrecords : Records P sn.dk sn.info r₁ (headerAt P d₁)) (hr₁ : r ≤ r₁)
    (hle : r₁ ≤ P.volumeSize) (hwhole : r₁ % 512 = 0)
    (hd : ∀ i, r₁ + volumeDataOffset ≤ i → i < P.backupHeaderOffset → d₁ i = d' i) :
    Survives P fs d₁ ↔ Intact P fs d₁ := by
  have hV := P.backupHeaderOffset_eq
  have hVwhole := P.volumeSize_whole
  have hH := volumeDataOffset_eq
  apply survives_iff_intact hdescribes hrecords hle hwhole
  intro i hri hi
  rw [← himage.cipher i (by omega) hi]
  apply decryptAt_congr
  intro q hq
  have hq512 : q / 512 = (i + volumeDataOffset) / 512 := hq
  exact hd q (by omega) (by omega)

/-- **What a run survives**: the disks whose header opens, and on which nothing in front of the
recorded boundary has changed. -/
theorem stop_survives_iff (h : Running P keys fs d s s.remainingBytes r₀)
    (hr₀ : s.remainingBytes ≤ r₀) {stop : Stop} (hstop : stop.Possible P s d) :
    Survives P fs (stopDisk P s d stop) ↔ Intact P fs (stopDisk P s d stop) := by
  have hV := P.backupHeaderOffset_eq
  have hH := volumeDataOffset_eq
  have hG : volumeHeaderGroupSize = 131072 := rfl
  have hr := h.image.le
  have hle := workChunkSize_le s
  have hoff := encryptedOffset h.numbers
  have hunopened : ∀ {d₁}, openBackupHeader P d₁ = none → (Survives P fs d₁ ↔ Intact P fs d₁) :=
    fun hnone => iff_of_false (not_survives_of_unopened hnone).1 (not_survives_of_unopened hnone).2
  have hchunkHeader := headerAt_chunkDisk d h.numbers h.image.le
  cases stop with
  | chunk wipes torn =>
    have hrecords := h.records
    rw [← hchunkHeader wipes torn] at hrecords
    exact survives_iff_of_header h.image h.describes hrecords hr₀ h.recorded_le h.recorded_whole
      (fun i hi _ => chunkDisk_frame h.numbers (Or.inr (by omega)))
  | update wipes torn =>
    rcases hstop with ⟨hpos, htorn⟩
    rcases h.encryptedBy wipes with ⟨hm, hheader⟩
    have hok := fastVolumeHeaderUpdate_ok hm.mends hm.numbers
    have hframe : ∀ i < P.backupHeaderOffset, stopDisk P s d (.update wipes torn) i =
        chunkDisk P s d wipes (encryptedChunk P s d) i :=
      fun i hi => writeAt_outside (Or.inl hi)
    rcases htorn with hold | hnew | hnone
    · have hrecords := h.records
      rw [← hold] at hrecords
      exact survives_iff_of_header hm.image h.describes hrecords (by omega) h.recorded_le
        h.recorded_whole (fun i _ hi => hframe i hi)
    · have hrecords := hok.2
      have hnew' : headerAt P (stopDisk P s d (.update wipes torn)) = headerAt P
          (fastVolumeHeaderUpdate P (s.encryptedBy s.workChunkSize) .ok
            (chunkDisk P s d wipes (encryptedChunk P s d))).1 := hnew
      rw [chunkDisk] at hnew'
      rw [← hnew'] at hrecords
      exact survives_iff_of_header hm.image hm.describes hrecords le_rfl hm.image.le hm.image.whole
        (fun i _ hi => hframe i hi)
    · exact hunopened hnone
  | closing left torn =>
    have hframe : ∀ i, s.remainingBytes + volumeDataOffset ≤ i → i < P.backupHeaderOffset →
        stopDisk P s d (.closing left torn) i = d i := by
      intro i hlow hi
      have hframe : chunkDisk P s d [] left i = d i := chunkDisk_frame h.numbers (Or.inr hlow)
      rw [← hframe]
      exact writeAt_outside (Or.inl hi)
    rcases hstop with hold | hnew | hnone
    · have hrecords := h.records
      rw [← hold] at hrecords
      exact survives_iff_of_header h.image h.describes hrecords hr₀ h.recorded_le h.recorded_whole
        (fun i hlow hi => hframe i (by omega) hi)
    · have hmends := h.records.mends
      rw [← hchunkHeader [] left] at hmends
      have hrecords := (fastVolumeHeaderUpdate_ok hmends h.numbers).2
      rw [← hnew] at hrecords
      exact survives_iff_of_header h.image h.describes hrecords le_rfl h.image.le h.image.whole
        hframe
    · exact hunopened hnone
  | final front torn =>
    rcases hstop with ⟨hzero, htorn⟩
    have hok := fastVolumeHeaderUpdate_ok h.records.mends h.numbers
    have hframe : ∀ i, volumeDataOffset ≤ i → i < P.backupHeaderOffset →
        stopDisk P s d (.final front torn) i = d i := by
      intro i hlow hi
      show writeAt (writeAt (fastVolumeHeaderUpdate P s .ok d).1 0 volumeHeaderGroupSize front)
        P.backupHeaderOffset volumeHeaderEffectiveSize torn i = d i
      rw [writeAt_outside (Or.inl hi), writeAt_outside (by omega)]
      exact headerUpdate_frame _ _ hi
    have hsame : headerAt P (stopDisk P s d (.final front torn)) =
        headerAt P (fastVolumeHeaderUpdate P s .ok d).1 ∨
        openBackupHeader P (stopDisk P s d (.final front torn)) = none := by
      rcases htorn with hold | hnew | hnone
      · exact Or.inl hold
      · exact Or.inl hnew
      · exact Or.inr hnone
    rcases hsame with hheader | hnone
    · have hrecords := hok.2
      rw [← hheader] at hrecords
      exact survives_iff_of_header h.image h.describes hrecords le_rfl h.image.le h.image.whole
        (fun i hi hhigh => hframe i (by omega) hhigh)
    · exact hunopened hnone

/-- **A crash of an in-place encryption is survived exactly if** the backup header opens and nothing
in front of the boundary that it records has changed. -/
theorem crash_survives_iff (P : Partition) (b : Begin P) (fs : Device) (es : List Event)
    (hes : Along (step P) (fun st e => e.Meets P st) (idle .begun (b.disk fs)) es)
    (d : Device) (s : Session)
    (hrun : (run (step P) (idle .begun (b.disk fs)) es).1 = { disk := d, phase := .encrypting s })
    (stop : Stop) (hstop : stop.Possible P s d) :
    Survives P fs (stopDisk P s d stop) ↔ Intact P fs (stopDisk P s d stop) := by
  have hsafe := run_safe (b.safe fs) hes
  rw [hrun] at hsafe
  rcases hsafe with ⟨r₀, hr₀, hrunning⟩
  exact stop_survives_iff hrunning hr₀ hstop

theorem crash_survives_iff_demo : ∃ (b : Begin Example.partition) (d : Device) (s : Session),
    Survives Example.partition Example.fileSystem
        (stopDisk Example.partition s d (.chunk [] (fun _ => 0))) ↔
      Intact Example.partition Example.fileSystem
        (stopDisk Example.partition s d (.chunk [] (fun _ => 0))) := by
  rcases Example.exists_begin with ⟨b⟩
  rcases b.stands Example.fileSystem with ⟨dk, info, hs⟩
  rcases hs.startEncrypting_eq .begun with ⟨s, hstart, -, hrem, -⟩
  have hrun : (run (step Example.partition) (idle .begun (b.disk Example.fileSystem))
      [.encrypt]).1 = { disk := b.disk Example.fileSystem, phase := .encrypting s } := by
    rw [run_cons, step_encrypt, hstart, run]
  have hes : Along (step Example.partition) (fun st e => e.Meets Example.partition st)
      (idle .begun (b.disk Example.fileSystem)) [.encrypt] := by
    apply along_of_forall
    intro e he st
    rw [List.mem_singleton] at he
    rw [he]
    rcases st with ⟨d, last | s | s⟩ <;> trivial
  have hpossible : Stop.Possible Example.partition s (b.disk Example.fileSystem)
      (.chunk [] (fun _ => 0)) := by
    show 0 < s.remainingBytes
    rw [hrem, Example.volumeSize_partition]
    decide
  refine ⟨b, b.disk Example.fileSystem, s, ?_⟩
  exact crash_survives_iff Example.partition b Example.fileSystem [.encrypt] hes
    (b.disk Example.fileSystem) s hrun (.chunk [] (fun _ => 0)) hpossible

/-! ## What a crash loses -/

/-- A turn without a failure behind which no header update is due. -/
theorem encryptTurn_notDue (h : Running P keys fs d s s.remainingBytes r₀) (wipes : List Buffer)
    (hdue : s.lastHeaderUpdateDistance + s.workChunkSize < headerUpdateInterval) :
    encryptTurn P s (.written wipes .ok none .ok) d =
      { disk := chunkDisk P s d wipes (encryptedChunk P s d)
        phase := .encrypting (s.encryptedBy s.workChunkSize) } := by
  have hwhole : ¬(s.workChunkSize % dataUnitSize ≠ 0) := by
    have hmod := workChunkSize_whole (s := s) h.image.whole
    exact not_not_intro hmod
  have hnotDue : ¬headerUpdateInterval ≤
      (s.encryptedBy s.workChunkSize).lastHeaderUpdateDistance := Nat.not_le.mpr hdue
  rw [encryptTurn, if_neg hwhole]
  dsimp only
  rw [updateWhenDue, if_neg hnotDue]
  dsimp only
  rw [if_neg (by decide)]
  rfl

/-- The first byte of the first chunk. -/
theorem encryptedChunk_zero (hn : Numbers P s s.remainingBytes) (hk : s.info.schedule = keys)
    (hw : dataUnitSize ≤ s.workChunkSize)
    (hconceal : initialConcealPortionSize ≤ s.remainingBytes - s.workChunkSize)
    (hzero : ∀ k < dataUnitSize, d (s.remainingBytes - s.workChunkSize + k) = 0) :
    encryptedChunk P s d 0 = (dataCipher P.C keys).enc
      ((s.remainingBytes - s.workChunkSize + volumeDataOffset) / dataUnitSize) (fun _ => 0)
      (inUnit dataUnitSize 0) := by
  have hin : 0 < dataUnitSize * (s.workChunkSize / dataUnitSize) :=
    Nat.mul_pos (by decide) (Nat.div_pos hw (by decide))
  have hunit : unitAt dataUnitSize (undoConcealing (s.remainingBytes - s.workChunkSize)
      (readAt d (s.remainingBytes - s.workChunkSize))) (0 / dataUnitSize) = fun _ => 0 := by
    funext k
    rw [unitAt, undoConcealing, if_neg (Nat.not_lt.mpr hconceal), Nat.zero_div, Nat.mul_zero,
      Nat.zero_add]
    exact hzero k k.isLt
  rw [encryptedChunk_eq hn hk, onUnits, if_pos hin, hunit, Nat.zero_div, Nat.add_zero]

/-- Where the first chunk is written: 128 KiB behind where it was read. -/
def overwritten (P : Partition) : Nat := P.volumeSize - maxWorkChunkSize + volumeDataOffset

/-- A file system of zeros but for one byte, which is none that the first chunk writes there. -/
def fragile (P : Partition) (keys : List (Cipher × Bytes × Bytes)) : Device := fun i =>
  if i = overwritten P then
    (dataCipher P.C keys).enc (overwritten P / dataUnitSize) (fun _ => 0) (inUnit dataUnitSize 0) + 1
  else 0

theorem fragile_zero {keys : List (Cipher × Bytes × Bytes)} {i : Nat} (hi : i ≠ overwritten P) :
    fragile P keys i = 0 := if_neg hi

theorem fragile_overwritten (keys : List (Cipher × Bytes × Bytes)) :
    fragile P keys (overwritten P) = (dataCipher P.C keys).enc (overwritten P / dataUnitSize)
      (fun _ => 0) (inUnit dataUnitSize 0) + 1 := if_pos rfl

theorem uint8_ne_add_one (x : UInt8) : x ≠ x + 1 := by
  intro h
  have hzero : x - x = x + 1 - x := congrArg (· - x) h
  rw [UInt8.sub_self, UInt8.add_comm, UInt8.add_sub_cancel] at hzero
  exact absurd hzero (by decide)

/-- **Behind its first chunk an encryption cannot be resumed**: the header does not know of the
chunk, which stands where plaintext is read again. -/
theorem first_chunk_lost (b : Begin P) (hV : 2 * maxWorkChunkSize ≤ P.volumeSize) : ∃ d s,
    (run (step P) (idle .begun (b.disk (fragile P b.masterKeys)))
        (.encrypt :: turnEvents [[]])).1 = { disk := d, phase := .encrypting s } ∧
      ∀ torn, Stop.Possible P s d (.chunk [] torn) ∧
        ¬Survives P (fragile P b.masterKeys) (stopDisk P s d (.chunk [] torn)) := by
  have hmax : maxWorkChunkSize = 2097152 := rfl
  have hsize : initialConcealPortionSize = 8192 := rfl
  have hH := volumeDataOffset_eq
  have hU : dataUnitSize = 512 := rfl
  have hbackup := P.backupHeaderOffset_eq
  have hlt := P.volumeSize_lt
  have hp : overwritten P = P.volumeSize - maxWorkChunkSize + volumeDataOffset := rfl
  rcases b.stands (fragile P b.masterKeys) with ⟨dk, info, hs⟩
  rcases hs.startEncrypting_eq .begun with ⟨s, hstart, hrunning, hrem, hdistance⟩
  have hw : s.workChunkSize = maxWorkChunkSize := by
    rw [Session.workChunkSize, hrem, Nat.min_eq_right (by omega)]
  rw [← hrem] at hrunning
  have hoff := encryptedOffset hrunning.numbers
  have hturn := encryptTurn_notDue hrunning [] (by rw [hdistance, hw]; decide)
  have hstep : (run (step P) (idle .begun (b.disk (fragile P b.masterKeys)))
      (.encrypt :: turnEvents [[]])).1 =
      { disk := chunkDisk P s (b.disk (fragile P b.masterKeys)) []
          (encryptedChunk P s (b.disk (fragile P b.masterKeys)))
        phase := .encrypting (s.encryptedBy s.workChunkSize) } := by
    rw [run_cons, step_encrypt, hstart, turnEvents, List.map_cons, run_cons,
      step_encryptTurn _ _ _ (by omega), hturn]
    rfl
  have hsafe := turns_safe (safe_encrypting hrunning rfl le_rfl) [[]]
  rw [run_cons, step_encrypt, hstart] at hstep
  rw [hstep] at hsafe
  rcases hsafe with ⟨r₁, hr₁, hrunning₁⟩
  refine ⟨_, _, by rw [run_cons, step_encrypt, hstart, hstep], ?_⟩
  intro torn
  have hrem₁ : (s.encryptedBy s.workChunkSize).remainingBytes =
      P.volumeSize - maxWorkChunkSize := by
    show s.remainingBytes - s.workChunkSize = _
    rw [hrem, hw]
  have hpossible : Stop.Possible P (s.encryptedBy s.workChunkSize)
      (chunkDisk P s (b.disk (fragile P b.masterKeys)) []
        (encryptedChunk P s (b.disk (fragile P b.masterKeys)))) (.chunk [] torn) := by
    show 0 < (s.encryptedBy s.workChunkSize).remainingBytes
    omega
  refine ⟨hpossible, ?_⟩
  intro hsurvives
  rcases (stop_survives_iff hrunning₁ hr₁ hpossible).mp hsurvives with ⟨dk', info', hopen, hplain⟩
  -- the header is still that of the beginning
  have hheader := (headerAt_chunkDisk _ hrunning₁.numbers hrunning₁.image.le [] torn).trans
    (headerAt_chunkDisk (b.disk (fragile P b.masterKeys)) hrunning.numbers hrunning.image.le []
      (encryptedChunk P s (b.disk (fragile P b.masterKeys))))
  have hrecords := hs.records
  rw [← hheader] at hrecords
  rcases hrecords.open_eq with ⟨flags, hopen'⟩
  have hinfo : info' = info.withArea (UInt64.ofNat (P.volumeSize + volumeDataOffset))
      (UInt64.ofNat (P.volumeSize - P.volumeSize)) flags :=
    congrArg Prod.snd (Option.some.inj (hopen.symm.trans hopen'))
  have hboundary : info'.encryptedAreaStart.toNat - volumeDataOffset = P.volumeSize := by
    rw [hinfo, withArea_encryptedAreaStart, toNat_ofNat_of_lt (by omega), Nat.add_sub_cancel]
  have hwrong := hplain (overwritten P) (by rw [hboundary]; omega)
  -- what stands there is the first byte of the chunk
  have hsecond : stopDisk P (s.encryptedBy s.workChunkSize)
      (chunkDisk P s (b.disk (fragile P b.masterKeys)) []
        (encryptedChunk P s (b.disk (fragile P b.masterKeys)))) (.chunk [] torn) (overwritten P) =
      chunkDisk P s (b.disk (fragile P b.masterKeys)) []
        (encryptedChunk P s (b.disk (fragile P b.masterKeys))) (overwritten P) :=
    chunkDisk_frame hrunning₁.numbers (Or.inr (by rw [hrem₁]; exact hp.ge))
  have hplace : overwritten P = s.remainingBytes - s.workChunkSize + volumeDataOffset + 0 := by
    rw [hrem, hw, hp, Nat.add_zero]
  have hfirst : chunkDisk P s (b.disk (fragile P b.masterKeys)) []
      (encryptedChunk P s (b.disk (fragile P b.masterKeys))) (overwritten P) =
      encryptedChunk P s (b.disk (fragile P b.masterKeys)) 0 := by
    rw [hplace]
    exact chunkDisk_inside hrunning.numbers (by omega)
  have hbyte := encryptedChunk_zero (d := b.disk (fragile P b.masterKeys)) hrunning.numbers
    hrunning.describes.schedule_eq (by omega) (by omega) (by
      intro k hk
      rw [b.disk_eq _ (by omega), concealed, if_neg (by omega), fragile_zero (by omega)])
  rw [hsecond, hfirst, hbyte, concealed, if_neg (by omega), fragile_overwritten, hrem, hw] at hwrong
  exact uint8_ne_add_one _ hwrong

/-- The same on the partition of the example. -/
theorem crash_loses_data : ∃ (b : Begin Example.partition) (fs d : Device) (s : Session),
    (run (step Example.partition) (idle .begun (b.disk fs)) (.encrypt :: turnEvents [[]])).1 =
        { disk := d, phase := .encrypting s } ∧
      ∀ torn, Stop.Possible Example.partition s d (.chunk [] torn) ∧
        ¬Survives Example.partition fs (stopDisk Example.partition s d (.chunk [] torn)) := by
  rcases Example.exists_begin with ⟨b⟩
  have hV : 2 * maxWorkChunkSize ≤ Example.partition.volumeSize := by
    rw [Example.volumeSize_partition]
    decide
  rcases first_chunk_lost b hV with ⟨d, s, hrun, hlost⟩
  exact ⟨b, fragile Example.partition b.masterKeys, d, s, hrun, hlost⟩

end Format
end VeraCrypt
