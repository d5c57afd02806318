import VeraCrypt.Format.InPlaceSafety

/-!
# Whole runs of in-place encryption and decryption

The steps that end a run and the turns of a decryption keep the invariant too, so every run does
(`run_safe`). That gives what is found where whenever no run is active, the volume behind a
completed encryption, and the file system behind a completed decryption
(`inPlace_keeps_data`). `tooMuchConcealed` is a run of the program that loses data: a decryption
that starts inside the concealed portion.
-/

set_option autoImplicit false

namespace VeraCrypt
namespace Format

open Lib Common

variable {P : Partition} {keys : List (Cipher × Bytes × Bytes)} {fs d : Device} {s : Session}
  {r r₀ : Nat}

/-! ## The end of an encryption -/

/-- With everything encrypted, the header area in front does not matter. -/
theorem Image.congr_behind {c : UnitCipher dataUnitSize} {d' : Device} (h : Image P c fs d 0)
    (hd : ∀ i, volumeHeaderGroupSize ≤ i → i < P.backupHeaderOffset → d' i = d i) :
    Image P c fs d' 0 := by
  have hV := P.backupHeaderOffset_eq
  have hwholeV := P.volumeSize_whole
  have hH := volumeDataOffset_eq
  have hG : volumeHeaderGroupSize = 131072 := rfl
  refine { le := h.le, whole := h.whole, plain := ?_, cipher := ?_ }
  · intro i hi
    exact absurd hi (Nat.not_lt_zero i)
  · intro i hri hi
    rw [← h.cipher i hri hi]
    apply decryptAt_congr
    intro q hq
    have hq512 : q / 512 = (i + volumeDataOffset) / 512 := hq
    exact hd q (by omega) (by omega)

theorem headerAt_behind {d' : Device} (hd : ∀ i, volumeHeaderGroupSize ≤ i → d' i = d i) :
    headerAt P d' = headerAt P d := by
  apply headerAt_congr
  intro i hi _
  have hV := P.backupHeaderOffset_eq
  have hG : volumeHeaderGroupSize = 131072 := rfl
  exact hd i (by omega)

/-- What stays in its place while the header area in front is written. -/
theorem Mended.behind {d' : Device} (h : Mended P keys fs d s 0)
    (hd : ∀ i, volumeHeaderGroupSize ≤ i → d' i = d i) : Mended P keys fs d' s 0 := by
  have hheader : headerAt P d' = headerAt P d := headerAt_behind hd
  refine
    { numbers := h.numbers
      describes := h.describes
      mends := ?_
      image := h.image.congr_behind (fun i hi _ => hd i hi)
      unchanged := ?_ }
  · rw [hheader]
    exact h.mends
  · rw [hheader]
    exact h.unchanged

/-- The closing update behind a finalisation, whose schedule may be another one. -/
theorem Mended.closing_replaced {schedule : List (Cipher × Bytes × Bytes)} {close : HeaderIO}
    {d' : Device} (h : Mended P keys fs d s 0) (hrec : Records P s.dk s.info 0 (headerAt P d))
    (hfine : (∀ updated, updateHeader P.C schedule (headerAt P d)
        (UInt64.ofNat s.encryptedAreaStart) (UInt64.ofNat s.encryptedAreaLength)
        s.info.headerFlags ≠ .ok updated) ∨
      schedule = headerSchedule P s.dk ∧ close.Lasting P s 0)
    (hd' : d' = if s.encryptedAreaSizeChanged then (headerUpdate P schedule s close d).1 else d) :
    Stands P keys fs d' s.dk s.info 0 := by
  have hsame : d' = closing P s close d ∧ schedule = headerSchedule P s.dk ∧
      close.Lasting P s 0 ∨ d' = d := by
    rcases hfine with hrefused | ⟨rfl, hlast⟩
    · right
      rw [hd']
      split
      · rw [headerUpdate]
        cases hup : updateHeader P.C schedule (headerAt P d) (UInt64.ofNat s.encryptedAreaStart)
          (UInt64.ofNat s.encryptedAreaLength) s.info.headerFlags with
        | error _ => cases close <;> rfl
        | ok updated => exact absurd hup (hrefused updated)
      · rfl
    · left
      exact ⟨hd', rfl, hlast⟩
  rcases hsame with ⟨hclosing, -, hlast⟩ | hd
  · rw [hclosing]
    exact h.closing_lasting hrec hlast
  · rw [hd]
    exact ⟨h.describes, hrec, h.image⟩

/-- The master keys and their schedule, as a header that opens has them. -/
theorem Records.info_eq {dk header : Bytes} {info : CryptoInfo}
    (h : Records P dk info r header) :
    info.masterKeydata.length = masterKeydataSize ∧
      info.schedule = eaInit P.a.ea info.masterKeydata
        (info.masterKeydata.drop (eaGetKeySize P.a.ea)) ∧
      ¬versionNumber < info.requiredProgramVersion ∧
      ¬(info.sectorSize < 512 ∨ 4096 < info.sectorSize ∨ info.sectorSize % 512 ≠ 0) := by
  rcases h.opens with ⟨flags, hopens⟩
  rcases hopens.info_eq with ⟨-, hlen, hschedule, hversion, hsector, -, -⟩
  rw [withArea_masterKeydata] at hlen
  rw [withArea_schedule, withArea_masterKeydata] at hschedule
  rw [withArea_requiredProgramVersion] at hversion
  rw [withArea_sectorSize] at hsector
  exact ⟨hlen, hschedule, hversion, hsector⟩

/-- The primary header is created, opens, and describes the whole volume. -/
theorem finalHeader_opens {header : Bytes} (hrec : Records P s.dk s.info r header)
    (hn : Numbers P s 0) (hd : Describes P keys s.info) (p : FinalPass) :
    ∃ primary info, finalHeader P s p = .ok primary ∧ slice primary 0 pkcs5SaltSize = p.salt ∧
      OpensAs P.C P.a (P.headerKey p.salt) primary info ∧ info.schedule = keys ∧
      info.volumeSize.toNat = P.volumeSize ∧ info.encryptedAreaStart.toNat = volumeDataOffset ∧
      info.encryptedAreaLength.toNat = P.volumeSize := by
  rcases hrec.info_eq with ⟨hlen, hschedule, hversion, hsector⟩
  have hV := P.volumeSize_lt
  have hofNat : (UInt64.ofNat P.volumeSize).toNat = P.volumeSize :=
    by rw [UInt64.toNat_ofNat', Nat.mod_eq_of_lt (by omega)]
  have hlength : s.encryptedAreaLength = P.volumeSize := by
    rw [hn.length_eq, Nat.sub_zero]
  have hstart : s.encryptedAreaStart = volumeDataOffset := by
    rw [hn.start_eq, Nat.zero_add]
  rw [finalHeader, dif_pos hlen]
  have hcreated : ∃ primary, createVolumeHeaderInMemory P.C (finalRequest P s p hlen)
      (P.headerKey p.salt) = .ok primary :=
    createVolumeHeaderInMemory_isOk rfl (show _ = some s.info.masterKeydata from rfl) hsector
  rcases hcreated with ⟨primary, hprimary⟩
  rcases createVolumeHeaderInMemory_opens rfl (P.length_headerKey p.salt)
    (UInt16.not_lt.mp hversion) hprimary with ⟨hsalt, info, hopens, hkeydata, -, -, hsize, hst, hln⟩
  have hinfo := hopens.info_eq.2.2.1
  refine ⟨primary, info, hprimary, hsalt, hopens, ?_, ?_, ?_, ?_⟩
  · rw [hinfo, hkeydata, ← hd.schedule_eq, hschedule]
    rfl
  · rw [hsize]
    show s.info.volumeSize.toNat = P.volumeSize
    rw [hd.volumeSize_eq, hofNat]
  · rw [hst]
    show (UInt64.ofNat s.encryptedAreaStart).toNat = volumeDataOffset
    rw [hstart]
    rfl
  · rw [hln]
    show (UInt64.ofNat s.encryptedAreaLength).toNat = P.volumeSize
    rw [hlength, hofNat]

theorem writePrimaryHeaders_frame (p : FinalPass) (header : Bytes) {i : Nat}
    (hi : volumeHeaderGroupSize ≤ i) : writePrimaryHeaders p header d i = d i := by
  have hG : volumeHeaderGroupSize = 131072 := rfl
  have hE : volumeHeaderEffectiveSize = 512 := rfl
  have hO : hiddenVolumeHeaderOffset = 65536 := rfl
  rw [writePrimaryHeaders, writeAt_outside (by omega), writeAt_outside (by omega),
    writeAt_outside (by omega)]

/-- The passes stay in the header area in front. -/
theorem foldlM_finalPass_frame {passes : List FinalPass} {d' : Device}
    (h : passes.foldlM (finalPass P s) d = some d') {i : Nat} (hi : volumeHeaderGroupSize ≤ i) :
    d' i = d i := by
  induction passes generalizing d with
  | nil =>
    rw [← Option.some.inj h]
  | cons p passes ih =>
    rcases Option.bind_eq_some_iff.mp h with ⟨mid, hmid, hrest⟩
    rcases Option.map_eq_some_iff.mp hmid with ⟨header, -, rfl⟩
    rw [ih hrest, writePrimaryHeaders_frame p header hi]

theorem foldlM_finalPass_isSome {header : Bytes} (hrec : Records P s.dk s.info r header)
    (hn : Numbers P s 0) (hd : Describes P keys s.info) (passes : List FinalPass) (d : Device) :
    ∃ d', passes.foldlM (finalPass P s) d = some d' := by
  induction passes generalizing d with
  | nil => exact ⟨d, rfl⟩
  | cons p passes ih =>
    rcases finalHeader_opens hrec hn hd p with ⟨primary, info, hprimary, -⟩
    rcases ih (writePrimaryHeaders p primary d) with ⟨d', hd'⟩
    refine ⟨d', Option.bind_eq_some_iff.mpr ⟨_, ?_, hd'⟩⟩
    rw [finalPass, hprimary]
    rfl

/-- The header sector in front behind a pass. -/
theorem bytesOf_writePrimaryHeaders (p : FinalPass) {header : Bytes}
    (hlen : header.length = volumeHeaderEffectiveSize) :
    bytesOf (writePrimaryHeaders p header d) volumeHeaderEffectiveSize = header := by
  have hE : volumeHeaderEffectiveSize = 512 := rfl
  have hO : hiddenVolumeHeaderOffset = 65536 := rfl
  have hfront : bytesOf (writePrimaryHeaders p header d) volumeHeaderEffectiveSize =
      bytesOf (bufferOf header) volumeHeaderEffectiveSize := by
    apply bytesOf_congr
    intro i hi
    have hin : writeAt d 0 volumeHeaderEffectiveSize (bufferOf header) (0 + i) =
        bufferOf header i := writeAt_inside hi
    rw [Nat.zero_add] at hin
    rw [writePrimaryHeaders, writeAt_outside (by omega), writeAt_outside (by omega), hin]
  rw [hfront, ← hlen, bytesOf_bufferOf]

/-- **The volume behind a finalisation.** -/
theorem isVolume_finalised {p : FinalPass} {mid d' : Device} {header : Bytes}
    (hrec : Records P s.dk s.info r header) (hn : Numbers P s 0) (hdesc : Describes P keys s.info)
    (himage : Image P (dataCipher P.C keys) fs d' 0) (hlast : finalPass P s mid p = some d) 
    (hd' : ∀ i < volumeHeaderEffectiveSize, d' i = d i) : IsVolume P fs d' := by
  rcases finalHeader_opens hrec hn hdesc p with
    ⟨primary, info, hprimary, hsalt, hopens, hkeys, hsize, hstart, hlength⟩
  rw [finalPass, hprimary] at hlast
  have hmid : writePrimaryHeaders p primary mid = d := Option.some.inj hlast
  have hsector : bytesOf d' volumeHeaderEffectiveSize = primary := by
    rw [bytesOf_congr hd', ← hmid, bytesOf_writePrimaryHeaders p hopens.length_eq]
  refine ⟨info, ?_, hsize, hstart, hlength, ?_⟩
  · rw [hsector, hsalt]
    exact hopens
  · intro i hi
    rw [hkeys, hstart]
    exact himage.cipher i (Nat.zero_le i) hi

/-- An update that reports success has put its header there. -/
theorem headerAt_of_update {io : HeaderIO} (h : (fastVolumeHeaderUpdate P s io d).2 = true)
    (hm : Mends P s.dk s.info (headerAt P d)) (hn : Numbers P s r) :
    updateHeader P.C (headerSchedule P s.dk) (headerAt P d) (UInt64.ofNat s.encryptedAreaStart)
      (UInt64.ofNat s.encryptedAreaLength) s.info.headerFlags =
      .ok (headerAt P (fastVolumeHeaderUpdate P s io d).1) := by
  rcases updateHeader_records hm hn with ⟨header, hup, hlen, -⟩
  cases io with
  | readError => cases h
  | writeError torn =>
    rw [fastVolumeHeaderUpdate, headerUpdate, hup, writeHeader_writeError] at h
    cases h
  | ok =>
    rw [hup, fastVolumeHeaderUpdate, headerUpdate, hup, writeHeader_ok]
    dsimp only
    rw [headerAt_written, ← hlen, bytesOf_bufferOf]

/-- A finalisation that does not fail stays in the header area in front, but for the closing update,
and makes the volume. -/
theorem finalise_done (hm : Mended P keys fs d s 0) (hrec : Records P s.dk s.info 0 (headerAt P d))
    (close : HeaderIO) (schedule : List (Cipher × Bytes × Bytes)) (passes : List FinalPass)
    (last : FinalPass) : ∃ d', (∀ i, volumeHeaderGroupSize ≤ i → d' i = d i) ∧
      finalise P s close d (.done schedule passes last) = idle .encrypted
        (if s.encryptedAreaSizeChanged then (headerUpdate P schedule s close d').1 else d') ∧
      IsVolume P fs
        (if s.encryptedAreaSizeChanged then (headerUpdate P schedule s close d').1 else d') := by
  rcases foldlM_finalPass_isSome hrec hm.numbers hm.describes passes d with ⟨mid, hmid⟩
  rcases foldlM_finalPass_isSome hrec hm.numbers hm.describes [last] mid with ⟨d', hd'⟩
  have hlastPass : finalPass P s mid last = some d' := by
    rcases Option.bind_eq_some_iff.mp hd' with ⟨d₃, hd₃, hnil⟩
    rw [hd₃, ← Option.some.inj hnil]
  have hall : (passes ++ [last]).foldlM (finalPass P s) d = some d' := by
    rw [List.foldlM_append]
    exact Option.bind_eq_some_iff.mpr ⟨mid, hmid, hd'⟩
  have hframe : ∀ i, volumeHeaderGroupSize ≤ i → d' i = d i :=
    fun i hi => foldlM_finalPass_frame hall hi
  have hclosed : ∀ i < P.backupHeaderOffset, (if s.encryptedAreaSizeChanged then
      (headerUpdate P schedule s close d').1 else d') i = d' i := by
    intro i hi
    split
    · exact headerUpdate_frame _ _ hi
    · rfl
  refine ⟨d', hframe, ?_, ?_⟩
  · rw [finalise, hall]
    rfl
  · apply isVolume_finalised hrec hm.numbers hm.describes ?_ hlastPass
    · intro i hi
      have hV := P.backupHeaderOffset_eq
      have hE : volumeHeaderEffectiveSize = 512 := rfl
      exact hclosed i (by omega)
    · apply hm.image.congr_behind
      intro i hlow hhigh
      rw [hclosed i hhigh, hframe i hlow]

/-- **The end of an encryption.** -/
theorem encryptEnd_safe (h : Running P keys fs d s s.remainingBytes r₀)
    (hzero : s.remainingBytes = 0) {update close : HeaderIO} {final : FinalIO}
    (hupdate : update.GuardedEnd P s close) (hfinal : final.Meets P s d close) :
    Safe P keys fs (encryptEnd P s update final close d) := by
  rw [hzero] at h
  rcases hupdate with ⟨⟨hmild, hcover⟩, hlast⟩
  have hbelow : s.encryptedAreaStart - volumeDataOffset = 0 := by
    rw [h.numbers.start_eq]
    omega
  rw [hbelow] at hlast
  rcases h.mended.update hmild hlast with ⟨hm, hrec, hok⟩
  rw [encryptEnd]
  by_cases htrue : (fastVolumeHeaderUpdate P s update d).2 = true
  · have hheader := headerAt_of_update htrue h.records.mends h.numbers
    have hrec := hrec htrue
    have hfine : (∀ updated, updateHeader P.C final.schedule
        (headerAt P (fastVolumeHeaderUpdate P s update d).1)
        (UInt64.ofNat s.encryptedAreaStart) (UInt64.ofNat s.encryptedAreaLength)
        s.info.headerFlags ≠ .ok updated) ∨
        final.schedule = headerSchedule P s.dk ∧ close.Lasting P s 0 := by
      rcases hfinal with hrefused | hsame
      · exact Or.inl (hrefused _ hheader)
      · exact Or.inr hsame
    rw [if_neg (by rw [htrue]; decide)]
    generalize (fastVolumeHeaderUpdate P s update d).1 = d₁ at *
    cases final with
    | fault schedule torn =>
      have hframe : ∀ i, volumeHeaderGroupSize ≤ i →
          writeAt d₁ 0 volumeHeaderGroupSize torn i = d₁ i :=
        fun i hi => writeAt_outside (Or.inr (by omega))
      have hheader₁ : headerAt P (writeAt d₁ 0 volumeHeaderGroupSize torn) = headerAt P d₁ :=
        headerAt_behind hframe
      have hm₁ := hm.behind hframe
      rw [← hheader₁] at hrec hfine
      exact ⟨_, _, _, hm₁.closing_replaced hrec hfine rfl⟩
    | done schedule passes last =>
      rcases finalise_done hm hrec close schedule passes last with ⟨d₂, hframe, hfinal, hvolume⟩
      have hheader₁ : headerAt P d₂ = headerAt P d₁ := headerAt_behind hframe
      have hm₁ := hm.behind hframe
      rw [← hheader₁] at hrec hfine
      rw [hfinal]
      exact ⟨⟨_, _, _, hm₁.closing_replaced hrec hfine rfl⟩, hvolume⟩
  · rw [if_pos (by simpa using htrue)]
    rcases hcover with hup | hclose
    · exact absurd (hok hup) htrue
    · rw [hclose]
      exact hm.closing_ok

/-- An encryption that ends without a failure makes the volume. -/
theorem encryptEnd_done (h : Running P keys fs d s s.remainingBytes r₀)
    (hzero : s.remainingBytes = 0) (close : HeaderIO) (schedule : List (Cipher × Bytes × Bytes))
    (passes : List FinalPass) (last : FinalPass) : ∃ d',
    encryptEnd P s .ok (.done schedule passes last) close d = idle .encrypted d' ∧
      IsVolume P fs d' := by
  rw [hzero] at h
  rcases h.mended.update (show HeaderIO.Mild P _ .ok from trivial)
    (fun _ => trivial) with ⟨hm, hrec, hok⟩
  rcases finalise_done hm (hrec (hok rfl)) close schedule passes last with
    ⟨d', -, hfinal, hvolume⟩
  refine ⟨_, ?_, hvolume⟩
  rw [encryptEnd, if_neg (by rw [hok rfl]; decide), hfinal]

/-! ## Decrypting -/

theorem decryptOffset (hn : Numbers P s r) : s.encryptedAreaStart - volumeDataOffset = r := by
  rw [hn.start_eq, Nat.add_sub_cancel]

/-- A turn of a decryption that has written its chunk. -/
theorem Running.decryptedBy (h : Running P keys fs d s r r₀)
    (hrem : s.remainingBytes = P.volumeSize - r) (hwell : s.ConcealsWell) :
    Mended P keys fs (writeAt d r s.workChunkSize (decryptedChunk P s d))
      (s.decryptedBy s.workChunkSize) (r + s.workChunkSize) := by
  have hle := workChunkSize_le s
  have hV := P.backupHeaderOffset_eq
  have hVwhole := P.volumeSize_whole
  have hr := h.image.le
  have hrwhole : r % 512 = 0 := h.image.whole
  have hH := volumeDataOffset_eq
  have hstart := h.numbers.start_eq
  have hlength := h.numbers.length_eq
  have hw : s.workChunkSize % 512 = 0 := workChunkSize_whole (by omega)
  have hheader : headerAt P (writeAt d r s.workChunkSize (decryptedChunk P s d)) = headerAt P d :=
    headerAt_writeAt (by omega)
  rw [Session.ConcealsWell, decryptOffset h.numbers] at hwell
  refine
    { numbers := ⟨?_, ?_⟩
      describes := h.describes
      mends := ?_
      image := ?_
      unchanged := fun hfalse => Bool.noConfusion hfalse }
  · show s.encryptedAreaStart + s.workChunkSize = _
    omega
  · show s.encryptedAreaLength - s.workChunkSize = _
    omega
  · rw [hheader]
    exact h.records.mends
  · apply image_decrypted h.image (by omega) hw
    intro k hk
    rcases decryptedChunk_eq h.image h.numbers hrem h.describes.schedule_eq hk with
      ⟨plain, hchunk, hplain⟩
    rw [hchunk]
    exact concealChunk_concealed hwell hk hplain

/-- **A turn of a decryption.** -/
theorem decryptTurn_safe (h : Running P keys fs d s r r₀)
    (hrem : s.remainingBytes = P.volumeSize - r) {io : DecryptIO} (hio : io.Meets P s d) :
    Safe P keys fs (decryptTurn P s io d) := by
  have hle := workChunkSize_le s
  have hV := P.backupHeaderOffset_eq
  have hVwhole := P.volumeSize_whole
  have hr := h.image.le
  have hrwhole : r % 512 = 0 := h.image.whole
  have hH := volumeDataOffset_eq
  have hoff := decryptOffset h.numbers
  have hwhole : ¬(s.workChunkSize % dataUnitSize ≠ 0) := by
    have hmod := workChunkSize_whole (s := s) (by omega)
    exact not_not_intro hmod
  cases io with
  | readError close =>
    rw [show close = .ok from hio]
    exact h.mended.closing_ok
  | writeError torn close =>
    rcases hio with ⟨rfl, hkept⟩
    rw [decryptTurn, if_neg hwhole, hoff]
    rw [hoff] at hkept
    have hheader : headerAt P (writeAt d r s.workChunkSize torn) = headerAt P d :=
      headerAt_writeAt (by omega)
    have hm : Mended P keys fs (writeAt d r s.workChunkSize torn) s r := by
      refine
        { numbers := h.numbers
          describes := h.describes
          mends := ?_
          image := image_kept h.image (fun i hi => writeAt_outside (Or.inl hi)) ?_
          unchanged := ?_ }
      · rw [hheader]
        exact h.records.mends
      · intro i hi
        rcases writeAt_cases d torn r s.workChunkSize i with ⟨-, hd⟩ | ⟨k, hk, rfl, hd⟩
        · exact hd
        · rw [hd, hkept k (by omega) hk]
      · rw [hheader]
        exact h.mended.unchanged
    exact hm.closing_ok
  | written update pause close =>
    rcases hio with ⟨hwell, ⟨hmild, hcover⟩, hpause⟩
    have hm := h.decryptedBy hrem hwell
    have hheader : headerAt P (writeAt d r s.workChunkSize (decryptedChunk P s d)) =
        headerAt P d := headerAt_writeAt (by omega)
    rw [decryptTurn, if_neg hwhole, hoff]
    dsimp only
    generalize writeAt d r s.workChunkSize (decryptedChunk P s d) = d' at *
    have hrec : Records P s.dk s.info r₀ (headerAt P d') := by
      rw [hheader]
      exact h.records
    rcases hm.updateWhenDue rfl hrec hmild with ⟨hm', hrec', hok⟩
    rcases updateWhenDue_session (P := P) (s := s.decryptedBy s.workChunkSize) (d := d') update with
      ⟨distance, hsession⟩
    by_cases hfine : (updateWhenDue P (s.decryptedBy s.workChunkSize) update d').2.1 = false
    · rw [if_pos hfine]
      rcases hcover with hup | hclose
      · rw [hok hup] at hfine
        cases hfine
      · rw [hclose]
        exact hm'.closing_ok
    · rw [if_neg hfine]
      rcases hrec' (by simpa using hfine) with ⟨r₁, hr₁, hrec₁⟩
      cases pause with
      | none =>
        have hle₁ := hm'.image.le
        have hwhole₁ : (r + s.workChunkSize) % 512 = 0 := hm'.image.whole
        have hle₀ := h.recorded_le
        have hwhole₀ := h.recorded_whole
        rw [hsession]
        refine ⟨r + s.workChunkSize, r₁, ?_, ?_⟩
        · show s.remainingBytes - s.workChunkSize = _
          omega
        · exact
            { numbers := ⟨hm'.numbers.start_eq, hm'.numbers.length_eq⟩
              describes := hm'.describes
              records := hrec₁
              image := hm'.image
              recorded_le := by omega
              recorded_whole := by omega
              unchanged := fun hfalse => Bool.noConfusion hfalse }
      | some pause =>
        rcases hpause pause rfl with ⟨hmild', hcover'⟩
        rw [hsession]
        have hm'' := hm'.of_distance distance
        rcases hm''.update hmild' (fun hfalse => Bool.noConfusion hfalse) with ⟨hmp, hrecp, hokp⟩
        dsimp only
        split
        · rename_i htrue
          exact ⟨_, _, _, hmp.describes, hrecp htrue, hmp.image⟩
        · rename_i htrue
          rcases hcover' with hup | hclose
          · exact absurd (hokp hup) htrue
          · rw [hclose]
            exact hmp.closing_ok

theorem concealNTFS_eq (d : Device) : concealNTFS d = concealed d := by
  funext i
  have hsize : initialConcealPortionSize = 8192 := rfl
  rw [concealed]
  by_cases hi : i < initialConcealPortionSize
  · rw [if_pos hi]
    have hin : concealNTFS d (0 + i) = d i ^^^ concealConstant := writeAt_inside hi
    rwa [Nat.zero_add] at hin
  · rw [if_neg hi]
    exact writeAt_outside (Or.inr (by omega))

theorem zeroSectors_frame (n : Nat) (d : Device) {i : Nat} (hi : i < P.volumeSize) :
    zeroSectors P n d i = d i := by
  induction n with
  | zero => rfl
  | succ n ih => rw [zeroSectors, writeAt_outside (by omega), ih]

/-- What a finished decryption reveals. -/
theorem Image.restored {c : UnitCipher dataUnitSize} (h : Image P c fs d P.volumeSize) :
    Restored P fs (concealNTFS d) := by
  intro i hi
  have hplain := h.plain i hi
  have hback := congrFun (concealed_concealed fs) i
  rw [concealNTFS_eq, ← hback]
  unfold concealed at hplain ⊢
  rw [hplain]

/-- **The end of a decryption.** -/
theorem decryptEnd_safe (h : Running P keys fs d s r r₀) (hrem : s.remainingBytes = P.volumeSize - r)
    (hzero : s.remainingBytes = 0) {update close : HeaderIO} {final : DecryptEndIO}
    (hupdate : update.GuardedEnd P s close)
    (hfinal : final.Meets P (decryptEnd P s update final close d).disk) :
    Safe P keys fs (decryptEnd P s update final close d) := by
  have hr := h.image.le
  have hend : r = P.volumeSize := by omega
  rcases hupdate with ⟨⟨hmild, hcover⟩, hlast⟩
  rw [decryptOffset h.numbers] at hlast
  rcases h.mended.update hmild hlast with ⟨hm, hrec, hok⟩
  unfold decryptEnd at hfinal ⊢
  dsimp only at hfinal ⊢
  by_cases htrue : (fastVolumeHeaderUpdate P s update d).2 = true
  · rw [if_neg (by rw [htrue]; decide)] at hfinal ⊢
    have hrec := hrec htrue
    have himage := hm.image
    rw [hend] at himage
    have hback := himage.restored
    cases final with
    | concealError => exact ⟨_, _, _, hm.describes, hrec, hm.image⟩
    | zeroError n torn =>
      refine ⟨?_, hfinal⟩
      intro i hi
      show writeAt _ _ _ _ i = fs i
      rw [writeAt_outside (by omega), zeroSectors_frame n _ hi]
      exact hback i hi
    | done =>
      refine ⟨?_, hfinal⟩
      intro i hi
      show zeroSectors P _ _ i = fs i
      rw [zeroSectors_frame _ _ hi]
      exact hback i hi
  · rw [if_pos (by simpa using htrue)]
    rcases hcover with hup | hclose
    · exact absurd (hok hup) htrue
    · rw [hclose]
      exact hm.closing_ok

/-! ## The start of a run -/

theorem toNat_ofNat_of_lt {n : Nat} (h : n < 2 ^ 64) : (UInt64.ofNat n).toNat = n := by
  rw [UInt64.toNat_ofNat', Nat.mod_eq_of_lt h]

/-- What `OpenBackupHeader` reads of a header that records a boundary. -/
theorem Records.open_eq {dk : Bytes} {info : CryptoInfo} (h : Records P dk info r (headerAt P d)) :
    ∃ flags, openBackupHeader P d = some (dk,
      info.withArea (UInt64.ofNat (r + volumeDataOffset)) (UInt64.ofNat (P.volumeSize - r))
        flags) := by
  rcases h with ⟨hkey, flags, hopens⟩
  refine ⟨flags, ?_⟩
  rw [openBackupHeader, hkey, hopens.read]

/-- A new session has the numbers of the header. -/
theorem Running.of_header {dk : Bytes} {info : CryptoInfo} {start length : UInt64}
    (hdescribes : Describes P keys info) (hrecords : Records P dk info r (headerAt P d))
    (himage : Image P (dataCipher P.C keys) fs d r) (hstart : start.toNat = r + volumeDataOffset)
    (hlength : length.toNat = P.volumeSize - r) (flags : UInt32) (remainingBytes : Nat) :
    Running P keys fs d (newSession dk (info.withArea start length flags) remainingBytes) r r := by
  refine
    { numbers := ⟨hstart, hlength⟩
      describes := ?_
      records := ?_
      image := himage
      recorded_le := himage.le
      recorded_whole := himage.whole
      unchanged := fun _ => rfl }
  · rcases hdescribes with ⟨hsize, hlegacy, hhidden, hschedule⟩
    exact ⟨hsize, hlegacy, hhidden, hschedule⟩
  · rcases hrecords with ⟨hkey, flags', hopens⟩
    refine ⟨hkey, flags', ?_⟩
    rw [newSession, withArea_withArea]
    exact hopens

/-- A session at the boundary that the header records. -/
theorem Stands.running {dk : Bytes} {info : CryptoInfo} (h : Stands P keys fs d dk info r)
    (flags : UInt32) (remainingBytes : Nat) :
    Running P keys fs d
      (newSession dk (info.withArea (UInt64.ofNat (r + volumeDataOffset))
        (UInt64.ofNat (P.volumeSize - r)) flags) remainingBytes) r r := by
  have hr := h.image.le
  have hV := P.volumeSize_lt
  have hH := volumeDataOffset_eq
  exact Running.of_header h.describes h.records h.image (toNat_ofNat_of_lt (by omega))
    (toNat_ofNat_of_lt (by omega)) flags remainingBytes

theorem safe_encrypting (h : Running P keys fs d s r r₀) (hrem : s.remainingBytes = r)
    (hr₀ : r ≤ r₀) : Safe P keys fs { disk := d, phase := .encrypting s } := by
  subst hrem
  exact ⟨r₀, hr₀, h⟩

theorem safe_decrypting (h : Running P keys fs d s r r₀)
    (hrem : s.remainingBytes = P.volumeSize - r) :
    Safe P keys fs { disk := d, phase := .decrypting s } :=
  ⟨r, r₀, hrem, h⟩

/-- An encryption starts at the boundary of the header. -/
theorem Stands.startEncrypting_eq {dk : Bytes} {info : CryptoInfo}
    (h : Stands P keys fs d dk info r) (last : Ended) :
    ∃ s, startEncrypting P last d = { disk := d, phase := .encrypting s } ∧
      Running P keys fs d s r r ∧ s.remainingBytes = r ∧ s.lastHeaderUpdateDistance = 0 := by
  rcases h.records.open_eq with ⟨flags, hopen⟩
  have hr := h.image.le
  have hV := P.volumeSize_lt
  have hremaining : (info.volumeSize - UInt64.ofNat (P.volumeSize - r)).toNat = r := by
    have hsize := toNat_ofNat_of_lt (show P.volumeSize < 2 ^ 64 by omega)
    have hlength := toNat_ofNat_of_lt (show P.volumeSize - r < 2 ^ 64 by omega)
    have hle : UInt64.ofNat (P.volumeSize - r) ≤ UInt64.ofNat P.volumeSize := by
      rw [UInt64.le_iff_toNat_le, hsize, hlength]
      omega
    rw [h.describes.volumeSize_eq, UInt64.toNat_sub_of_le _ _ hle, hsize, hlength]
    omega
  refine ⟨_, ?_, h.running flags r, rfl, rfl⟩
  rw [startEncrypting, hopen, Option.elim_some, withArea_volumeSize, withArea_encryptedAreaLength,
    hremaining]

/-- So does a decryption. -/
theorem Stands.startDecrypting_eq {dk : Bytes} {info : CryptoInfo}
    (h : Stands P keys fs d dk info r) (last : Ended) :
    ∃ s, startDecrypting P last d = { disk := d, phase := .decrypting s } ∧
      Running P keys fs d s r r ∧ s.remainingBytes = P.volumeSize - r ∧
      s.lastHeaderUpdateDistance = 0 := by
  rcases h.records.open_eq with ⟨flags, hopen⟩
  have hr := h.image.le
  have hV := P.volumeSize_lt
  have hremaining : (UInt64.ofNat (P.volumeSize - r)).toNat = P.volumeSize - r :=
    toNat_ofNat_of_lt (by omega)
  have hplain : ¬(info.legacyVolume = true ∨ info.hiddenVolume = true) := by
    rw [h.describes.legacyVolume_eq, h.describes.hiddenVolume_eq]
    decide
  refine ⟨_, ?_, h.running flags (P.volumeSize - r), rfl, rfl⟩
  rw [startDecrypting, hopen, Option.elim_some, withArea_legacyVolume, withArea_hiddenVolume,
    if_neg hplain, withArea_encryptedAreaLength, hremaining]

theorem Stands.start_safe {dk : Bytes} {info : CryptoInfo} (h : Stands P keys fs d dk info r)
    (last : Ended) :
    Safe P keys fs (startEncrypting P last d) ∧ Safe P keys fs (startDecrypting P last d) := by
  rcases h.startEncrypting_eq last with ⟨s, heq, hrunning, hrem, -⟩
  rcases h.startDecrypting_eq last with ⟨s', heq', hrunning', hrem', -⟩
  rw [heq, heq']
  exact ⟨safe_encrypting hrunning hrem le_rfl, safe_decrypting hrunning' hrem'⟩

/-- A run that cannot open the header changes nothing. -/
theorem start_unopened (last : Ended) (h : openBackupHeader P d = none) :
    startEncrypting P last d = idle last d ∧ startDecrypting P last d = idle last d := by
  rw [startEncrypting, startDecrypting, h]
  exact ⟨rfl, rfl⟩

theorem start_safe {last : Ended} (h : Safe P keys fs (idle last d)) :
    Safe P keys fs (startEncrypting P last d) ∧ Safe P keys fs (startDecrypting P last d) := by
  have hnone : openBackupHeader P d = none →
      Safe P keys fs (startEncrypting P last d) ∧ Safe P keys fs (startDecrypting P last d) := by
    intro hopen
    rw [(start_unopened last hopen).1, (start_unopened last hopen).2]
    exact ⟨h, h⟩
  cases last with
  | begun =>
    rcases h with ⟨dk, info, r, hs⟩
    exact hs.start_safe _
  | halted =>
    rcases h with ⟨dk, info, r, hs⟩
    exact hs.start_safe _
  | encrypted =>
    rcases h with ⟨⟨dk, info, r, hs⟩, -⟩
    exact hs.start_safe _
  | decrypted => exact hnone h.2
  | zeroingFailed => exact hnone h.2

/-! ## Runs -/

theorem step_encrypt (last : Ended) (d : Device) :
    (step P (idle last d) .encrypt).1 = startEncrypting P last d := rfl

theorem step_decrypt (last : Ended) (d : Device) :
    (step P (idle last d) .decrypt).1 = startDecrypting P last d := rfl

theorem step_encryptTurn (s : Session) (io : EncryptIO) (d : Device) (h : 0 < s.remainingBytes) :
    (step P { disk := d, phase := .encrypting s } (.encryptTurn io)).1 = encryptTurn P s io d :=
  if_pos h

theorem step_encryptEnd (s : Session) (update close : HeaderIO) (final : FinalIO) (d : Device)
    (h : s.remainingBytes = 0) :
    (step P { disk := d, phase := .encrypting s } (.encryptEnd update final close)).1 =
      encryptEnd P s update final close d := if_pos h

theorem step_decryptTurn (s : Session) (io : DecryptIO) (d : Device) (h : 0 < s.remainingBytes) :
    (step P { disk := d, phase := .decrypting s } (.decryptTurn io)).1 = decryptTurn P s io d :=
  if_pos h

/-- **Every step that meets the condition keeps the invariant.** -/
theorem step_safe (st : State) (e : Event) (h : Safe P keys fs st) (he : e.Meets P st) :
    Safe P keys fs (step P st e).1 := by
  rcases st with ⟨d, phase⟩
  cases phase with
  | idle last =>
    cases e with
    | encrypt => exact (start_safe h).1
    | decrypt => exact (start_safe h).2
    | encryptTurn | encryptEnd | decryptTurn | decryptEnd => exact h
  | encrypting s =>
    cases e with
    | encryptTurn io =>
      show Safe P keys fs (if 0 < s.remainingBytes then encryptTurn P s io d else _)
      split
      · rcases h with ⟨r₀, hr₀, hrunning⟩
        exact encryptTurn_safe hrunning hr₀ he
      · exact h
    | encryptEnd update final close =>
      show Safe P keys fs (if s.remainingBytes = 0 then encryptEnd P s update final close d else _)
      split
      · rename_i hzero
        rcases h with ⟨r₀, -, hrunning⟩
        exact encryptEnd_safe hrunning hzero he.1 he.2
      · exact h
    | encrypt | decrypt | decryptTurn | decryptEnd => exact h
  | decrypting s =>
    cases e with
    | decryptTurn io =>
      show Safe P keys fs (if 0 < s.remainingBytes then decryptTurn P s io d else _)
      split
      · rcases h with ⟨r, r₀, hrem, hrunning⟩
        exact decryptTurn_safe hrunning hrem he
      · exact h
    | decryptEnd update final close =>
      show Safe P keys fs (if s.remainingBytes = 0 then decryptEnd P s update final close d else _)
      split
      · rename_i hzero
        rcases h with ⟨r, r₀, hrem, hrunning⟩
        exact decryptEnd_safe hrunning hrem hzero he.1 he.2
      · exact h
    | encrypt | decrypt | encryptTurn | encryptEnd => exact h

/-- **Every run keeps it.** -/
theorem run_safe {st : State} {es : List Event} (h : Safe P keys fs st)
    (hes : Along (step P) (fun st e => e.Meets P st) st es) :
    Safe P keys fs (run (step P) st es).1 :=
  run_invariant (fun st e hst he => step_safe st e hst he) h hes

/-! ## The beginning -/

/-- The header sector behind a begin. -/
theorem Begin.headerAt_disk (b : Begin P) (fs : Device)
    (hlen : b.header.length = volumeHeaderEffectiveSize) : headerAt P (b.disk fs) = b.header := by
  have hV := P.backupHeaderOffset_eq
  have hE : volumeHeaderEffectiveSize = 512 := rfl
  have hO : hiddenVolumeHeaderOffset = 65536 := rfl
  have hC : initialConcealPortionSize = 8192 := rfl
  have hfront : headerAt P (b.disk fs) = bytesOf (bufferOf b.header) volumeHeaderEffectiveSize := by
    apply bytesOf_congr
    intro i hi
    show b.disk fs (P.backupHeaderOffset + i) = bufferOf b.header i
    rw [Begin.disk, concealNTFS, writeAt_outside (by omega), writeAt_outside (by omega),
      writeAt_outside (by omega), writeAt_inside hi]
  rw [hfront, ← hlen, bytesOf_bufferOf]

/-- In front of it stands the file system, concealed. -/
theorem Begin.disk_eq (b : Begin P) (fs : Device) {i : Nat} (hi : i < P.volumeSize) :
    b.disk fs i = concealed fs i := by
  have hV := P.backupHeaderOffset_eq
  have hE : volumeHeaderEffectiveSize = 512 := rfl
  rw [Begin.disk, concealNTFS_eq]
  unfold concealed
  rw [writeAt_outside (by omega), writeAt_outside (by omega), writeAt_outside (by omega),
    overwrite_outside _ (by omega)]

/-- The master keys that a begin has drawn. -/
def Begin.masterKeys (b : Begin P) : List (Cipher × Bytes × Bytes) :=
  eaInit P.a.ea b.request.keydata (b.request.keydata.drop (eaGetKeySize P.a.ea))

theorem Begin.stands (b : Begin P) (fs : Device) :
    ∃ dk info, Stands P b.masterKeys fs (b.disk fs) dk info P.volumeSize := by
  rcases createVolumeHeaderInMemory_opens b.ea_eq (P.length_headerKey b.request.salt)
    (by rw [b.required_eq]; decide) b.created with
    ⟨hsalt, info, hopens, hkeydata, hrequired, hhidden, hsize, hstart, hlength⟩
  rcases hopens.info_eq with ⟨-, -, hschedule, -, -, hlegacyIff, hhiddenIff⟩
  have hheader := b.headerAt_disk fs hopens.length_eq
  have hV := P.volumeSize_lt
  refine ⟨P.headerKey b.request.salt, info, ?_, ?_, ?_⟩
  · refine ⟨hsize.trans b.volumeSize_eq, ?_, ?_, ?_⟩
    · rw [Bool.eq_false_iff]
      intro hlegacy
      have hbefore := hlegacyIff.mp hlegacy
      rw [hrequired, b.required_eq] at hbefore
      exact absurd hbefore (by decide)
    · rw [Bool.eq_false_iff]
      intro hhid
      exact hhiddenIff.mp hhid (hhidden.trans b.hidden_eq)
    · rw [hschedule, hkeydata]
      rfl
  · rw [hheader]
    refine ⟨congrArg P.headerKey hsalt, info.headerFlags, ?_⟩
    have harea : UInt64.ofNat (P.volumeSize + volumeDataOffset) = info.encryptedAreaStart := by
      rw [hstart, b.start_eq, Nat.add_comm]
    have hnone : UInt64.ofNat (P.volumeSize - P.volumeSize) = info.encryptedAreaLength := by
      rw [hlength, b.length_eq, Nat.sub_self]
      rfl
    rw [harea, hnone]
    exact hopens
  · refine { le := le_rfl, whole := P.volumeSize_whole, plain := ?_, cipher := ?_ }
    · intro i hi
      exact b.disk_eq fs hi
    · intro i hri hi
      exact absurd hi (Nat.not_lt.mpr hri)

theorem Begin.safe (b : Begin P) (fs : Device) :
    Safe P b.masterKeys fs (idle .begun (b.disk fs)) := by
  rcases b.stands fs with ⟨dk, info, hs⟩
  exact ⟨dk, info, _, hs⟩

/-! ## What is found where -/

/-- The backup header opens, and each byte of the file system is where it says: at its own place
in front of the boundary, concealed at the beginning, and encrypted and shifted behind it. -/
def Located (P : Partition) (fs d : Device) : Prop :=
  ∃ dk info, openBackupHeader P d = some (dk, info) ∧ ∀ i < P.volumeSize,
    (i < info.encryptedAreaStart.toNat - volumeDataOffset → d i = concealed fs i) ∧
    (info.encryptedAreaStart.toNat - volumeDataOffset ≤ i →
      decryptAt (dataCipher P.C info.schedule) d (i + volumeDataOffset) = fs i)

theorem Stands.located {dk : Bytes} {info : CryptoInfo} (h : Stands P keys fs d dk info r) :
    Located P fs d := by
  rcases h.records.open_eq with ⟨flags, hopen⟩
  have hr := h.image.le
  have hV := P.volumeSize_lt
  have hH := volumeDataOffset_eq
  have hboundary : (UInt64.ofNat (r + volumeDataOffset)).toNat - volumeDataOffset = r := by
    rw [toNat_ofNat_of_lt (by omega), Nat.add_sub_cancel]
  refine ⟨dk, _, hopen, ?_⟩
  intro i hi
  rw [withArea_encryptedAreaStart, withArea_schedule, hboundary, h.describes.schedule_eq]
  exact ⟨fun hir => h.image.plain i hir, fun hri => h.image.cipher i hri hi⟩

/-- What holds whenever no run is active. -/
def Kept (P : Partition) (fs : Device) (st : State) : Prop :=
  match st.phase with
  | .idle .decrypted => Restored P fs st.disk
  | .idle .zeroingFailed => Restored P fs st.disk
  | .idle .encrypted => Located P fs st.disk ∧ IsVolume P fs st.disk
  | .idle _ => Located P fs st.disk
  | _ => True

theorem Safe.kept {st : State} (h : Safe P keys fs st) : Kept P fs st := by
  rcases st with ⟨d, phase⟩
  cases phase with
  | idle last =>
    cases last with
    | begun =>
      rcases h with ⟨dk, info, r, hs⟩
      exact hs.located
    | halted =>
      rcases h with ⟨dk, info, r, hs⟩
      exact hs.located
    | encrypted =>
      rcases h with ⟨⟨dk, info, r, hs⟩, hvolume⟩
      exact ⟨hs.located, hvolume⟩
    | decrypted => exact h.1
    | zeroingFailed => exact h.1
  | encrypting s => trivial
  | decrypting s => trivial

/-! ## A decryption that conceals too much -/

/-- A turn of an encryption behind which the user has cancelled. -/
theorem encryptTurn_pause (h : Running P keys fs d s s.remainingBytes r₀) (wipes : List Buffer) :
    ∃ d', encryptTurn P s (.written wipes .ok (some .ok) .ok) d = idle .halted d' ∧
      Stands P keys fs d' s.dk s.info (s.remainingBytes - s.workChunkSize) := by
  have hwhole : ¬(s.workChunkSize % dataUnitSize ≠ 0) := by
    have hmod := workChunkSize_whole (s := s) h.image.whole
    exact not_not_intro hmod
  rcases h.encryptedBy wipes with ⟨hm, hheader⟩
  rw [encryptTurn, if_neg hwhole]
  dsimp only
  generalize writeAt (overwrite d (s.encryptedAreaStart - s.workChunkSize) s.workChunkSize wipes)
    (s.encryptedAreaStart - s.workChunkSize) s.workChunkSize (encryptedChunk P s d) = d' at *
  have hrec : Records P s.dk s.info r₀ (headerAt P d') := by
    rw [hheader]
    exact h.records
  rcases hm.updateWhenDue rfl hrec (show HeaderIO.Mild P _ .ok from trivial) with ⟨hm', -, hok⟩
  rcases updateWhenDue_session (P := P) (s := s.encryptedBy s.workChunkSize) (d := d') .ok with
    ⟨distance, hsession⟩
  rw [if_neg (by rw [hok rfl]; decide), hsession]
  have hm'' := hm'.of_distance distance
  rcases hm''.update (show HeaderIO.Mild P _ .ok from trivial) (fun _ => trivial) with
    ⟨hmp, hrecp, hokp⟩
  exact ⟨_, rfl, hmp.closing_lasting (hrecp (hokp rfl))
    (show HeaderIO.Lasting P _ _ .ok from trivial)⟩

theorem xor_concealConstant_ne (x : UInt8) : x ^^^ concealConstant ≠ x := by
  intro h
  have hzero : x ^^^ (x ^^^ concealConstant) = x ^^^ x := congrArg (x ^^^ ·) h
  rw [← UInt8.xor_assoc, UInt8.xor_self, UInt8.zero_xor] at hzero
  exact absurd hzero (by decide)

theorem decryptTurn_paused_phase (s : Session) (update pause close : HeaderIO) (d : Device) :
    (decryptTurn P s (.written update (some pause) close) d).phase = .idle .halted := by
  rw [decryptTurn]
  split
  · rfl
  · dsimp only
    split <;> rfl

/-- **A chunk that starts inside the concealed portion and ends behind it is concealed too far.**
The first byte behind the portion is lost to the boundary that the header then records. -/
theorem decryptTurn_tooMuchConcealed (h : Running P keys fs d s r r₀)
    (hrem : s.remainingBytes = P.volumeSize - r) (h0 : 0 < r) (hr : r < initialConcealPortionSize)
    (hw : initialConcealPortionSize < r + s.workChunkSize)
    (hdue : s.lastHeaderUpdateDistance + s.workChunkSize < headerUpdateInterval) :
    ¬Located P fs (decryptTurn P s (.written .ok (some .ok) .ok) d).disk := by
  have hle := workChunkSize_le s
  have hrV := h.image.le
  have hV := P.backupHeaderOffset_eq
  have hlt := P.volumeSize_lt
  have hVwhole := P.volumeSize_whole
  have hrwhole : r % 512 = 0 := h.image.whole
  have hH := volumeDataOffset_eq
  have hsize : initialConcealPortionSize = 8192 := rfl
  have hwhole : ¬(s.workChunkSize % dataUnitSize ≠ 0) := by
    have hmod := workChunkSize_whole (s := s) (by omega)
    exact not_not_intro hmod
  have hstart := h.numbers.start_eq
  have hlength := h.numbers.length_eq
  -- the byte behind the concealed portion, as it is written
  have hk : initialConcealPortionSize - r < s.workChunkSize := by omega
  have haddr : r + (initialConcealPortionSize - r) = initialConcealPortionSize := by omega
  have hbyte : writeAt d r s.workChunkSize (decryptedChunk P s d) initialConcealPortionSize =
      fs initialConcealPortionSize ^^^ concealConstant := by
    rcases decryptedChunk_eq h.image h.numbers hrem h.describes.schedule_eq hk with
      ⟨plain, hchunk, hplain⟩
    have hin : writeAt d r s.workChunkSize (decryptedChunk P s d)
        (r + (initialConcealPortionSize - r)) =
        decryptedChunk P s d (initialConcealPortionSize - r) := writeAt_inside hk
    rw [haddr] at hin hplain
    rw [hin, hchunk, concealChunk, if_pos hr, if_pos (by omega), hplain]
  have hheader : headerAt P (writeAt d r s.workChunkSize (decryptedChunk P s d)) = headerAt P d :=
    headerAt_writeAt (by omega)
  -- what the header says behind the update
  have hnumbers : Numbers P (s.decryptedBy s.workChunkSize) (r + s.workChunkSize) := by
    refine ⟨?_, ?_⟩
    · show s.encryptedAreaStart + s.workChunkSize = _
      omega
    · show s.encryptedAreaLength - s.workChunkSize = _
      omega
  have hnotDue : ¬headerUpdateInterval ≤
      (s.decryptedBy s.workChunkSize).lastHeaderUpdateDistance := Nat.not_le.mpr hdue
  rw [decryptTurn, if_neg hwhole, decryptOffset h.numbers]
  dsimp only
  generalize writeAt d r s.workChunkSize (decryptedChunk P s d) = d' at *
  have hmends : Mends P (s.decryptedBy s.workChunkSize).dk (s.decryptedBy s.workChunkSize).info
      (headerAt P d') := by
    rw [hheader]
    exact h.records.mends
  rcases fastVolumeHeaderUpdate_ok hmends hnumbers with ⟨hok, hrec⟩
  have hframe : (fastVolumeHeaderUpdate P (s.decryptedBy s.workChunkSize) .ok d').1
      initialConcealPortionSize = d' initialConcealPortionSize :=
    headerUpdate_frame _ _ (by omega)
  rw [updateWhenDue, if_neg hnotDue]
  dsimp only
  rw [if_neg (by decide), hok, if_pos rfl]
  rintro ⟨dk, info, hopen, hlocated⟩
  rcases hrec.open_eq with ⟨flags, hopen'⟩
  have hinfo : info = (s.decryptedBy s.workChunkSize).info.withArea
      (UInt64.ofNat (r + s.workChunkSize + volumeDataOffset))
      (UInt64.ofNat (P.volumeSize - (r + s.workChunkSize))) flags :=
    congrArg Prod.snd (Option.some.inj (hopen.symm.trans hopen'))
  have hboundary : info.encryptedAreaStart.toNat - volumeDataOffset = r + s.workChunkSize := by
    rw [hinfo, withArea_encryptedAreaStart, toNat_ofNat_of_lt (by omega), Nat.add_sub_cancel]
  have hplain := (hlocated initialConcealPortionSize (by omega)).1 (by rw [hboundary]; exact hw)
  have hconcealed : concealed fs initialConcealPortionSize = fs initialConcealPortionSize :=
    if_neg (Nat.lt_irrefl _)
  rw [hconcealed] at hplain
  have hdisk : d' initialConcealPortionSize = fs initialConcealPortionSize :=
    hframe.symm.trans hplain
  rw [hbyte] at hdisk
  exact xor_concealConstant_ne _ hdisk

theorem kept_halted {st : State} (h : st.phase = .idle .halted) :
    Kept P fs st ↔ Located P fs st.disk := by
  rcases st with ⟨d', phase⟩
  cases h
  exact Iff.rfl

/-- **In-place encryption and decryption keep the data** in every run whose steps meet the
condition. -/
theorem inPlace_keeps_data (P : Partition) (b : Begin P) (fs : Device) (es : List Event)
    (hes : Along (step P) (fun st e => e.Meets P st) (idle .begun (b.disk fs)) es) :
    Kept P fs (run (step P) (idle .begun (b.disk fs)) es).1 :=
  (run_safe (b.safe fs) hes).kept

/-! ## An example -/

namespace Example

/-- A partition whose data area is four work chunks and one data unit. -/
def partition : Partition where
  C := Ciphers.demo
  a := .aes
  headerKey _ := List.replicate 192 1
  length_headerKey _ := by
    rw [List.length_replicate]
    decide
  sectorSize := 512
  deviceSize := 2 * 131072 + (4 * (2048 * 1024) + 512)
  whole := by decide
  large := by decide
  fits := by decide

theorem volumeSize_partition : partition.volumeSize = 8389120 := rfl

theorem length_keys : ∀ k ∈ some (List.replicate 256 (7 : UInt8)), k.length = 256 := by
  intro k hk
  rw [← Option.some.inj hk]
  exact List.length_replicate

theorem length_salt : (List.replicate 64 (3 : UInt8)).length = 64 := List.length_replicate

theorem length_drawn : (List.replicate 256 (0 : UInt8)).length = 256 := List.length_replicate

def request : HeaderRequest where
  ea := AlgorithmId.aes.ea
  masterKeydata := some (List.replicate 256 7)
  volumeSize := UInt64.ofNat partition.volumeSize
  hiddenVolumeSize := 0
  encryptedAreaStart := UInt64.ofNat (volumeDataOffset + partition.volumeSize)
  encryptedAreaLength := 0
  requiredProgramVersion := 0
  headerFlags := headerFlagNonsysInplaceEnc
  sectorSize := 512
  salt := List.replicate 64 3
  drawn := List.replicate 256 0
  length_masterKeydata := length_keys
  length_salt := length_salt
  length_drawn := length_drawn

theorem created :
    ∃ header, createVolumeHeaderInMemory partition.C request (partition.headerKey request.salt) =
      .ok header :=
  createVolumeHeaderInMemory_isOk (a := .aes) rfl
    (show request.masterKeydata = some (List.replicate 256 7) from rfl) (by decide)

theorem exists_begin : Nonempty (Begin partition) := by
  rcases created with ⟨header, hheader⟩
  exact ⟨
    { request := request
      ea_eq := rfl
      hidden_eq := rfl
      volumeSize_eq := rfl
      start_eq := rfl
      length_eq := rfl
      required_eq := rfl
      header := header
      created := hheader
      earlier := []
      reserved := fun _ => 0
      hidden := fun _ => 0 }⟩

-- what follows does not compute with the partition
attribute [irreducible] partition

def fileSystem : Device := fun i => UInt8.ofNat i

/-- A run that the user pauses, one that ends with a write error, and a decryption that ends with a
read error. -/
def events : List Event :=
  [.encrypt, .encryptTurn (.written [] .ok (some .ok) .ok), .encrypt,
    .encryptTurn (.writeError [fun _ => 0] (fun _ => 1) .ok), .decrypt,
    .decryptTurn (.readError .ok)]

/-- A run that the user pauses behind its first turn. -/
def pausedRun : List Event := [.encrypt, .encryptTurn (.written [] .ok (some .ok) .ok)]

/-- Four of them, and then a decryption that is paused behind its first turn. Nothing fails. -/
def pausedRuns : List Event :=
  pausedRun ++ (pausedRun ++ (pausedRun ++ (pausedRun ++
    [.decrypt, .decryptTurn (.written .ok (some .ok) .ok)])))

theorem meets_paused (st : State) :
    (Event.encryptTurn (.written [] .ok (some .ok) .ok)).Meets partition st := by
  rcases st with ⟨d, last | s | s⟩
  · trivial
  · refine ⟨⟨trivial, Or.inl rfl⟩, ?_⟩
    intro p hp
    rw [← Option.some.inj hp]
    exact ⟨⟨trivial, Or.inl rfl⟩, trivial⟩
  · trivial

theorem along_events (st : State) :
    Along (step partition) (fun st e => e.Meets partition st) st events := by
  apply along_of_forall
  intro e he st
  simp only [events, List.mem_cons, List.not_mem_nil, or_false] at he
  rcases he with rfl | rfl | rfl | rfl | rfl | rfl
  · rcases st with ⟨d, last | s | s⟩ <;> trivial
  · exact meets_paused st
  · rcases st with ⟨d, last | s | s⟩ <;> trivial
  · rcases st with ⟨d, last | s | s⟩
    · trivial
    · exact rfl
    · trivial
  · rcases st with ⟨d, last | s | s⟩ <;> trivial
  · rcases st with ⟨d, last | s | s⟩
    · trivial
    · trivial
    · exact rfl

end Example

theorem inPlace_keeps_data_demo : ∃ b : Begin Example.partition,
    Kept Example.partition Example.fileSystem
      (run (step Example.partition) (idle .begun (b.disk Example.fileSystem))
        Example.events).1 := by
  rcases Example.exists_begin with ⟨b⟩
  have hes := Example.along_events (idle .begun (b.disk Example.fileSystem))
  refine ⟨b, ?_⟩
  exact inPlace_keeps_data Example.partition b Example.fileSystem Example.events hes

/-- A paused run encrypts one chunk. -/
theorem Example.pausedRun_stands {dk : Bytes} {info : CryptoInfo} (h : Stands P keys fs d dk info r)
    (hr : maxWorkChunkSize ≤ r) (last : Ended) : ∃ d' dk' info',
    (run (step P) (idle last d) Example.pausedRun).1 = idle .halted d' ∧
      Stands P keys fs d' dk' info' (r - maxWorkChunkSize) := by
  have hmax : maxWorkChunkSize = 2097152 := rfl
  rcases h.startEncrypting_eq last with ⟨s, hstart, hrunning, hrem, -⟩
  have hw : s.workChunkSize = maxWorkChunkSize := by
    rw [Session.workChunkSize, hrem, Nat.min_eq_right hr]
  rw [← hrem] at hrunning
  rcases encryptTurn_pause hrunning [] with ⟨d', hturn, hs⟩
  rw [hw, hrem] at hs
  refine ⟨d', s.dk, s.info, ?_, hs⟩
  rw [Example.pausedRun, run_cons, step_encrypt, hstart, run_cons,
    step_encryptTurn _ _ _ (by omega), hturn, run]

/-- **A decryption that is started before the encryption is complete loses data**, though nothing
has failed: the encryption was paused with one data unit to go. -/
theorem inPlace_loses_data : ∃ b : Begin Example.partition,
    ¬Kept Example.partition Example.fileSystem
      (run (step Example.partition) (idle .begun (b.disk Example.fileSystem))
        Example.pausedRuns).1 := by
  rcases Example.exists_begin with ⟨b⟩
  refine ⟨b, ?_⟩
  generalize Example.fileSystem = fs
  have hV := Example.volumeSize_partition
  have hmax : maxWorkChunkSize = 2097152 := rfl
  have hsize : initialConcealPortionSize = 8192 := rfl
  have hinterval : headerUpdateInterval = 67108864 := rfl
  rcases b.stands fs with ⟨dk, info, hs⟩
  rcases Example.pausedRun_stands hs (by omega) .begun with ⟨d₁, dk₁, info₁, hrun₁, hs₁⟩
  rcases Example.pausedRun_stands hs₁ (by omega) .halted with ⟨d₂, dk₂, info₂, hrun₂, hs₂⟩
  rcases Example.pausedRun_stands hs₂ (by omega) .halted with ⟨d₃, dk₃, info₃, hrun₃, hs₃⟩
  rcases Example.pausedRun_stands hs₃ (by omega) .halted with ⟨d₄, dk₄, info₄, hrun₄, hs₄⟩
  rcases hs₄.startDecrypting_eq .halted with ⟨s, hstart, hrunning, hrem, hdistance⟩
  have hw : s.workChunkSize = 2097152 := by
    rw [Session.workChunkSize, hrem, hV, hmax]
    decide
  rw [Example.pausedRuns, (run_append _ _ _).1, hrun₁, (run_append _ _ _).1, hrun₂,
    (run_append _ _ _).1, hrun₃, (run_append _ _ _).1, hrun₄, run_cons, step_decrypt, hstart,
    run_cons, step_decryptTurn _ _ _ (by omega), run]
  intro hkept
  exact decryptTurn_tooMuchConcealed hrunning hrem (by omega) (by omega) (by omega) (by omega)
    ((kept_halted (decryptTurn_paused_phase s .ok .ok .ok d₄)).mp hkept)

end Format
end VeraCrypt
