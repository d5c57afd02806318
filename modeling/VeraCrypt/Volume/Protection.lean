import VeraCrypt.Lib.Run
import VeraCrypt.Volume.Volume

/-!
# Hidden volume protection

`WriteSectors` tests the range of the ciphertext against the protected range before it stores
anything, and that test is sound: with all its arithmetic modulo `2^64`, no byte of the range
is under a ciphertext that gets past it (`not_in_range_of_checkWrite`). The tags of the sectors
are stored afterwards, at their slots behind the data, and no test is made of those. So the
range is kept over a whole run of writes if and only as far as no slot that is written lies in
it (`protectedRange_kept`); and a slot that does lie in it is overwritten
(`writeSectors_stores_tag`).

The trigger is sticky whatever else happens (`rejected_after_trigger`).
-/

set_option autoImplicit false

namespace VeraCrypt

open Lib

namespace Volume

/-! ## What a write does -/

/-- The slots of the sectors of a write. -/
def firstSector (v : Volume) (op : WriteRequest) : UInt64 := op.byteOffset / v.sectorSize
def sectorCount (v : Volume) (op : WriteRequest) : UInt64 := op.length / v.sectorSize

/-- Whether a write passes the checks. -/
def accepts (v : Volume) (op : WriteRequest) : Prop := (v.checkWrite op).2 = .ok ()

/-- Whether a write stores a ciphertext byte at byte `i` of the host. -/
def writesDataAt (v : Volume) (op : WriteRequest) (i : Nat) : Prop :=
  v.accepts op ∧ (v.hostOffset op.byteOffset).toNat ≤ i ∧
    i < (v.hostOffset op.byteOffset).toNat +
      File.stored (v.hostOffset op.byteOffset) op.buffer.length op.dataAccepts

/-- Whether a write stores a tag byte at byte `i` of the host: it passes the checks, all its
    ciphertext is stored, and `i` is under the slots of its sectors. -/
def writesTagAt (v : Volume) (op : WriteRequest) (i : Nat) : Prop :=
  v.accepts op ∧
    File.stored (v.hostOffset op.byteOffset) op.buffer.length op.dataAccepts =
      op.buffer.length ∧
    v.v2Mac.writesTagAt (v.firstSector op) (v.sectorCount op) op.tagsAccept i

/-- The three ways out of `checkWrite`. -/
theorem checkWrite_cases (v : Volume) (op : WriteRequest) :
    (∃ e, v.checkWrite op = (v, .error e) ∧
      (e = .volumeProtected → v.hiddenVolumeProtectionTriggered = true)) ∨
    v.checkWrite op = (v.triggerProtection, .error .volumeProtected) ∨
    (v.checkWrite op = (v, .ok ()) ∧ v.hiddenVolumeProtectionTriggered = false ∧
      (v.protection = .hiddenVolumeReadOnly →
        v.hitsProtectedRange (v.hostOffset op.byteOffset) op.length = false) ∧
      1 ≤ op.length) := by
  unfold checkWrite
  split
  · exact Or.inl ⟨_, rfl, fun h => absurd h (by simp)⟩
  · split
    · exact Or.inl ⟨_, rfl, fun h => absurd h (by simp)⟩
    · split
      · rename_i htrig
        exact Or.inl ⟨_, rfl, fun _ => htrig⟩
      · rename_i htrig
        split
        · exact Or.inr (Or.inl rfl)
        · rename_i hhit
          split
          · exact Or.inl ⟨_, rfl, fun h => absurd h (by simp)⟩
          · rename_i hlen
            refine Or.inr (Or.inr ⟨rfl, by simpa using htrig, ?_, UInt64.not_lt.mp hlen⟩)
            intro hprot
            by_contra hyes
            exact hhit ⟨hprot, by simpa using hyes⟩

theorem not_accepts_of_error {v v' : Volume} {op : WriteRequest} {e : Exception}
    (h : v.checkWrite op = (v', .error e)) : ¬ v.accepts op := by
  intro hacc
  rw [accepts, h] at hacc
  exact absurd hacc (by simp)

/-- What `WriteSectors` can do to the volume and to the host. -/
inductive Outcome (C : Ciphers) (P : Primitives) (v : Volume) (host : Bytes)
    (op : WriteRequest) : (Volume × Bytes) × Except Exception Unit → Prop
  /-- Refused by a check, or ended by the cipher. -/
  | refused (e : Exception) (blocked : v.accepts op → v.writeCt C op = none)
      (sticky : e = .volumeProtected → v.hiddenVolumeProtectionTriggered = true) :
      Outcome C P v host op ((v, host), .error e)
  /-- The protected range is hit. -/
  | hit (stopped : ¬ v.accepts op) : Outcome C P v host op ((v.triggerProtection, host), .error .volumeProtected)
  /-- The ciphertext is not stored whole. -/
  | torn (ct : Bytes) (check : v.accepts op) (cipher : v.writeCt C op = some ct)
      (short : File.stored (v.hostOffset op.byteOffset) ct.length op.dataAccepts ≠ ct.length) :
      Outcome C P v host op
        ((v, (File.writeAt host (v.hostOffset op.byteOffset) ct op.dataAccepts).1),
          .error .systemException)
  /-- The ciphertext is stored, and the tags are written as far as they can be. -/
  | written (ct : Bytes) (v' : Volume) (r : Except Exception Unit)
      (check : v.accepts op) (cipher : v.writeCt C op = some ct)
      (whole : File.stored (v.hostOffset op.byteOffset) ct.length op.dataAccepts = ct.length)
      (counted : v' = v ∨ v' = v.countWrite op) (other : r ≠ .error .volumeProtected) :
      Outcome C P v host op
        ((v', (v.v2Mac.updateRange P
          (File.writeAt host (v.hostOffset op.byteOffset) ct op.dataAccepts).1 ct
          (v.firstSector op) (v.sectorCount op) op.tagsAccept).1), r)

theorem writeSectors_outcome (C : Ciphers) (P : Primitives) (v : Volume) (host : Bytes)
    (op : WriteRequest) : Outcome C P v host op (writeSectors C P (v, host) op) := by
  rcases checkWrite_cases v op with ⟨e, hc, htrig⟩ | hc | ⟨hc, -, -, -⟩
  · simp only [writeSectors, hc]
    exact .refused e (fun hacc => absurd hacc (not_accepts_of_error hc)) htrig
  · simp only [writeSectors, hc]
    exact .hit (not_accepts_of_error hc)
  · have hacc : v.accepts op := by rw [accepts, hc]
    simp only [writeSectors, hc]
    cases hct : v.writeCt C op with
    | none => exact .refused .fatal (fun _ => hct) (fun h => absurd h (by simp))
    | some ct =>
      by_cases hst :
          File.stored (v.hostOffset op.byteOffset) ct.length op.dataAccepts = ct.length
      · have hdone : (File.writeAt host (v.hostOffset op.byteOffset) ct op.dataAccepts).2 = true := by
          simp [File.writeAt, hst]
        simp only [hdone, Bool.not_true, Bool.false_eq_true, if_false]
        split
        · rename_i host2 e hup
          have h2 := congrArg Prod.fst hup
          simp only at h2
          rw [← h2]
          have he := V2SectorMacIo.updateRange_ne_protected P v.v2Mac
            (File.writeAt host (v.hostOffset op.byteOffset) ct op.dataAccepts).1 ct
            (op.byteOffset / v.sectorSize) (op.length / v.sectorSize) op.tagsAccept
          rw [hup] at he
          exact .written ct v (.error e) hacc hct hst (Or.inl rfl) he
        · rename_i host2 hup
          have h2 := congrArg Prod.fst hup
          simp only at h2
          rw [← h2]
          exact .written ct (v.countWrite op) (.ok ()) hacc hct hst (Or.inr rfl) (by simp)
      · have hdone : (File.writeAt host (v.hostOffset op.byteOffset) ct op.dataAccepts).2 = false := by
          simp [File.writeAt, hst]
        simp only [hdone, Bool.not_false, if_true]
        exact .torn ct hacc hct hst

/-- What `WriteSectors` never changes of the volume. -/
structure SameSetup (v v' : Volume) : Prop where
  protection : v'.protection = v.protection
  protectedRangeStart : v'.protectedRangeStart = v.protectedRangeStart
  protectedRangeEnd : v'.protectedRangeEnd = v.protectedRangeEnd
  v2Mac : v'.v2Mac = v.v2Mac

theorem SameSetup.refl (v : Volume) : SameSetup v v := ⟨rfl, rfl, rfl, rfl⟩

theorem SameSetup.trans {v v' v'' : Volume} (h : SameSetup v v') (h' : SameSetup v' v'') :
    SameSetup v v'' :=
  ⟨h'.protection.trans h.protection, h'.protectedRangeStart.trans h.protectedRangeStart,
    h'.protectedRangeEnd.trans h.protectedRangeEnd, h'.v2Mac.trans h.v2Mac⟩

theorem writeSectors_setup (C : Ciphers) (P : Primitives) (v : Volume) (host : Bytes)
    (op : WriteRequest) : SameSetup v (writeSectors C P (v, host) op).1.1 := by
  have hout := writeSectors_outcome C P v host op
  generalize writeSectors C P (v, host) op = r at hout ⊢
  cases hout with
  | refused e blocked sticky => exact SameSetup.refl v
  | hit stopped => exact ⟨rfl, rfl, rfl, rfl⟩
  | torn ct check cipher short => exact SameSetup.refl v
  | written ct v' r check cipher whole counted other =>
    rcases counted with rfl | rfl
    · exact SameSetup.refl _
    · exact ⟨rfl, rfl, rfl, rfl⟩

theorem length_le_writeSectors (C : Ciphers) (P : Primitives) (v : Volume) (host : Bytes)
    (op : WriteRequest) : host.length ≤ (writeSectors C P (v, host) op).1.2.length := by
  have hout := writeSectors_outcome C P v host op
  generalize writeSectors C P (v, host) op = r at hout ⊢
  cases hout with
  | refused e blocked sticky => exact Nat.le_refl _
  | hit stopped => exact Nat.le_refl _
  | torn ct check cipher short => exact File.length_le_writeAt _ _ _ _
  | written ct v' r check cipher whole counted other =>
    exact (File.length_le_writeAt _ _ _ _).trans
      (V2SectorMacIo.length_le_updateRange P _ _ _ _ _ _)

/-- **Frame of a write**: a byte at which it stores neither ciphertext nor a tag keeps its
    value, whether the call returns or not. -/
theorem writeSectors_frame (C : Ciphers) (P : Primitives) {v : Volume} {host : Bytes}
    {op : WriteRequest} {i : Nat} (hi : i < host.length) (hdata : ¬ v.writesDataAt op i)
    (htag : ¬ v.writesTagAt op i) :
    (writeSectors C P (v, host) op).1.2[i]? = host[i]? := by
  -- where no ciphertext byte is stored, the first of the two writes leaves the byte alone
  have hfirst : ∀ ct, v.accepts op → v.writeCt C op = some ct →
      (File.writeAt host (v.hostOffset op.byteOffset) ct op.dataAccepts).1[i]? = host[i]? := by
    intro ct hacc hct
    have hlen : ct.length = op.buffer.length := EncryptionAlgorithm.length_encryptSectors hct
    rw [File.getElem?_writeAt op.dataAccepts hi, if_neg]
    rintro ⟨hlo, hhi⟩
    rw [hlen] at hhi
    exact hdata ⟨hacc, hlo, hhi⟩
  have hout := writeSectors_outcome C P v host op
  generalize writeSectors C P (v, host) op = r at hout ⊢
  cases hout with
  | refused e blocked sticky => rfl
  | hit stopped => rfl
  | torn ct check cipher short => exact hfirst ct check cipher
  | written ct v' r check cipher whole counted other =>
    have hlen : ct.length = op.buffer.length :=
      EncryptionAlgorithm.length_encryptSectors cipher
    have hi' := hi.trans_le
      (File.length_le_writeAt host ct (v.hostOffset op.byteOffset) op.dataAccepts)
    rw [V2SectorMacIo.getElem?_updateRange P hi', if_neg, hfirst ct check cipher]
    intro hmac
    rw [hlen] at whole
    exact htag ⟨check, whole, hmac⟩

/-- **The tags land**: at a byte of a slot that is written stands the byte of the tag. -/
theorem writeSectors_stores_tag (C : Ciphers) (P : Primitives) {v : Volume} {host ct : Bytes}
    {op : WriteRequest} {i : Nat} (hi : i < host.length) (hct : v.writeCt C op = some ct)
    (htag : v.writesTagAt op i) :
    (writeSectors C P (v, host) op).1.2[i]? =
      (v.v2Mac.tags P ct (v.firstSector op) (v.sectorCount op))[
        i - (v.v2Mac.slotPosition (v.firstSector op)).toNat]? := by
  have hout := writeSectors_outcome C P v host op
  generalize writeSectors C P (v, host) op = r at hout ⊢
  obtain ⟨hacc, hwhole, hmac⟩ := htag
  cases hout with
  | refused e blocked sticky =>
    rw [blocked hacc] at hct
    exact absurd hct (by simp)
  | hit stopped => exact absurd hacc stopped
  | torn ct' check cipher short =>
    have hlen : ct'.length = op.buffer.length :=
      EncryptionAlgorithm.length_encryptSectors cipher
    rw [hlen] at short
    exact absurd hwhole short
  | written ct' v' r check cipher whole counted other =>
    have heq : ct' = ct := Option.some.inj (cipher.symm.trans hct)
    subst heq
    have hi' := hi.trans_le
      (File.length_le_writeAt host ct' (v.hostOffset op.byteOffset) op.dataAccepts)
    rw [V2SectorMacIo.getElem?_updateRange P hi', if_pos hmac]

/-! ## The range -/

/-- **The test is sound**: a ciphertext that passes it has no byte in the protected range. -/
theorem not_in_range_of_writesDataAt {v : Volume} {op : WriteRequest} {i : Nat}
    (hp : v.protection = .hiddenVolumeReadOnly) (h : v.writesDataAt op i) :
    ¬ (v.protectedRangeStart.toNat ≤ i ∧ i < v.protectedRangeEnd.toNat) := by
  obtain ⟨hacc, hlo, hhi⟩ := h
  rcases checkWrite_cases v op with ⟨e, hc, htrig⟩ | hc | ⟨-, -, hmiss, hlen⟩
  · exact absurd hacc (not_accepts_of_error hc)
  · exact absurd hacc (not_accepts_of_error hc)
  · have hmiss := hmiss hp
    -- bytes are stored, so the offset is addressable and nothing below wraps
    have hoff : (v.hostOffset op.byteOffset).toNat < offsetMax := by
      by_contra hge
      rw [File.stored_eq_zero _ _ (Nat.le_of_not_lt hge)] at hhi
      omega
    have hst := File.stored_le (v.hostOffset op.byteOffset) op.buffer.length op.dataAccepts
    have hsize := op.length_buffer
    have hn := op.toNat_length
    have hpos : 1 ≤ op.length.toNat := UInt64.le_iff_toNat_le.mp hlen
    have hend : (v.hostOffset op.byteOffset + op.length - 1).toNat =
        (v.hostOffset op.byteOffset).toNat + op.length.toNat - 1 := by
      rw [UInt64.toNat_sub_of_le, UInt64.toNat_add]
      · simp only [offsetMax] at hoff
        have h1 : (1 : UInt64).toNat = 1 := rfl
        omega
      · apply UInt64.le_iff_toNat_le.mpr
        rw [UInt64.toNat_add]
        simp only [offsetMax] at hoff
        have h1 : (1 : UInt64).toNat = 1 := rfl
        omega
    rintro ⟨hs, he⟩
    unfold hitsProtectedRange at hmiss
    split at hmiss
    · have hgt : ¬ v.protectedRangeStart ≤ v.hostOffset op.byteOffset + op.length - 1 := by
        simpa using hmiss
      rw [UInt64.le_iff_toNat_le, hend] at hgt
      omega
    · rename_i hge
      have hgt : ¬ v.hostOffset op.byteOffset ≤ v.protectedRangeEnd - 1 := by
        simpa using hmiss
      have hE : (v.protectedRangeEnd - 1).toNat = v.protectedRangeEnd.toNat - 1 := by
        rw [UInt64.toNat_sub_of_le]
        · rfl
        · apply UInt64.le_iff_toNat_le.mpr
          have h1 : (1 : UInt64).toNat = 1 := rfl
          omega
      rw [UInt64.le_iff_toNat_le, hE] at hgt
      omega

/-! ## Runs -/

/-- A write stores no tag byte in the protected range. -/
def TagsClear (v : Volume) (op : WriteRequest) : Prop :=
  ∀ i, v.protectedRangeStart.toNat ≤ i → i < v.protectedRangeEnd.toNat → ¬ v.writesTagAt op i

/-- The host bytes of the protected range are those of `host₀`. -/
def RangeKept (v₀ : Volume) (host₀ : Bytes) (s : Volume × Bytes) : Prop :=
  ∀ i, v₀.protectedRangeStart.toNat ≤ i → i < v₀.protectedRangeEnd.toNat → i < host₀.length →
    s.2[i]? = host₀[i]?

/-- What a run under protection keeps. -/
structure Kept (v₀ : Volume) (host₀ : Bytes) (s : Volume × Bytes) : Prop where
  setup : SameSetup v₀ s.1
  length : host₀.length ≤ s.2.length
  range : RangeKept v₀ host₀ s

theorem kept_step (C : Ciphers) (P : Primitives) {v₀ : Volume} {host₀ : Bytes}
    (hp : v₀.protection = .hiddenVolumeReadOnly) (s : Volume × Bytes) (op : WriteRequest)
    (h : Kept v₀ host₀ s) (hq : s.1.TagsClear op) :
    Kept v₀ host₀ (writeSectors C P s op).1 := by
  obtain ⟨v, host⟩ := s
  have hlen := length_le_writeSectors C P v host op
  refine ⟨h.setup.trans (writeSectors_setup C P v host op), h.length.trans hlen, ?_⟩
  intro i hlo hhi hi
  have hi' : i < host.length := hi.trans_le h.length
  have hlo' : v.protectedRangeStart.toNat ≤ i := by
    rw [h.setup.protectedRangeStart]
    exact hlo
  have hhi' : i < v.protectedRangeEnd.toNat := by
    rw [h.setup.protectedRangeEnd]
    exact hhi
  have hdata : ¬ v.writesDataAt op i := fun hw =>
    not_in_range_of_writesDataAt (h.setup.protection.trans hp) hw ⟨hlo', hhi'⟩
  rw [writeSectors_frame C P hi' hdata (hq i hlo' hhi')]
  exact h.range i hlo hhi hi

/-- After the trigger nothing is written, and no write returns. -/
theorem writeSectors_of_triggered (C : Ciphers) (P : Primitives) {v : Volume} (host : Bytes)
    (op : WriteRequest) (h : v.hiddenVolumeProtectionTriggered = true) :
    ∃ e, writeSectors C P (v, host) op = ((v, host), .error e) := by
  have hv : v.triggerProtection = v := by
    unfold triggerProtection
    rw [← h]
  rcases checkWrite_cases v op with ⟨e, hc, -⟩ | hc | ⟨-, hoff, -, -⟩
  · exact ⟨e, by simp only [writeSectors, hc]⟩
  · exact ⟨.volumeProtected, by simp only [writeSectors, hc, hv]⟩
  · rw [h] at hoff
    exact absurd hoff (by decide)

/-- The rejection by the protection leaves it triggered. -/
theorem triggered_of_rejected (C : Ciphers) (P : Primitives) {v : Volume} {host : Bytes}
    {op : WriteRequest} (h : (writeSectors C P (v, host) op).2 = .error .volumeProtected) :
    (writeSectors C P (v, host) op).1.1.hiddenVolumeProtectionTriggered = true := by
  have hout := writeSectors_outcome C P v host op
  generalize writeSectors C P (v, host) op = r at hout h ⊢
  cases hout with
  | refused e blocked sticky => exact sticky (Except.error.inj h)
  | hit stopped => rfl
  | torn ct check cipher short => exact absurd h (by simp)
  | written ct v' r check cipher whole counted other => exact absurd h other

theorem rejected_after_trigger (C : Ciphers) (P : Primitives) {s : Volume × Bytes}
    (h : s.1.hiddenVolumeProtectionTriggered = true) (ops : List WriteRequest) :
    (run (writeSectors C P) s ops).1 = s ∧
      ∀ r ∈ (run (writeSectors C P) s ops).2, ∃ e, r = .error e := by
  induction ops with
  | nil => exact ⟨rfl, fun r hr => absurd hr (by simp [run])⟩
  | cons op ops ih =>
    obtain ⟨e, he⟩ := writeSectors_of_triggered C P s.2 op h
    obtain ⟨hend, hall⟩ := ih
    simp only [run, he]
    refine ⟨hend, fun r hr => ?_⟩
    rcases List.mem_cons.mp hr with rfl | hr
    · exact ⟨e, rfl⟩
    · exact hall r hr

/-- **Hidden volume protection over a run.** While every write of the run is clear of the
    range with its tags, no byte of the range changes, in any state of the run; and once a
    write is rejected by the protection, every later one is rejected. -/
theorem protectedRange_kept (C : Ciphers) (P : Primitives) {v : Volume} {host : Bytes}
    {ops : List WriteRequest} (hp : v.protection = .hiddenVolumeReadOnly)
    (hq : Along (writeSectors C P) (fun s op => s.1.TagsClear op) (v, host) ops) :
    (∀ k, RangeKept v host (run (writeSectors C P) (v, host) (ops.take k)).1) ∧
    ∀ before op after, ops = before ++ op :: after →
      (writeSectors C P (run (writeSectors C P) (v, host) before).1 op).2 =
        .error .volumeProtected →
      ∀ r ∈ (run (writeSectors C P)
        (writeSectors C P (run (writeSectors C P) (v, host) before).1 op).1 after).2,
        ∃ e, r = .error e := by
  constructor
  · intro k
    have hq' := hq
    rw [← List.take_append_drop k ops] at hq'
    have hsplit := (along_append (v, host) (ops.take k) (ops.drop k)).mp hq'
    have hstart : Kept v host (v, host) :=
      ⟨SameSetup.refl v, Nat.le_refl _, fun i _ _ _ => rfl⟩
    exact (run_invariant (fun s op hs hc => kept_step C P hp s op hs hc) hstart hsplit.1).range
  · intro before op after _ hrej
    exact (rejected_after_trigger C P (triggered_of_rejected C P hrej) after).2

/-! ## Where the tags go -/

/-- A MAC table that lies beside the protected range, or is not in use. -/
def TableOutside (v : Volume) : Prop :=
  v.v2Mac.isActive →
    v.v2Mac.tableBaseOffset.toNat + v.v2Mac.dataSectors.toNat * v2MacTagLen < 2 ^ 64 ∧
    (v.v2Mac.tableBaseOffset.toNat + v.v2Mac.dataSectors.toNat * v2MacTagLen ≤
        v.protectedRangeStart.toNat ∨
      v.protectedRangeEnd.toNat ≤ v.v2Mac.tableBaseOffset.toNat)

theorem tagsClear_of_tableOutside {v : Volume} (h : v.TableOutside) (op : WriteRequest) :
    v.TagsClear op := by
  rintro i hlo hhi ⟨-, -, hmac⟩
  obtain ⟨hfit, hside⟩ := h hmac.1
  have hin := V2SectorMacIo.in_table_of_writesTagAt hfit hmac
  omega

/-- So on a version 1 volume, or when the table lies beside the range, every run is clear. -/
theorem along_tagsClear_of_tableOutside (C : Ciphers) (P : Primitives) {s : Volume × Bytes}
    (h : s.1.TableOutside) (ops : List WriteRequest) :
    Along (writeSectors C P) (fun s op => s.1.TagsClear op) s ops := by
  induction ops generalizing s with
  | nil => trivial
  | cons op ops ih =>
    obtain ⟨v, host⟩ := s
    have hsame := writeSectors_setup C P v host op
    refine ⟨tagsClear_of_tableOutside h op, ih ?_⟩
    unfold TableOutside
    rw [hsame.v2Mac, hsame.protectedRangeStart, hsame.protectedRangeEnd]
    exact h

/-! ## A table inside the range -/

/-- A header of an outer volume whose data area of 1536 sectors was split for a MAC table:
    1489 sectors of data, then 47 of tags. -/
def outerHeader : VolumeHeader where
  headerSize := volumeHeaderSize
  ea :=
    { algorithm := .aes
      key := List.replicate 32 1
      secondaryKey := List.replicate 32 2
      sectorOffset := 0 }
  pkcs5 := .hmacSha512
  headerVersion := 5
  requiredMinProgramVersion := 0x010b
  volumeKeyAreaCrc32 := 0
  volumeCreationTime := 0
  headerCreationTime := 0
  volumeType := .normal
  hiddenVolumeDataSize := 0
  volumeDataSize := 762368
  encryptedAreaStart := 131072
  encryptedAreaLength := 762368
  flags := 0
  sectorSize := 512
  sectorSize_valid := by decide
  dataAreaKey := List.replicate 32 1 ++ List.replicate 32 2 ++ List.replicate 192 0
  xtsKeyVulnerable := false
  effectivePlaintext := []

/-- The outer volume of a 1 MiB container, open with its hidden volume protected: the hidden
    volume lies in `[rangeStart, rangeEnd)`. -/
def outerVolume (P : Primitives) (rangeStart rangeEnd : UInt64) : Volume where
  type := .normal
  protection := .hiddenVolumeReadOnly
  hiddenVolumeProtectionTriggered := false
  protectedRangeStart := rangeStart
  protectedRangeEnd := rangeEnd
  systemEncryption := false
  sectorSize := 512
  volumeHostSize := 1048576
  volumeDataOffset := 131072
  volumeDataSize := 762368
  encryptedDataSize := 762368
  encryptionNotCompleted := false
  topWriteOffset := 0
  totalDataRead := 0
  totalDataWritten := 0
  pim := 0
  ea := outerHeader.ea
  header := outerHeader
  layout := .v2Normal
  v2Mac :=
    V2SectorMacIo.init.configure P (some .adiantum) (slice outerHeader.dataAreaKey 0 64) 512
      893440 1489
  v2DiscoveryReadError := false

/-- A write of one sector of zeros. -/
def sectorWrite (byteOffset : UInt64) : WriteRequest where
  buffer := List.replicate 512 0
  byteOffset := byteOffset
  dataAccepts := none
  tagsAccept := none
  length_buffer := by rw [List.length_replicate]; decide

/-- A hidden volume that ends in front of the table: it is kept through a write of the outer
    volume's first sector and one into the hidden volume, which is rejected. -/
theorem protectedRange_kept_demo :
    (∀ k, RangeKept (outerVolume Primitives.demo 655360 786432) (List.replicate 1048576 0)
      (run (writeSectors Ciphers.demo Primitives.demo)
        (outerVolume Primitives.demo 655360 786432, List.replicate 1048576 0)
        (List.take k [sectorWrite 0, sectorWrite 524288])).1) ∧
    ∀ before op after, [sectorWrite 0, sectorWrite 524288] = before ++ op :: after →
      (writeSectors Ciphers.demo Primitives.demo (run (writeSectors Ciphers.demo Primitives.demo)
        (outerVolume Primitives.demo 655360 786432, List.replicate 1048576 0) before).1 op).2 =
        .error .volumeProtected →
      ∀ r ∈ (run (writeSectors Ciphers.demo Primitives.demo)
        (writeSectors Ciphers.demo Primitives.demo
          (run (writeSectors Ciphers.demo Primitives.demo)
            (outerVolume Primitives.demo 655360 786432, List.replicate 1048576 0) before).1
          op).1 after).2, ∃ e, r = .error e :=
  protectedRange_kept Ciphers.demo Primitives.demo rfl
    (along_tagsClear_of_tableOutside _ _ (fun _ => ⟨by decide, Or.inr (by decide)⟩) _)

/-- The tag of the first sector of zeros starts with a byte that is not zero. -/
theorem sectorWrite_tag :
    ((outerVolume Primitives.demo 786432 917504).writeCt Ciphers.demo (sectorWrite 0)).map
      (fun ct => ((outerVolume Primitives.demo 786432 917504).v2Mac.tags Primitives.demo ct
        ((outerVolume Primitives.demo 786432 917504).firstSector (sectorWrite 0))
        ((outerVolume Primitives.demo 786432 917504).sectorCount (sectorWrite 0)))[0]?) =
      some (some 1) := by
  decide +kernel

/-- **A hidden volume at the end of the container.** It reaches over the outer volume's MAC
    table, and writing the first sector of the outer volume overwrites a byte of it. -/
theorem protectedRange_overwritten :
    ¬ ∀ k, RangeKept (outerVolume Primitives.demo 786432 917504) (List.replicate 1048576 0)
      (run (writeSectors Ciphers.demo Primitives.demo)
        (outerVolume Primitives.demo 786432 917504, List.replicate 1048576 0)
        (List.take k [sectorWrite 0])).1 := by
  intro h
  have hkept := h 1 893440 (by decide) (by decide) (by rw [List.length_replicate]; decide)
  obtain ⟨ct, hct, htag⟩ := Option.map_eq_some_iff.mp sectorWrite_tag
  have hacc : (outerVolume Primitives.demo 786432 917504).accepts (sectorWrite 0) := by
    unfold accepts
    decide +kernel
  have hin : 893440 < (List.replicate 1048576 (0 : UInt8)).length := by
    rw [List.length_replicate]
    decide
  have hstore := writeSectors_stores_tag Ciphers.demo Primitives.demo hin hct
    ⟨hacc, by decide +kernel, by decide +kernel⟩
  have hslot : 893440 - ((outerVolume Primitives.demo 786432 917504).v2Mac.slotPosition
      ((outerVolume Primitives.demo 786432 917504).firstSector (sectorWrite 0))).toNat = 0 := by
    decide
  rw [hslot] at hstore
  have hold : (List.replicate 1048576 (0 : UInt8))[893440]? = some 0 := by
    rw [List.getElem?_replicate, if_pos (by omega)]
  simp only [List.take_succ_cons, List.take_zero, run] at hkept
  rw [hstore, hold] at hkept
  exact absurd (htag.symm.trans hkept) (by decide)

end Volume
end VeraCrypt
