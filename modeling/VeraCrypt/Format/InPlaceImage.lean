import VeraCrypt.Format.InPlace

/-!
# What the disk holds during in-place encryption

`Image c fs d r` says that the file system `fs` is on the disk `d` with its first `r` bytes not
encrypted yet: these stand at their own places, concealed at the beginning, and the others stand
shifted by the size of the headers under the cipher `c`. The writes of a turn move `r`
(`image_encrypted`, `image_decrypted`), and a failed write of an encryption that was undone leaves
it (`image_undone`).
-/

set_option autoImplicit false

namespace VeraCrypt
namespace Format

open Lib Common

/-! ## Sizes -/

namespace Partition

variable (P : Partition)

theorem deviceSize_eq : P.deviceSize = P.volumeSize + 262144 := by
  have h : 2 * 131072 < P.deviceSize := P.large
  show P.deviceSize = P.deviceSize - 2 * 131072 + 262144
  omega

theorem backupHeaderOffset_eq : P.backupHeaderOffset = P.volumeSize + 131072 := by
  have h := P.deviceSize_eq
  show P.deviceSize - 131072 = P.volumeSize + 131072
  omega

theorem volumeSize_whole : P.volumeSize % 512 = 0 := by
  have h := P.deviceSize_eq
  have hwhole : P.deviceSize % 512 = 0 := P.whole
  omega

theorem volumeSize_lt : P.volumeSize + 262144 < 2 ^ 64 := by
  have h := P.fits
  rw [P.deviceSize_eq] at h
  exact h

end Partition

theorem volumeDataOffset_eq : volumeDataOffset = 131072 := rfl

/-! ## The image -/

/-- The file system with its beginning concealed. -/
def concealed (fs : Device) : Device :=
  fun i => if i < initialConcealPortionSize then fs i ^^^ concealConstant else fs i

theorem xor_concealConstant (x : UInt8) : x ^^^ concealConstant ^^^ concealConstant = x := by
  rw [UInt8.xor_assoc, UInt8.xor_self, UInt8.xor_zero]

/-- Concealing is its own inverse. -/
theorem concealed_concealed (fs : Device) : concealed (concealed fs) = fs := by
  funext i
  unfold concealed
  split
  · exact xor_concealConstant (fs i)
  · rfl

structure Image (P : Partition) (c : UnitCipher dataUnitSize) (fs d : Device) (r : Nat) : Prop where
  le : r ≤ P.volumeSize
  whole : r % dataUnitSize = 0
  plain : ∀ i < r, d i = concealed fs i
  cipher : ∀ i, r ≤ i → i < P.volumeSize → decryptAt c d (i + volumeDataOffset) = fs i

section

variable {P : Partition} {c : UnitCipher dataUnitSize} {fs d : Device} {r w : Nat}

/-- The image is in front of the backup header. -/
theorem Image.congr {d' : Device} (h : Image P c fs d r)
    (hd : ∀ i < P.backupHeaderOffset, d' i = d i) : Image P c fs d' r := by
  have hV := P.backupHeaderOffset_eq
  have hwholeV := P.volumeSize_whole
  have hr := h.le
  have hH := volumeDataOffset_eq
  refine { le := h.le, whole := h.whole, plain := ?_, cipher := ?_ }
  · intro i hi
    rw [hd i (by omega), h.plain i hi]
  · intro i hri hi
    rw [← h.cipher i hri hi]
    apply decryptAt_congr
    intro q hq
    apply hd
    have hq512 : q / 512 = (i + volumeDataOffset) / 512 := hq
    omega

/-! ## Encrypting a chunk -/

/-- What is revealed in front of the boundary is the file system. -/
theorem undoConcealing_readAt (h : Image P c fs d r) (hw : w ≤ r) {k : Nat} (hk : k < w) :
    undoConcealing (r - w) (readAt d (r - w)) k = fs (r - w + k) := by
  have hplain : readAt d (r - w) k = concealed fs (r - w + k) := h.plain (r - w + k) (by omega)
  have hsize : initialConcealPortionSize = 8192 := rfl
  unfold undoConcealing
  by_cases hbelow : r - w < initialConcealPortionSize
  · rw [if_pos hbelow]
    by_cases hin : k < initialConcealPortionSize - (r - w)
    · rw [if_pos hin, hplain, concealed, if_pos (by omega), xor_concealConstant]
    · rw [if_neg hin, hplain, concealed, if_neg (by omega)]
  · rw [if_neg hbelow, hplain, concealed, if_neg (by omega)]

/-- **A chunk in front of the boundary is encrypted.** -/
theorem image_encrypted (h : Image P c fs d r) (hw : w ≤ r) (hwhole : w % 512 = 0)
    {buf : Buffer} (hbuf : ∀ k < w, buf k = fs (r - w + k)) :
    Image P c fs (writeAt d (r - w + volumeDataOffset) w
      (onUnits c.enc ((r - w + volumeDataOffset) / dataUnitSize) (w / dataUnitSize) buf)) (r - w) := by
  have hH := volumeDataOffset_eq
  have hr := h.le
  have hrwhole : r % 512 = 0 := h.whole
  have hoff : r - w + volumeDataOffset =
      dataUnitSize * ((r - w + volumeDataOffset) / dataUnitSize) := by
    show _ = 512 * ((r - w + volumeDataOffset) / 512)
    omega
  have hlen : w = dataUnitSize * (w / dataUnitSize) := by
    show w = 512 * (w / 512)
    omega
  refine { le := by omega, whole := ?_, plain := ?_, cipher := ?_ }
  · show (r - w) % 512 = 0
    omega
  · intro i hi
    rw [writeAt_outside (Or.inl (by omega)), h.plain i (by omega)]
  · intro i hri hi
    by_cases hin : i < r
    · have hk : i - (r - w) < w := by omega
      have haddr : i + volumeDataOffset = r - w + volumeDataOffset + (i - (r - w)) := by omega
      have hfs : r - w + (i - (r - w)) = i := by omega
      generalize (r - w + volumeDataOffset) / dataUnitSize = first at hoff ⊢
      generalize w / dataUnitSize = count at hlen ⊢
      have hdec : decryptAt c (writeAt d (dataUnitSize * first) (dataUnitSize * count)
          (onUnits c.enc first count buf)) (dataUnitSize * first + (i - (r - w))) =
          buf (i - (r - w)) := decryptAt_writeAt_enc c (by rw [← hlen]; exact hk)
      rw [← hoff, ← hlen] at hdec
      rw [haddr, hdec, hbuf _ hk, hfs]
    · rw [← h.cipher i (by omega) hi]
      apply @decryptAt_outside _ _ c _ _ ((r - w + volumeDataOffset) / dataUnitSize)
        (w / dataUnitSize)
      · intro q hq
        apply writeAt_outside
        rw [Nat.mul_add, ← hoff, ← hlen] at hq
        exact hq
      · rw [Nat.mul_add, ← hoff, ← hlen]
        omega

/-- What an encryption has spoilt in its chunk and put back. -/
theorem image_undone {d' : Device} (h : Image P c fs d r) (hw : w ≤ r) (hwhole : w % 512 = 0)
    (hout : ∀ i, i < r - w + volumeDataOffset ∨ r + volumeDataOffset ≤ i → d' i = d i)
    (hback : ∀ i, r - w + volumeDataOffset ≤ i → i < r → d' i = fs i) : Image P c fs d' r := by
  have hH := volumeDataOffset_eq
  have hrwhole : r % 512 = 0 := h.whole
  refine { le := h.le, whole := h.whole, plain := ?_, cipher := ?_ }
  · intro i hi
    by_cases hin : r - w + volumeDataOffset ≤ i
    · have hsize : initialConcealPortionSize = 8192 := rfl
      rw [hback i hin hi, concealed, if_neg (by omega)]
    · rw [hout i (Or.inl (by omega)), h.plain i hi]
  · intro i hri hi
    rw [← h.cipher i hri hi]
    apply decryptAt_congr
    intro q hq
    have hq512 : q / 512 = (i + volumeDataOffset) / 512 := hq
    apply hout
    right
    omega

/-! ## Decrypting a chunk -/

/-- **A chunk behind the boundary is decrypted**, if `buf` is it with the concealed part of the
file system concealed. -/
theorem image_decrypted (h : Image P c fs d r) (hw : r + w ≤ P.volumeSize) (hwhole : w % 512 = 0)
    {buf : Buffer} (hbuf : ∀ k < w, buf k = concealed fs (r + k)) :
    Image P c fs (writeAt d r w buf) (r + w) := by
  have hH := volumeDataOffset_eq
  have hrwhole : r % 512 = 0 := h.whole
  refine { le := hw, whole := ?_, plain := ?_, cipher := ?_ }
  · show (r + w) % 512 = 0
    omega
  · intro i hi
    rcases writeAt_cases d buf r w i with ⟨hout, hd⟩ | ⟨k, hk, rfl, hd⟩
    · rw [hd, h.plain i (by omega)]
    · rw [hd, hbuf k hk]
  · intro i hri hi
    rw [← h.cipher i (by omega) hi]
    apply decryptAt_congr
    intro q hq
    have hq512 : q / 512 = (i + volumeDataOffset) / 512 := hq
    apply writeAt_outside
    right
    omega

/-- A failed write that has left what is encrypted alone. -/
theorem image_kept {d' : Device} (h : Image P c fs d r) (hbelow : ∀ i < r, d' i = d i)
    (hout : ∀ i, r + volumeDataOffset ≤ i → d' i = d i) : Image P c fs d' r := by
  have hH := volumeDataOffset_eq
  have hrwhole : r % 512 = 0 := h.whole
  refine { le := h.le, whole := h.whole, plain := ?_, cipher := ?_ }
  · intro i hi
    rw [hbelow i hi, h.plain i hi]
  · intro i hri hi
    rw [← h.cipher i hri hi]
    apply decryptAt_congr
    intro q hq
    have hq512 : q / 512 = (i + volumeDataOffset) / 512 := hq
    apply hout
    omega

end

/-! ## The chunks of the two core loops -/

/-- The numbers of a session at the boundary `r`. -/
structure Numbers (P : Partition) (s : Session) (r : Nat) : Prop where
  start_eq : s.encryptedAreaStart = r + volumeDataOffset
  length_eq : s.encryptedAreaLength = P.volumeSize - r

section

variable {P : Partition} {keys : List (Cipher × Bytes × Bytes)} {fs d : Device} {s : Session}
  {r : Nat}

theorem workChunkSize_le (s : Session) : s.workChunkSize ≤ s.remainingBytes := Nat.min_le_left _ _

theorem workChunkSize_whole (h : s.remainingBytes % 512 = 0) : s.workChunkSize % 512 = 0 := by
  have hmax : maxWorkChunkSize % 512 = 0 := rfl
  rcases Nat.le_total s.remainingBytes maxWorkChunkSize with hle | hle
  · rw [Session.workChunkSize, Nat.min_eq_left hle, h]
  · rw [Session.workChunkSize, Nat.min_eq_right hle, hmax]

/-- What a turn of an encryption computes, as a function of units. -/
theorem encryptedChunk_eq (hn : Numbers P s s.remainingBytes) (hk : s.info.schedule = keys) :
    encryptedChunk P s d =
      onUnits (dataCipher P.C keys).enc
        ((s.remainingBytes - s.workChunkSize + volumeDataOffset) / dataUnitSize)
        (s.workChunkSize / dataUnitSize)
        (undoConcealing (s.remainingBytes - s.workChunkSize)
          (readAt d (s.remainingBytes - s.workChunkSize))) := by
  have hle := workChunkSize_le s
  have hoff : s.encryptedAreaStart - s.workChunkSize - volumeDataOffset =
      s.remainingBytes - s.workChunkSize := by
    rw [hn.start_eq]
    omega
  rw [encryptedChunk, hoff, hk, onBuffer_encryptDataUnits]

theorem encryptedOffset (hn : Numbers P s s.remainingBytes) :
    s.encryptedAreaStart - s.workChunkSize =
      s.remainingBytes - s.workChunkSize + volumeDataOffset := by
  have hle := workChunkSize_le s
  rw [hn.start_eq]
  omega

/-- **The disk behind a turn of an encryption.** -/
theorem image_encryptTurn (h : Image P (dataCipher P.C keys) fs d s.remainingBytes)
    (hn : Numbers P s s.remainingBytes) (hk : s.info.schedule = keys) :
    Image P (dataCipher P.C keys) fs
      (writeAt d (s.encryptedAreaStart - s.workChunkSize) s.workChunkSize (encryptedChunk P s d))
      (s.remainingBytes - s.workChunkSize) := by
  rw [encryptedChunk_eq hn hk, encryptedOffset hn]
  apply image_encrypted h (workChunkSize_le s) (workChunkSize_whole h.whole)
  intro k hk
  exact undoConcealing_readAt h (workChunkSize_le s) hk

/-- **The disk behind a failed write that was undone.** -/
theorem image_undoFailedWrite (h : Image P (dataCipher P.C keys) fs d s.remainingBytes)
    (hn : Numbers P s s.remainingBytes) (hk : s.info.schedule = keys) (wipes : List Buffer)
    (torn : Buffer) :
    Image P (dataCipher P.C keys) fs
      (undoFailedWrite P s (encryptedChunk P s d)
        (writeAt (overwrite d (s.encryptedAreaStart - s.workChunkSize) s.workChunkSize wipes)
          (s.encryptedAreaStart - s.workChunkSize) s.workChunkSize torn)) s.remainingBytes := by
  have hH := volumeDataOffset_eq
  have hle := workChunkSize_le s
  have hwhole := workChunkSize_whole (s := s) h.whole
  have hoff := encryptedOffset hn
  rw [writeAt_overwrite, hoff]
  generalize htorn : writeAt d (s.remainingBytes - s.workChunkSize + volumeDataOffset)
    s.workChunkSize torn = d'
  have hout : ∀ i, i < s.remainingBytes - s.workChunkSize + volumeDataOffset ∨
      s.remainingBytes + volumeDataOffset ≤ i → d' i = d i := by
    intro i hi
    rw [← htorn]
    exact writeAt_outside (by omega)
  apply image_undone h hle hwhole
  · intro i hi
    rw [undoFailedWrite]
    split
    · rw [hoff, writeAt_outside (by omega), hout i hi]
    · exact hout i hi
  · intro i hlow hhigh
    have hk' : i - (s.remainingBytes - s.workChunkSize + volumeDataOffset) <
        s.workChunkSize - volumeDataOffset := by omega
    have hin : volumeDataOffset + (i - (s.remainingBytes - s.workChunkSize + volumeDataOffset)) <
        s.workChunkSize := by omega
    have hunits : s.workChunkSize = dataUnitSize * (s.workChunkSize / dataUnitSize) := by
      show s.workChunkSize = 512 * (s.workChunkSize / 512)
      omega
    have haddr : i = s.remainingBytes - s.workChunkSize + volumeDataOffset +
        (i - (s.remainingBytes - s.workChunkSize + volumeDataOffset)) := by omega
    have hfs : s.remainingBytes - s.workChunkSize + (volumeDataOffset +
        (i - (s.remainingBytes - s.workChunkSize + volumeDataOffset))) = i := by omega
    rw [undoFailedWrite, if_pos (by omega), hoff]
    generalize i - (s.remainingBytes - s.workChunkSize + volumeDataOffset) = k at *
    rw [haddr, writeAt_inside hk', readAt, hk, encryptedChunk_eq hn hk, onBuffer_decryptDataUnits,
      onUnits_dec_enc _ (by rw [← hunits]; exact hin), undoConcealing_readAt h hle hin, hfs, ← haddr]

/-- What a turn of a decryption has in RAM before it conceals it. -/
theorem decryptedChunk_eq (h : Image P (dataCipher P.C keys) fs d r) (hn : Numbers P s r)
    (hrem : s.remainingBytes = P.volumeSize - r) (hk : s.info.schedule = keys) {k : Nat}
    (hkw : k < s.workChunkSize) :
    ∃ plain : Buffer, decryptedChunk P s d = concealChunk r s.workChunkSize plain ∧
      plain k = fs (r + k) := by
  have hH := volumeDataOffset_eq
  have hr := h.le
  have hrwhole : r % 512 = 0 := h.whole
  have hVwhole := P.volumeSize_whole
  have hle := workChunkSize_le s
  have hwhole : s.workChunkSize % 512 = 0 := workChunkSize_whole (by omega)
  have hbelow : s.encryptedAreaStart - volumeDataOffset = r := by
    rw [hn.start_eq]
    omega
  refine ⟨_, by rw [decryptedChunk, hbelow], ?_⟩
  have hunits : s.workChunkSize = dataUnitSize * (s.workChunkSize / dataUnitSize) := by
    show s.workChunkSize = 512 * (s.workChunkSize / 512)
    omega
  have hfirst : r + volumeDataOffset = dataUnitSize * ((r + volumeDataOffset) / dataUnitSize) := by
    show r + volumeDataOffset = 512 * ((r + volumeDataOffset) / 512)
    omega
  have hfs := h.cipher (r + k) (by omega) (by omega)
  rw [hk, onBuffer_decryptDataUnits, hn.start_eq, ← hfs]
  generalize (r + volumeDataOffset) / dataUnitSize = first at hfirst ⊢
  rw [hfirst, onUnits_dec_readAt _ (by rw [← hunits]; exact hkw), ← hfirst, Nat.add_right_comm]

/-- A chunk that is concealed as far as the file system is. -/
theorem concealChunk_concealed {plain : Buffer} {w k : Nat}
    (hwell : r = 0 ∨ initialConcealPortionSize ≤ r ∨ r + w ≤ initialConcealPortionSize)
    (hk : k < w) (hplain : plain k = fs (r + k)) :
    concealChunk r w plain k = concealed fs (r + k) := by
  have hsize : initialConcealPortionSize = 8192 := rfl
  unfold concealChunk concealed
  rw [← hplain]
  by_cases hr : r < initialConcealPortionSize
  · rw [if_pos hr]
    by_cases hin : k < min initialConcealPortionSize (r + w)
    · rw [if_pos hin, if_pos (by omega)]
    · rw [if_neg hin, if_neg (by omega)]
  · rw [if_neg hr, if_neg (by omega)]

end

end Format
end VeraCrypt
