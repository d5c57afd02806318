import VeraCrypt.Volume.HeaderCodec
import VeraCrypt.Volume.VolumeLayout
import VeraCrypt.Volume.XtsBlocks

/-!
# A header on disk

`EncryptNew` encrypts a whole header group, zero padding included; what opens it again are its
salt and the first 448 bytes behind, 512 bytes in all. So a header stays good whatever the rest
of its group holds afterwards (`decryptWithAlgorithm_encryptNew`), which is what lets keyslots
live there.
-/

set_option autoImplicit false

namespace VeraCrypt

open Lib

/-- The bytes of a header group that a header takes: its salt and the fields. -/
def effectiveHeaderSize : Nat := encryptedHeaderDataOffset + keyslotPayloadSize

/-- `EncryptNew` inverted. -/
theorem encryptNew_ok {C : Ciphers} {h : VolumeHeader} {size : Nat} {salt headerKey buf : Bytes}
    (henc : encryptNew C h size salt headerKey = .ok buf) :
    size = h.headerSize ∧ salt.length = saltSize ∧
      h.ea.algorithm.getKeySize * 2 ≤ headerKey.length ∧
      ∃ data, (headerAlgorithm h.ea.algorithm headerKey).encryptBuffer C
        (serialize h (h.headerSize - encryptedHeaderDataOffset)) 0 = some data ∧
        buf = salt ++ data := by
  unfold encryptNew at henc
  split at henc
  · exact absurd henc (by simp)
  · rename_i hsize
    split at henc
    · exact absurd henc (by simp)
    · rename_i hkey
      split at henc
      · exact absurd henc (by simp)
      · rename_i data hdata
        obtain ⟨hsize, hsalt⟩ := not_or.mp hsize
        exact ⟨not_not.mp hsize, not_not.mp hsalt, Nat.not_lt.mp hkey, data, hdata,
          (Except.ok.inj henc).symm⟩

/-- The header sizes of the layouts hold a header and are whole blocks. -/
def HeaderSizeOk (size : Nat) : Prop :=
  effectiveHeaderSize ≤ size ∧ size % bytesPerXtsBlock = 0

theorem headerSizeOk_layout (layout : VolumeLayout) : HeaderSizeOk layout.getHeaderSize := by
  cases layout <;> exact ⟨by decide, by decide⟩

section

variable {C : Ciphers} {h : VolumeHeader} {salt headerKey : Bytes}

/-- `EncryptNew` succeeds on what it checks. -/
theorem encryptNew_isSome (C : Ciphers) (hok : HeaderSizeOk h.headerSize)
    (hkey : h.dataAreaKey.length = dataKeyAreaMaxSize) (hsalt : salt.length = saltSize)
    (hlong : h.ea.algorithm.getKeySize * 2 ≤ headerKey.length) :
    ∃ data, (headerAlgorithm h.ea.algorithm headerKey).encryptBuffer C
        (serialize h (h.headerSize - encryptedHeaderDataOffset)) 0 = some data ∧
      encryptNew C h h.headerSize salt headerKey = .ok (salt ++ data) := by
  obtain ⟨hfits, hblocks⟩ := hok
  have hlen := length_serialize h (h.headerSize - encryptedHeaderDataOffset) hkey
    (by simp only [effectiveHeaderSize] at hfits; omega)
  have hwhole : (serialize h (h.headerSize - encryptedHeaderDataOffset)).length %
      bytesPerXtsBlock = 0 := by
    rw [hlen]
    simp only [bytesPerXtsBlock, encryptedHeaderDataOffset, saltSize] at hblocks ⊢
    omega
  obtain ⟨data, hdata⟩ := EncryptionAlgorithm.encryptBuffer_isSome C
    (headerAlgorithm h.ea.algorithm headerKey) hwhole 0
  refine ⟨data, hdata, ?_⟩
  unfold encryptNew
  rw [if_neg (by rintro (hne | hne); exact hne rfl; exact hne hsalt),
    if_neg (Nat.not_lt.mpr hlong), hdata]

/-- Another decrypted part with the same first bytes carries the same header. -/
theorem CarriesHeader.of_front_eq {b c : Bytes} (hb : CarriesHeader h b)
    (hfront : slice b 0 keyslotPayloadSize = slice c 0 keyslotPayloadSize) : CarriesHeader h c := by
  have hsl : ∀ {off n : Nat}, off + n ≤ keyslotPayloadSize → slice c off n = slice b off n :=
    fun hin => slice_of_front_eq hfront.symm hin
  have h16 : ∀ off, off + 2 ≤ keyslotPayloadSize → entry16 c off = entry16 b off := by
    intro off hin
    rw [entry16, entry16, hsl hin]
  have h32 : ∀ off, off + 4 ≤ keyslotPayloadSize → entry32 c off = entry32 b off := by
    intro off hin
    rw [entry32, entry32, hsl hin]
  have h64 : ∀ off, off + 8 ≤ keyslotPayloadSize → entry64 c off = entry64 b off := by
    intro off hin
    rw [entry64, entry64, hsl hin]
  exact
    { magic := by rw [hsl (by decide), hb.magic]
      version := by rw [h16 _ (by decide), hb.version]
      required := by rw [h16 _ (by decide), hb.required]
      keyCrc := by rw [h32 _ (by decide), hb.keyCrc]
      volumeCreationTime := by rw [h64 _ (by decide), hb.volumeCreationTime]
      headerCreationTime := by rw [h64 _ (by decide), hb.headerCreationTime]
      hiddenVolumeDataSize := by rw [h64 _ (by decide), hb.hiddenVolumeDataSize]
      volumeDataSize := by rw [h64 _ (by decide), hb.volumeDataSize]
      encryptedAreaStart := by rw [h64 _ (by decide), hb.encryptedAreaStart]
      encryptedAreaLength := by rw [h64 _ (by decide), hb.encryptedAreaLength]
      flags := by rw [h32 _ (by decide), hb.flags]
      sectorSize := by rw [h32 _ (by decide), hb.sectorSize]
      crc := by rw [h32 _ (by decide), hsl (by decide), hb.crc]
      key := by rw [hsl (by decide), hb.key] }

/-- The part that a header of any size is decrypted to begins like the one whose encryption
    stands behind its salt. -/
theorem decryptWithAlgorithm_front {m : Nat} {a : AlgorithmId} {encryptedData plain data : Bytes}
    (pkcs5 : Pkcs5Kdf) (hdata : (headerAlgorithm a headerKey).encryptBuffer C plain 0 = some data)
    (hplain : keyslotPayloadSize ≤ plain.length) (hok : HeaderSizeOk m)
    (hlong : a.getKeySize * 2 ≤ headerKey.length) (hlen : encryptedData.length = m)
    (hfront : slice encryptedData encryptedHeaderDataOffset keyslotPayloadSize =
      slice data 0 keyslotPayloadSize) :
    ∃ part, part.length = m - encryptedHeaderDataOffset ∧
      slice part 0 keyslotPayloadSize = slice plain 0 keyslotPayloadSize ∧
      (headerAlgorithm a headerKey).decryptBuffer C
          (slice encryptedData encryptedHeaderDataOffset (m - encryptedHeaderDataOffset)) 0 =
        some part ∧
      decryptWithAlgorithm C m encryptedData headerKey pkcs5 a = deserialize m part a pkcs5 := by
  obtain ⟨hfits, hblocks⟩ := hok
  have hfits' : 64 + 448 ≤ m := hfits
  have hplain' : 448 ≤ plain.length := hplain
  have hdlen := EncryptionAlgorithm.length_encryptBuffer hdata
  have hpart : (slice encryptedData encryptedHeaderDataOffset
      (m - encryptedHeaderDataOffset)).length = m - 64 :=
    length_slice (show 64 + (m - 64) ≤ encryptedData.length by omega)
  have hwhole : (slice encryptedData encryptedHeaderDataOffset
      (m - encryptedHeaderDataOffset)).length % bytesPerXtsBlock = 0 := by
    rw [hpart]
    simp only [bytesPerXtsBlock] at hblocks ⊢
    omega
  obtain ⟨part, hdec⟩ := EncryptionAlgorithm.decryptBuffer_isSome C
    (headerAlgorithm a headerKey) hwhole 0
  have hback := EncryptionAlgorithm.decryptBuffer_encryptBuffer hdata
  -- the fields are the first 28 blocks
  have hin : slice (slice encryptedData encryptedHeaderDataOffset
      (m - encryptedHeaderDataOffset)) 0 (28 * bytesPerXtsBlock) =
        slice data 0 (28 * bytesPerXtsBlock) := by
    have hslack : slice (slice encryptedData 64 (m - 64)) 0 448 =
        slice encryptedData (64 + 0) 448 := slice_slice (by omega)
    exact hslack.trans hfront
  refine ⟨part, (EncryptionAlgorithm.length_decryptBuffer hdec).trans hpart, ?_, hdec, ?_⟩
  · exact EncryptionAlgorithm.slice_decryptBuffer_front (m := 28) hdec hback
      (show 28 * 16 ≤ _ by omega) (show 28 * 16 ≤ _ by omega) hin
  · unfold decryptWithAlgorithm
    rw [if_neg (Nat.not_lt.mpr hlong), hdec]

/-- **A header opens again under the key it was encrypted with**, whatever stands behind its
    first 512 bytes. -/
theorem decryptWithAlgorithm_encryptNew {buf encryptedData : Bytes} (pkcs5 : Pkcs5Kdf)
    (henc : encryptNew C h h.headerSize salt headerKey = .ok buf)
    (hok : HeaderSizeOk h.headerSize) (hkey : h.dataAreaKey.length = dataKeyAreaMaxSize)
    (hver : h.requiredMinProgramVersion ≤ versionNumber)
    (hlen : encryptedData.length = h.headerSize)
    (hfront : slice encryptedData 0 effectiveHeaderSize = slice buf 0 effectiveHeaderSize) :
    decryptWithAlgorithm C h.headerSize encryptedData headerKey pkcs5 h.ea.algorithm =
      .ok (some (rereadHeader h h.headerSize
        (slice (serialize h (h.headerSize - encryptedHeaderDataOffset)) 0 keyslotPayloadSize)
        h.ea.algorithm pkcs5)) := by
  obtain ⟨-, hsalt, hlong, data, hdata, rfl⟩ := encryptNew_ok henc
  have hfits : 64 + 448 ≤ h.headerSize := hok.1
  have hser := length_serialize h (h.headerSize - encryptedHeaderDataOffset) hkey
    (show 448 ≤ h.headerSize - 64 by omega)
  have hin : slice encryptedData 64 448 = slice data 0 448 := by
    have hboth := congrArg (fun xs => slice xs 64 448) hfront
    have hleft : slice (slice encryptedData 0 effectiveHeaderSize) 64 448 =
        slice encryptedData (0 + 64) 448 := slice_slice (show 64 + 448 ≤ 512 by omega)
    have hright : slice (slice (salt ++ data) 0 effectiveHeaderSize) 64 448 =
        slice (salt ++ data) (0 + 64) 448 := slice_slice (show 64 + 448 ≤ 512 by omega)
    have hdata448 : slice (salt ++ data) (0 + 64) 448 = slice data 0 448 := by
      rw [slice_append_right (by rw [hsalt]; decide), hsalt]
      rfl
    simp only [hleft, hright, hdata448] at hboth
    exact hboth
  obtain ⟨part, hplen, hfields, -, hread⟩ := decryptWithAlgorithm_front pkcs5 hdata
    (show 448 ≤ _ by rw [hser]; show 448 ≤ h.headerSize - 64; omega) hok hlong hlen hin
  have hcarries : CarriesHeader h part := (carries_serialize _ hkey).of_front_eq hfields.symm
  rw [hread, deserialize_of_carries h.ea.algorithm pkcs5 hcarries hver hplen
    (show 448 + 64 ≤ h.headerSize by omega), hfields]

end

end VeraCrypt
