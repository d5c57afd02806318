import VeraCrypt.Volume.VolumeHeader

/-!
# The header codec

`Deserialize` undoes `Serialize` (`deserialize_serialize`), and it looks at the first 448 bytes
of a decrypted part only (`deserialize_of_front_eq`). The second is what makes a keyslot work:
the header rebuilt from the stored bytes is the header they were taken from
(`rebuildFromKeyslot_effectivePlaintext`).
-/

set_option autoImplicit false

namespace VeraCrypt

open Lib

/-! ## Fields -/

theorem ofNat_beNat_beBytes16 (v : UInt16) : UInt16.ofNat (beNat (beBytes 2 v.toNat)) = v := by
  rw [beNat_beBytes, Nat.mod_eq_of_lt (by have := v.toNat_lt; omega), UInt16.ofNat_toNat]

theorem ofNat_beNat_beBytes32 (v : UInt32) : UInt32.ofNat (beNat (beBytes 4 v.toNat)) = v := by
  rw [beNat_beBytes, Nat.mod_eq_of_lt (by have := v.toNat_lt; omega), UInt32.ofNat_toNat]

theorem ofNat_beNat_beBytes64 (v : UInt64) : UInt64.ofNat (beNat (beBytes 8 v.toNat)) = v := by
  rw [beNat_beBytes, Nat.mod_eq_of_lt (by have := v.toNat_lt; omega), UInt64.ofNat_toNat]

section

variable (h : VolumeHeader) (size : Nat)

theorem length_serializeFields : (serializeFields h).length = headerCrcOffset := by
  simp [serializeFields, headerParts, headerMagic, headerCrcOffset]

theorem length_serialize (hkey : h.dataAreaKey.length = dataKeyAreaMaxSize)
    (hsize : keyslotPayloadSize ≤ size) : (serialize h size).length = size := by
  simp only [serialize, List.length_append, length_serializeFields, length_beBytes, hkey,
    List.length_replicate]
  simp only [headerCrcOffset, dataKeyAreaMaxSize, keyslotPayloadSize, dataAreaKeyOffset,
    encryptedHeaderDataOffset, saltSize] at hsize ⊢
  omega

/-- The widths of the fields. -/
def headerWidths : List Nat := [4, 2, 2, 4, 8, 8, 8, 8, 8, 8, 4, 4, 120]

/-- Field `i` of the serialized header stands behind the fields in front of it. -/
theorem slice_serialize_part {part : Bytes} {i off n : Nat}
    (hpart : (headerParts h)[i]? = some part) (hoff : off = (headerWidths.take i).sum)
    (hn : n = part.length) : slice (serialize h size) off n = part := by
  have hwidths : (headerParts h).map List.length = headerWidths := by
    simp [headerParts, headerMagic, headerWidths]
  rw [← hwidths, ← List.map_take] at hoff
  exact slice_flatten_part hpart _ hoff hn

theorem entry16_serialize {i off : Nat} {v : UInt16}
    (hpart : (headerParts h)[i]? = some (beBytes 2 v.toNat))
    (hoff : off = (headerWidths.take i).sum) : entry16 (serialize h size) off = v := by
  rw [entry16, slice_serialize_part h size hpart hoff (by simp), ofNat_beNat_beBytes16]

theorem entry32_serialize {i off : Nat} {v : UInt32}
    (hpart : (headerParts h)[i]? = some (beBytes 4 v.toNat))
    (hoff : off = (headerWidths.take i).sum) : entry32 (serialize h size) off = v := by
  rw [entry32, slice_serialize_part h size hpart hoff (by simp), ofNat_beNat_beBytes32]

theorem entry64_serialize {i off : Nat} {v : UInt64}
    (hpart : (headerParts h)[i]? = some (beBytes 8 v.toNat))
    (hoff : off = (headerWidths.take i).sum) : entry64 (serialize h size) off = v := by
  rw [entry64, slice_serialize_part h size hpart hoff (by simp), ofNat_beNat_beBytes64]

theorem slice_serialize_fields :
    slice (serialize h size) 0 headerCrcOffset = serializeFields h := by
  rw [serialize, slice_append_left (by rw [length_serializeFields]; omega),
    slice_all (by rw [length_serializeFields])]

theorem entry32_serialize_crc :
    entry32 (serialize h size) headerCrcOffset = getCrc32 (serializeFields h) := by
  have hs : slice (serialize h size) headerCrcOffset 4 =
      beBytes 4 (getCrc32 (serializeFields h)).toNat :=
    slice_of_eq_append rfl (length_serializeFields h).symm (length_beBytes 4 _).symm
  rw [entry32, hs, ofNat_beNat_beBytes32]

theorem slice_serialize_key (hkey : h.dataAreaKey.length = dataKeyAreaMaxSize) :
    slice (serialize h size) dataAreaKeyOffset dataKeyAreaMaxSize = h.dataAreaKey := by
  apply slice_of_eq_append
    (p := serializeFields h ++ beBytes 4 (getCrc32 (serializeFields h)).toNat)
    (q := List.replicate (size - keyslotPayloadSize) 0) ?_ ?_ hkey.symm
  · simp only [serialize, List.append_assoc]
  · rw [List.length_append, length_serializeFields, length_beBytes]
    rfl

end

/-- A decrypted part that carries the fields and the key area of a header. -/
structure CarriesHeader (h : VolumeHeader) (b : Bytes) : Prop where
  magic : slice b 0 4 = headerMagic
  version : entry16 b 4 = currentHeaderVersion
  required : entry16 b 6 = h.requiredMinProgramVersion
  keyCrc : entry32 b 8 = getCrc32 h.dataAreaKey
  volumeCreationTime : entry64 b 12 = 0
  headerCreationTime : entry64 b 20 = 0
  hiddenVolumeDataSize : entry64 b 28 = h.hiddenVolumeDataSize
  volumeDataSize : entry64 b 36 = h.volumeDataSize
  encryptedAreaStart : entry64 b 44 = h.encryptedAreaStart
  encryptedAreaLength : entry64 b 52 = h.encryptedAreaLength
  flags : entry32 b 60 = h.flags
  sectorSize : entry32 b 64 = h.sectorSize
  crc : entry32 b headerCrcOffset = getCrc32 (slice b 0 headerCrcOffset)
  key : slice b dataAreaKeyOffset dataKeyAreaMaxSize = h.dataAreaKey

theorem carries_serialize {h : VolumeHeader} (size : Nat)
    (hkey : h.dataAreaKey.length = dataKeyAreaMaxSize) : CarriesHeader h (serialize h size) where
  magic := slice_serialize_part h size (i := 0) rfl rfl rfl
  version := entry16_serialize h size (i := 1) rfl rfl
  required := entry16_serialize h size (i := 2) rfl rfl
  keyCrc := entry32_serialize h size (i := 3) rfl rfl
  volumeCreationTime := entry64_serialize h size (i := 4) (v := 0) rfl rfl
  headerCreationTime := entry64_serialize h size (i := 5) (v := 0) rfl rfl
  hiddenVolumeDataSize := entry64_serialize h size (i := 6) rfl rfl
  volumeDataSize := entry64_serialize h size (i := 7) rfl rfl
  encryptedAreaStart := entry64_serialize h size (i := 8) rfl rfl
  encryptedAreaLength := entry64_serialize h size (i := 9) rfl rfl
  flags := entry32_serialize h size (i := 10) rfl rfl
  sectorSize := entry32_serialize h size (i := 11) rfl rfl
  crc := by rw [entry32_serialize_crc, slice_serialize_fields]
  key := slice_serialize_key h size hkey

/-! ## Reading back -/

theorem getKeySize_le (a : AlgorithmId) : a.getKeySize * 2 ≤ dataKeyAreaMaxSize := by
  cases a <;> decide

/-- The header that is read from a decrypted part which carries `h`: the fields of `h`, the
    version of the writer, the times as zero. -/
def rereadHeader (h : VolumeHeader) (headerSize : Nat) (front : Bytes) (a : AlgorithmId)
    (pkcs5 : Pkcs5Kdf) : VolumeHeader :=
  { h with
    headerSize := headerSize
    ea :=
      { algorithm := a
        key := slice h.dataAreaKey 0 a.getKeySize
        secondaryKey := slice h.dataAreaKey a.getKeySize a.getKeySize
        sectorOffset := 0 }
    pkcs5 := pkcs5
    headerVersion := currentHeaderVersion
    volumeKeyAreaCrc32 := getCrc32 h.dataAreaKey
    volumeCreationTime := 0
    headerCreationTime := 0
    volumeType := if h.hiddenVolumeDataSize ≠ 0 then .hidden else .normal
    xtsKeyVulnerable :=
      slice h.dataAreaKey a.getKeySize a.getKeySize = slice h.dataAreaKey 0 a.getKeySize
    effectivePlaintext := front }

theorem deserialize_of_carries {h : VolumeHeader} {headerSize : Nat} {b : Bytes}
    (a : AlgorithmId) (pkcs5 : Pkcs5Kdf) (hb : CarriesHeader h b)
    (hver : h.requiredMinProgramVersion ≤ versionNumber)
    (hlen : b.length = headerSize - encryptedHeaderDataOffset)
    (hsize : keyslotPayloadSize + encryptedHeaderDataOffset ≤ headerSize) :
    deserialize headerSize b a pkcs5 =
      .ok (some (rereadHeader h headerSize (slice b 0 keyslotPayloadSize) a pkcs5)) := by
  have hks := getKeySize_le a
  have hkey : slice b dataAreaKeyOffset a.getKeySize = slice h.dataAreaKey 0 a.getKeySize := by
    rw [← hb.key, slice_slice (by omega), Nat.add_zero]
  have hsecondary : slice b (dataAreaKeyOffset + a.getKeySize) a.getKeySize =
      slice h.dataAreaKey a.getKeySize a.getKeySize := by
    rw [← hb.key, slice_slice (by omega)]
  have hsector : statedSectorSize b = h.sectorSize := by
    rw [statedSectorSize, hb.version, if_neg (by decide), hb.sectorSize]
  have hvalid : SectorSizeValid (statedSectorSize b) := by
    rw [hsector]
    exact h.sectorSize_valid
  unfold deserialize
  rw [if_neg (not_not.mpr hlen), if_neg (not_not.mpr hb.magic),
    if_neg (by rw [hb.version]; decide), if_neg (by rw [hb.version]; decide),
    if_neg (by rw [hb.crc]; simp), if_neg (by rw [hb.required]; exact UInt16.not_lt.mpr hver),
    dif_pos hvalid, if_neg (by rw [hb.keyCrc, hb.key]; simp)]
  simp only [rereadHeader, hb.version, hb.required, hb.keyCrc, hb.volumeCreationTime,
    hb.headerCreationTime, hb.hiddenVolumeDataSize, hb.volumeDataSize, hb.encryptedAreaStart,
    hb.encryptedAreaLength, hb.flags, hb.key, hkey, hsecondary, hsector,
    if_pos (show keyslotPayloadSize ≤ b.length by omega)]

/-- **`Deserialize` undoes `Serialize`.** -/
theorem deserialize_serialize {h : VolumeHeader} {headerSize : Nat} (a : AlgorithmId)
    (pkcs5 : Pkcs5Kdf) (hkey : h.dataAreaKey.length = dataKeyAreaMaxSize)
    (hver : h.requiredMinProgramVersion ≤ versionNumber)
    (hsize : keyslotPayloadSize + encryptedHeaderDataOffset ≤ headerSize) :
    deserialize headerSize (serialize h (headerSize - encryptedHeaderDataOffset)) a pkcs5 =
      .ok (some (rereadHeader h headerSize
        (slice (serialize h (headerSize - encryptedHeaderDataOffset)) 0 keyslotPayloadSize)
        a pkcs5)) :=
  deserialize_of_carries a pkcs5 (carries_serialize _ hkey) hver
    (length_serialize h _ hkey (by omega)) hsize

/-! ## What is read -/

/-- A read inside the first 448 bytes depends on those only. -/
theorem slice_of_front_eq {b c : Bytes}
    (h : slice b 0 keyslotPayloadSize = slice c 0 keyslotPayloadSize) {off n : Nat}
    (hin : off + n ≤ keyslotPayloadSize) : slice b off n = slice c off n := by
  have hb : slice (slice b 0 keyslotPayloadSize) off n = slice b (0 + off) n := slice_slice hin
  have hc : slice (slice c 0 keyslotPayloadSize) off n = slice c (0 + off) n := slice_slice hin
  rw [Nat.zero_add] at hb hc
  rw [← hb, h, hc]

/-- The same header, for another header size and derivation function. -/
def VolumeHeader.rehoused (h : VolumeHeader) (headerSize : Nat) (pkcs5 : Pkcs5Kdf) :
    VolumeHeader :=
  { h with headerSize := headerSize, pkcs5 := pkcs5 }

/-- **`Deserialize` looks at the first 448 bytes only.** -/
theorem deserialize_of_front_eq {n m : Nat} {b c : Bytes} (a : AlgorithmId)
    (pkcs5 pkcs5' : Pkcs5Kdf) (hb : b.length = n - encryptedHeaderDataOffset)
    (hc : c.length = m - encryptedHeaderDataOffset)
    (hn : keyslotPayloadSize + encryptedHeaderDataOffset ≤ n)
    (hm : keyslotPayloadSize + encryptedHeaderDataOffset ≤ m)
    (hfront : slice b 0 keyslotPayloadSize = slice c 0 keyslotPayloadSize) :
    deserialize m c a pkcs5' =
      (deserialize n b a pkcs5).map (Option.map (·.rehoused m pkcs5')) := by
  have hks := getKeySize_le a
  have hpay : keyslotPayloadSize = dataAreaKeyOffset + dataKeyAreaMaxSize := rfl
  have hsl : ∀ {o k : Nat}, o + k ≤ keyslotPayloadSize → slice c o k = slice b o k :=
    fun hin => slice_of_front_eq hfront.symm hin
  have h16 : ∀ {o : Nat}, o + 2 ≤ keyslotPayloadSize → entry16 c o = entry16 b o := by
    intro o hin
    rw [entry16, entry16, hsl hin]
  have h32 : ∀ {o : Nat}, o + 4 ≤ keyslotPayloadSize → entry32 c o = entry32 b o := by
    intro o hin
    rw [entry32, entry32, hsl hin]
  have h64 : ∀ {o : Nat}, o + 8 ≤ keyslotPayloadSize → entry64 c o = entry64 b o := by
    intro o hin
    rw [entry64, entry64, hsl hin]
  have hsector : statedSectorSize c = statedSectorSize b := by
    rw [statedSectorSize, statedSectorSize, h16 (by decide), h32 (by decide)]
  unfold deserialize
  rw [if_neg (not_not.mpr hb), if_neg (not_not.mpr hc), hsl (by decide), h16 (by decide),
    hsl (o := 0) (k := headerCrcOffset) (by decide), h32 (o := headerCrcOffset) (by decide),
    h16 (o := 6) (by decide), h32 (o := 8) (by decide),
    hsl (o := dataAreaKeyOffset) (k := dataKeyAreaMaxSize) (by decide)]
  by_cases hmagic : slice b 0 4 ≠ headerMagic
  · rw [if_pos hmagic, if_pos hmagic]
    rfl
  rw [if_neg hmagic, if_neg hmagic]
  by_cases hold : entry16 b 4 < minAllowedHeaderVersion
  · rw [if_pos hold, if_pos hold]
    rfl
  rw [if_neg hold, if_neg hold]
  by_cases hnew : currentHeaderVersion < entry16 b 4
  · rw [if_pos hnew, if_pos hnew]
    rfl
  rw [if_neg hnew, if_neg hnew]
  by_cases hcrc : 4 ≤ entry16 b 4 ∧
      getCrc32 (slice b 0 headerCrcOffset) ≠ entry32 b headerCrcOffset
  · rw [if_pos hcrc, if_pos hcrc]
    rfl
  rw [if_neg hcrc, if_neg hcrc]
  by_cases hreq : versionNumber < entry16 b 6
  · rw [if_pos hreq, if_pos hreq]
    rfl
  rw [if_neg hreq, if_neg hreq]
  by_cases hvalid : SectorSizeValid (statedSectorSize b)
  · have hvalid' : SectorSizeValid (statedSectorSize c) := hsector ▸ hvalid
    rw [dif_pos hvalid, dif_pos hvalid']
    by_cases hkey : entry32 b 8 ≠ getCrc32 (slice b dataAreaKeyOffset dataKeyAreaMaxSize)
    · rw [if_pos hkey, if_pos hkey]
      rfl
    rw [if_neg hkey, if_neg hkey]
    have hlenb : keyslotPayloadSize ≤ b.length := by omega
    have hlenc : keyslotPayloadSize ≤ c.length := by omega
    simp only [Except.map, Option.map, VolumeHeader.rehoused, h64 (o := 12) (by decide),
      h64 (o := 20) (by decide), h64 (o := 28) (by decide), h64 (o := 36) (by decide),
      h64 (o := 44) (by decide), h64 (o := 52) (by decide), h32 (o := 60) (by decide),
      hsl (o := dataAreaKeyOffset) (k := a.getKeySize) (by omega),
      hsl (o := dataAreaKeyOffset + a.getKeySize) (k := a.getKeySize) (by omega), hsector,
      if_pos hlenb, if_pos hlenc, hfront]
  · have hvalid' : ¬ SectorSizeValid (statedSectorSize c) := hsector ▸ hvalid
    rw [dif_neg hvalid, dif_neg hvalid']
    rfl

/-- What is known of a decrypted part that was accepted, and of the header it gave. -/
theorem deserialize_some {n : Nat} {b : Bytes} {a : AlgorithmId} {pkcs5 : Pkcs5Kdf}
    {h : VolumeHeader} (hd : deserialize n b a pkcs5 = .ok (some h)) :
    b.length = n - encryptedHeaderDataOffset ∧ slice b 0 4 = headerMagic ∧
      h.ea.algorithm = a ∧ h.dataAreaKey = slice b dataAreaKeyOffset dataKeyAreaMaxSize ∧
      h.headerSize = n ∧
      (keyslotPayloadSize ≤ b.length → h.effectivePlaintext = slice b 0 keyslotPayloadSize) := by
  unfold deserialize at hd
  split at hd
  · exact absurd hd (by simp)
  rename_i hlen
  split at hd
  · exact absurd hd (by simp)
  rename_i hmagic
  split at hd
  · exact absurd hd (by simp)
  split at hd
  · exact absurd hd (by simp)
  split at hd
  · exact absurd hd (by simp)
  split at hd
  · exact absurd hd (by simp)
  split at hd
  · split at hd
    · exact absurd hd (by simp)
    · rw [← Option.some.inj (Except.ok.inj hd)]
      exact ⟨not_not.mp hlen, not_not.mp hmagic, rfl, rfl, rfl, fun hle => if_pos hle⟩
  · exact absurd hd (by simp)

/-- **A keyslot gives the header back**: rebuilding from the stored bytes of a header that was
    deserialized under an algorithm, under the same algorithm, gives that header. -/
theorem rebuildFromKeyslot_effectivePlaintext {n m : Nat} {b : Bytes} {a : AlgorithmId}
    {pkcs5 : Pkcs5Kdf} {h : VolumeHeader} (hd : deserialize n b a pkcs5 = .ok (some h))
    (hn : keyslotPayloadSize + encryptedHeaderDataOffset ≤ n)
    (hm : keyslotPayloadSize + encryptedHeaderDataOffset ≤ m) (pkcs5' : Pkcs5Kdf) :
    rebuildFromKeyslot m h.effectivePlaintext a pkcs5' = .ok (some (h.rehoused m pkcs5')) := by
  obtain ⟨hb, -, -, -, -, hplain⟩ := deserialize_some hd
  have hfront := hplain (by omega)
  have hlen : h.effectivePlaintext.length = keyslotPayloadSize := by
    rw [hfront]
    exact length_slice (by omega)
  have hpad : slice (h.effectivePlaintext ++
      List.replicate (m - encryptedHeaderDataOffset - keyslotPayloadSize) 0) 0
      keyslotPayloadSize = h.effectivePlaintext := by
    rw [slice_append_left (by omega), slice_all (by omega)]
  rw [rebuildFromKeyslot, if_neg (not_not.mpr hlen),
    deserialize_of_front_eq a pkcs5 pkcs5' hb ?_ hn hm (by rw [hpad, hfront]), hd]
  · rfl
  · rw [List.length_append, hlen, List.length_replicate]
    omega

end VeraCrypt
