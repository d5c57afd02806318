import VeraCrypt.Volume.HeaderCodec
import VeraCrypt.Volume.VolumeLayout

/-!
# What the two checksums of a header cover

A header carries a checksum over its first 188 bytes and one over its key area; the second
stands in the first 188 bytes. The states of a header that the program makes are those of
`Create` and what is read back of them (`ProgramHeader`). Such a header is read back with all
its fields and is rebuilt from its first 448 bytes. A change of a covered byte is noticed,
except for one that makes the header state a version below 4: those versions had no checksum
over the fields, and `Deserialize` asks for none (`headerCodec_roundtrip`).
-/

set_option autoImplicit false

namespace VeraCrypt

open Lib

/-! ## Acceptance -/

/-- What `Deserialize` checks of a decrypted part. -/
structure HeaderAccepted (b : Bytes) : Prop where
  magic : slice b 0 4 = headerMagic
  minVersion : minAllowedHeaderVersion ≤ entry16 b 4
  maxVersion : entry16 b 4 ≤ currentHeaderVersion
  /-- Before version 4 there is no such checksum. -/
  crc : 4 ≤ entry16 b 4 → getCrc32 (slice b 0 headerCrcOffset) = entry32 b headerCrcOffset
  required : entry16 b 6 ≤ versionNumber
  sectorSize : SectorSizeValid (statedSectorSize b)
  keyCrc : entry32 b 8 = getCrc32 (slice b dataAreaKeyOffset dataKeyAreaMaxSize)

/-! ## Fields -/

/-- What a header carries: everything it states but the two times, the checksums aside. -/
structure HeaderFields where
  headerVersion : UInt16
  requiredMinProgramVersion : UInt16
  hiddenVolumeDataSize : UInt64
  volumeDataSize : UInt64
  encryptedAreaStart : UInt64
  encryptedAreaLength : UInt64
  flags : UInt32
  sectorSize : UInt32
  dataAreaKey : Bytes
  deriving DecidableEq

def VolumeHeader.fields (h : VolumeHeader) : HeaderFields where
  headerVersion := h.headerVersion
  requiredMinProgramVersion := h.requiredMinProgramVersion
  hiddenVolumeDataSize := h.hiddenVolumeDataSize
  volumeDataSize := h.volumeDataSize
  encryptedAreaStart := h.encryptedAreaStart
  encryptedAreaLength := h.encryptedAreaLength
  flags := h.flags
  sectorSize := h.sectorSize
  dataAreaKey := h.dataAreaKey

/-- The fields that a decrypted part states. -/
def statedFields (b : Bytes) : HeaderFields where
  headerVersion := entry16 b 4
  requiredMinProgramVersion := entry16 b 6
  hiddenVolumeDataSize := entry64 b 28
  volumeDataSize := entry64 b 36
  encryptedAreaStart := entry64 b 44
  encryptedAreaLength := entry64 b 52
  flags := entry32 b 60
  sectorSize := statedSectorSize b
  dataAreaKey := slice b dataAreaKeyOffset dataKeyAreaMaxSize

/-- An accepted part passes the checks, and the header has the fields that it states. -/
theorem deserialize_accepted {n : Nat} {b : Bytes} {a : AlgorithmId} {pkcs5 : Pkcs5Kdf}
    {h : VolumeHeader} (hd : deserialize n b a pkcs5 = .ok (some h)) :
    HeaderAccepted b ∧ h.fields = statedFields b := by
  unfold deserialize at hd
  split at hd
  · cases hd
  split at hd
  · cases hd
  rename_i hmagic
  split at hd
  · cases hd
  rename_i hmin
  split at hd
  · cases hd
  rename_i hmax
  split at hd
  · cases hd
  rename_i hcrc
  split at hd
  · cases hd
  rename_i hreq
  split at hd
  · rename_i hsector
    split at hd
    · cases hd
    rename_i hkey
    have hcheck : 4 ≤ entry16 b 4 →
        getCrc32 (slice b 0 headerCrcOffset) = entry32 b headerCrcOffset := by
      intro hver
      by_contra hne
      exact hcrc ⟨hver, hne⟩
    refine ⟨⟨not_not.mp hmagic, UInt16.not_lt.mp hmin, UInt16.not_lt.mp hmax, hcheck,
      UInt16.not_lt.mp hreq, hsector, not_not.mp hkey⟩, ?_⟩
    cases hd
    rfl
  · cases hd

theorem deserialize_of_headerAccepted {n : Nat} {b : Bytes} (a : AlgorithmId)
    (pkcs5 : Pkcs5Kdf) (hlen : b.length = n - encryptedHeaderDataOffset)
    (hb : HeaderAccepted b) : ∃ h, deserialize n b a pkcs5 = .ok (some h) := by
  unfold deserialize
  rw [if_neg (not_not.mpr hlen), if_neg (not_not.mpr hb.magic),
    if_neg (UInt16.not_lt.mpr hb.minVersion), if_neg (UInt16.not_lt.mpr hb.maxVersion),
    if_neg (fun hbad => hbad.2 (hb.crc hbad.1)), if_neg (UInt16.not_lt.mpr hb.required),
    dif_pos hb.sectorSize, if_neg (not_not.mpr hb.keyCrc)]
  exact ⟨_, rfl⟩

/-- What `Deserialize` computes of an accepted part besides the fields. -/
theorem deserialize_derived {n : Nat} {b : Bytes} {a : AlgorithmId} {pkcs5 : Pkcs5Kdf}
    {h : VolumeHeader} (hd : deserialize n b a pkcs5 = .ok (some h)) :
    h.volumeType = (if entry64 b 28 ≠ 0 then .hidden else .normal) ∧
      h.ea =
        { algorithm := a
          key := slice b dataAreaKeyOffset a.getKeySize
          secondaryKey := slice b (dataAreaKeyOffset + a.getKeySize) a.getKeySize
          sectorOffset := 0 } ∧
      h.xtsKeyVulnerable =
        decide (slice b (dataAreaKeyOffset + a.getKeySize) a.getKeySize =
          slice b dataAreaKeyOffset a.getKeySize) := by
  obtain ⟨hlen, -⟩ := deserialize_some hd
  obtain ⟨hb, -⟩ := deserialize_accepted hd
  unfold deserialize at hd
  rw [if_neg (not_not.mpr hlen), if_neg (not_not.mpr hb.magic),
    if_neg (UInt16.not_lt.mpr hb.minVersion), if_neg (UInt16.not_lt.mpr hb.maxVersion),
    if_neg (fun hbad => hbad.2 (hb.crc hbad.1)), if_neg (UInt16.not_lt.mpr hb.required),
    dif_pos hb.sectorSize, if_neg (not_not.mpr hb.keyCrc)] at hd
  rw [← Option.some.inj (Except.ok.inj hd)]
  exact ⟨rfl, rfl, rfl⟩

/-- Parts that agree in their first 448 bytes state the same fields. -/
theorem statedFields_of_front_eq {b c : Bytes}
    (h : slice b 0 keyslotPayloadSize = slice c 0 keyslotPayloadSize) :
    statedFields b = statedFields c := by
  have hkey : slice b dataAreaKeyOffset dataKeyAreaMaxSize =
      slice c dataAreaKeyOffset dataKeyAreaMaxSize := slice_of_front_eq h (by decide)
  have h16 : ∀ {o : Nat}, o + 2 ≤ keyslotPayloadSize → entry16 b o = entry16 c o := by
    intro o hin
    rw [entry16, entry16, slice_of_front_eq h hin]
  have h32 : ∀ {o : Nat}, o + 4 ≤ keyslotPayloadSize → entry32 b o = entry32 c o := by
    intro o hin
    rw [entry32, entry32, slice_of_front_eq h hin]
  have h64 : ∀ {o : Nat}, o + 8 ≤ keyslotPayloadSize → entry64 b o = entry64 c o := by
    intro o hin
    rw [entry64, entry64, slice_of_front_eq h hin]
  have hsector : statedSectorSize b = statedSectorSize c := by
    rw [statedSectorSize, statedSectorSize, h16 (by decide), h32 (by decide)]
  rw [statedFields, statedFields, h16 (o := 4) (by decide), h16 (o := 6) (by decide),
    h64 (o := 28) (by decide), h64 (o := 36) (by decide), h64 (o := 44) (by decide),
    h64 (o := 52) (by decide), h32 (o := 60) (by decide), hsector,
    hkey]

/-- Acceptance is decided by the first 448 bytes. -/
theorem HeaderAccepted.of_front_eq {b c : Bytes} (hb : HeaderAccepted b)
    (h : slice b 0 keyslotPayloadSize = slice c 0 keyslotPayloadSize) : HeaderAccepted c := by
  have hsl : ∀ {o k : Nat}, o + k ≤ keyslotPayloadSize → slice b o k = slice c o k :=
    fun hin => slice_of_front_eq h hin
  have h16 : ∀ {o : Nat}, o + 2 ≤ keyslotPayloadSize → entry16 b o = entry16 c o := by
    intro o hin
    rw [entry16, entry16, hsl hin]
  have h32 : ∀ {o : Nat}, o + 4 ≤ keyslotPayloadSize → entry32 b o = entry32 c o := by
    intro o hin
    rw [entry32, entry32, hsl hin]
  have hsector : statedSectorSize b = statedSectorSize c :=
    congrArg HeaderFields.sectorSize (statedFields_of_front_eq h)
  refine ⟨?_, ?_, ?_, ?_, ?_, ?_, ?_⟩
  · rw [← hsl (by decide), hb.magic]
  · rw [← h16 (by decide)]
    exact hb.minVersion
  · rw [← h16 (by decide)]
    exact hb.maxVersion
  · rw [← h16 (by decide), ← hsl (o := 0) (k := headerCrcOffset) (by decide),
      ← h32 (o := headerCrcOffset) (by decide)]
    exact hb.crc
  · rw [← h16 (o := 6) (by decide)]
    exact hb.required
  · rw [← hsector]
    exact hb.sectorSize
  · rw [← h32 (o := 8) (by decide),
      ← hsl (o := dataAreaKeyOffset) (k := dataKeyAreaMaxSize) (by decide)]
    exact hb.keyCrc

/-- A part that carries a header of the current version states its fields. -/
theorem statedFields_of_carries {h : VolumeHeader} {b : Bytes} (hb : CarriesHeader h b)
    (hver : h.headerVersion = currentHeaderVersion) : statedFields b = h.fields := by
  have hsector : statedSectorSize b = h.sectorSize := by
    rw [statedSectorSize, hb.version, if_neg (by decide), hb.sectorSize]
  rw [statedFields, VolumeHeader.fields, hver, hb.version, hb.required,
    hb.hiddenVolumeDataSize, hb.volumeDataSize, hb.encryptedAreaStart, hb.encryptedAreaLength,
    hb.flags, hb.key, hsector]

/-! ## The headers of the program -/

theorem getHeaderSize_large (l : VolumeLayout) :
    keyslotPayloadSize + encryptedHeaderDataOffset ≤ l.getHeaderSize := by
  cases l <;> decide

/-- A header as the program makes it: by `Create`, or read back from a part that begins like
    one it has written. -/
inductive ProgramHeader : VolumeHeader → Prop
  | create (l : VolumeLayout) (options : VolumeHeaderCreationOptions)
      (hkey : options.dataKey.length = options.ea.algorithm.getKeySize * 2)
      (hs : SectorSizeValid options.sectorSize) :
      ProgramHeader (newHeader l.getHeaderSize options hs)
  | read {h h' : VolumeHeader} {l m : VolumeLayout} {b : Bytes} {a : AlgorithmId}
      {pkcs5 : Pkcs5Kdf} (hh : ProgramHeader h)
      (hfront : slice b 0 keyslotPayloadSize =
        slice (serialize h (m.getHeaderSize - encryptedHeaderDataOffset)) 0 keyslotPayloadSize)
      (hd : deserialize l.getHeaderSize b a pkcs5 = .ok (some h')) : ProgramHeader h'

theorem programHeader_of_createHeader {C : Ciphers} {l : VolumeLayout}
    {options : VolumeHeaderCreationOptions} {h : VolumeHeader} {headerBuffer : Bytes}
    (hc : createHeader C l.getHeaderSize options = .ok (h, headerBuffer)) :
    ProgramHeader h := by
  unfold createHeader at hc
  split at hc
  · exact absurd hc (by simp)
  rename_i hsizes
  rw [not_or, not_not, not_not] at hsizes
  split at hc
  · rename_i hs
    split at hc
    · exact absurd hc (by simp)
    · rw [← (Prod.mk.inj (Except.ok.inj hc)).1]
      exact ProgramHeader.create l options hsizes.1 hs
  · exact absurd hc (by simp)

/-- What all headers of the program have in common. -/
structure HeaderWritable (h : VolumeHeader) : Prop where
  version : h.headerVersion = currentHeaderVersion
  required : h.requiredMinProgramVersion ≤ versionNumber
  key : h.dataAreaKey.length = dataKeyAreaMaxSize

theorem ProgramHeader.writable {h : VolumeHeader} (hh : ProgramHeader h) : HeaderWritable h := by
  induction hh with
  | create l options hkey hs =>
    have hrequired : currentRequiredMinProgramVersion ≤ versionNumber := by decide
    refine ⟨rfl, hrequired, ?_⟩
    have hle := getKeySize_le options.ea.algorithm
    show (options.dataKey ++ List.replicate _ 0).length = _
    rw [List.length_append, List.length_replicate]
    omega
  | @read h h' l m b a pkcs5 hh hfront hd ih =>
    obtain ⟨hlen, -, -, hkey, -, -⟩ := deserialize_some hd
    have hlarge := getHeaderSize_large l
    have hfields : h'.fields = h.fields := by
      rw [(deserialize_accepted hd).2, statedFields_of_front_eq hfront,
        statedFields_of_carries (carries_serialize _ ih.key) ih.version]
    refine ⟨?_, ?_, ?_⟩
    · rw [← ih.version]
      exact congrArg HeaderFields.headerVersion hfields
    · rw [show h'.requiredMinProgramVersion = h.requiredMinProgramVersion from
        congrArg HeaderFields.requiredMinProgramVersion hfields]
      exact ih.required
    · rw [show h'.dataAreaKey = h.dataAreaKey from congrArg HeaderFields.dataAreaKey hfields]
      exact ih.key

/-! ## Changes -/

/-- Two byte strings of one length with the same CRC-32. -/
def Crc32Collision (x y : Bytes) : Prop := x ≠ y ∧ x.length = y.length ∧ getCrc32 x = getCrc32 y

/-- The places that a checksum covers. -/
def CrcCovered (i : Nat) : Prop :=
  i < headerCrcOffset ∨ dataAreaKeyOffset ≤ i ∧ i < dataAreaKeyOffset + dataKeyAreaMaxSize

instance (i : Nat) : Decidable (CrcCovered i) := by
  unfold CrcCovered
  infer_instance

/-- A change at a covered place is a change of one of the two parts. -/
theorem slice_ne_of_crcCovered {b p : Bytes} {i : Nat} (hi : CrcCovered i)
    (hne : p[i]? ≠ b[i]?) :
    slice p 0 headerCrcOffset ≠ slice b 0 headerCrcOffset ∨
      slice p dataAreaKeyOffset dataKeyAreaMaxSize ≠
        slice b dataAreaKeyOffset dataKeyAreaMaxSize := by
  rcases hi with hi | ⟨hlo, hhi⟩
  · refine Or.inl (fun heq => hne ?_)
    have h := congrArg (·[i]?) heq
    simp only [getElem?_slice, if_pos hi, Nat.zero_add] at h
    exact h
  · refine Or.inr (fun heq => hne ?_)
    have h := congrArg (·[i - dataAreaKeyOffset]?) heq
    have hin : i - dataAreaKeyOffset < dataKeyAreaMaxSize := by omega
    simp only [getElem?_slice, if_pos hin, Nat.add_sub_cancel' hlo] at h
    exact h

/-- Two accepted parts with the same stored header checksum: where they differ in a covered
    place, a checksum collides, or the second states a version without a header checksum. -/
theorem crc32Collision_of_accepted {n : Nat} {b p : Bytes}
    (hn : keyslotPayloadSize ≤ n) (hb : HeaderAccepted b) (hc : HeaderAccepted p)
    (hblen : b.length = n) (hclen : p.length = n) (hbver : 4 ≤ entry16 b 4)
    (hcver : 4 ≤ entry16 p 4)
    (hcrc : slice p headerCrcOffset 4 = slice b headerCrcOffset 4)
    (hne : ∃ i, CrcCovered i ∧ p[i]? ≠ b[i]?) :
    Crc32Collision (slice p 0 headerCrcOffset) (slice b 0 headerCrcOffset) ∨
      Crc32Collision (slice p dataAreaKeyOffset dataKeyAreaMaxSize)
        (slice b dataAreaKeyOffset dataKeyAreaMaxSize) := by
  have hpay : dataAreaKeyOffset + dataKeyAreaMaxSize ≤ n := hn
  have hoff : 0 + headerCrcOffset ≤ n := Nat.le_trans (by decide) hn
  have hlength : ∀ {o k : Nat}, o + k ≤ n → (slice p o k).length = (slice b o k).length := by
    intro o k hin
    rw [length_slice (by omega), length_slice (by omega)]
  by_cases hfront : slice p 0 headerCrcOffset = slice b 0 headerCrcOffset
  · -- the fields are the same, and the checksum of the key area is one of them
    obtain ⟨i, hi, hdiff⟩ := hne
    have hkey := (slice_ne_of_crcCovered hi hdiff).resolve_left (fun h => h hfront)
    refine Or.inr ⟨hkey, hlength hpay, ?_⟩
    have hstored : slice p 8 4 = slice b 8 4 := by
      have h := congrArg (slice · 8 4) hfront
      simp only [slice_slice (show 8 + 4 ≤ headerCrcOffset by decide), Nat.zero_add] at h
      exact h
    rw [← hc.keyCrc, ← hb.keyCrc, entry32, entry32, hstored]
  · refine Or.inl ⟨hfront, hlength hoff, ?_⟩
    rw [hc.crc hcver, hb.crc hbver, entry32, entry32, hcrc]

/-- A change of the key area alone is noticed in every version. -/
theorem crc32Collision_key_of_accepted {n : Nat} {b p : Bytes}
    (hn : keyslotPayloadSize ≤ n) (hb : HeaderAccepted b) (hc : HeaderAccepted p)
    (hblen : b.length = n) (hclen : p.length = n) (hcrc : slice p 8 4 = slice b 8 4)
    (hne : slice p dataAreaKeyOffset dataKeyAreaMaxSize ≠
      slice b dataAreaKeyOffset dataKeyAreaMaxSize) :
    Crc32Collision (slice p dataAreaKeyOffset dataKeyAreaMaxSize)
      (slice b dataAreaKeyOffset dataKeyAreaMaxSize) := by
  have hpay : dataAreaKeyOffset + dataKeyAreaMaxSize ≤ n := hn
  refine ⟨hne, by rw [length_slice (by omega), length_slice (by omega)], ?_⟩
  rw [← hc.keyCrc, ← hb.keyCrc, entry32, entry32, hcrc]

/-! ## The codec -/

/-- What `EncryptNew` serializes of a header, before it encrypts it. -/
abbrev writtenPart (h : VolumeHeader) (l : VolumeLayout) : Bytes :=
  serialize h (l.getHeaderSize - encryptedHeaderDataOffset)

/-- **A header is read back as it was written**, with all its fields, and is rebuilt from its
    first 448 bytes. A change of covered bytes makes a checksum collide, in a header that still
    states version 4 or later; a change of the key area does so in every version. -/
theorem headerCodec_roundtrip {h : VolumeHeader} (hh : ProgramHeader h) (l : VolumeLayout)
    (a : AlgorithmId) (pkcs5 : Pkcs5Kdf) :
    ∃ h', deserialize l.getHeaderSize (writtenPart h l) a pkcs5 = .ok (some h') ∧
      h'.fields = h.fields ∧ h'.volumeCreationTime = 0 ∧ h'.headerCreationTime = 0 ∧
      h'.ea.key = slice h.dataAreaKey 0 a.getKeySize ∧
      h'.ea.secondaryKey = slice h.dataAreaKey a.getKeySize a.getKeySize ∧
      (∀ (m : VolumeLayout) (pkcs5' : Pkcs5Kdf),
        rebuildFromKeyslot m.getHeaderSize (slice (writtenPart h l) 0 keyslotPayloadSize) a
          pkcs5' = .ok (some (h'.rehoused m.getHeaderSize pkcs5'))) ∧
      ∀ (p : Bytes) (a' : AlgorithmId) (pkcs5' : Pkcs5Kdf) (h'' : VolumeHeader),
        deserialize l.getHeaderSize p a' pkcs5' = .ok (some h'') →
        (4 ≤ entry16 p 4 →
          slice p headerCrcOffset 4 = slice (writtenPart h l) headerCrcOffset 4 →
          (∃ i, CrcCovered i ∧ p[i]? ≠ (writtenPart h l)[i]?) →
          Crc32Collision (slice p 0 headerCrcOffset) (slice (writtenPart h l) 0 headerCrcOffset) ∨
            Crc32Collision (slice p dataAreaKeyOffset dataKeyAreaMaxSize)
              (slice (writtenPart h l) dataAreaKeyOffset dataKeyAreaMaxSize)) ∧
        (slice p 8 4 = slice (writtenPart h l) 8 4 →
          slice p dataAreaKeyOffset dataKeyAreaMaxSize ≠
            slice (writtenPart h l) dataAreaKeyOffset dataKeyAreaMaxSize →
          Crc32Collision (slice p dataAreaKeyOffset dataKeyAreaMaxSize)
            (slice (writtenPart h l) dataAreaKeyOffset dataKeyAreaMaxSize)) := by
  have hw := hh.writable
  have hlarge := getHeaderSize_large l
  have hn : keyslotPayloadSize ≤ l.getHeaderSize - encryptedHeaderDataOffset := by omega
  have hround := deserialize_serialize a pkcs5 hw.key hw.required hlarge
  have hcarries := carries_serialize (l.getHeaderSize - encryptedHeaderDataOffset) hw.key
  have haccepted := (deserialize_accepted hround).1
  have hfields := (deserialize_accepted hround).2.trans (statedFields_of_carries hcarries hw.version)
  have hlength := length_serialize h (l.getHeaderSize - encryptedHeaderDataOffset) hw.key hn
  refine ⟨_, hround, hfields, rfl, rfl, rfl, rfl, ?_, ?_⟩
  · intro m pkcs5'
    exact rebuildFromKeyslot_effectivePlaintext hround hlarge (getHeaderSize_large m) pkcs5'
  intro p a' pkcs5' h'' hd
  have hclen := (deserialize_some hd).1
  have hcaccepted := (deserialize_accepted hd).1
  constructor
  · intro hver hcrc hne
    refine crc32Collision_of_accepted hn haccepted hcaccepted hlength hclen ?_ hver hcrc hne
    rw [hcarries.version]
    decide
  · intro hcrc hne
    exact crc32Collision_key_of_accepted hn haccepted hcaccepted hlength hclen hcrc hne

namespace HeaderChecksumsDemo

/-- A volume of 1 MiB under AES. -/
def options : VolumeHeaderCreationOptions where
  ea := { algorithm := .aes, key := [], secondaryKey := [], sectorOffset := 0 }
  kdf := .hmacSha512
  type := .normal
  sectorSize := 512
  volumeDataStart := 131072
  volumeDataSize := 786432
  dataKey := List.replicate 32 1 ++ List.replicate 32 2
  salt := []
  headerKey := []

def header : VolumeHeader :=
  newHeader (VolumeLayout.getHeaderSize .v2Normal) options (by decide)

theorem programHeader_header : ProgramHeader header :=
  ProgramHeader.create .v2Normal options (by decide) (by decide)

theorem headerCodec_roundtrip_demo :
    ∃ h', deserialize 65536 (serialize header 65472) .aes .hmacSha512 = .ok (some h') ∧
      h'.fields = header.fields := by
  obtain ⟨h', hd, hfields, -⟩ :=
    headerCodec_roundtrip programHeader_header .v2Normal .aes .hmacSha512
  exact ⟨h', hd, hfields⟩

/-- The written header, its bytes behind the first 448 aside. -/
def front : Bytes := serialize header keyslotPayloadSize

/-- The same with version 3 in place of version 5. -/
def changed : Bytes := patch front 5 [3]

theorem serialize_header : serialize header 65472 = front ++ List.replicate 65024 0 := by
  rw [front, serialize, serialize, List.append_assoc, List.append_assoc, List.append_assoc,
    List.replicate_append_replicate]
  rfl

theorem changed_facts :
    changed.length = keyslotPayloadSize ∧ slice changed 0 4 = headerMagic ∧
    entry16 changed 4 = 3 ∧ entry16 changed 6 ≤ versionNumber ∧
    entry32 changed 8 = getCrc32 (slice changed dataAreaKeyOffset dataKeyAreaMaxSize) ∧
    front.length = keyslotPayloadSize ∧ changed[5]? ≠ front[5]? ∧
    getCrc32 (slice changed 0 headerCrcOffset) ≠ getCrc32 (slice front 0 headerCrcOffset) ∧
    slice changed dataAreaKeyOffset dataKeyAreaMaxSize =
      slice front dataAreaKeyOffset dataKeyAreaMaxSize := by
  decide +kernel

/-- **Version 3 has no header checksum**: the changed header is accepted, and no checksum
    collides. -/
theorem version_three_unchecked :
    ∃ p : Bytes, CrcCovered 5 ∧ p[5]? ≠ (serialize header 65472)[5]? ∧
      (∃ h', deserialize 65536 p .aes .hmacSha512 = .ok (some h')) ∧
      ¬ Crc32Collision (slice p 0 headerCrcOffset)
          (slice (serialize header 65472) 0 headerCrcOffset) ∧
      ¬ Crc32Collision (slice p dataAreaKeyOffset dataKeyAreaMaxSize)
          (slice (serialize header 65472) dataAreaKeyOffset dataKeyAreaMaxSize) := by
  obtain ⟨hlen, hmagic, hver, hreq, hkey, hfront, hbyte, hcrc, hkeyArea⟩ := changed_facts
  have hhead : ∀ {b : Bytes}, b.length = keyslotPayloadSize → ∀ {o k : Nat},
      o + k ≤ keyslotPayloadSize → slice (b ++ List.replicate 65024 0) o k = slice b o k := by
    intro b hb o k hin
    exact slice_append_left (by omega)
  have hsector : statedSectorSize changed = 512 := by
    rw [statedSectorSize, hver]
    rfl
  have haccepted : HeaderAccepted changed :=
    ⟨hmagic, by rw [hver]; decide, by rw [hver]; decide,
      fun h => absurd (hver ▸ h) (by decide), hreq, by rw [hsector]; decide, hkey⟩
  obtain ⟨h', hd⟩ := deserialize_of_headerAccepted (n := 512) .aes .hmacSha512 hlen haccepted
  have hd' := deserialize_of_front_eq (n := 512) (m := 65536)
    (c := changed ++ List.replicate 65024 0) .aes .hmacSha512 .hmacSha512 hlen
    (by rw [List.length_append, hlen, List.length_replicate]; rfl) (by decide) (by decide)
    (hhead hlen (o := 0) (by decide)).symm
  rw [hd] at hd'
  refine ⟨changed ++ List.replicate 65024 0, by decide, ?_, ⟨_, hd'⟩, ?_, ?_⟩
  · rw [serialize_header, List.getElem?_append_left (by rw [hlen]; decide),
      List.getElem?_append_left (by rw [hfront]; decide)]
    exact hbyte
  · rw [serialize_header, hhead hlen (by decide), hhead hfront (by decide)]
    intro hcol
    exact hcrc hcol.2.2
  · rw [serialize_header, hhead hlen (by decide), hhead hfront (by decide)]
    intro hcol
    exact hcol.1 hkeyArea

end HeaderChecksumsDemo

end VeraCrypt
