import VeraCrypt.Volume.V2Session

/-!
# The plaintext of an open volume

A volume shows one text, a sector after the other. `ReadSectors` gives ranges of whole sectors of
it, each of them the same as if it were read alone (`Readable.readSectors_eq`): decrypted, or left
as it is on a system partition that is in the clear there.
-/

set_option autoImplicit false

namespace VeraCrypt

open Lib EncryptionThreadPool

/-! ## A part of a buffer -/

/-- Units decrypted in a buffer are what they are decrypted to alone. -/
theorem modeBuffer_slice (C : Ciphers) (ea : EncryptionAlgorithm) (type : WorkType) {data : Bytes}
    (hwhole : data.length % 512 = 0) (off len : Nat) (hoff : off % 512 = 0) (hlen : len % 512 = 0)
    (hin : off + len ≤ data.length) (n : UInt64) :
    ∃ out, modeBuffer C ea type data n = some out ∧ out.length = data.length ∧
      modeBuffer C ea type (slice data off len) (n + UInt64.ofNat (off / 512)) =
        some (slice out off len) := by
  have h512 : encryptionDataUnitSize.toNat = 512 := rfl
  have h16 : bytesPerXtsBlock = 16 := rfl
  have hfront : (data.take off).length = off := by
    rw [List.length_take]
    omega
  have hpart : ((data.drop off).take len).length = len := by
    rw [List.length_take, List.length_drop]
    omega
  have hback : ((data.drop off).drop len).length = data.length - off - len := by
    rw [List.length_drop, List.length_drop]
  have hrest : (data.drop off).length = data.length - off := List.length_drop
  obtain ⟨outA, outR, hA, hR, hAR⟩ := modeBuffer_append C ea type (a := data.take off)
    (b := data.drop off) (by rw [hfront, h512]; omega) (by rw [hrest, h16]; omega) n
  obtain ⟨outB, outC, hB, -, hBC⟩ := modeBuffer_append C ea type (a := (data.drop off).take len)
    (b := (data.drop off).drop len) (by rw [hpart, h512]; omega) (by rw [hback, h16]; omega)
    (n + UInt64.ofNat ((data.take off).length / encryptionDataUnitSize.toNat))
  rw [List.take_append_drop, hR] at hBC
  rw [List.take_append_drop] at hAR
  obtain rfl := Option.some.inj hBC
  have hlenA := length_modeBuffer hA
  have hlenB := length_modeBuffer hB
  refine ⟨_, hAR, length_modeBuffer hAR, ?_⟩
  rw [slice_of_eq_append rfl (hlenA.trans hfront).symm (hlenB.trans hpart).symm]
  rw [hfront, h512] at hB
  exact hB

namespace Volume

/-! ## The text -/

/-- The sectors that the data takes, the last of them in whole. -/
def wholeSectors (v : Volume) : Nat :=
  (v.volumeDataSize.toNat + v.sectorSize.toNat - 1) / v.sectorSize.toNat

/-- A read leaves sector `i` as it is: it is an NTFS boot sector in the clear, or it does not lie in
    the encrypted part of a partition that is being encrypted. -/
def clearAt (v : Volume) (host : Bytes) (i : Nat) : Bool :=
  (i = 0 && v.skipsFirstSector v.volumeDataOffset (v.sectorAt host 0)) ||
    (v.encryptionNotCompleted && decide (v.encryptedDataSize.toNat <
      v.volumeDataOffset.toNat + i * v.sectorSize.toNat + v.sectorSize.toNat))

/-- What sector `i` shows. -/
def plainSector (C : Ciphers) (v : Volume) (host : Bytes) (i : Nat) : Bytes :=
  if v.clearAt host i then v.sectorAt host i else v.plainAt C host i

/-- Behind the data the last sector goes on. -/
def wholeText (C : Ciphers) (v : Volume) (host : Bytes) : Bytes :=
  ((List.range v.wholeSectors).map (v.plainSector C host)).flatten

/-- The text that the volume shows. -/
def plaintext (C : Ciphers) (v : Volume) (host : Bytes) : Bytes :=
  (v.wholeText C host).take v.volumeDataSize.toNat

/-- An open volume whose sectors can all be read: they lie in the host, and on a version 2 volume
    their tags are valid. -/
structure Readable (P : Primitives) (v : Volume) (host : Bytes) : Prop where
  sectorSize_min : 512 ≤ v.sectorSize.toNat
  sectorSize_max : v.sectorSize.toNat ≤ 4096
  sectorSize_units : v.sectorSize.toNat % 512 = 0
  held : v.volumeDataOffset.toNat + v.wholeSectors * v.sectorSize.toNat ≤ host.length
  addressable : host.length ≤ offsetMax
  authentic : v.v2Mac.isActive = true →
    V2Geometry v host.length ∧ ∀ i < v.v2Mac.dataSectors.toNat, TagValid P v host i

section
variable {C : Ciphers} {P : Primitives} {v : Volume} {host : Bytes} {i : Nat}

theorem Readable.sectorSize_pos (h : Readable P v host) : 0 < v.sectorSize.toNat :=
  Nat.lt_of_lt_of_le (by decide) h.sectorSize_min

theorem Readable.sector_le (h : Readable P v host) (hi : i < v.wholeSectors) :
    v.volumeDataOffset.toNat + i * v.sectorSize.toNat + v.sectorSize.toNat ≤ host.length := by
  have hsector := Nat.mul_le_mul_right v.sectorSize.toNat (Nat.succ_le_of_lt hi)
  rw [Nat.succ_mul] at hsector
  have hheld := h.held
  omega

theorem Readable.length_sectorAt (h : Readable P v host) (hi : i < v.wholeSectors) :
    (v.sectorAt host i).length = v.sectorSize.toNat :=
  length_slice (h.sector_le hi)

theorem Readable.length_plainSector (h : Readable P v host) (hi : i < v.wholeSectors) :
    (v.plainSector C host i).length = v.sectorSize.toNat := by
  have hunits := h.sectorSize_units
  have hlen := h.length_sectorAt hi
  unfold plainSector
  split
  · exact hlen
  · have hblocks : (v.sectorAt host i).length % bytesPerXtsBlock = 0 := by
      rw [hlen, bytesPerXtsBlock]
      omega
    obtain ⟨out, hout⟩ := modeBuffer_isSome C v.ea .decryptDataUnits hblocks (v.sectorUnit i)
    have hsome : v.ea.decryptBuffer C (v.sectorAt host i) (v.sectorUnit i) = some out := hout
    rw [plainAt, hsome, Option.getD_some, length_modeBuffer hout, hlen]

theorem Readable.length_wholeText (h : Readable P v host) :
    (v.wholeText C host).length = v.wholeSectors * v.sectorSize.toNat := by
  rw [wholeText, length_flatten_const (n := v.sectorSize.toNat), List.length_map,
    List.length_range]
  intro part hpart
  obtain ⟨i, hi, rfl⟩ := List.mem_map.mp hpart
  exact h.length_plainSector (List.mem_range.mp hi)

theorem Readable.slice_wholeText (h : Readable P v host) (hi : i < v.wholeSectors) :
    slice (v.wholeText C host) (i * v.sectorSize.toNat) v.sectorSize.toNat =
      v.plainSector C host i := by
  have hparts : ∀ part ∈ (List.range v.wholeSectors).map (v.plainSector C host),
      part.length = v.sectorSize.toNat := by
    intro part hpart
    obtain ⟨i, hi, rfl⟩ := List.mem_map.mp hpart
    exact h.length_plainSector (List.mem_range.mp hi)
  have hflat := slice_flatten hparts [] (i := i) (by simpa using hi)
  rw [List.append_nil] at hflat
  rw [wholeText, hflat, List.getElem_map, List.getElem_range]

/-- The data ends in the last of its sectors. -/
theorem Readable.dataSize_le (h : Readable P v host) :
    v.volumeDataSize.toNat ≤ v.wholeSectors * v.sectorSize.toNat ∧
      v.wholeSectors * v.sectorSize.toNat < v.volumeDataSize.toNat + v.sectorSize.toNat := by
  have hpos := h.sectorSize_pos
  have hmod := Nat.mod_lt (v.volumeDataSize.toNat + v.sectorSize.toNat - 1) hpos
  have hdiv := Nat.div_add_mod' (v.volumeDataSize.toNat + v.sectorSize.toNat - 1)
    v.sectorSize.toNat
  rw [wholeSectors]
  omega

/-! ## The decryption of a range -/

/-- The unit that a sector starts with, counted on from the start of the read. -/
theorem unit_add (h : Readable P v host) {start hostOffset : UInt64} {first k : Nat}
    (hhost : hostOffset.toNat = v.volumeDataOffset.toNat + first * v.sectorSize.toNat)
    (hk : first + k < v.wholeSectors)
    (hstart : start = hostOffset / v.sectorSize * v.sectorSize / encryptionDataUnitSize) :
    start + UInt64.ofNat (k * v.sectorSize.toNat / 512) = v.sectorUnit (first + k) := by
  have hpos := h.sectorSize_pos
  have hunits := h.sectorSize_units
  have hle := h.sector_le hk
  have hmax := h.addressable
  have h512 : encryptionDataUnitSize.toNat = 512 := rfl
  obtain ⟨w, hw⟩ := Nat.dvd_of_mod_eq_zero hunits
  have hbase := Nat.div_mul_le_self v.volumeDataOffset.toNat v.sectorSize.toNat
  have hsum : (first + k) * v.sectorSize.toNat =
      first * v.sectorSize.toNat + k * v.sectorSize.toNat := Nat.add_mul _ _ _
  have hindex : first + k ≤ (first + k) * v.sectorSize.toNat := Nat.le_mul_of_pos_right _ hpos
  have hdivle := Nat.div_le_self v.volumeDataOffset.toNat v.sectorSize.toNat
  simp only [offsetMax] at hmax
  -- both count the sectors from the start of the host, in units
  have hleft : (hostOffset / v.sectorSize * v.sectorSize).toNat =
      v.volumeDataOffset.toNat / v.sectorSize.toNat * v.sectorSize.toNat +
        first * v.sectorSize.toNat := by
    rw [UInt64.toNat_mul, UInt64.toNat_div, hhost, Nat.add_mul_div_right _ _ hpos, Nat.add_mul]
    exact Nat.mod_eq_of_lt (by omega)
  have hsector : (v.volumeDataOffset / v.sectorSize + UInt64.ofNat (first + k)).toNat =
      v.volumeDataOffset.toNat / v.sectorSize.toNat + (first + k) := by
    rw [UInt64.toNat_add, UInt64.toNat_div, UInt64.toNat_ofNat',
      Nat.mod_eq_of_lt (show first + k < 2 ^ 64 by omega)]
    exact Nat.mod_eq_of_lt (by omega)
  have hright : ((v.volumeDataOffset / v.sectorSize + UInt64.ofNat (first + k)) *
      v.sectorSize).toNat = v.volumeDataOffset.toNat / v.sectorSize.toNat * v.sectorSize.toNat +
        first * v.sectorSize.toNat + k * v.sectorSize.toNat := by
    rw [UInt64.toNat_mul, hsector, Nat.add_mul, hsum, ← Nat.add_assoc]
    exact Nat.mod_eq_of_lt (by omega)
  have hsplit : (v.volumeDataOffset.toNat / v.sectorSize.toNat * v.sectorSize.toNat +
      first * v.sectorSize.toNat + k * v.sectorSize.toNat) / 512 =
        (v.volumeDataOffset.toNat / v.sectorSize.toNat * v.sectorSize.toNat +
          first * v.sectorSize.toNat) / 512 + k * v.sectorSize.toNat / 512 := by
    rw [hw, Nat.mul_left_comm k, Nat.mul_div_cancel_left _ (by decide : 0 < 512),
      Nat.add_mul_div_left _ _ (by decide : 0 < 512)]
  have hkle := Nat.div_le_self (k * v.sectorSize.toNat) 512
  apply UInt64.toNat_inj.mp
  rw [sectorUnit, hstart, UInt64.toNat_add, UInt64.toNat_div, UInt64.toNat_div, hleft, hright,
    h512, hsplit, UInt64.toNat_ofNat',
    Nat.mod_eq_of_lt (show k * v.sectorSize.toNat / 512 < 2 ^ 64 by omega)]
  exact Nat.mod_eq_of_lt (by omega)

/-- The decryption of `m` sectors of a buffer that starts at sector `first`: each of them is
    decrypted as it would be alone, and what follows them is left. -/
theorem decryptSectors_spec (C : Ciphers) (h : Readable P v host) {data : Bytes}
    {hostOffset : UInt64} {first m : Nat} (count : UInt64)
    (hhost : hostOffset.toNat = v.volumeDataOffset.toNat + first * v.sectorSize.toNat)
    (hcount : count.toNat = m) (hm : first + m ≤ v.wholeSectors)
    (hlen : m * v.sectorSize.toNat ≤ data.length) :
    ∃ out, v.ea.decryptSectors C data (hostOffset / v.sectorSize) count v.sectorSize =
        some (out ++ data.drop (m * v.sectorSize.toNat)) ∧
      out.length = m * v.sectorSize.toNat ∧
      ∀ k < m, v.ea.decryptBuffer C (slice data (k * v.sectorSize.toNat) v.sectorSize.toNat)
          (v.sectorUnit (first + k)) =
        some (slice out (k * v.sectorSize.toNat) v.sectorSize.toNat) := by
  have hunits := h.sectorSize_units
  have hheld := h.held
  have hmax := h.addressable
  have hle : m * v.sectorSize.toNat ≤ v.wholeSectors * v.sectorSize.toNat :=
    Nat.mul_le_mul_right _ (by omega)
  simp only [offsetMax] at hmax
  have hbytes : (count * v.sectorSize).toNat = m * v.sectorSize.toNat := by
    rw [UInt64.toNat_mul, hcount]
    exact Nat.mod_eq_of_lt (by omega)
  have hmul : ∀ j, j * v.sectorSize.toNat % 512 = 0 := by
    intro j
    rw [Nat.mul_mod, hunits, Nat.mul_zero, Nat.zero_mod]
  have htake : (data.take (m * v.sectorSize.toNat)).length = m * v.sectorSize.toNat := by
    rw [List.length_take]
    omega
  have htakeWhole : (data.take (m * v.sectorSize.toNat)).length % 512 = 0 := by
    rw [htake]
    exact hmul m
  obtain ⟨out, hout, houtLen, -⟩ := modeBuffer_slice C v.ea .decryptDataUnits
    htakeWhole 0 0 rfl rfl (Nat.zero_le _)
    (hostOffset / v.sectorSize * v.sectorSize / encryptionDataUnitSize)
  refine ⟨out, ?_, by rw [houtLen, htake], ?_⟩
  · rw [EncryptionAlgorithm.decryptSectors, hbytes]
    exact congrArg (Option.map _) hout
  · intro k hk
    have hnext := Nat.mul_le_mul_right v.sectorSize.toNat (Nat.succ_le_of_lt hk)
    rw [Nat.succ_mul] at hnext
    obtain ⟨out', hout', -, hpart⟩ := modeBuffer_slice C v.ea .decryptDataUnits
      htakeWhole (k * v.sectorSize.toNat) v.sectorSize.toNat (hmul k) hunits
      (by rw [htake]; exact hnext)
      (hostOffset / v.sectorSize * v.sectorSize / encryptionDataUnitSize)
    obtain rfl := Option.some.inj (hout.symm.trans hout')
    have hzero : slice (data.take (m * v.sectorSize.toNat)) (k * v.sectorSize.toNat)
        v.sectorSize.toNat = slice data (k * v.sectorSize.toNat) v.sectorSize.toNat := by
      have hinner : slice (slice data 0 (m * v.sectorSize.toNat)) (k * v.sectorSize.toNat)
          v.sectorSize.toNat = slice data (0 + k * v.sectorSize.toNat) v.sectorSize.toNat :=
        slice_slice hnext
      rwa [Nat.zero_add] at hinner
    rw [hzero, unit_add h hhost (by omega) rfl] at hpart
    exact hpart

/-- The ciphertext of a range of sectors. -/
def cipherRange (v : Volume) (host : Bytes) (first count : Nat) : Bytes :=
  slice host (v.volumeDataOffset.toNat + first * v.sectorSize.toNat) (count * v.sectorSize.toNat)

theorem Readable.length_cipherRange (h : Readable P v host) {first count : Nat}
    (hin : first + count ≤ v.wholeSectors) :
    (v.cipherRange host first count).length = count * v.sectorSize.toNat := by
  have hle := Nat.mul_le_mul_right v.sectorSize.toNat hin
  have hheld := h.held
  rw [Nat.add_mul] at hle
  exact length_slice (by omega)

theorem slice_cipherRange {first count j : Nat} (hj : j < count) :
    slice (v.cipherRange host first count) (j * v.sectorSize.toNat) v.sectorSize.toNat =
      v.sectorAt host (first + j) := by
  have hle := Nat.mul_le_mul_right v.sectorSize.toNat (Nat.succ_le_of_lt hj)
  rw [Nat.succ_mul] at hle
  rw [cipherRange, slice_slice hle, sectorAt, Nat.add_mul, Nat.add_assoc]

/-- A buffer is a range of the text if its sectors are. -/
theorem Readable.eq_slice_wholeText (h : Readable P v host) {first count : Nat}
    (hin : first + count ≤ v.wholeSectors) {out : Bytes}
    (hlen : out.length = count * v.sectorSize.toNat)
    (hsectors : ∀ j < count, slice out (j * v.sectorSize.toNat) v.sectorSize.toNat =
      v.plainSector C host (first + j)) :
    out = slice (v.wholeText C host) (first * v.sectorSize.toNat)
      (count * v.sectorSize.toNat) := by
  have hpos := h.sectorSize_pos
  have hle := Nat.mul_le_mul_right v.sectorSize.toNat hin
  rw [Nat.add_mul] at hle
  refine eq_of_slices_eq hpos ?_ ?_ ?_
  · rw [hlen, length_slice]
    rw [h.length_wholeText]
    exact hle
  · rw [hlen, Nat.mul_mod_left]
  · intro j hj
    rw [hlen, Nat.mul_div_cancel _ hpos] at hj
    have hnext := Nat.mul_le_mul_right v.sectorSize.toNat (Nat.succ_le_of_lt hj)
    rw [Nat.succ_mul] at hnext
    rw [hsectors j hj, slice_slice hnext, ← Nat.add_mul, h.slice_wholeText (by omega)]

/-- `m` sectors behind the first `s` of a range are decrypted in place. -/
theorem decrypt_in_place (C : Ciphers) (h : Readable P v host) {first count s m : Nat}
    {hostOffset n : UInt64} (hin : first + count ≤ v.wholeSectors) (hsm : s + m ≤ count)
    (hhost : hostOffset.toNat =
      v.volumeDataOffset.toNat + (first + s) * v.sectorSize.toNat)
    (hn : n.toNat / v.sectorSize.toNat = m)
    (hnin : s * v.sectorSize.toNat + n.toNat ≤ count * v.sectorSize.toNat) :
    ∃ out, (v.ea.decryptSectors C
        (slice (v.cipherRange host first count) (s * v.sectorSize.toNat) n.toNat)
        (hostOffset / v.sectorSize) (n / v.sectorSize) v.sectorSize).map
          (patch (v.cipherRange host first count) (s * v.sectorSize.toNat)) = some out ∧
      out.length = count * v.sectorSize.toNat ∧
      ∀ j < count, slice out (j * v.sectorSize.toNat) v.sectorSize.toNat =
        if s ≤ j ∧ j < s + m then v.plainAt C host (first + j)
        else v.sectorAt host (first + j) := by
  have hrange := h.length_cipherRange hin
  have hdata : (slice (v.cipherRange host first count) (s * v.sectorSize.toNat)
      n.toNat).length = n.toNat := length_slice (by rw [hrange]; exact hnin)
  have hmle : m * v.sectorSize.toNat ≤ n.toNat := by
    rw [← hn]
    exact Nat.div_mul_le_self _ _
  rw [← hdata] at hmle
  obtain ⟨out, hout, houtLen, hparts⟩ := decryptSectors_spec C h (n / v.sectorSize) hhost
    (by rw [UInt64.toNat_div, hn]) (by omega) hmle
  -- what is behind the last whole sector stays
  have hdrop : (slice (v.cipherRange host first count) (s * v.sectorSize.toNat) n.toNat).drop
      (m * v.sectorSize.toNat) = slice (v.cipherRange host first count)
        ((s + m) * v.sectorSize.toNat) (n.toNat - m * v.sectorSize.toNat) := by
    rw [slice, slice, List.drop_take, List.drop_drop, Nat.add_mul]
  have hend : (s + m) * v.sectorSize.toNat =
      s * v.sectorSize.toNat + m * v.sectorSize.toNat := Nat.add_mul _ _ _
  have hsame : patch (v.cipherRange host first count) (s * v.sectorSize.toNat)
      (out ++ (slice (v.cipherRange host first count) (s * v.sectorSize.toNat) n.toNat).drop
        (m * v.sectorSize.toNat)) =
      patch (v.cipherRange host first count) (s * v.sectorSize.toNat) out := by
    have hnext : (s + m) * v.sectorSize.toNat = s * v.sectorSize.toNat + out.length := by
      rw [houtLen, hend]
    rw [hdrop, ← patch_patch_before hnext
      (by rw [length_slice (by rw [hrange]; omega), hrange]; omega),
      patch_slice_self (by rw [hrange]; omega)]
  have hfit : s * v.sectorSize.toNat ≤ (v.cipherRange host first count).length := by
    rw [hrange]
    omega
  refine ⟨_, by rw [hout, Option.map_some, hsame], ?_, ?_⟩
  · rw [length_patch (by rw [houtLen, hrange]; omega), hrange]
  · intro j hj
    have hsector : slice (v.cipherRange host first count) (j * v.sectorSize.toNat)
        v.sectorSize.toNat = v.sectorAt host (first + j) := slice_cipherRange hj
    split
    · rename_i hmid
      obtain ⟨k, rfl⟩ := Nat.exists_eq_add_of_le hmid.1
      have hk : k < m := by omega
      have hnext := Nat.mul_le_mul_right v.sectorSize.toNat (Nat.succ_le_of_lt hk)
      rw [Nat.succ_mul] at hnext
      have hpart := hparts k hk
      have hcipher : slice (slice (v.cipherRange host first count) (s * v.sectorSize.toNat)
          n.toNat) (k * v.sectorSize.toNat) v.sectorSize.toNat =
            v.sectorAt host (first + (s + k)) := by
        rw [slice_slice (by omega), ← Nat.add_mul, hsector]
      rw [hcipher, Nat.add_assoc] at hpart
      rw [plainAt, hpart, Option.getD_some, Nat.add_mul,
        slice_patch_within hfit (by rw [houtLen]; exact hnext)]
    · rename_i hout'
      rw [← hsector]
      by_cases hbefore : j < s
      · have hnext := Nat.mul_le_mul_right v.sectorSize.toNat (Nat.succ_le_of_lt hbefore)
        rw [Nat.succ_mul] at hnext
        exact slice_patch_disjoint hfit (.inl (by omega))
      · have hbehind := Nat.mul_le_mul_right v.sectorSize.toNat
          (show s + m ≤ j by omega)
        exact slice_patch_disjoint hfit (.inr (by rw [houtLen]; omega))

/-- The sectors that are left because the volume starts with a boot sector. -/
def skippedAt (v : Volume) (host : Bytes) (i : Nat) : Bool :=
  i = 0 && v.skipsFirstSector v.volumeDataOffset (v.sectorAt host 0)

theorem plainSector_of_skipped (h : v.skippedAt host i = true) :
    v.plainSector C host i = v.sectorAt host i := by
  have hclear : v.clearAt host i = true := by
    rw [clearAt, ← skippedAt, h, Bool.true_or]
  rw [plainSector, if_pos hclear]

theorem plainSector_of_not_skipped (h : v.skippedAt host i = false) :
    v.plainSector C host i =
      if v.encryptionNotCompleted = true ∧ v.encryptedDataSize.toNat <
          v.volumeDataOffset.toNat + i * v.sectorSize.toNat + v.sectorSize.toNat then
        v.sectorAt host i
      else v.plainAt C host i := by
  have hclear : v.clearAt host i = (v.encryptionNotCompleted && decide
      (v.encryptedDataSize.toNat <
        v.volumeDataOffset.toNat + i * v.sectorSize.toNat + v.sectorSize.toNat)) := by
    rw [clearAt, ← skippedAt, h, Bool.false_or]
  rw [plainSector, hclear]
  simp only [Bool.and_eq_true, decide_eq_true_eq]

theorem toNat_min (a b : UInt64) : (min a b).toNat = min a.toNat b.toNat := by
  show (if a ≤ b then a else b).toNat = _
  split
  · rename_i hle
    rw [UInt64.le_iff_toNat_le] at hle
    omega
  · rename_i hle
    rw [UInt64.le_iff_toNat_le] at hle
    omega

/-- **Decrypting what was read** gives the text of the range. -/
theorem readDecrypt_eq (C : Ciphers) (h : Readable P v host) {first count s : Nat}
    {hostOffset length : UInt64} (hin : first + count ≤ v.wholeSectors) (hs : s ≤ count)
    (hlength : length.toNat = (count - s) * v.sectorSize.toNat)
    (hhost : hostOffset.toNat =
      v.volumeDataOffset.toNat + (first + s) * v.sectorSize.toNat)
    (hskip : ∀ j < count, v.skippedAt host (first + j) = decide (j < s)) :
    v.readDecrypt C (v.cipherRange host first count) (s * v.sectorSize.toNat) hostOffset length =
      some (slice (v.wholeText C host) (first * v.sectorSize.toNat)
        (count * v.sectorSize.toNat)) := by
  have hpos := h.sectorSize_pos
  have hrange := h.length_cipherRange hin
  have hfull : s * v.sectorSize.toNat + (count - s) * v.sectorSize.toNat =
      count * v.sectorSize.toNat := by
    rw [← Nat.add_mul, Nat.add_sub_cancel' hs]
  -- a buffer that is decrypted from sector `s` up to sector `s + m` is the range
  have hfinish : ∀ (m : Nat) (out : Bytes), out.length = count * v.sectorSize.toNat →
      (∀ j < count, slice out (j * v.sectorSize.toNat) v.sectorSize.toNat =
        if s ≤ j ∧ j < s + m then v.plainAt C host (first + j)
        else v.sectorAt host (first + j)) →
      (∀ j < count, s ≤ j → (s + m ≤ j ↔ v.encryptionNotCompleted = true ∧
        v.encryptedDataSize.toNat < v.volumeDataOffset.toNat +
          (first + j) * v.sectorSize.toNat + v.sectorSize.toNat)) →
      out = slice (v.wholeText C host) (first * v.sectorSize.toNat)
        (count * v.sectorSize.toNat) := by
    intro m out hlen hsectors hclear
    refine h.eq_slice_wholeText hin hlen fun j hj => ?_
    rw [hsectors j hj]
    by_cases hjs : j < s
    · rw [if_neg (by omega), plainSector_of_skipped (by rw [hskip j hj, decide_eq_true hjs])]
    · have hiff := hclear j hj (by omega)
      rw [plainSector_of_not_skipped (by rw [hskip j hj, decide_eq_false hjs])]
      by_cases hm : j < s + m
      · rw [if_pos ⟨by omega, hm⟩, if_neg (fun hc => absurd (hiff.mpr hc) (by omega))]
      · rw [if_neg (by omega), if_pos (hiff.mp (by omega))]
  have hraw : ∀ j < count, slice (v.cipherRange host first count) (j * v.sectorSize.toNat)
      v.sectorSize.toNat = if s ≤ j ∧ j < s + 0 then v.plainAt C host (first + j)
        else v.sectorAt host (first + j) := by
    intro j hj
    rw [slice_cipherRange hj, if_neg (by omega)]
  rw [readDecrypt]
  dsimp only
  split
  · -- nothing behind the boot sector
    rename_i hzero
    rw [hzero] at hlength
    have hnone : count - s = 0 := by
      rcases Nat.mul_eq_zero.mp hlength.symm with hcount | hss
      · exact hcount
      · omega
    exact congrArg some (hfinish 0 _ hrange hraw (fun j hj hsj => absurd hj (by omega)))
  · split
    · rename_i hpartly
      split
      · rename_i hlt
        rw [UInt64.lt_iff_toNat_lt] at hlt
        have hsub : (v.encryptedDataSize - hostOffset).toNat =
            v.encryptedDataSize.toNat - hostOffset.toNat :=
          UInt64.toNat_sub_of_le _ _ (UInt64.le_iff_toNat_le.mpr (by omega))
        have hn := toNat_min length (v.encryptedDataSize - hostOffset)
        rw [hsub, hlength] at hn
        have hquot : (min length (v.encryptedDataSize - hostOffset)).toNat /
            v.sectorSize.toNat ≤ count - s := by
          rw [hn]
          refine Nat.div_le_of_le_mul ?_
          rw [Nat.mul_comm]
          exact Nat.min_le_left _ _
        obtain ⟨out, hout, hlen, hsectors⟩ := decrypt_in_place C h hin
          (show s + (min length (v.encryptedDataSize - hostOffset)).toNat /
            v.sectorSize.toNat ≤ count by omega) hhost rfl (by rw [hn]; omega)
        rw [hout, hfinish _ out hlen hsectors]
        intro j hj hsj
        obtain ⟨k, rfl⟩ := Nat.exists_eq_add_of_le hsj
        have hk := Nat.mul_le_mul_right v.sectorSize.toNat (show k + 1 ≤ count - s by omega)
        have hsum : (first + (s + k)) * v.sectorSize.toNat =
            (first + s) * v.sectorSize.toNat + k * v.sectorSize.toNat := by
          rw [← Nat.add_assoc, Nat.add_mul]
        have hdiv : k < (min length (v.encryptedDataSize - hostOffset)).toNat /
            v.sectorSize.toNat ↔ (k + 1) * v.sectorSize.toNat ≤
              (min length (v.encryptedDataSize - hostOffset)).toNat :=
          Nat.le_div_iff_mul_le hpos
        rw [Nat.succ_mul] at hk hdiv
        rw [hn] at hdiv ⊢
        rw [hsum, and_iff_right hpartly]
        omega
      · rename_i hge
        rw [UInt64.lt_iff_toNat_lt] at hge
        refine congrArg some (hfinish 0 _ hrange hraw fun j hj hsj => ?_)
        have hle := Nat.mul_le_mul_right v.sectorSize.toNat (show first + s ≤ first + j by omega)
        rw [and_iff_right hpartly]
        omega
    · rename_i hcomplete
      obtain ⟨out, hout, hlen, hsectors⟩ := decrypt_in_place C h hin
        (show s + (count - s) ≤ count by omega) hhost
        (by rw [hlength, Nat.mul_div_cancel _ hpos]) (n := length) (by rw [hlength]; omega)
      rw [hout, hfinish _ out hlen hsectors]
      intro j hj hsj
      exact ⟨fun hle => absurd hj (by omega), fun hpart => absurd hpart.1 hcomplete⟩

/-! ## The tags of a range -/

theorem foldlM_ok_same {α β : Type} {f : β → α → Except Exception β} {b : β} {l : List α}
    (h : ∀ a ∈ l, f b a = .ok b) : l.foldlM f b = .ok b := by
  induction l with
  | nil => rfl
  | cons a l ih =>
    rw [List.foldlM_cons, h a List.mem_cons_self]
    exact ih fun a' ha' => h a' (List.mem_cons_of_mem a ha')

/-- Valid tags pass. -/
theorem verifyRange_ok (hv : V2Geometry v host.length) {first count : Nat}
    (hvalid : ∀ i < count, TagValid P v host (first + i))
    (hin : first + count ≤ v.v2Mac.dataSectors.toNat) (hcount : 0 < count)
    (uninit : RandStream) :
    v.v2Mac.verifyRange P host (v.cipherRange host first count) (UInt64.ofNat first)
      (UInt64.ofNat count) false uninit = .ok v.v2Mac := by
  have hfits := hv.fits
  have hmax := hv.addressable
  have hlt := v.v2Mac.dataSectors.toNat_lt
  have htable := Nat.mul_le_mul_right v2MacTagLen hin
  rw [Nat.add_mul] at htable
  simp only [offsetMax] at hmax
  have hfirst : (UInt64.ofNat first).toNat = first := by
    rw [UInt64.toNat_ofNat']
    exact Nat.mod_eq_of_lt (by omega)
  have hcountVal : (UInt64.ofNat count).toNat = count := by
    rw [UInt64.toNat_ofNat']
    exact Nat.mod_eq_of_lt (by omega)
  have hsum : (UInt64.ofNat first + UInt64.ofNat count).toNat = first + count := by
    rw [UInt64.toNat_add, hfirst, hcountVal]
    exact Nat.mod_eq_of_lt (by omega)
  have hzero : UInt64.ofNat count ≠ 0 := by
    intro hzero
    rw [hzero] at hcountVal
    exact absurd hcountVal.symm (by show ¬ count = 0; omega)
  have hbounds : v.v2Mac.boundsCheck (UInt64.ofNat first) (UInt64.ofNat count) = true := by
    have hwrap : ¬ UInt64.ofNat first + UInt64.ofNat count < UInt64.ofNat first := by
      rw [UInt64.lt_iff_toNat_lt, hsum, hfirst]
      omega
    have hover : ¬ v.v2Mac.dataSectors < UInt64.ofNat first + UInt64.ofNat count := by
      rw [UInt64.lt_iff_toNat_lt, hsum]
      omega
    simp only [V2SectorMacIo.boundsCheck, hzero, hwrap, hover, decide_false, Bool.or_false,
      Bool.not_false]
  have hslot := hv.slotPosition_eq (i := first) (by omega)
  have hpos : (v.v2Mac.slotPosition (UInt64.ofNat first)).toNat ≤ offsetMax := by
    simp only [offsetMax]
    omega
  have hread : File.readInto host (v.v2Mac.slotPosition (UInt64.ofNat first))
      (count * v2MacTagLen) false uninit = _ :=
    File.readInto_whole uninit (by rw [hslot]; omega) hpos
  rw [V2SectorMacIo.verifyRange, if_neg (by simp [hv.active, hzero]), hbounds,
    if_neg (by decide), hcountVal, hread]
  refine foldlM_ok_same fun i hi => ?_
  have hi' := List.mem_range.mp hi
  have hnext := Nat.mul_le_mul_right v2MacTagLen (Nat.succ_le_of_lt hi')
  rw [Nat.succ_mul] at hnext
  have hcipher : v.v2Mac.sectorCt (v.cipherRange host first count) i =
      v.sectorAt host (first + i) := by
    rw [V2SectorMacIo.sectorCt, hv.mac_sectorSize, slice_cipherRange hi']
  have hstored : slice (slice host (v.v2Mac.slotPosition (UInt64.ofNat first)).toNat
      (count * v2MacTagLen)) (i * v2MacTagLen) v2MacTagLen = v.slotAt host (first + i) := by
    rw [slice_slice hnext, hslot, slotAt, Nat.add_mul, Nat.add_assoc]
  have htag : v.slotAt host (first + i) = _ := hvalid i hi'
  have hverify : v2FormatSectorVerify P v.v2Mac.macKey
      (UInt64.ofNat first + UInt64.ofNat i) (v.sectorAt host (first + i))
      (v.slotAt host (first + i)) = true := by
    rw [htag, tagOf, UInt64.ofNat_add, v2FormatSectorVerify, ctEqual_self]
  rw [V2SectorMacIo.verifySector, hcipher, hstored, hverify, if_pos rfl]

/-! ## Reading -/

/-- The boot sector of a range, if it is left out: the first sector of the volume. -/
theorem skipped_of_range (h : Readable P v host) {first count : Nat} {hostOffset : UInt64}
    (hin : first + count ≤ v.wholeSectors)
    (hhost : hostOffset.toNat = v.volumeDataOffset.toNat + first * v.sectorSize.toNat) :
    ∃ s ≤ count, (if v.skipsFirstSector hostOffset (v.cipherRange host first count) then
        v.sectorSize else 0).toNat = s * v.sectorSize.toNat ∧
      (s = 0 ∨ v.systemEncryption = true) ∧
      ∀ j < count, v.skippedAt host (first + j) = decide (j < s) := by
  have hmin := h.sectorSize_min
  by_cases hempty : count = 0
  · -- nothing was read, so there is no boot sector
    subst hempty
    have hnil : v.cipherRange host first 0 = [] := by
      rw [cipherRange, Nat.zero_mul, slice, List.take_zero]
    have hskip : v.skipsFirstSector hostOffset (v.cipherRange host first 0) = false := by
      rw [hnil, skipsFirstSector, show beNat (slice ([] : Bytes) 0 8) = 0 from rfl]
      simp
    refine ⟨0, Nat.le_refl _, ?_, .inl rfl, fun j hj => absurd hj (Nat.not_lt_zero _)⟩
    rw [hskip, Nat.zero_mul]
    rfl
  · have hhead : slice (v.cipherRange host first count) 0 8 =
        slice (v.sectorAt host first) 0 8 := by
      have hle := Nat.le_mul_of_pos_left v.sectorSize.toNat (Nat.pos_of_ne_zero hempty)
      rw [cipherRange, sectorAt, slice_slice (by omega), slice_slice (by omega)]
    have hzero : hostOffset = 0 ↔ first = 0 ∧ v.volumeDataOffset = 0 := by
      rw [← UInt64.toNat_inj, ← UInt64.toNat_inj, hhost]
      have h0 : (0 : UInt64).toNat = 0 := rfl
      rw [h0, Nat.add_eq_zero_iff, Nat.mul_eq_zero]
      omega
    have hsame : v.skipsFirstSector hostOffset (v.cipherRange host first count) =
        v.skippedAt host first := by
      rw [skippedAt, skipsFirstSector, skipsFirstSector, hhead, Bool.eq_iff_iff]
      simp only [Bool.and_eq_true, decide_eq_true_eq, hzero]
      constructor
      · rintro ⟨⟨hsystem, rfl, hoffset⟩, hmagic⟩
        exact ⟨rfl, ⟨hsystem, hoffset⟩, hmagic⟩
      · rintro ⟨rfl, ⟨hsystem, hoffset⟩, hmagic⟩
        exact ⟨⟨hsystem, rfl, hoffset⟩, hmagic⟩
    rw [hsame]
    cases hskip : v.skippedAt host first with
    | false =>
      refine ⟨0, Nat.zero_le _, by rw [Nat.zero_mul]; rfl, .inl rfl, fun j _ => ?_⟩
      rw [decide_eq_false (Nat.not_lt_zero j)]
      by_cases hj : j = 0
      · rw [hj]
        exact hskip
      · rw [skippedAt, decide_eq_false (by omega), Bool.false_and]
    | true =>
      have hskipped := hskip
      simp only [skippedAt, skipsFirstSector, Bool.and_eq_true, decide_eq_true_eq] at hskipped
      obtain ⟨hfirst, ⟨hsystem, -⟩, -⟩ := hskipped
      refine ⟨1, Nat.pos_of_ne_zero hempty, by rw [Nat.one_mul]; rfl, .inr hsystem,
        fun j _ => ?_⟩
      by_cases hj : j = 0
      · rw [hj, decide_eq_true Nat.one_pos]
        exact hskip
      · rw [skippedAt, decide_eq_false (by omega), Bool.false_and,
          decide_eq_false (by omega)]

/-- **A range of whole sectors** that is read is a range of the text. -/
theorem Readable.readSectors_eq (C : Ciphers) (h : Readable P v host) {first count : Nat}
    {byteOffset : UInt64} (hin : first + count ≤ v.wholeSectors)
    (hoffset : byteOffset.toNat = first * v.sectorSize.toNat) (uninit : RandStream) :
    ∃ v', v.readSectors C P host (count * v.sectorSize.toNat) byteOffset
        { data := false, tags := false, uninit := uninit } =
      .ok (v', slice (v.wholeText C host) (first * v.sectorSize.toNat)
        (count * v.sectorSize.toNat)) := by
  have hpos := h.sectorSize_pos
  have hheld := h.held
  have hmax := h.addressable
  have hle := Nat.mul_le_mul_right v.sectorSize.toNat hin
  have hrange := h.length_cipherRange hin
  rw [Nat.add_mul] at hle
  simp only [offsetMax] at hmax
  have hlength : (UInt64.ofNat (count * v.sectorSize.toNat)).toNat =
      count * v.sectorSize.toNat := by
    rw [UInt64.toNat_ofNat']
    exact Nat.mod_eq_of_lt (by omega)
  have hhost : (v.hostOffset byteOffset).toNat =
      v.volumeDataOffset.toNat + first * v.sectorSize.toNat := by
    rw [hostOffset, UInt64.toNat_add, hoffset]
    exact Nat.mod_eq_of_lt (by omega)
  have haligned : ¬ (UInt64.ofNat (count * v.sectorSize.toNat) % v.sectorSize ≠ 0 ∨
      byteOffset % v.sectorSize ≠ 0) := by
    rw [not_or, not_not, not_not, ← UInt64.toNat_inj, ← UInt64.toNat_inj, UInt64.toNat_mod,
      UInt64.toNat_mod, hlength, hoffset, Nat.mul_mod_left, Nat.mul_mod_left]
    exact ⟨rfl, rfl⟩
  have hread : File.readAt host (v.hostOffset byteOffset) (count * v.sectorSize.toNat) false =
      some (v.cipherRange host first count) := by
    rw [File.readAt, hhost, if_neg, cipherRange]
    rintro (hfails | hlt)
    · exact absurd hfails (by decide)
    · simp only [offsetMax] at hlt
      omega
  obtain ⟨s, hs, hskipVal, hsystem, hskip⟩ := skipped_of_range h hin hhost
  rw [readSectors]
  dsimp only
  rw [if_neg haligned, hread]
  dsimp only
  rw [if_neg (by rw [hrange]; exact fun hne => hne rfl)]
  generalize (if v.skipsFirstSector (v.hostOffset byteOffset) (v.cipherRange host first count)
    then v.sectorSize else 0) = skip at hskipVal ⊢
  have hskipLe := Nat.mul_le_mul_right v.sectorSize.toNat hs
  have hrest : (UInt64.ofNat (count * v.sectorSize.toNat) - skip).toNat =
      (count - s) * v.sectorSize.toNat := by
    rw [UInt64.toNat_sub_of_le _ _ (UInt64.le_iff_toNat_le.mpr (by omega)), hlength, hskipVal,
      Nat.sub_mul]
  have hhostSkip : (v.hostOffset byteOffset + skip).toNat =
      v.volumeDataOffset.toNat + (first + s) * v.sectorSize.toNat := by
    rw [UInt64.toNat_add, hhost, hskipVal, Nat.add_mul, Nat.add_assoc]
    exact Nat.mod_eq_of_lt (by omega)
  have hdecrypt := readDecrypt_eq C h hin hs hrest hhostSkip hskip
  -- no tag is compared, or each of them is valid
  have hverified : (if UInt64.ofNat (count * v.sectorSize.toNat) - skip ≠ 0 ∧
        v.v2Mac.isActive = true then
      v.v2Mac.verifyRange P host ((v.cipherRange host first count).drop skip.toNat)
        ((byteOffset + skip) / v.sectorSize)
        ((UInt64.ofNat (count * v.sectorSize.toNat) - skip) / v.sectorSize) false uninit
      else .ok v.v2Mac) = .ok v.v2Mac := by
    split
    · rename_i hactive
      obtain ⟨hsome, hon⟩ := hactive
      obtain ⟨hv, hvalid⟩ := h.authentic hon
      obtain rfl : s = 0 := by
        rcases hsystem with hzero | hsystem
        · exact hzero
        · rw [hv.notSystem] at hsystem
          exact absurd hsystem (by decide)
      obtain rfl : skip = 0 := UInt64.toNat_inj.mp (by rw [hskipVal, Nat.zero_mul]; rfl)
      have hwhole : v.wholeSectors = v.v2Mac.dataSectors.toNat := by
        rw [wholeSectors, ← hv.whole, Nat.add_sub_assoc hpos, Nat.add_comm,
          Nat.add_mul_div_right _ _ hpos, Nat.div_eq_of_lt (by omega), Nat.zero_add]
      have hfirst : (byteOffset + 0) / v.sectorSize = UInt64.ofNat first := by
        apply UInt64.toNat_inj.mp
        have hlt : first ≤ first * v.sectorSize.toNat := Nat.le_mul_of_pos_right _ hpos
        rw [UInt64.add_zero, UInt64.toNat_div, hoffset, Nat.mul_div_cancel _ hpos,
          UInt64.toNat_ofNat']
        exact (Nat.mod_eq_of_lt (by omega)).symm
      have hcount : (UInt64.ofNat (count * v.sectorSize.toNat) - 0) / v.sectorSize =
          UInt64.ofNat count := by
        apply UInt64.toNat_inj.mp
        have hlt : count ≤ count * v.sectorSize.toNat := Nat.le_mul_of_pos_right _ hpos
        rw [UInt64.sub_zero, UInt64.toNat_div, hlength, Nat.mul_div_cancel _ hpos,
          UInt64.toNat_ofNat']
        exact (Nat.mod_eq_of_lt (by omega)).symm
      have hposCount : 0 < count := by
        rcases Nat.eq_zero_or_pos count with hzero | hpos'
        · subst hzero
          exact absurd (by rw [Nat.zero_mul]; rfl) hsome
        · exact hpos'
      rw [hfirst, hcount]
      exact verifyRange_ok hv (fun i hi => hvalid _ (by omega)) (by omega) hposCount uninit
    · rfl
  rw [hverified, hskipVal, hdecrypt]
  exact ⟨_, rfl⟩

end

end Volume

end VeraCrypt
