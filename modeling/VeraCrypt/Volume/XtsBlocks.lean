import VeraCrypt.Volume.EncryptionModeXTS

/-!
# XTS mode block by block

The loop of the mode carries its whitening value along. Here is what comes out of it without
the loop: block `i` of a buffer that starts at data unit `n` is whitened with the first value
of unit `n + i / 32`, doubled `i % 32` times, and nothing else of the buffer goes into it
(`getElem?_xtsBlocks`, `slice_encryptBuffer`). That decrypting undoes encrypting
(`decryptBuffer_encryptBuffer`) is then a fact about one block.
-/

set_option autoImplicit false

namespace VeraCrypt

open Lib

/-- Whitening value `block` of a data unit. -/
def whitening (secondary : Bytes → Bytes) (dataUnitNo : UInt64) (block : Nat) : Bytes :=
  nextWhitening^[block] (firstWhitening secondary dataUnitNo)

/-- Block `i` of a buffer that starts at a data unit. -/
def xtsBlock (cipher secondary : Bytes → Bytes) (startDataUnitNo : UInt64) (i : Nat)
    (b : Bytes) : Bytes :=
  let w := whitening secondary (startDataUnitNo + UInt64.ofNat (i / blocksPerXtsDataUnit))
    (i % blocksPerXtsDataUnit)
  xorBytes (cipher (xorBytes b w)) w

section

variable {cipher secondary : Bytes → Bytes}

theorem length_whitening (hs : ∀ b, (secondary b).length = b.length) (n : UInt64) (j : Nat) :
    (whitening secondary n j).length = 16 := by
  cases j with
  | zero => exact length_firstWhitening hs n
  | succ j =>
    rw [whitening, Function.iterate_succ_apply']
    exact length_nextWhitening _

/-- **What the loop computes**, started at block `j` of unit `n` with the whitening value of
    that place at hand. -/
theorem getElem?_xtsBlocks {bs : List Bytes} :
    ∀ {n : UInt64} {j : Nat} {w : Bytes} {i : Nat}, j < blocksPerXtsDataUnit →
      (j ≠ 0 → w = whitening secondary n j) →
      (xtsBlocks cipher secondary n j w bs)[i]? =
        bs[i]?.map (xtsBlock cipher secondary n (j + i)) := by
  induction bs with
  | nil => intro n j w i _ _; rfl
  | cons b bs ih =>
    intro n j w i hj hw
    have hcur : (if j = 0 then firstWhitening secondary n else w) = whitening secondary n j := by
      split
      · rename_i h0
        rw [h0]
        rfl
      · rename_i h0
        exact hw h0
    have hnext : nextWhitening (whitening secondary n j) = whitening secondary n (j + 1) :=
      (Function.iterate_succ_apply' nextWhitening j _).symm
    simp only [xtsBlocks, hcur]
    cases i with
    | zero =>
      have hplace : j / blocksPerXtsDataUnit = 0 ∧ j % blocksPerXtsDataUnit = j :=
        ⟨Nat.div_eq_of_lt hj, Nat.mod_eq_of_lt hj⟩
      have hblock : xtsBlock cipher secondary n j b =
          xorBytes (cipher (xorBytes b (whitening secondary n j))) (whitening secondary n j) := by
        rw [xtsBlock, hplace.1, hplace.2]
        simp
      split <;> simp [hblock]
    | succ i =>
      split
      · -- the unit is full: the next block is the first of the next unit
        rename_i hfull
        have hfull' : j + 1 = 32 := hfull
        have hshift : ∀ c, xtsBlock cipher secondary (n + 1) (0 + i) c =
            xtsBlock cipher secondary n (j + (i + 1)) c := by
          intro c
          have hdiv : (j + (i + 1)) / 32 = i / 32 + 1 := by omega
          have hmod : (j + (i + 1)) % 32 = i % 32 := by omega
          simp only [xtsBlock, blocksPerXtsDataUnit, Nat.zero_add, hdiv, hmod]
          rw [UInt64.ofNat_add, UInt64.add_assoc,
            UInt64.add_comm (UInt64.ofNat (i / 32)) (UInt64.ofNat 1)]
          rfl
        rw [List.getElem?_cons_succ, List.getElem?_cons_succ,
          ih (by decide) (fun h => absurd rfl h)]
        exact Option.map_congr (fun c _ => hshift c)
      · rename_i hfull
        rw [List.getElem?_cons_succ, List.getElem?_cons_succ, hnext,
          ih (by omega) (fun _ => rfl), show j + 1 + i = j + (i + 1) by omega]

/-- One block back and forth. -/
theorem xtsBlock_xtsBlock {decipher : Bytes → Bytes} (hc : ∀ b, (cipher b).length = b.length)
    (hs : ∀ b, (secondary b).length = b.length) (hinv : ∀ b, decipher (cipher b) = b)
    {n : UInt64} {i : Nat} {b : Bytes} (hb : b.length = 16) :
    xtsBlock decipher secondary n i (xtsBlock cipher secondary n i b) = b := by
  have hw := length_whitening hs (n + UInt64.ofNat (i / blocksPerXtsDataUnit))
    (i % blocksPerXtsDataUnit)
  have hin : (xorBytes b (whitening secondary (n + UInt64.ofNat (i / blocksPerXtsDataUnit))
      (i % blocksPerXtsDataUnit))).length = 16 := by rw [length_xorBytes (by rw [hb, hw]), hb]
  simp only [xtsBlock]
  rw [xorBytes_cancel (by rw [hc, hin, hw]), hinv, xorBytes_cancel (by rw [hb, hw])]

/-! ## One buffer -/

theorem getElem?_xtsBlocksOf (data : Bytes) (i : Nat) :
    (xtsBlocksOf data)[i]? =
      if i < data.length / bytesPerXtsBlock then
        some (slice data (i * bytesPerXtsBlock) bytesPerXtsBlock)
      else none := by
  unfold xtsBlocksOf
  rw [List.getElem?_map]
  split
  · rename_i hi
    rw [List.getElem?_range hi]
    rfl
  · rename_i hi
    rw [List.getElem?_eq_none (by simpa using hi)]
    rfl

/-- Block `i` of the output of the mode. -/
theorem slice_bufferXTS (hc : ∀ b, (cipher b).length = b.length)
    (hs : ∀ b, (secondary b).length = b.length) {data out : Bytes} {n : UInt64} {i : Nat}
    (h : bufferXTS cipher secondary data n = some out)
    (hi : i < data.length / bytesPerXtsBlock) :
    slice out (i * bytesPerXtsBlock) bytesPerXtsBlock =
      xtsBlock cipher secondary n i (slice data (i * bytesPerXtsBlock) bytesPerXtsBlock) := by
  unfold bufferXTS at h
  split at h
  · exact absurd h (by simp)
  · have hlen : ∀ b ∈ xtsBlocksOf data, b.length = 16 := fun b hb => length_of_mem_xtsBlocksOf hb
    have hparts := length_of_mem_xtsBlocks hc hs hlen (n := n) (j := 0) (w := [])
      (fun hj => absurd rfl hj)
    have hi' : i < (xtsBlocks cipher secondary n 0 [] (xtsBlocksOf data)).length := by
      rw [length_xtsBlocks, length_xtsBlocksOf]
      exact hi
    have hget : (xtsBlocks cipher secondary n 0 [] (xtsBlocksOf data))[i]? =
        (xtsBlocksOf data)[i]?.map (xtsBlock cipher secondary n (0 + i)) :=
      getElem?_xtsBlocks (by decide) (fun hj => absurd rfl hj)
    rw [getElem?_xtsBlocksOf, if_pos hi, List.getElem?_eq_getElem hi', Nat.zero_add] at hget
    have hslice := slice_flatten (n := bytesPerXtsBlock) hparts [] hi'
    rw [List.append_nil] at hslice
    rw [← Option.some.inj h, hslice]
    exact Option.some.inj hget

theorem bufferXTS_isSome (cipher secondary : Bytes → Bytes) {data : Bytes}
    (hwhole : data.length % bytesPerXtsBlock = 0) (n : UInt64) :
    ∃ out, bufferXTS cipher secondary data n = some out := by
  unfold bufferXTS
  rw [if_neg (by simpa using hwhole)]
  exact ⟨_, rfl⟩

theorem whole_of_bufferXTS {data out : Bytes} {n : UInt64}
    (h : bufferXTS cipher secondary data n = some out) : data.length % bytesPerXtsBlock = 0 := by
  unfold bufferXTS at h
  split at h
  · exact absurd h (by simp)
  · rename_i hmod
    exact not_not.mp hmod

/-- **The mode undoes itself** when its block function does. -/
theorem bufferXTS_bufferXTS {decipher : Bytes → Bytes} (hc : ∀ b, (cipher b).length = b.length)
    (hd : ∀ b, (decipher b).length = b.length) (hs : ∀ b, (secondary b).length = b.length)
    (hinv : ∀ b, decipher (cipher b) = b) {data out : Bytes} {n : UInt64}
    (h : bufferXTS cipher secondary data n = some out) :
    bufferXTS decipher secondary out n = some data := by
  have hwhole := whole_of_bufferXTS h
  have hlen := length_bufferXTS hc hs h
  obtain ⟨back, hback⟩ := bufferXTS_isSome decipher secondary (by rw [hlen]; exact hwhole) n
  have hlenb := length_bufferXTS hd hs hback
  rw [hback]
  apply congrArg some
  apply eq_of_slices_eq (n := bytesPerXtsBlock) (by decide) (hlenb.trans hlen)
    (by rw [hlenb, hlen]; exact hwhole)
  intro i hi
  rw [hlenb] at hi
  have hi' : i < data.length / bytesPerXtsBlock := by rwa [hlen] at hi
  have hb : (slice data (i * bytesPerXtsBlock) bytesPerXtsBlock).length = 16 := by
    apply length_slice
    have hmul := Nat.mul_le_mul_right bytesPerXtsBlock (Nat.succ_le_of_lt hi')
    have hdiv := Nat.div_mul_le_self data.length bytesPerXtsBlock
    rw [Nat.succ_mul] at hmul
    omega
  rw [slice_bufferXTS hd hs hback hi, slice_bufferXTS hc hs h hi',
    xtsBlock_xtsBlock hc hs hinv hb]

end

/-! ## A cascade -/

namespace EncryptionAlgorithm

/-- Block `i` of a buffer under the ciphers of an algorithm. -/
def encryptBlockAt (C : Ciphers) (ea : EncryptionAlgorithm) (startDataUnitNo : UInt64) (i : Nat)
    (b : Bytes) : Bytes :=
  ea.keyed.foldl (fun b (c, k, k2) =>
    xtsBlock (C.encryptBlock c k) (C.encryptBlock c k2) (startDataUnitNo + ea.sectorOffset) i b) b

def decryptBlockAt (C : Ciphers) (ea : EncryptionAlgorithm) (startDataUnitNo : UInt64) (i : Nat)
    (b : Bytes) : Bytes :=
  ea.keyed.reverse.foldl (fun b (c, k, k2) =>
    xtsBlock (C.decryptBlock c k) (C.encryptBlock c k2) (startDataUnitNo + ea.sectorOffset) i b) b

end EncryptionAlgorithm

/-- A cascade of any block functions works block by block. -/
theorem slice_foldlM_bufferXTS {C : Ciphers} {f : Cipher → Bytes → Bytes → Bytes}
    (hf : ∀ c k b, (f c k b).length = b.length) {n : UInt64} {i : Nat} {data out : Bytes}
    {ks : List (Cipher × Bytes × Bytes)}
    (h : ks.foldlM (fun d (c, k, k2) => bufferXTS (f c k) (C.encryptBlock c k2) d n) data =
      some out)
    (hi : i < data.length / bytesPerXtsBlock) :
    slice out (i * bytesPerXtsBlock) bytesPerXtsBlock =
      ks.foldl (fun b (c, k, k2) => xtsBlock (f c k) (C.encryptBlock c k2) n i b)
        (slice data (i * bytesPerXtsBlock) bytesPerXtsBlock) := by
  induction ks generalizing data with
  | nil =>
    rw [Option.some.inj h]
    rfl
  | cons ck ks ih =>
    obtain ⟨c, k, k2⟩ := ck
    obtain ⟨mid, hmid, hrest⟩ := Option.bind_eq_some_iff.mp h
    have hs := C.length_encryptBlock c k2
    have hhead := slice_bufferXTS (hf c k) hs hmid hi
    rw [ih hrest (by rw [length_bufferXTS (hf c k) hs hmid]; exact hi), hhead]
    rfl

theorem foldlM_bufferXTS_isSome {C : Ciphers} {f : Cipher → Bytes → Bytes → Bytes}
    (hf : ∀ c k b, (f c k b).length = b.length) {data : Bytes}
    (hwhole : data.length % bytesPerXtsBlock = 0) (n : UInt64)
    (ks : List (Cipher × Bytes × Bytes)) :
    ∃ out, ks.foldlM (fun d (c, k, k2) => bufferXTS (f c k) (C.encryptBlock c k2) d n) data =
      some out := by
  induction ks generalizing data with
  | nil => exact ⟨data, rfl⟩
  | cons ck ks ih =>
    obtain ⟨c, k, k2⟩ := ck
    obtain ⟨mid, hmid⟩ := bufferXTS_isSome (f c k) (C.encryptBlock c k2) hwhole n
    have hlen := length_bufferXTS (hf c k) (C.length_encryptBlock c k2) hmid
    have hwhole' : mid.length % bytesPerXtsBlock = 0 := by rw [hlen]; exact hwhole
    obtain ⟨out, hout⟩ := ih hwhole'
    exact ⟨out, Option.bind_eq_some_iff.mpr ⟨mid, hmid, hout⟩⟩

/-- The keyed ciphers in reverse order undo a cascade. -/
theorem foldlM_bufferXTS_reverse {C : Ciphers} {ks : List (Cipher × Bytes × Bytes)}
    {data out : Bytes} {n : UInt64}
    (h : ks.foldlM (fun d (c, k, k2) => bufferXTS (C.encryptBlock c k) (C.encryptBlock c k2) d n)
      data = some out) :
    ks.reverse.foldlM (fun d (c, k, k2) => bufferXTS (C.decryptBlock c k) (C.encryptBlock c k2) d n)
      out = some data := by
  induction ks generalizing data with
  | nil => exact congrArg some (Option.some.inj h).symm
  | cons ck ks ih =>
    obtain ⟨c, k, k2⟩ := ck
    obtain ⟨mid, hmid, hrest⟩ := Option.bind_eq_some_iff.mp h
    have hback : bufferXTS (C.decryptBlock c k) (C.encryptBlock c k2) mid n = some data :=
      bufferXTS_bufferXTS (C.length_encryptBlock c k) (C.length_decryptBlock c k)
        (C.length_encryptBlock c k2) (C.decrypt_encrypt c k) hmid
    rw [List.reverse_cons, List.foldlM_append, ih hrest]
    simp only [Option.bind_eq_bind, Option.bind_some, List.foldlM_cons, List.foldlM_nil, hback]
    rfl

namespace EncryptionAlgorithm

variable {C : Ciphers} {ea : EncryptionAlgorithm} {data out : Bytes} {n : UInt64} {i : Nat}

/-- **Encryption works block by block.** -/
theorem slice_encryptBuffer (h : ea.encryptBuffer C data n = some out)
    (hi : i < data.length / bytesPerXtsBlock) :
    slice out (i * bytesPerXtsBlock) bytesPerXtsBlock =
      ea.encryptBlockAt C n i (slice data (i * bytesPerXtsBlock) bytesPerXtsBlock) :=
  slice_foldlM_bufferXTS C.length_encryptBlock h hi

theorem slice_decryptBuffer (h : ea.decryptBuffer C data n = some out)
    (hi : i < data.length / bytesPerXtsBlock) :
    slice out (i * bytesPerXtsBlock) bytesPerXtsBlock =
      ea.decryptBlockAt C n i (slice data (i * bytesPerXtsBlock) bytesPerXtsBlock) :=
  slice_foldlM_bufferXTS C.length_decryptBlock h hi

/-- Whole blocks encrypt. -/
theorem encryptBuffer_isSome (C : Ciphers) (ea : EncryptionAlgorithm)
    (hwhole : data.length % bytesPerXtsBlock = 0) (n : UInt64) :
    ∃ out, ea.encryptBuffer C data n = some out :=
  foldlM_bufferXTS_isSome C.length_encryptBlock hwhole _ _

theorem decryptBuffer_isSome (C : Ciphers) (ea : EncryptionAlgorithm)
    (hwhole : data.length % bytesPerXtsBlock = 0) (n : UInt64) :
    ∃ out, ea.decryptBuffer C data n = some out :=
  foldlM_bufferXTS_isSome C.length_decryptBlock hwhole _ _

/-- The first blocks of a decrypted buffer depend on the first blocks only. -/
theorem slice_decryptBuffer_front {data' out' : Bytes} {m : Nat}
    (h : ea.decryptBuffer C data n = some out) (h' : ea.decryptBuffer C data' n = some out')
    (hm : m * bytesPerXtsBlock ≤ data.length) (hm' : m * bytesPerXtsBlock ≤ data'.length)
    (hfront : slice data 0 (m * bytesPerXtsBlock) = slice data' 0 (m * bytesPerXtsBlock)) :
    slice out 0 (m * bytesPerXtsBlock) = slice out' 0 (m * bytesPerXtsBlock) := by
  have hlen := length_decryptBuffer h
  have hlen' := length_decryptBuffer h'
  have hpart : ∀ xs : Bytes, ∀ i, i < m →
      slice (slice xs 0 (m * bytesPerXtsBlock)) (i * bytesPerXtsBlock) bytesPerXtsBlock =
        slice xs (i * bytesPerXtsBlock) bytesPerXtsBlock := by
    intro xs i hi
    have hmul := Nat.mul_le_mul_right bytesPerXtsBlock (Nat.succ_le_of_lt hi)
    rw [Nat.succ_mul] at hmul
    rw [slice_slice hmul, Nat.zero_add]
  have hin : ∀ xs : Bytes, m * bytesPerXtsBlock ≤ xs.length → ∀ i, i < m →
      i < xs.length / bytesPerXtsBlock := by
    intro xs hxs i hi
    exact hi.trans_le ((Nat.le_div_iff_mul_le (by decide)).mpr hxs)
  apply eq_of_slices_eq (n := bytesPerXtsBlock) (by decide)
  · rw [length_slice (by omega), length_slice (by omega)]
  · rw [length_slice (by omega), Nat.mul_mod_left]
  · intro i hi
    rw [length_slice (by omega), Nat.mul_div_cancel _ (by decide)] at hi
    rw [hpart _ i hi, hpart _ i hi, slice_decryptBuffer h (hin _ hm i hi),
      slice_decryptBuffer h' (hin _ hm' i hi), ← hpart data i hi, hfront, hpart data' i hi]

/-- **Decrypting undoes encrypting**, for every cascade. -/
theorem decryptBuffer_encryptBuffer (h : ea.encryptBuffer C data n = some out) :
    ea.decryptBuffer C out n = some data :=
  foldlM_bufferXTS_reverse h

end EncryptionAlgorithm

end VeraCrypt
