import VeraCrypt.Lib.BinaryPoly
import VeraCrypt.Lib.PackedFields
import VeraCrypt.Volume.XtsBlocks

/-!
# XTS mode data unit by data unit (`Volume/EncryptionModeXTS.cpp`)

The source does not go block by block. For each data unit it first generates the whitening
values of all its blocks, doubling a value kept in two 64-bit words, then whitens the whole
unit, hands it to the cipher in one call and whitens it again. This file is that loop as it
stands, for a cascade of any block ciphers, and

* that it computes the mode block by block of the file before (`dataUnits_eq`);
* that doubling is multiplication by `α` in GF(2^128) (`gf128_nextWhitening`), so block `j` of
  unit `n` is whitened with `E_K2(n) * α^j`;
* that decrypting undoes encrypting, and that a buffer can be cut at any unit boundary.
-/

set_option autoImplicit false

namespace VeraCrypt

open Lib

/-! ## Whitening values -/

/-- `whiteningValue`: two little-endian words. -/
structure WhiteningValue where
  lo : UInt64
  hi : UInt64
  deriving DecidableEq

namespace WhiteningValue

def bytes (w : WhiteningValue) : Bytes := leBytes 8 w.lo.toNat ++ leBytes 8 w.hi.toNat

def ofBytes (b : Bytes) : WhiteningValue where
  lo := UInt64.ofNat (leNat (slice b 0 8))
  hi := UInt64.ofNat (leNat (slice b 8 8))

/-- "Derive the next whitening value", on little-endian platforms. The carry is xored into the
    first byte, which is the lowest of `lo`. -/
def next (w : WhiteningValue) : WhiteningValue :=
  let finalCarry : UInt64 := if w.hi &&& 0x8000000000000000 ≠ 0 then 135 else 0
  let hi := w.hi <<< 1
  { lo := w.lo <<< 1 ^^^ finalCarry
    hi := if w.lo &&& 0x8000000000000000 ≠ 0 then hi ||| 1 else hi }

end WhiteningValue

/-- The generating loop from `block` on, over the `k` blocks still to go: what it has stored. -/
def whiteningValues (startBlock : Nat) : (k block : Nat) → WhiteningValue → List WhiteningValue
  | 0, _, _ => []
  | k + 1, block, w =>
    if block ≥ startBlock then w :: whiteningValues startBlock k (block + 1) w.next
    else whiteningValues startBlock k (block + 1) w.next

/-! ## The loop over data units -/

/-- `XorBlocks`, and the two whitening loops it stands for. -/
def xorBlocks (buf : Bytes) (ws : List WhiteningValue) : Bytes :=
  xorBytes buf (ws.map WhiteningValue.bytes).flatten

/-- `Cipher::EncryptBlocks` / `DecryptBlocks`. -/
def cipherBlocks (cipher : Bytes → Bytes) : (blockCount : Nat) → Bytes → Bytes
  | 0, data => data
  | n + 1, data =>
    cipher (data.take bytesPerXtsBlock) ++ cipherBlocks cipher n (data.drop bytesPerXtsBlock)

/-- One data unit: its whitening values, and the two whitenings around the cipher. -/
def dataUnit (cipher secondary : Bytes → Bytes) (dataUnitNo : UInt64)
    (startBlock endBlock : Nat) (unit : Bytes) : Bytes :=
  let first := WhiteningValue.ofBytes (firstWhitening secondary dataUnitNo)
  let ws := whiteningValues startBlock endBlock 0 first
  xorBlocks (cipherBlocks cipher (endBlock - startBlock) (xorBlocks unit ws)) ws

/-- "Process all blocks in the buffer": the while loop, at most `fuel` times. -/
def dataUnits (cipher secondary : Bytes → Bytes) :
    (fuel : Nat) → (dataUnitNo : UInt64) → (startBlock remainingBlocks : Nat) → Bytes → Bytes
  | 0, _, _, _, buf => buf
  | fuel + 1, dataUnitNo, startBlock, remainingBlocks, buf =>
    if remainingBlocks = 0 then buf
    else
      let endBlock := if remainingBlocks < blocksPerXtsDataUnit then startBlock + remainingBlocks
        else blocksPerXtsDataUnit
      let countBlock := endBlock - startBlock
      let len := countBlock * bytesPerXtsBlock
      dataUnit cipher secondary dataUnitNo startBlock endBlock (buf.take len) ++
        dataUnits cipher secondary fuel (dataUnitNo + 1) 0 (remainingBlocks - countBlock)
          (buf.drop len)

/-- The body `EncryptBufferXTS` and `DecryptBufferXTS` share; `none` is the fatal exception. The
    loop ends, so a fuel of one per block is enough of it. -/
def dataUnitsXTS (cipher secondary : Bytes → Bytes) (sectorOffset : UInt64) (buffer : Bytes)
    (startDataUnitNo : UInt64) (startCipherBlockNo : Nat) : Option Bytes :=
  if buffer.length % bytesPerXtsBlock ≠ 0 then none
  else
    let remainingBlocks := buffer.length / bytesPerXtsBlock
    some (dataUnits cipher secondary remainingBlocks (startDataUnitNo + sectorOffset)
      startCipherBlockNo remainingBlocks buffer)

/-! ## The mode -/

/-- A block cipher under a key: a bijection on the blocks of 16 bytes. -/
structure KeyedCipher where
  encryptBlock : Bytes → Bytes
  decryptBlock : Bytes → Bytes
  length_encryptBlock : ∀ b, b.length = 16 → (encryptBlock b).length = 16
  length_decryptBlock : ∀ b, b.length = 16 → (decryptBlock b).length = 16
  decrypt_encrypt : ∀ b, b.length = 16 → decryptBlock (encryptBlock b) = b
  encrypt_decrypt : ∀ b, b.length = 16 → encryptBlock (decryptBlock b) = b

def encryptBufferXTS (cipher secondaryCipher : KeyedCipher) (sectorOffset : UInt64)
    (buffer : Bytes) (startDataUnitNo : UInt64) (startCipherBlockNo : Nat) : Option Bytes :=
  dataUnitsXTS cipher.encryptBlock secondaryCipher.encryptBlock sectorOffset buffer
    startDataUnitNo startCipherBlockNo

def decryptBufferXTS (cipher secondaryCipher : KeyedCipher) (sectorOffset : UInt64)
    (buffer : Bytes) (startDataUnitNo : UInt64) (startCipherBlockNo : Nat) : Option Bytes :=
  dataUnitsXTS cipher.decryptBlock secondaryCipher.encryptBlock sectorOffset buffer
    startDataUnitNo startCipherBlockNo

/-- `EncryptionModeXTS`: `Ciphers` beside `SecondaryCiphers`, which are as many. -/
structure EncryptionModeXTS where
  ciphers : List (KeyedCipher × KeyedCipher)
  sectorOffset : UInt64

namespace EncryptionModeXTS

/-- `EncryptionModeXTS::EncryptBuffer` -/
def encryptBuffer (m : EncryptionModeXTS) (data : Bytes) (startDataUnitNo : UInt64) :
    Option Bytes :=
  m.ciphers.foldlM (fun d (c, c2) => encryptBufferXTS c c2 m.sectorOffset d startDataUnitNo 0) data

/-- `EncryptionModeXTS::DecryptBuffer`: both lists from their ends. -/
def decryptBuffer (m : EncryptionModeXTS) (data : Bytes) (startDataUnitNo : UInt64) :
    Option Bytes :=
  m.ciphers.reverse.foldlM
    (fun d (c, c2) => decryptBufferXTS c c2 m.sectorOffset d startDataUnitNo 0) data

end EncryptionModeXTS

/-! ## Doubling -/

section
variable {w : WhiteningValue} {b : Bytes}

/-- A word has its top bit set from 2^63 on. -/
theorem top_bit_iff (x : UInt64) : x &&& 0x8000000000000000 ≠ 0 ↔ 2 ^ 63 ≤ x.toNat := by
  have hlt := x.toNat_lt
  have hand : (x &&& 0x8000000000000000).toNat = (x.toNat.testBit 63).toNat * 2 ^ 63 := by
    rw [UInt64.toNat_and]
    exact Nat.and_two_pow x.toNat 63
  rw [ne_eq, ← UInt64.toNat_inj, hand, Nat.testBit_eq_decide_div_mod_eq]
  by_cases htop : 2 ^ 63 ≤ x.toNat
  · have hdiv : x.toNat / 2 ^ 63 % 2 = 1 := by omega
    rw [hdiv]
    exact iff_of_true (by decide) htop
  · have hdiv : x.toNat / 2 ^ 63 % 2 = 0 := by omega
    rw [hdiv]
    exact iff_of_false (by decide) htop

@[simp] theorem WhiteningValue.length_bytes (w : WhiteningValue) : w.bytes.length = 16 := by
  rw [bytes, List.length_append, length_leBytes, length_leBytes]

theorem WhiteningValue.leNat_bytes (w : WhiteningValue) :
    leNat w.bytes = w.lo.toNat + 2 ^ 64 * w.hi.toNat := by
  have hlo := w.lo.toNat_lt
  have hhi := w.hi.toNat_lt
  rw [bytes, leNat_append, leNat_leBytes, leNat_leBytes, length_leBytes,
    Nat.mod_eq_of_lt (by omega), Nat.mod_eq_of_lt (by omega)]
  norm_num

theorem WhiteningValue.bytes_ofBytes (h : b.length = 16) : (ofBytes b).bytes = b := by
  have hlo : (slice b 0 8).length = 8 := length_slice (by omega)
  have hhi : (slice b 8 8).length = 8 := length_slice (by omega)
  have hloLt := leNat_lt (slice b 0 8)
  have hhiLt := leNat_lt (slice b 8 8)
  rw [hlo] at hloLt
  rw [hhi] at hhiLt
  have hloBack : (UInt64.ofNat (leNat (slice b 0 8))).toNat = leNat (slice b 0 8) := by
    rw [UInt64.toNat_ofNat']
    exact Nat.mod_eq_of_lt (by norm_num at hloLt ⊢; exact hloLt)
  have hhiBack : (UInt64.ofNat (leNat (slice b 8 8))).toNat = leNat (slice b 8 8) := by
    rw [UInt64.toNat_ofNat']
    exact Nat.mod_eq_of_lt (by norm_num at hhiLt ⊢; exact hhiLt)
  have hloBytes := leBytes_leNat (slice b 0 8)
  have hhiBytes := leBytes_leNat (slice b 8 8)
  rw [hlo] at hloBytes
  rw [hhi] at hhiBytes
  rw [bytes, ofBytes, hloBack, hhiBack, hloBytes, hhiBytes]
  simp only [slice, List.drop_zero]
  rw [List.take_of_length_le (l := b.drop 8) (by rw [List.length_drop]; omega),
    List.take_append_drop]

/-- A xor of less than a byte stays in the lowest byte. -/
theorem xor_low (n : Nat) {r : Nat} (hr : r < 256) :
    n ^^^ r = (n % 256 ^^^ r) + 256 * (n / 256) := by
  have hmod : (n ^^^ r) % 2 ^ 8 = n % 2 ^ 8 ^^^ r % 2 ^ 8 := Nat.xor_mod_two_pow
  have hdiv : (n ^^^ r) / 2 ^ 8 = n / 2 ^ 8 ^^^ r / 2 ^ 8 := Nat.xor_div_two_pow
  have hr0 : r / 2 ^ 8 = 0 := by omega
  have hrm : r % 2 ^ 8 = r := by omega
  rw [hr0, Nat.xor_zero] at hdiv
  rw [hrm] at hmod
  norm_num at hmod hdiv
  omega

theorem leNat_modifyHead (h : b ≠ []) : leNat (b.modifyHead (· ^^^ 135)) = leNat b ^^^ 135 := by
  cases b with
  | nil => exact absurd rfl h
  | cons x b =>
    have hx := x.toNat_lt
    have hmod : leNat (x :: b) % 256 = x.toNat := by
      rw [leNat]
      omega
    have hdiv : leNat (x :: b) / 256 = leNat b := by
      rw [leNat]
      omega
    rw [xor_low _ (by decide), hmod, hdiv, List.modifyHead_cons, leNat, UInt8.toNat_xor]
    rfl

/-- The number doubled in GF(2^128): what a carry takes out of the top comes back as 135. -/
theorem leNat_nextWhitening (h : b.length = 16) :
    leNat (nextWhitening b) =
      if leNat b < 2 ^ 127 then 2 * leNat b else (2 * leNat b - 2 ^ 128) ^^^ 135 := by
  have hlt := leNat_lt b
  rw [h] at hlt
  have hdouble : leNat (leBytes bytesPerXtsBlock (2 * leNat b)) = 2 * leNat b % 256 ^ 16 :=
    leNat_leBytes _ _
  unfold nextWhitening
  by_cases hsmall : leNat b < 2 ^ 127
  · rw [if_pos hsmall, if_pos hsmall, hdouble]
    norm_num at hsmall ⊢
    omega
  · have hmod : 2 * leNat b % 256 ^ 16 = 2 * leNat b - 2 ^ 128 := by
      norm_num at hsmall hlt ⊢
      omega
    have hne : leBytes bytesPerXtsBlock (2 * leNat b) ≠ [] := by
      intro hnil
      have hlen := congrArg List.length hnil
      rw [length_leBytes] at hlen
      exact absurd hlen (by decide)
    rw [if_neg hsmall, if_neg hsmall, leNat_modifyHead hne, hdouble, hmod]

/-- **The two words are doubled as the source means them to be.** -/
theorem WhiteningValue.bytes_next (w : WhiteningValue) : w.next.bytes = nextWhitening w.bytes := by
  have hlo := w.lo.toNat_lt
  have hhi := w.hi.toNat_lt
  apply leNat_inj (by rw [length_bytes, length_nextWhitening])
  have hloShift : (w.lo <<< 1).toNat = 2 * w.lo.toNat % 2 ^ 64 := by
    rw [UInt64.toNat_shiftLeft]
    simp [Nat.shiftLeft_eq, Nat.mul_comm]
  have hhiShift : (w.hi <<< 1).toNat = 2 * w.hi.toNat % 2 ^ 64 := by
    rw [UInt64.toNat_shiftLeft]
    simp [Nat.shiftLeft_eq, Nat.mul_comm]
  have heven : (w.hi <<< 1).toNat ||| 1 = (w.hi <<< 1).toNat + 1 := by
    rw [hhiShift]
    have h2 : 2 * w.hi.toNat % 2 ^ 64 = 2 ^ 1 * (w.hi.toNat % 2 ^ 63) := by omega
    rw [h2]
    exact (Nat.two_pow_add_eq_or_of_lt (by decide) _).symm
  have hcarry : w.next.hi.toNat = 2 * w.hi.toNat % 2 ^ 64 + w.lo.toNat / 2 ^ 63 := by
    unfold next
    by_cases htop : w.lo &&& 0x8000000000000000 ≠ 0
    · have hge := (top_bit_iff w.lo).mp htop
      have hdiv : w.lo.toNat / 2 ^ 63 = 1 := by omega
      simp only [if_pos htop]
      rw [UInt64.toNat_or, hdiv, ← hhiShift]
      exact heven
    · have hlt : w.lo.toNat < 2 ^ 63 := Nat.lt_of_not_le (mt (top_bit_iff w.lo).mpr htop)
      have hdiv : w.lo.toNat / 2 ^ 63 = 0 := by omega
      simp only [if_neg htop, hdiv, hhiShift, Nat.add_zero]
  rw [leNat_bytes, leNat_nextWhitening (length_bytes w), leNat_bytes, hcarry]
  by_cases htop : w.hi &&& 0x8000000000000000 ≠ 0
  · have hge := (top_bit_iff w.hi).mp htop
    have hbig : ¬ w.lo.toNat + 2 ^ 64 * w.hi.toNat < 2 ^ 127 := by omega
    have hloNext : w.next.lo.toNat = 2 * w.lo.toNat % 2 ^ 64 ^^^ 135 := by
      unfold next
      simp only [if_pos htop]
      rw [UInt64.toNat_xor, hloShift]
      rfl
    have hlow : (2 * (w.lo.toNat + 2 ^ 64 * w.hi.toNat) - 2 ^ 128) % 256 =
        2 * w.lo.toNat % 2 ^ 64 % 256 := by omega
    rw [if_neg hbig, hloNext, xor_low (2 * w.lo.toNat % 2 ^ 64) (by decide),
      xor_low (2 * (w.lo.toNat + 2 ^ 64 * w.hi.toNat) - 2 ^ 128) (by decide), hlow]
    omega
  · have hlt : w.hi.toNat < 2 ^ 63 := Nat.lt_of_not_le (mt (top_bit_iff w.hi).mpr htop)
    have hsmall : w.lo.toNat + 2 ^ 64 * w.hi.toNat < 2 ^ 127 := by omega
    have hloNext : w.next.lo.toNat = 2 * w.lo.toNat % 2 ^ 64 := by
      unfold next
      simp only [if_neg htop]
      rw [UInt64.toNat_xor, hloShift]
      exact Nat.xor_zero _
    rw [if_pos hsmall, hloNext]
    omega

end

/-! ## The loop computes the mode block by block -/

section
variable {cipher secondary : Bytes → Bytes}

/-- The values a unit's blocks are whitened with, from its first. -/
theorem whiteningValues_eq (k block : Nat) (w : WhiteningValue) :
    (whiteningValues 0 k block w).map WhiteningValue.bytes =
      (List.range k).map (fun j => nextWhitening^[j] w.bytes) := by
  induction k generalizing block w with
  | zero => rfl
  | succ k ih =>
    rw [whiteningValues, if_pos (Nat.zero_le block), List.map_cons, ih, List.range_succ_eq_map,
      List.map_cons, List.map_map, WhiteningValue.bytes_next]
    rfl

theorem xorBytes_append {a a' c c' : Bytes} (h : a.length = c.length) :
    xorBytes (a ++ a') (c ++ c') = xorBytes a c ++ xorBytes a' c' := by
  unfold xorBytes
  exact List.zipWith_append h

/-- Whitening a run of blocks, ciphering them and whitening them again goes block by block. -/
theorem whiten_cipherBlocks (hc : ∀ b, b.length = 16 → (cipher b).length = 16)
    {bs ws : List Bytes} (hb : ∀ b ∈ bs, b.length = 16) (hw : ∀ w ∈ ws, w.length = 16)
    (hlen : bs.length = ws.length) :
    xorBytes (cipherBlocks cipher bs.length (xorBytes bs.flatten ws.flatten)) ws.flatten =
      (List.zipWith (fun b w => xorBytes (cipher (xorBytes b w)) w) bs ws).flatten := by
  induction bs generalizing ws with
  | nil => rfl
  | cons b bs ih =>
    cases ws with
    | nil => exact absurd hlen (by simp)
    | cons w ws =>
      have hb16 : b.length = 16 := hb b (by simp)
      have hw16 : w.length = 16 := hw w (by simp)
      have hin : (xorBytes b w).length = 16 := by rw [length_xorBytes (by omega), hb16]
      have hin' : (xorBytes b w).length = bytesPerXtsBlock := hin
      have hout := hc _ hin
      have hrest := @ih ws (fun c hm => hb c (by simp [hm])) (fun c hm => hw c (by simp [hm]))
        (by simpa using hlen)
      rw [List.flatten_cons, List.flatten_cons, xorBytes_append (by omega), List.length_cons,
        cipherBlocks, List.take_left' hin', List.drop_left' hin', xorBytes_append (by omega),
        hrest, List.zipWith_cons_cons, List.flatten_cons]

theorem zipWith_map_range {α β γ : Type _} (f : α → β → γ) (g : Nat → β) (l : List α) :
    List.zipWith f l ((List.range l.length).map g) = l.mapIdx (fun i a => f a (g i)) := by
  apply List.ext_getElem?
  intro i
  rw [List.getElem?_zipWith, List.getElem?_mapIdx, List.getElem?_map]
  by_cases hi : i < l.length
  · rw [List.getElem?_range hi, List.getElem?_eq_getElem hi]
    rfl
  · rw [List.getElem?_eq_none (by omega)]
    rfl

/-- One block of a data unit. -/
def unitBlock (cipher secondary : Bytes → Bytes) (dataUnitNo : UInt64) (j : Nat) (b : Bytes) :
    Bytes :=
  let w := whitening secondary dataUnitNo j
  xorBytes (cipher (xorBytes b w)) w

/-- The blocks behind `u` whole units are those of a buffer that starts there. -/
theorem xtsBlock_add_units (n : UInt64) (u i : Nat) (b : Bytes) :
    xtsBlock cipher secondary n (blocksPerXtsDataUnit * u + i) b =
      xtsBlock cipher secondary (n + UInt64.ofNat u) i b := by
  have hdiv : (blocksPerXtsDataUnit * u + i) / blocksPerXtsDataUnit =
      u + i / blocksPerXtsDataUnit := Nat.mul_add_div (by decide) u i
  have hmod : (blocksPerXtsDataUnit * u + i) % blocksPerXtsDataUnit = i % blocksPerXtsDataUnit :=
    Nat.mul_add_mod _ _ _
  unfold xtsBlock
  rw [hdiv, hmod, UInt64.ofNat_add, UInt64.add_assoc]

/-- The blocks of the first unit. -/
theorem xtsBlock_of_lt (n : UInt64) {j : Nat} (hj : j < blocksPerXtsDataUnit) (b : Bytes) :
    xtsBlock cipher secondary n j b = unitBlock cipher secondary n j b := by
  unfold xtsBlock
  rw [Nat.div_eq_of_lt hj, Nat.mod_eq_of_lt hj]
  have hn : n + UInt64.ofNat 0 = n := UInt64.add_zero n
  rw [hn]
  rfl

/-- A buffer of blocks, cut behind `k` of them. -/
theorem take_drop_flatten {bs : List Bytes} (h : ∀ b ∈ bs, b.length = 16) {k : Nat}
    (hk : k ≤ bs.length) :
    bs.flatten.take (k * bytesPerXtsBlock) = (bs.take k).flatten ∧
      bs.flatten.drop (k * bytesPerXtsBlock) = (bs.drop k).flatten := by
  have hlen : (bs.take k).flatten.length = k * bytesPerXtsBlock := by
    have hin : ∀ b ∈ bs.take k, b.length = 16 := fun b hb => h b (List.mem_of_mem_take hb)
    rw [length_flatten_const hin, List.length_take, Nat.min_eq_left hk]
    rfl
  have hsplit : bs.flatten = (bs.take k).flatten ++ (bs.drop k).flatten := by
    rw [← List.flatten_append, List.take_append_drop]
  rw [hsplit]
  exact ⟨List.take_left' hlen, List.drop_left' hlen⟩

variable (hc : ∀ b, b.length = 16 → (cipher b).length = 16)
  (hs : ∀ b, b.length = 16 → (secondary b).length = 16)
include hs

theorem length_first_of_block (n : UInt64) : (firstWhitening secondary n).length = 16 := by
  rw [firstWhitening, hs]
  rw [List.length_append, length_leBytes, List.length_replicate]

theorem length_whitening_of_block (n : UInt64) (j : Nat) :
    (whitening secondary n j).length = 16 := by
  cases j with
  | zero => exact length_first_of_block hs n
  | succ j =>
    rw [whitening, Function.iterate_succ_apply']
    exact length_nextWhitening _

include hc

/-- **A data unit**, block by block. -/
theorem dataUnit_flatten (n : UInt64) {bs : List Bytes} (hbs : ∀ b ∈ bs, b.length = 16) :
    dataUnit cipher secondary n 0 bs.length bs.flatten =
      (bs.mapIdx (unitBlock cipher secondary n)).flatten := by
  have hws := whiteningValues_eq bs.length 0
    (WhiteningValue.ofBytes (firstWhitening secondary n))
  rw [WhiteningValue.bytes_ofBytes (length_first_of_block hs n)] at hws
  have hlen : ∀ w ∈ (List.range bs.length).map (whitening secondary n), w.length = 16 := by
    intro w hw
    obtain ⟨j, -, rfl⟩ := List.mem_map.mp hw
    exact length_whitening_of_block hs n j
  have hcount : bs.length = ((List.range bs.length).map (whitening secondary n)).length := by simp
  have hblocks := whiten_cipherBlocks hc hbs hlen hcount
  rw [zipWith_map_range] at hblocks
  unfold dataUnit xorBlocks
  simp only [hws, Nat.sub_zero]
  exact hblocks

/-- **The loop over data units computes the mode block by block**, whatever the length of the
    last unit. -/
theorem dataUnits_flatten {bs : List Bytes} (hbs : ∀ b ∈ bs, b.length = 16) {fuel : Nat}
    (hfuel : bs.length ≤ fuel) (n : UInt64) :
    dataUnits cipher secondary fuel n 0 bs.length bs.flatten =
      (bs.mapIdx (xtsBlock cipher secondary n)).flatten := by
  induction fuel generalizing bs n with
  | zero =>
    have hnil : bs = [] := List.eq_nil_of_length_eq_zero (Nat.le_zero.mp hfuel)
    rw [hnil]
    rfl
  | succ fuel ih =>
    by_cases hz : bs.length = 0
    · rw [List.eq_nil_of_length_eq_zero hz]
      rfl
    -- the blocks of this unit: all that are left, or a full unit
    obtain ⟨k, hk, hkpos, hkle, hklast⟩ : ∃ k, (if bs.length < blocksPerXtsDataUnit then
        0 + bs.length else blocksPerXtsDataUnit) = k ∧ 0 < k ∧ k ≤ bs.length ∧
        (k = blocksPerXtsDataUnit ∨ k < blocksPerXtsDataUnit ∧ bs.length ≤ k) := by
      have h32 : blocksPerXtsDataUnit = 32 := rfl
      by_cases hlt : bs.length < blocksPerXtsDataUnit
      · exact ⟨bs.length, by rw [if_pos hlt, Nat.zero_add], by omega, Nat.le_refl _,
          Or.inr ⟨hlt, Nat.le_refl _⟩⟩
      · exact ⟨blocksPerXtsDataUnit, if_neg hlt, by decide, by omega, Or.inl rfl⟩
    obtain ⟨htake, hdrop⟩ := take_drop_flatten hbs hkle
    have hhead : ∀ b ∈ bs.take k, b.length = 16 := fun b hb => hbs b (List.mem_of_mem_take hb)
    have htail : ∀ b ∈ bs.drop k, b.length = 16 := fun b hb => hbs b (List.mem_of_mem_drop hb)
    have hlenTake : (bs.take k).length = k := by rw [List.length_take, Nat.min_eq_left hkle]
    have hunit := dataUnit_flatten hc hs n hhead
    have hrest := ih htail (by rw [List.length_drop]; omega) (n + 1)
    rw [hlenTake] at hunit
    rw [List.length_drop] at hrest
    have hfirst : (bs.take k).mapIdx (xtsBlock cipher secondary n) =
        (bs.take k).mapIdx (unitBlock cipher secondary n) := by
      apply List.ext_getElem?
      intro i
      rw [List.getElem?_mapIdx, List.getElem?_mapIdx]
      by_cases hi : i < k
      · exact Option.map_congr (fun b _ => xtsBlock_of_lt n (by omega) b)
      · rw [List.getElem?_eq_none (by omega)]
        rfl
    have hlater : (bs.drop k).mapIdx (fun i => xtsBlock cipher secondary n (i + k)) =
        (bs.drop k).mapIdx (xtsBlock cipher secondary (n + 1)) := by
      rcases hklast with h32 | ⟨-, hall⟩
      · have hshift : (fun i => xtsBlock cipher secondary n (i + k)) =
            xtsBlock cipher secondary (n + 1) := by
          funext i b
          have hunits := @xtsBlock_add_units cipher secondary n 1 i b
          rw [Nat.mul_one] at hunits
          rw [h32, Nat.add_comm, hunits]
          rfl
        rw [hshift]
      · rw [List.drop_of_length_le hall]
        rfl
    have hmap : bs.mapIdx (xtsBlock cipher secondary n) =
        (bs.take k).mapIdx (unitBlock cipher secondary n) ++
          (bs.drop k).mapIdx (xtsBlock cipher secondary (n + 1)) := by
      conv_lhs => rw [← List.take_append_drop k bs]
      rw [List.mapIdx_append, hlenTake, hfirst, hlater]
    unfold dataUnits
    simp only [if_neg hz, hk, Nat.sub_zero, htake, hdrop, hunit, hrest]
    rw [hmap, List.flatten_append]

end

/-! ## The mode of the model before -/

section

theorem flatten_xtsBlocksOf {data : Bytes} (h : data.length % bytesPerXtsBlock = 0) :
    (xtsBlocksOf data).flatten = data := by
  have hin : ∀ b ∈ xtsBlocksOf data, b.length = bytesPerXtsBlock :=
    fun b hb => length_of_mem_xtsBlocksOf hb
  have hlen : (xtsBlocksOf data).flatten.length = data.length := by
    rw [length_flatten_const hin, length_xtsBlocksOf,
      Nat.div_mul_cancel (Nat.dvd_of_mod_eq_zero h)]
  refine eq_of_slices_eq (n := bytesPerXtsBlock) (by decide) hlen (by rw [hlen]; exact h) (fun i hi => ?_)
  rw [hlen] at hi
  have hi' : i < (xtsBlocksOf data).length := by rwa [length_xtsBlocksOf]
  have hget := getElem?_xtsBlocksOf data i
  rw [if_pos hi, List.getElem?_eq_getElem hi'] at hget
  have hslice := slice_flatten hin [] hi'
  rw [List.append_nil, Option.some.inj hget] at hslice
  exact hslice

theorem bufferXTS_eq_mapIdx {cipher secondary : Bytes → Bytes} {data : Bytes}
    (h : data.length % bytesPerXtsBlock = 0) (n : UInt64) :
    bufferXTS cipher secondary data n =
      some ((xtsBlocksOf data).mapIdx (xtsBlock cipher secondary n)).flatten := by
  have hblocks : xtsBlocks cipher secondary n 0 [] (xtsBlocksOf data) =
      (xtsBlocksOf data).mapIdx (xtsBlock cipher secondary n) := by
    apply List.ext_getElem?
    intro i
    rw [getElem?_xtsBlocks (by decide) (fun h0 => absurd rfl h0), List.getElem?_mapIdx,
      Nat.zero_add]
  unfold bufferXTS
  rw [if_neg (by simpa using h), hblocks]

/-- A block function, left alone where it is not given a block. -/
def onBlock (f : Bytes → Bytes) (b : Bytes) : Bytes := if b.length = 16 then f b else b

theorem onBlock_of_length {f : Bytes → Bytes} {b : Bytes} (h : b.length = 16) :
    onBlock f b = f b := if_pos h

theorem length_onBlock {f : Bytes → Bytes} (h : ∀ b, b.length = 16 → (f b).length = 16)
    (b : Bytes) : (onBlock f b).length = b.length := by
  unfold onBlock
  by_cases hb : b.length = 16
  · rw [if_pos hb, h b hb, hb]
  · rw [if_neg hb]

theorem onBlock_onBlock {f g : Bytes → Bytes} (hf : ∀ b, b.length = 16 → (f b).length = 16)
    (h : ∀ b, b.length = 16 → g (f b) = b) (b : Bytes) : onBlock g (onBlock f b) = b := by
  by_cases hb : b.length = 16
  · rw [onBlock_of_length hb, onBlock_of_length (hf b hb), h b hb]
  · unfold onBlock
    rw [if_neg hb, if_neg hb]

variable {cipher secondary : Bytes → Bytes} (hc : ∀ b, b.length = 16 → (cipher b).length = 16)
  (hs : ∀ b, b.length = 16 → (secondary b).length = 16)
include hs

theorem xtsBlock_onBlock (n : UInt64) (i : Nat) {b : Bytes} (hb : b.length = 16) :
    xtsBlock (onBlock cipher) (onBlock secondary) n i b = xtsBlock cipher secondary n i b := by
  have hfirst : ∀ m, firstWhitening (onBlock secondary) m = firstWhitening secondary m := by
    intro m
    unfold firstWhitening
    rw [onBlock_of_length (by rw [List.length_append, length_leBytes, List.length_replicate])]
  have hwhite : ∀ m j, whitening (onBlock secondary) m j = whitening secondary m j := by
    intro m j
    unfold whitening
    rw [hfirst]
  have hw := length_whitening_of_block hs (n + UInt64.ofNat (i / blocksPerXtsDataUnit))
    (i % blocksPerXtsDataUnit)
  unfold xtsBlock
  simp only [hwhite]
  rw [onBlock_of_length (by rw [length_xorBytes (by rw [hb, hw]), hb])]

theorem bufferXTS_onBlock (data : Bytes) (n : UInt64) :
    bufferXTS (onBlock cipher) (onBlock secondary) data n = bufferXTS cipher secondary data n := by
  by_cases hwhole : data.length % bytesPerXtsBlock = 0
  · have hmap : (xtsBlocksOf data).mapIdx (xtsBlock (onBlock cipher) (onBlock secondary) n) =
        (xtsBlocksOf data).mapIdx (xtsBlock cipher secondary n) := by
      apply List.ext_getElem?
      intro i
      rw [List.getElem?_mapIdx, List.getElem?_mapIdx]
      exact Option.map_congr (fun b hb =>
        xtsBlock_onBlock hs n i (length_of_mem_xtsBlocksOf (List.mem_of_getElem? hb)))
    rw [bufferXTS_eq_mapIdx hwhole, bufferXTS_eq_mapIdx hwhole, hmap]
  · unfold bufferXTS
    rw [if_pos hwhole, if_pos hwhole]

include hc

/-- **The source's loop is the mode**: data unit by data unit it computes what the block by
    block model computes. -/
theorem dataUnitsXTS_eq (sectorOffset : UInt64) (data : Bytes) (n : UInt64) :
    dataUnitsXTS cipher secondary sectorOffset data n 0 =
      bufferXTS cipher secondary data (n + sectorOffset) := by
  by_cases hwhole : data.length % bytesPerXtsBlock = 0
  · have hin : ∀ b ∈ xtsBlocksOf data, b.length = 16 := fun b hb => length_of_mem_xtsBlocksOf hb
    have hloop := dataUnits_flatten hc hs hin (Nat.le_refl _) (n + sectorOffset)
    rw [flatten_xtsBlocksOf hwhole, length_xtsBlocksOf] at hloop
    unfold dataUnitsXTS
    rw [if_neg (by simpa using hwhole), bufferXTS_eq_mapIdx hwhole]
    exact congrArg some hloop
  · unfold dataUnitsXTS bufferXTS
    rw [if_pos hwhole, if_pos hwhole]

end

/-! ## GF(2^128) -/

open Polynomial in
/-- The modulus of the field, `x^128 + x^7 + x^2 + x + 1`. -/
@[irreducible] noncomputable def xtsModulus : (ZMod 2)[X] := X ^ 128 + X ^ 7 + X ^ 2 + X + 1

/-- GF(2^128) as the mode has it. -/
abbrev Gf128 : Type := AdjoinRoot xtsModulus

/-- The element the mode doubles with. -/
noncomputable def alpha : Gf128 := AdjoinRoot.root xtsModulus

/-- The element a whitening value stands for: its bits, lowest first, are the coefficients. -/
noncomputable def gf128 (w : Bytes) : Gf128 := evalBits alpha 128 (leNat w)

theorem degree_xtsModulus : xtsModulus.degree = 128 := by
  unfold xtsModulus
  compute_degree!

/-- 135 is what the 128th power of `α` comes back as. -/
theorem evalBits_135 : evalBits alpha 128 135 = alpha ^ 128 := by
  have hroot := AdjoinRoot.mk_self (f := xtsModulus)
  have hsum : alpha ^ 128 + alpha ^ 7 + alpha ^ 2 + alpha + 1 = 0 := by
    have hmk : AdjoinRoot.mk xtsModulus xtsModulus =
        alpha ^ 128 + alpha ^ 7 + alpha ^ 2 + alpha + 1 := by
      conv_lhs => arg 2; unfold xtsModulus
      simp only [map_add, map_pow, AdjoinRoot.mk_X, map_one]
      rfl
    rw [← hmk, hroot]
  have hbits : evalBits alpha 8 135 = alpha ^ 7 + alpha ^ 2 + alpha + 1 := by
    simp only [evalBits]
    norm_num
    ring
  have hself := add_self_of_algebra (alpha ^ 128)
  rw [evalBits_of_lt_of_le alpha (m := 8) (by decide) (by decide), hbits]
  linear_combination hsum - hself

theorem leNat_lt_128 {w : Bytes} (h : w.length = 16) : leNat w < 2 ^ 128 := by
  have hpow : (256 : Nat) ^ 16 = 2 ^ 128 := by norm_num
  have hlt := leNat_lt w
  rwa [h, hpow] at hlt

theorem gf128_nextWhitening {w : Bytes} (h : w.length = 16) :
    gf128 (nextWhitening w) = alpha * gf128 w := by
  unfold gf128
  rw [leNat_nextWhitening h, ← evalBits_shift alpha evalBits_135 (leNat_lt_128 h) (by decide)]

/-- Whitening values are told apart in GF(2^128). -/
theorem gf128_inj {w w' : Bytes} (h : w.length = 16) (h' : w'.length = 16)
    (heq : gf128 w = gf128 w') : w = w' := by
  apply leNat_inj (h.trans h'.symm)
  exact evalBits_root_inj degree_xtsModulus (leNat_lt_128 h) (leNat_lt_128 h') heq

/-- **Block `j` of data unit `n` is whitened with `E_K2(n) * α^j`.** -/
theorem gf128_whitening {secondary : Bytes → Bytes}
    (hs : ∀ b, b.length = 16 → (secondary b).length = 16) (n : UInt64) (j : Nat) :
    gf128 (whitening secondary n j) = gf128 (firstWhitening secondary n) * alpha ^ j := by
  induction j with
  | zero => rw [pow_zero, mul_one]; rfl
  | succ j ih =>
    have hnext : whitening secondary n (j + 1) = nextWhitening (whitening secondary n j) :=
      Function.iterate_succ_apply' nextWhitening j _
    rw [hnext, gf128_nextWhitening (length_whitening_of_block hs n j), ih, pow_succ]
    ring

/-! ## Cutting a buffer -/

theorem xtsBlocksOf_append {a b : Bytes} (ha : a.length % bytesPerXtsBlock = 0) :
    xtsBlocksOf (a ++ b) = xtsBlocksOf a ++ xtsBlocksOf b := by
  have h16 : bytesPerXtsBlock = 16 := rfl
  have hlen : (xtsBlocksOf a).length * bytesPerXtsBlock = a.length := by
    rw [length_xtsBlocksOf, Nat.div_mul_cancel (Nat.dvd_of_mod_eq_zero ha)]
  apply List.ext_getElem?
  intro i
  rw [getElem?_xtsBlocksOf, List.length_append]
  by_cases hi : i < (xtsBlocksOf a).length
  · have hend : i * bytesPerXtsBlock + bytesPerXtsBlock ≤ a.length := by
      rw [h16] at hlen ⊢
      omega
    have hin : i < (a.length + b.length) / bytesPerXtsBlock := by
      rw [h16] at hend ⊢
      omega
    have hin' : i < a.length / bytesPerXtsBlock := by rwa [length_xtsBlocksOf] at hi
    rw [List.getElem?_append_left hi, getElem?_xtsBlocksOf, if_pos hin, if_pos hin',
      slice_append_left hend]
  · have hstart : i * bytesPerXtsBlock - a.length =
        (i - (xtsBlocksOf a).length) * bytesPerXtsBlock := by
      rw [Nat.sub_mul, hlen]
    have hle : a.length ≤ i * bytesPerXtsBlock := by
      rw [h16] at hlen ⊢
      omega
    have hcount : i < (a.length + b.length) / bytesPerXtsBlock ↔
        i - (xtsBlocksOf a).length < b.length / bytesPerXtsBlock := by
      rw [h16] at hlen ⊢
      omega
    rw [List.getElem?_append_right (by omega), getElem?_xtsBlocksOf, slice_append_right hle, hstart]
    simp only [hcount]

theorem bufferXTS_append {cipher secondary : Bytes → Bytes} {a b : Bytes}
    (ha : a.length % encryptionDataUnitSize.toNat = 0) (hb : b.length % bytesPerXtsBlock = 0)
    (n : UInt64) :
    ∃ outA outB, bufferXTS cipher secondary a n = some outA ∧
      bufferXTS cipher secondary b
        (n + UInt64.ofNat (a.length / encryptionDataUnitSize.toNat)) = some outB ∧
      bufferXTS cipher secondary (a ++ b) n = some (outA ++ outB) := by
  have h16 : bytesPerXtsBlock = 16 := rfl
  have h512 : encryptionDataUnitSize.toNat = 512 := rfl
  have haw : a.length % bytesPerXtsBlock = 0 := by
    rw [h512] at ha
    rw [h16]
    omega
  have habw : (a ++ b).length % bytesPerXtsBlock = 0 := by
    rw [List.length_append, Nat.add_mod, haw, hb]
    rfl
  refine ⟨_, _, bufferXTS_eq_mapIdx haw n, bufferXTS_eq_mapIdx hb _, ?_⟩
  have hcount : (xtsBlocksOf a).length =
      blocksPerXtsDataUnit * (a.length / encryptionDataUnitSize.toNat) := by
    have h32 : blocksPerXtsDataUnit = 32 := rfl
    rw [length_xtsBlocksOf, h16, h512, h32]
    rw [h512] at ha
    omega
  have hshift : (fun i => xtsBlock cipher secondary n (i + (xtsBlocksOf a).length)) =
      xtsBlock cipher secondary
        (n + UInt64.ofNat (a.length / encryptionDataUnitSize.toNat)) := by
    funext i c
    rw [hcount, Nat.add_comm, xtsBlock_add_units]
  rw [bufferXTS_eq_mapIdx habw, xtsBlocksOf_append haw, List.mapIdx_append, List.flatten_append,
    hshift]

/-! ## The cascade -/

section
variable (c c2 : KeyedCipher) (sectorOffset n : UInt64)

theorem encryptBufferXTS_eq (data : Bytes) :
    encryptBufferXTS c c2 sectorOffset data n 0 =
      bufferXTS (onBlock c.encryptBlock) (onBlock c2.encryptBlock) data (n + sectorOffset) := by
  rw [bufferXTS_onBlock c2.length_encryptBlock]
  exact dataUnitsXTS_eq c.length_encryptBlock c2.length_encryptBlock sectorOffset data n

theorem decryptBufferXTS_eq (data : Bytes) :
    decryptBufferXTS c c2 sectorOffset data n 0 =
      bufferXTS (onBlock c.decryptBlock) (onBlock c2.encryptBlock) data (n + sectorOffset) := by
  rw [bufferXTS_onBlock c2.length_encryptBlock]
  exact dataUnitsXTS_eq c.length_decryptBlock c2.length_encryptBlock sectorOffset data n

/-- One cipher of the cascade, there and back. -/
theorem encryptBufferXTS_roundtrip {data : Bytes} (h : data.length % bytesPerXtsBlock = 0) :
    ∃ out, encryptBufferXTS c c2 sectorOffset data n 0 = some out ∧ out.length = data.length ∧
      decryptBufferXTS c c2 sectorOffset out n 0 = some data := by
  have hc := length_onBlock c.length_encryptBlock
  have hs := length_onBlock c2.length_encryptBlock
  obtain ⟨out, hout⟩ := bufferXTS_isSome (onBlock c.encryptBlock) (onBlock c2.encryptBlock) h
    (n + sectorOffset)
  refine ⟨out, by rw [encryptBufferXTS_eq, hout], length_bufferXTS hc hs hout, ?_⟩
  rw [decryptBufferXTS_eq]
  exact bufferXTS_bufferXTS hc (length_onBlock c.length_decryptBlock) hs
    (onBlock_onBlock c.length_encryptBlock c.decrypt_encrypt) hout

/-- The mode's whitening, for either direction. -/
theorem slice_dataUnitsXTS {cipher : Bytes → Bytes}
    (hc : ∀ b, b.length = 16 → (cipher b).length = 16) {data out : Bytes}
    (h : dataUnitsXTS cipher c2.encryptBlock sectorOffset data n 0 = some out) {i : Nat}
    (hi : i < data.length / bytesPerXtsBlock) :
    ∃ w : Bytes, w.length = 16 ∧
      gf128 w = gf128 (firstWhitening c2.encryptBlock
          (n + sectorOffset + UInt64.ofNat (i / blocksPerXtsDataUnit))) *
        alpha ^ (i % blocksPerXtsDataUnit) ∧
      slice out (i * bytesPerXtsBlock) bytesPerXtsBlock =
        xorBytes (cipher (xorBytes (slice data (i * bytesPerXtsBlock) bytesPerXtsBlock) w)) w := by
  have hs := c2.length_encryptBlock
  refine ⟨_, length_whitening_of_block hs _ _, gf128_whitening hs _ _, ?_⟩
  rw [dataUnitsXTS_eq hc hs, ← bufferXTS_onBlock hs] at h
  have hb : (slice data (i * bytesPerXtsBlock) bytesPerXtsBlock).length = 16 := by
    apply length_slice
    have hmul := Nat.mul_le_mul_right bytesPerXtsBlock (Nat.succ_le_of_lt hi)
    have hdiv := Nat.div_mul_le_self data.length bytesPerXtsBlock
    rw [Nat.succ_mul] at hmul
    omega
  rw [slice_bufferXTS (length_onBlock hc) (length_onBlock hs) h hi, xtsBlock_onBlock hs _ i hb]
  rfl

end

namespace EncryptionModeXTS

variable (m : EncryptionModeXTS)

/-- Every cascade encrypts whole blocks, and decrypting undoes it. -/
theorem decryptBuffer_encryptBuffer {data : Bytes} (h : data.length % bytesPerXtsBlock = 0)
    (n : UInt64) :
    ∃ out, m.encryptBuffer data n = some out ∧ out.length = data.length ∧
      m.decryptBuffer out n = some data := by
  unfold encryptBuffer decryptBuffer
  generalize m.ciphers = cs
  induction cs generalizing data with
  | nil => exact ⟨data, rfl, rfl, rfl⟩
  | cons p cs ih =>
    obtain ⟨c, c2⟩ := p
    obtain ⟨mid, hmid, hlen, hback⟩ := encryptBufferXTS_roundtrip c c2 m.sectorOffset n h
    obtain ⟨out, hout, hlenOut, hrest⟩ := ih (by rw [hlen]; exact h)
    refine ⟨out, Option.bind_eq_some_iff.mpr ⟨mid, hmid, hout⟩, hlenOut.trans hlen, ?_⟩
    -- the last cipher to encrypt is the first to decrypt
    rw [List.reverse_cons, List.foldlM_append, hrest]
    simp only [Option.bind_eq_bind, Option.bind_some, List.foldlM_cons, List.foldlM_nil, hback]
    rfl

/-- **A buffer can be cut at any unit boundary**, for every cascade. -/
theorem encryptBuffer_append {a b : Bytes} (ha : a.length % encryptionDataUnitSize.toNat = 0)
    (hb : b.length % bytesPerXtsBlock = 0) (n : UInt64) :
    ∃ outA outB, m.encryptBuffer a n = some outA ∧
      m.encryptBuffer b (n + UInt64.ofNat (a.length / encryptionDataUnitSize.toNat)) =
        some outB ∧
      m.encryptBuffer (a ++ b) n = some (outA ++ outB) := by
  unfold encryptBuffer
  generalize m.ciphers = cs
  induction cs generalizing a b with
  | nil => exact ⟨a, b, rfl, rfl, rfl⟩
  | cons p cs ih =>
    obtain ⟨c, c2⟩ := p
    obtain ⟨midA, midB, hA, hB, hAB⟩ := @bufferXTS_append (onBlock c.encryptBlock)
      (onBlock c2.encryptBlock) a b ha hb (n + m.sectorOffset)
    have hlenA := length_bufferXTS (length_onBlock c.length_encryptBlock)
      (length_onBlock c2.length_encryptBlock) hA
    have hlenB := length_bufferXTS (length_onBlock c.length_encryptBlock)
      (length_onBlock c2.length_encryptBlock) hB
    have hunit : n + m.sectorOffset + UInt64.ofNat (a.length / encryptionDataUnitSize.toNat) =
        n + UInt64.ofNat (a.length / encryptionDataUnitSize.toNat) + m.sectorOffset := by
      rw [UInt64.add_assoc, UInt64.add_assoc, UInt64.add_comm m.sectorOffset]
    rw [hunit] at hB
    obtain ⟨outA, outB, hA', hB', hAB'⟩ := ih (a := midA) (b := midB) (by rw [hlenA]; exact ha)
      (by rw [hlenB]; exact hb)
    rw [hlenA] at hB'
    rw [← encryptBufferXTS_eq] at hA hB hAB
    exact ⟨outA, outB, Option.bind_eq_some_iff.mpr ⟨midA, hA, hA'⟩,
      Option.bind_eq_some_iff.mpr ⟨midB, hB, hB'⟩, Option.bind_eq_some_iff.mpr ⟨_, hAB, hAB'⟩⟩

/-- **XTS mode**, for every cascade of bijections on blocks and every start unit: decrypting
    undoes encrypting; either direction whitens block `j` of unit `n` with `E_K2(n) * α^j`; and
    a buffer encrypts as its parts do when it is cut at a unit boundary, the unit number going
    on behind the cut. -/
theorem xtsMode_correct :
    (∀ (data : Bytes) (n : UInt64), data.length % bytesPerXtsBlock = 0 →
      ∃ out, m.encryptBuffer data n = some out ∧ out.length = data.length ∧
        m.decryptBuffer out n = some data) ∧
    (∀ p ∈ m.ciphers, ∀ (data : Bytes) (n : UInt64),
      data.length % bytesPerXtsBlock = 0 →
      ∃ enc dec, encryptBufferXTS p.1 p.2 m.sectorOffset data n 0 = some enc ∧
        decryptBufferXTS p.1 p.2 m.sectorOffset data n 0 = some dec ∧
        ∀ i, i < data.length / bytesPerXtsBlock →
          ∃ w : Bytes, w.length = 16 ∧
            gf128 w = gf128 (p.2.encryptBlock
                (leBytes 8 (n + m.sectorOffset +
                  UInt64.ofNat (i / blocksPerXtsDataUnit)).toNat ++ List.replicate 8 0)) *
              alpha ^ (i % blocksPerXtsDataUnit) ∧
            slice enc (i * bytesPerXtsBlock) bytesPerXtsBlock =
              xorBytes (p.1.encryptBlock (xorBytes
                (slice data (i * bytesPerXtsBlock) bytesPerXtsBlock) w)) w ∧
            slice dec (i * bytesPerXtsBlock) bytesPerXtsBlock =
              xorBytes (p.1.decryptBlock (xorBytes
                (slice data (i * bytesPerXtsBlock) bytesPerXtsBlock) w)) w) ∧
    (∀ (a b : Bytes) (n : UInt64), a.length % encryptionDataUnitSize.toNat = 0 →
      b.length % bytesPerXtsBlock = 0 →
      ∃ outA outB, m.encryptBuffer a n = some outA ∧
        m.encryptBuffer b (n + UInt64.ofNat (a.length / encryptionDataUnitSize.toNat)) =
          some outB ∧
        m.encryptBuffer (a ++ b) n = some (outA ++ outB)) := by
  refine ⟨fun data n h => m.decryptBuffer_encryptBuffer h n, ?_,
    fun a b n ha hb => m.encryptBuffer_append ha hb n⟩
  rintro ⟨c, c2⟩ - data n h
  obtain ⟨enc, henc, -, -⟩ := encryptBufferXTS_roundtrip c c2 m.sectorOffset n h
  obtain ⟨dec, hdec⟩ := bufferXTS_isSome (onBlock c.decryptBlock) (onBlock c2.encryptBlock) h
    (n + m.sectorOffset)
  rw [← decryptBufferXTS_eq] at hdec
  refine ⟨enc, dec, henc, hdec, fun i hi => ?_⟩
  obtain ⟨w, hw, hgf, hsliceE⟩ := slice_dataUnitsXTS c2 m.sectorOffset n c.length_encryptBlock henc
    hi
  obtain ⟨w', hw', hgf', hsliceD⟩ := slice_dataUnitsXTS c2 m.sectorOffset n c.length_decryptBlock
    hdec hi
  -- both directions whiten with the value of the place
  have hsame : w' = w := gf128_inj hw' hw (hgf'.trans hgf.symm)
  rw [hsame] at hsliceD
  exact ⟨w, hw, hgf, hsliceE, hsliceD⟩

end EncryptionModeXTS

/-! ## The mode of an encryption algorithm -/

/-- A cipher of the cascade under its key. -/
def Ciphers.keyed (C : Ciphers) (c : Cipher) (key : Bytes) : KeyedCipher where
  encryptBlock := C.encryptBlock c key
  decryptBlock := C.decryptBlock c key
  length_encryptBlock b h := (C.length_encryptBlock c key b).trans h
  length_decryptBlock b h := (C.length_decryptBlock c key b).trans h
  decrypt_encrypt b _ := C.decrypt_encrypt c key b
  encrypt_decrypt b _ := C.encrypt_decrypt c key b

/-- `EncryptionAlgorithm::GetMode`: its ciphers beside their secondaries. -/
def EncryptionAlgorithm.mode (C : Ciphers) (ea : EncryptionAlgorithm) : EncryptionModeXTS where
  ciphers := ea.keyed.map (fun (c, k, k2) => (C.keyed c k, C.keyed c k2))
  sectorOffset := ea.sectorOffset

/-- **The volume's own encryption is this loop.** -/
theorem EncryptionAlgorithm.mode_encryptBuffer (C : Ciphers) (ea : EncryptionAlgorithm)
    (data : Bytes) (n : UInt64) :
    (ea.mode C).encryptBuffer data n = ea.encryptBuffer C data n := by
  unfold EncryptionModeXTS.encryptBuffer EncryptionAlgorithm.encryptBuffer mode
  generalize ea.keyed = ks
  induction ks generalizing data with
  | nil => rfl
  | cons ck ks ih =>
    obtain ⟨c, k, k2⟩ := ck
    have hstep : encryptBufferXTS (C.keyed c k) (C.keyed c k2) ea.sectorOffset data n 0 =
        bufferXTS (C.encryptBlock c k) (C.encryptBlock c k2) data (n + ea.sectorOffset) :=
      dataUnitsXTS_eq (C.keyed c k).length_encryptBlock (C.keyed c k2).length_encryptBlock _ _ _
    simp only [List.map_cons, List.foldlM_cons, hstep]
    exact congrArg _ (funext (fun mid => ih mid))

namespace XtsDemo

/-- A cipher that xors one byte onto every byte of a block. -/
def cipher (k : UInt8) : KeyedCipher where
  encryptBlock b := b.map (· ^^^ k)
  decryptBlock b := b.map (· ^^^ k)
  length_encryptBlock b h := by rw [List.length_map, h]
  length_decryptBlock b h := by rw [List.length_map, h]
  decrypt_encrypt b _ := map_xor_map_xor k b
  encrypt_decrypt b _ := map_xor_map_xor k b

def mode : EncryptionModeXTS where
  ciphers := [(cipher 1, cipher 2), (cipher 3, cipher 4)]
  sectorOffset := 0

/-- A data unit of zeros. -/
def unit : Bytes := List.replicate 512 0

theorem length_unit : unit.length = 512 := List.length_replicate

theorem xtsMode_correct_demo :
    (∃ out, mode.encryptBuffer (List.replicate 48 0) 7 = some out ∧ out.length = 48 ∧
      mode.decryptBuffer out 7 = some (List.replicate 48 0)) ∧
    ∃ outA outB, mode.encryptBuffer unit 7 = some outA ∧
      mode.encryptBuffer (List.replicate 16 0)
        (7 + UInt64.ofNat (unit.length / encryptionDataUnitSize.toNat)) = some outB ∧
      mode.encryptBuffer (unit ++ List.replicate 16 0) 7 = some (outA ++ outB) :=
  ⟨mode.xtsMode_correct.1 (List.replicate 48 0) 7 (by decide),
    mode.xtsMode_correct.2.2 unit (List.replicate 16 0) 7 (by rw [length_unit]; rfl) (by decide)⟩

end XtsDemo

end VeraCrypt
