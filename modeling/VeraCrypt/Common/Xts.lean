import VeraCrypt.Volume.XtsDataUnits

/-!
# XTS mode in C (`Common/Xts.c`)

Three variants of one mode, each for either direction. `Parallel` generates the whitening values of
a data unit first and ciphers the unit in one call; `NonParallel` goes block by block with a value
kept in two words of 64 bits; the one for compilers without them keeps it in four of 32 and the
number of the data unit in two.

All three may start inside a data unit, and take the end of the first one from the number of blocks
left, without regard to where in the unit they start. A buffer of less than a data unit that
reaches into the next is therefore whitened as if the first had more blocks than it has: `output`
says what every variant computes, and `variants_meet_iff` when that is the mode.
-/

set_option autoImplicit false

namespace VeraCrypt

open Lib

namespace Xts

/-! ## The whitening value in four words -/

/-- `whiteningValue` as `EncryptDecryptBufferXTS32` sees it. -/
structure WhiteningValue32 where
  w0 : UInt32
  w1 : UInt32
  w2 : UInt32
  w3 : UInt32

namespace WhiteningValue32

def bytes (w : WhiteningValue32) : Bytes :=
  leBytes 4 w.w0.toNat ++ leBytes 4 w.w1.toNat ++ leBytes 4 w.w2.toNat ++ leBytes 4 w.w3.toNat

def ofBytes (b : Bytes) : WhiteningValue32 where
  w0 := UInt32.ofNat (leNat (slice b 0 4))
  w1 := UInt32.ofNat (leNat (slice b 4 4))
  w2 := UInt32.ofNat (leNat (slice b 8 4))
  w3 := UInt32.ofNat (leNat (slice b 12 4))

/-- A word shifted, and the carry of the one below it. -/
def shiftIn (below word : UInt32) : UInt32 :=
  if below &&& 0x80000000 ≠ 0 then word <<< 1 ||| 1 else word <<< 1

/-- "Derive the next whitening value", from the highest word to the lowest. -/
def next (w : WhiteningValue32) : WhiteningValue32 :=
  let finalCarry : UInt32 := if w.w3 &&& 0x80000000 ≠ 0 then 135 else 0
  { w3 := shiftIn w.w2 w.w3
    w2 := shiftIn w.w1 w.w2
    w1 := shiftIn w.w0 w.w1
    w0 := w.w0 <<< 1 ^^^ finalCarry }

end WhiteningValue32

/-! ## Data units -/

/-- The data unit of `EncryptBufferXTSParallel`. `none` is a write behind `whiteningValues`, which
    has room for the blocks of one data unit. -/
def unitParallel (cipher secondary : Bytes → Bytes) (dataUnitNo : UInt64)
    (startBlock endBlock : Nat) (unit : Bytes) : Option Bytes :=
  let first := WhiteningValue.ofBytes (firstWhitening secondary dataUnitNo)
  if blocksPerXtsDataUnit < (whiteningValues startBlock endBlock 0 first).length then none
  else some (dataUnit cipher secondary dataUnitNo startBlock endBlock unit)

/-- The blocks of a data unit one by one, `k` of them still to go, for a whitening value of either
    kind: those before `startBlock` are stepped over. -/
def blocksOneByOne {V : Type} (bytes : V → Bytes) (next : V → V) (cipher : Bytes → Bytes)
    (startBlock : Nat) : (k block : Nat) → V → Bytes → Bytes
  | 0, _, _, buf => buf
  | k + 1, block, w, buf =>
    if block ≥ startBlock then
      xorBytes (cipher (xorBytes (buf.take bytesPerXtsBlock) (bytes w))) (bytes w) ++
        blocksOneByOne bytes next cipher startBlock k (block + 1) (next w)
          (buf.drop bytesPerXtsBlock)
    else blocksOneByOne bytes next cipher startBlock k (block + 1) (next w) buf

/-- The data unit of `EncryptBufferXTSNonParallel`. -/
def unitNonParallel (cipher secondary : Bytes → Bytes) (dataUnitNo : UInt64)
    (startBlock endBlock : Nat) (unit : Bytes) : Option Bytes :=
  some (blocksOneByOne WhiteningValue.bytes WhiteningValue.next cipher startBlock endBlock 0
    (WhiteningValue.ofBytes (firstWhitening secondary dataUnitNo)) unit)

/-- `UINT64_STRUCT` -/
structure Uint64Struct where
  highPart : UInt32
  lowPart : UInt32

namespace Uint64Struct

def ofUInt64 (n : UInt64) : Uint64Struct where
  highPart := UInt32.ofNat (n.toNat / 2 ^ 32)
  lowPart := UInt32.ofNat n.toNat

/-- "Increase the data unit number by one" -/
def increased (n : Uint64Struct) : Uint64Struct :=
  let lowPart := n.lowPart + 1
  if lowPart = 0 then { highPart := n.highPart + 1, lowPart } else { n with lowPart }

/-- `Uint64ToLE16ByteArray` -/
def toLE16ByteArray (n : Uint64Struct) : Bytes :=
  leBytes 4 n.lowPart.toNat ++ leBytes 4 n.highPart.toNat ++ List.replicate 8 0

end Uint64Struct

/-- The data unit of `EncryptDecryptBufferXTS32`. -/
def unit32 (cipher secondary : Bytes → Bytes) (dataUnitNo : Uint64Struct)
    (startBlock endBlock : Nat) (unit : Bytes) : Option Bytes :=
  some (blocksOneByOne WhiteningValue32.bytes WhiteningValue32.next cipher startBlock endBlock 0
    (WhiteningValue32.ofBytes (secondary dataUnitNo.toLE16ByteArray)) unit)

/-! ## Buffers -/

/-- "Process all blocks in the buffer", for a data unit and a number of either kind: the while loop,
    at most `fuel` times. -/
def dataUnitLoop {N : Type} (increased : N → N) (unit : N → Nat → Nat → Bytes → Option Bytes) :
    (fuel : Nat) → (dataUnitNo : N) → (startBlock blockCount : Nat) → Bytes → Option Bytes
  | 0, _, _, _, buf => some buf
  | fuel + 1, dataUnitNo, startBlock, blockCount, buf =>
    if blockCount = 0 then some buf
    else do
      let endBlock := if blockCount < blocksPerXtsDataUnit then startBlock + blockCount
        else blocksPerXtsDataUnit
      let countBlock := endBlock - startBlock
      let len := countBlock * bytesPerXtsBlock
      let done ← unit dataUnitNo startBlock endBlock (buf.take len)
      let rest ← dataUnitLoop increased unit fuel (increased dataUnitNo) 0
        (blockCount - countBlock) (buf.drop len)
      pure (done ++ rest)

/-- The bodies of `EncryptBufferXTSParallel` and `DecryptBufferXTSParallel`, which differ in
    `cipher`. `none` is the fatal exception on a length that is no multiple of the block, or a write
    out of bounds. The loop ends, so a fuel of one per block is enough of it. -/
def bufferXTSParallel (cipher secondary : Bytes → Bytes) (buffer : Bytes)
    (startDataUnitNo : UInt64) (startCipherBlockNo : Nat) : Option Bytes :=
  if buffer.length % bytesPerXtsBlock ≠ 0 then none
  else
    let remainingBlocks := buffer.length / bytesPerXtsBlock
    dataUnitLoop (· + 1) (unitParallel cipher secondary) remainingBlocks startDataUnitNo
      startCipherBlockNo remainingBlocks buffer

def bufferXTSNonParallel (cipher secondary : Bytes → Bytes) (buffer : Bytes)
    (startDataUnitNo : UInt64) (startCipherBlockNo : Nat) : Option Bytes :=
  if buffer.length % bytesPerXtsBlock ≠ 0 then none
  else
    let blockCount := buffer.length / bytesPerXtsBlock
    dataUnitLoop (· + 1) (unitNonParallel cipher secondary) blockCount startDataUnitNo
      startCipherBlockNo blockCount buffer

/-- `EncryptDecryptBufferXTS32`, which does not test the length. -/
def bufferXTS32 (cipher secondary : Bytes → Bytes) (buffer : Bytes) (startDataUnitNo : UInt64)
    (startBlock : Nat) : Option Bytes :=
  let blockCount := buffer.length / bytesPerXtsBlock
  dataUnitLoop Uint64Struct.increased (unit32 cipher secondary) blockCount
    (Uint64Struct.ofUInt64 startDataUnitNo) startBlock blockCount buffer

def encryptBufferXTSParallel (ks ks2 : KeyedCipher) :=
  bufferXTSParallel ks.encryptBlock ks2.encryptBlock

def decryptBufferXTSParallel (ks ks2 : KeyedCipher) :=
  bufferXTSParallel ks.decryptBlock ks2.encryptBlock

def encryptBufferXTSNonParallel (ks ks2 : KeyedCipher) :=
  bufferXTSNonParallel ks.encryptBlock ks2.encryptBlock

def decryptBufferXTSNonParallel (ks ks2 : KeyedCipher) :=
  bufferXTSNonParallel ks.decryptBlock ks2.encryptBlock

/-- `EncryptDecryptBufferXTS32` -/
def encryptDecryptBufferXTS32 (ks ks2 : KeyedCipher) (decryption : Bool) :=
  bufferXTS32 (if decryption then ks.decryptBlock else ks.encryptBlock) ks2.encryptBlock

/-! ## The words and what they hold -/

section

theorem top_bit32_iff (x : UInt32) : x &&& 0x80000000 ≠ 0 ↔ 2 ^ 31 ≤ x.toNat := by
  have hlt := x.toNat_lt
  have hand : (x &&& 0x80000000).toNat = (x.toNat.testBit 31).toNat * 2 ^ 31 := by
    rw [UInt32.toNat_and]
    exact Nat.and_two_pow x.toNat 31
  rw [ne_eq, ← UInt32.toNat_inj, hand, Nat.testBit_eq_decide_div_mod_eq]
  by_cases htop : 2 ^ 31 ≤ x.toNat
  · have hdiv : x.toNat / 2 ^ 31 % 2 = 1 := by omega
    rw [hdiv]
    exact iff_of_true (by decide) htop
  · have hdiv : x.toNat / 2 ^ 31 % 2 = 0 := by omega
    rw [hdiv]
    exact iff_of_false (by decide) htop

theorem toNat_shift32 (x : UInt32) : (x <<< 1).toNat = 2 * x.toNat % 2 ^ 32 := by
  rw [UInt32.toNat_shiftLeft]
  simp [Nat.shiftLeft_eq, Nat.mul_comm]

namespace WhiteningValue32

theorem toNat_shiftIn (below word : UInt32) :
    (shiftIn below word).toNat = 2 * word.toNat % 2 ^ 32 + below.toNat / 2 ^ 31 := by
  have hbelow := below.toNat_lt
  have hshift := toNat_shift32 word
  unfold shiftIn
  by_cases htop : below &&& 0x80000000 ≠ 0
  · have hge := (top_bit32_iff below).mp htop
    have hdiv : below.toNat / 2 ^ 31 = 1 := by omega
    have heven : 2 * word.toNat % 2 ^ 32 = 2 ^ 1 * (word.toNat % 2 ^ 31) := by omega
    rw [if_pos htop, UInt32.toNat_or, hdiv, hshift, heven]
    exact (Nat.two_pow_add_eq_or_of_lt (by decide) _).symm
  · have hlt : below.toNat < 2 ^ 31 := Nat.lt_of_not_le (mt (top_bit32_iff below).mpr htop)
    have hdiv : below.toNat / 2 ^ 31 = 0 := by omega
    rw [if_neg htop, hshift, hdiv, Nat.add_zero]

@[simp] theorem length_bytes (w : WhiteningValue32) : w.bytes.length = 16 := by
  simp [bytes]

theorem leNat_bytes (w : WhiteningValue32) :
    leNat w.bytes =
      w.w0.toNat + 2 ^ 32 * w.w1.toNat + 2 ^ 64 * w.w2.toNat + 2 ^ 96 * w.w3.toNat := by
  simp only [bytes, leNat_append, leNat_leBytes, List.length_append, length_leBytes]
  norm_num

/-- **The four words are doubled as the source means them to be.** -/
theorem bytes_next (w : WhiteningValue32) : w.next.bytes = nextWhitening w.bytes := by
  have h0 := w.w0.toNat_lt
  have h1 := w.w1.toNat_lt
  have h2 := w.w2.toNat_lt
  have h3 := w.w3.toNat_lt
  have hw1 : w.next.w1.toNat = _ := toNat_shiftIn w.w0 w.w1
  have hw2 : w.next.w2.toNat = _ := toNat_shiftIn w.w1 w.w2
  have hw3 : w.next.w3.toNat = _ := toNat_shiftIn w.w2 w.w3
  have hshift := toNat_shift32 w.w0
  apply leNat_inj (by rw [length_bytes, length_nextWhitening])
  rw [leNat_bytes, leNat_nextWhitening (length_bytes w), leNat_bytes, hw1, hw2, hw3]
  by_cases htop : w.w3 &&& 0x80000000 ≠ 0
  · have hge := (top_bit32_iff w.w3).mp htop
    have hbig : ¬ w.w0.toNat + 2 ^ 32 * w.w1.toNat + 2 ^ 64 * w.w2.toNat + 2 ^ 96 * w.w3.toNat <
        2 ^ 127 := by omega
    have hw0 : w.next.w0.toNat = 2 * w.w0.toNat % 2 ^ 32 ^^^ 135 := by
      unfold next
      simp only [if_pos htop]
      rw [UInt32.toNat_xor, hshift]
      rfl
    have hlow : (2 * (w.w0.toNat + 2 ^ 32 * w.w1.toNat + 2 ^ 64 * w.w2.toNat +
        2 ^ 96 * w.w3.toNat) - 2 ^ 128) % 256 = 2 * w.w0.toNat % 2 ^ 32 % 256 := by omega
    rw [if_neg hbig, hw0, xor_low (2 * w.w0.toNat % 2 ^ 32) (by decide),
      xor_low (2 * (w.w0.toNat + 2 ^ 32 * w.w1.toNat + 2 ^ 64 * w.w2.toNat +
        2 ^ 96 * w.w3.toNat) - 2 ^ 128) (by decide), hlow]
    omega
  · have hlt : w.w3.toNat < 2 ^ 31 := Nat.lt_of_not_le (mt (top_bit32_iff w.w3).mpr htop)
    have hsmall : w.w0.toNat + 2 ^ 32 * w.w1.toNat + 2 ^ 64 * w.w2.toNat + 2 ^ 96 * w.w3.toNat <
        2 ^ 127 := by omega
    have hw0 : w.next.w0.toNat = 2 * w.w0.toNat % 2 ^ 32 := by
      unfold next
      simp only [if_neg htop]
      rw [UInt32.toNat_xor, hshift]
      exact Nat.xor_zero _
    rw [if_pos hsmall, hw0]
    omega

theorem bytes_ofBytes {b : Bytes} (h : b.length = 16) : (ofBytes b).bytes = b := by
  have hword : ∀ off, off + 4 ≤ 16 →
      leBytes 4 (UInt32.ofNat (leNat (slice b off 4))).toNat = slice b off 4 := by
    intro off hoff
    have hlen : (slice b off 4).length = 4 := length_slice (by omega)
    have hlt := leNat_lt (slice b off 4)
    rw [hlen] at hlt
    have hback : (UInt32.ofNat (leNat (slice b off 4))).toNat = leNat (slice b off 4) := by
      rw [UInt32.toNat_ofNat']
      exact Nat.mod_eq_of_lt (by norm_num at hlt ⊢; exact hlt)
    have hbytes := leBytes_leNat (slice b off 4)
    rw [hlen] at hbytes
    rw [hback, hbytes]
  rw [bytes, ofBytes, hword 0 (by decide), hword 4 (by decide), hword 8 (by decide),
    hword 12 (by decide)]
  apply List.ext_getElem?
  intro i
  simp only [slice]
  grind

end WhiteningValue32

namespace Uint64Struct

/-- The number that the two halves are. -/
def value (n : Uint64Struct) : UInt64 := UInt64.ofNat (n.lowPart.toNat + 2 ^ 32 * n.highPart.toNat)

theorem toNat_value (n : Uint64Struct) :
    n.value.toNat = n.lowPart.toNat + 2 ^ 32 * n.highPart.toNat := by
  have hlow := n.lowPart.toNat_lt
  have hhigh := n.highPart.toNat_lt
  rw [value, UInt64.toNat_ofNat']
  exact Nat.mod_eq_of_lt (by omega)

theorem value_ofUInt64 (n : UInt64) : (ofUInt64 n).value = n := by
  have hlt := n.toNat_lt
  apply UInt64.toNat_inj.mp
  rw [toNat_value, ofUInt64]
  simp only [UInt32.toNat_ofNat']
  omega

theorem value_increased (n : Uint64Struct) : n.increased.value = n.value + 1 := by
  have hlow := n.lowPart.toNat_lt
  have hhigh := n.highPart.toNat_lt
  apply UInt64.toNat_inj.mp
  have hone : (1 : UInt64).toNat = 1 := rfl
  rw [UInt64.toNat_add, toNat_value, toNat_value, hone]
  have hsum : (n.lowPart + 1).toNat = (n.lowPart.toNat + 1) % 2 ^ 32 := UInt32.toNat_add _ _
  unfold increased
  by_cases hwrap : n.lowPart + 1 = 0
  · have hzero : (n.lowPart + 1).toNat = 0 := by
      rw [hwrap]
      rfl
    have hcarry : (n.highPart + 1).toNat = (n.highPart.toNat + 1) % 2 ^ 32 := UInt32.toNat_add _ _
    simp only [if_pos hwrap, hcarry, hzero]
    norm_num
    omega
  · have hne : (n.lowPart + 1).toNat ≠ 0 := fun hz => hwrap (UInt32.toNat_inj.mp hz)
    simp only [if_neg hwrap, hsum]
    norm_num
    omega

theorem toLE16ByteArray_eq (n : Uint64Struct) :
    n.toLE16ByteArray = leBytes 8 n.value.toNat ++ List.replicate 8 0 := by
  have hlow := n.lowPart.toNat_lt
  have hhigh := n.highPart.toNat_lt
  rw [toLE16ByteArray]
  refine congrArg (· ++ List.replicate 8 0) (leNat_inj (by simp) ?_)
  rw [leNat_append, leNat_leBytes, leNat_leBytes, leNat_leBytes, length_leBytes, toNat_value]
  norm_num
  omega

end Uint64Struct

end

/-! ## A data unit, block by block -/

section

variable {cipher secondary : Bytes → Bytes}

/-- A block between its two whitenings. -/
def whitened (cipher : Bytes → Bytes) (w b : Bytes) : Bytes := xorBytes (cipher (xorBytes b w)) w

/-- The values before the first block are made and dropped. -/
theorem whiteningValues_skip (startBlock k : Nat) :
    ∀ (j block : Nat) (w : WhiteningValue), block + j = startBlock →
      whiteningValues startBlock (j + k) block w =
        whiteningValues startBlock k startBlock (WhiteningValue.next^[j] w) := by
  intro j
  induction j with
  | zero =>
    intro block w h
    rw [Nat.zero_add, show block = startBlock from h]
    rfl
  | succ j ih =>
    intro block w h
    rw [Nat.add_right_comm, whiteningValues, if_neg (by omega), ih (block + 1) w.next (by omega)]
    rfl

theorem bytes_iterate_next (j : Nat) (w : WhiteningValue) :
    (WhiteningValue.next^[j] w).bytes = nextWhitening^[j] w.bytes :=
  (Function.Semiconj.iterate_right WhiteningValue.bytes_next j).eq w

theorem whiteningValues_map (startBlock : Nat) :
    ∀ (k block : Nat) (w : WhiteningValue), startBlock ≤ block →
      (whiteningValues startBlock k block w).map WhiteningValue.bytes =
        (List.range k).map (fun j => nextWhitening^[j] w.bytes) := by
  intro k
  induction k with
  | zero => intro block w _; rfl
  | succ k ih =>
    intro block w h
    rw [whiteningValues, if_pos h, List.map_cons, ih (block + 1) w.next (by omega),
      List.range_succ_eq_map, List.map_cons, List.map_map, WhiteningValue.bytes_next]
    rfl

/-- What is stored for a unit: the values of its blocks from the first that is ciphered. -/
theorem whiteningValues_from (startBlock k : Nat) (w : WhiteningValue) :
    (whiteningValues startBlock (startBlock + k) 0 w).map WhiteningValue.bytes =
      (List.range k).map (fun j => nextWhitening^[startBlock + j] w.bytes) := by
  rw [whiteningValues_skip startBlock k startBlock 0 w (Nat.zero_add _),
    whiteningValues_map startBlock k startBlock _ (Nat.le_refl _), bytes_iterate_next]
  refine List.map_congr_left fun j _ => ?_
  rw [Nat.add_comm, Function.iterate_add_apply]

theorem length_whiteningValues (startBlock k : Nat) (w : WhiteningValue) :
    (whiteningValues startBlock (startBlock + k) 0 w).length = k := by
  have hlen := congrArg List.length (whiteningValues_from startBlock k w)
  rwa [List.length_map, List.length_map, List.length_range] at hlen

section

variable {V : Type} {bytes : V → Bytes} {next : V → V}

theorem blocksOneByOne_skip (startBlock k : Nat) (buf : Bytes) :
    ∀ (j block : Nat) (w : V), block + j = startBlock →
      blocksOneByOne bytes next cipher startBlock (j + k) block w buf =
        blocksOneByOne bytes next cipher startBlock k startBlock (next^[j] w) buf := by
  intro j
  induction j with
  | zero =>
    intro block w h
    rw [Nat.zero_add, show block = startBlock from h]
    rfl
  | succ j ih =>
    intro block w h
    rw [Nat.add_right_comm, blocksOneByOne, if_neg (by omega), ih (block + 1) (next w) (by omega)]
    rfl

theorem blocksOneByOne_flatten (hnext : ∀ w, bytes (next w) = nextWhitening (bytes w))
    (startBlock : Nat) {bs : List Bytes} (hbs : ∀ b ∈ bs, b.length = 16) :
    ∀ (block : Nat) (w : V), startBlock ≤ block →
      blocksOneByOne bytes next cipher startBlock bs.length block w bs.flatten =
        (bs.mapIdx (fun i b => whitened cipher (nextWhitening^[i] (bytes w)) b)).flatten := by
  induction bs with
  | nil => intro block w _; rfl
  | cons b bs ih =>
    intro block w h
    have hb : b.length = bytesPerXtsBlock := hbs b List.mem_cons_self
    have htail : ∀ c ∈ bs, c.length = 16 := fun c hc => hbs c (List.mem_cons_of_mem b hc)
    rw [List.length_cons, blocksOneByOne, if_pos h, List.flatten_cons, List.take_left' hb,
      List.drop_left' hb, ih htail (block + 1) (next w) (by omega), List.mapIdx_cons,
      List.flatten_cons, hnext]
    rfl

/-- A unit ciphered one by one from block `startBlock` on. -/
theorem blocksOneByOne_from (hnext : ∀ w, bytes (next w) = nextWhitening (bytes w))
    (startBlock : Nat) {bs : List Bytes} (hbs : ∀ b ∈ bs, b.length = 16) (w : V) :
    blocksOneByOne bytes next cipher startBlock (startBlock + bs.length) 0 w bs.flatten =
      (bs.mapIdx (fun i b =>
        whitened cipher (nextWhitening^[startBlock + i] (bytes w)) b)).flatten := by
  have hiter : bytes (next^[startBlock] w) = nextWhitening^[startBlock] (bytes w) :=
    (Function.Semiconj.iterate_right hnext startBlock).eq w
  rw [blocksOneByOne_skip startBlock bs.length bs.flatten startBlock 0 w (Nat.zero_add _),
    blocksOneByOne_flatten hnext startBlock hbs startBlock _ (Nat.le_refl _), hiter]
  have hplace : ∀ i, nextWhitening^[i] (nextWhitening^[startBlock] (bytes w)) =
      nextWhitening^[startBlock + i] (bytes w) := by
    intro i
    rw [Nat.add_comm, Function.iterate_add_apply]
  simp only [hplace]

end

variable (hc : ∀ b, b.length = 16 → (cipher b).length = 16)
  (hs : ∀ b, b.length = 16 → (secondary b).length = 16)
include hs

theorem unitNonParallel_flatten (n : UInt64) (startBlock : Nat) {bs : List Bytes}
    (hbs : ∀ b ∈ bs, b.length = 16) :
    unitNonParallel cipher secondary n startBlock (startBlock + bs.length) bs.flatten =
      some (bs.mapIdx (fun i => unitBlock cipher secondary n (startBlock + i))).flatten := by
  rw [unitNonParallel, blocksOneByOne_from WhiteningValue.bytes_next startBlock hbs,
    WhiteningValue.bytes_ofBytes (length_first_of_block hs n)]
  rfl

theorem unit32_flatten (n : Uint64Struct) (startBlock : Nat) {bs : List Bytes}
    (hbs : ∀ b ∈ bs, b.length = 16) :
    unit32 cipher secondary n startBlock (startBlock + bs.length) bs.flatten =
      some (bs.mapIdx (fun i => unitBlock cipher secondary n.value (startBlock + i))).flatten := by
  have hfirst : secondary n.toLE16ByteArray = firstWhitening secondary n.value := by
    rw [n.toLE16ByteArray_eq, firstWhitening]
  rw [unit32, blocksOneByOne_from WhiteningValue32.bytes_next startBlock hbs, hfirst,
    WhiteningValue32.bytes_ofBytes (length_first_of_block hs n.value)]
  rfl

include hc

theorem dataUnit_from (n : UInt64) (startBlock : Nat) {bs : List Bytes}
    (hbs : ∀ b ∈ bs, b.length = 16) :
    dataUnit cipher secondary n startBlock (startBlock + bs.length) bs.flatten =
      (bs.mapIdx (fun i => unitBlock cipher secondary n (startBlock + i))).flatten := by
  have hws := whiteningValues_from startBlock bs.length
    (WhiteningValue.ofBytes (firstWhitening secondary n))
  rw [WhiteningValue.bytes_ofBytes (length_first_of_block hs n)] at hws
  have hlen : ∀ w ∈ (List.range bs.length).map
      (fun j => whitening secondary n (startBlock + j)), w.length = 16 := by
    intro w hw
    obtain ⟨j, -, rfl⟩ := List.mem_map.mp hw
    exact length_whitening_of_block hs n (startBlock + j)
  have hblocks := whiten_cipherBlocks hc hbs hlen (by simp)
  rw [zipWith_map_range] at hblocks
  unfold dataUnit xorBlocks
  simp only [hws, Nat.add_sub_cancel_left]
  exact hblocks

/-- The values stored are as many as the blocks that are ciphered. -/
theorem unitParallel_flatten (n : UInt64) (startBlock : Nat) {bs : List Bytes}
    (hbs : ∀ b ∈ bs, b.length = 16) (hroom : bs.length ≤ blocksPerXtsDataUnit) :
    unitParallel cipher secondary n startBlock (startBlock + bs.length) bs.flatten =
      some (bs.mapIdx (fun i => unitBlock cipher secondary n (startBlock + i))).flatten := by
  rw [unitParallel, length_whiteningValues, if_neg (Nat.not_lt.mpr hroom),
    dataUnit_from hc hs n startBlock hbs]

end

/-! ## A buffer, block by block -/

section

variable {cipher secondary : Bytes → Bytes}

/-- Where the variants put block `i` of a buffer of `total` blocks: less than a data unit of them
    are all in the first one, however many it has left. -/
def placed (cipher secondary : Bytes → Bytes) (startDataUnitNo : UInt64) (startBlock total i : Nat)
    (b : Bytes) : Bytes :=
  if total < blocksPerXtsDataUnit then unitBlock cipher secondary startDataUnitNo (startBlock + i) b
  else xtsBlock cipher secondary startDataUnitNo (startBlock + i) b

/-- Where the mode has it, the two agree. -/
theorem placed_eq_xtsBlock {n : UInt64} {startBlock total i : Nat}
    (h : total < blocksPerXtsDataUnit → startBlock + i < blocksPerXtsDataUnit) (b : Bytes) :
    placed cipher secondary n startBlock total i b =
      xtsBlock cipher secondary n (startBlock + i) b := by
  unfold placed
  split
  case isTrue hshort => exact (xtsBlock_of_lt n (h hshort) b).symm
  case isFalse => rfl

theorem mapIdx_congr_of_lt {α β : Type} {f g : Nat → α → β} {l : List α}
    (h : ∀ i < l.length, ∀ a, f i a = g i a) : l.mapIdx f = l.mapIdx g := by
  apply List.ext_getElem?
  intro i
  rw [List.getElem?_mapIdx, List.getElem?_mapIdx]
  by_cases hi : i < l.length
  · exact Option.map_congr fun a _ => h i hi a
  · rw [List.getElem?_eq_none (by omega)]
    rfl

/-- A buffer of more than the rest of the first unit: that rest, and then a buffer that starts at
    the next unit. -/
theorem mapIdx_xtsBlock_split (n : UInt64) {startBlock k : Nat}
    (hk : startBlock + k = blocksPerXtsDataUnit) {bs : List Bytes} (hle : k ≤ bs.length) :
    bs.mapIdx (fun i => xtsBlock cipher secondary n (startBlock + i)) =
      (bs.take k).mapIdx (fun i => unitBlock cipher secondary n (startBlock + i)) ++
        (bs.drop k).mapIdx (fun i => placed cipher secondary (n + 1) 0 (bs.drop k).length i) := by
  have hlenTake : (bs.take k).length = k := by rw [List.length_take, Nat.min_eq_left hle]
  have hhead : (bs.take k).mapIdx (fun i => xtsBlock cipher secondary n (startBlock + i)) =
      (bs.take k).mapIdx (fun i => unitBlock cipher secondary n (startBlock + i)) :=
    mapIdx_congr_of_lt fun i hi b => xtsBlock_of_lt n (by omega) b
  have htail : (bs.drop k).mapIdx (fun i => xtsBlock cipher secondary n (startBlock + (i + k))) =
      (bs.drop k).mapIdx (fun i => placed cipher secondary (n + 1) 0 (bs.drop k).length i) := by
    refine mapIdx_congr_of_lt fun i hi b => ?_
    have hunits := @xtsBlock_add_units cipher secondary n 1 i b
    have hplace : startBlock + (i + k) = blocksPerXtsDataUnit * 1 + i := by omega
    rw [hplace, hunits, placed_eq_xtsBlock (by omega), Nat.zero_add]
    rfl
  conv_lhs => rw [← List.take_append_drop k bs]
  rw [List.mapIdx_append, hlenTake, hhead, htail]

/-- **What the loop over data units computes**, for a data unit that goes block by block. -/
theorem dataUnitLoop_flatten {N : Type} {increased : N → N}
    {unit : N → Nat → Nat → Bytes → Option Bytes} (number : N → UInt64)
    (hincreased : ∀ n, number (increased n) = number n + 1)
    (hunit : ∀ (n : N) (startBlock : Nat) (bs : List Bytes), (∀ b ∈ bs, b.length = 16) →
      bs.length ≤ blocksPerXtsDataUnit →
        unit n startBlock (startBlock + bs.length) bs.flatten = some
          (bs.mapIdx (fun i => unitBlock cipher secondary (number n) (startBlock + i))).flatten)
    (fuel : Nat) :
    ∀ (n : N) (startBlock : Nat) (bs : List Bytes), startBlock < blocksPerXtsDataUnit →
      (∀ b ∈ bs, b.length = 16) → bs.length ≤ fuel →
        dataUnitLoop increased unit fuel n startBlock bs.length bs.flatten = some
          (bs.mapIdx (placed cipher secondary (number n) startBlock bs.length)).flatten := by
  have h32 : blocksPerXtsDataUnit = 32 := rfl
  induction fuel with
  | zero =>
    intro n startBlock bs _ _ hfuel
    rw [List.eq_nil_of_length_eq_zero (Nat.le_zero.mp hfuel)]
    rfl
  | succ fuel ih =>
    intro n startBlock bs hstart hbs hfuel
    by_cases hz : bs.length = 0
    · rw [List.eq_nil_of_length_eq_zero hz]
      rfl
    -- what is left of the unit, or of the buffer where that is less than a unit
    obtain ⟨k, hend, hkpos, hkle, hcase⟩ : ∃ k,
        (if bs.length < blocksPerXtsDataUnit then startBlock + bs.length
          else blocksPerXtsDataUnit) = startBlock + k ∧ 0 < k ∧ k ≤ bs.length ∧
        (bs.length < blocksPerXtsDataUnit ∧ k = bs.length ∨
          ¬ bs.length < blocksPerXtsDataUnit ∧ startBlock + k = blocksPerXtsDataUnit) := by
      by_cases hlt : bs.length < blocksPerXtsDataUnit
      · exact ⟨bs.length, if_pos hlt, by omega, Nat.le_refl _, Or.inl ⟨hlt, rfl⟩⟩
      · exact ⟨blocksPerXtsDataUnit - startBlock, by rw [if_neg hlt]; omega, by omega, by omega,
          Or.inr ⟨hlt, by omega⟩⟩
    obtain ⟨htake, hdrop⟩ := take_drop_flatten hbs hkle
    have hhead : ∀ b ∈ bs.take k, b.length = 16 := fun b hb => hbs b (List.mem_of_mem_take hb)
    have htail : ∀ b ∈ bs.drop k, b.length = 16 := fun b hb => hbs b (List.mem_of_mem_drop hb)
    have hlenTake : (bs.take k).length = k := by rw [List.length_take, Nat.min_eq_left hkle]
    have hdone := hunit n startBlock (bs.take k) hhead (by omega)
    have hrest := ih (increased n) 0 (bs.drop k) (by decide) htail (by rw [List.length_drop]; omega)
    rw [hlenTake] at hdone
    rw [hincreased, List.length_drop] at hrest
    rw [dataUnitLoop, if_neg hz]
    simp only [hend, Nat.add_sub_cancel_left, htake, hdrop, hdone, hrest, Option.bind_eq_bind,
      Option.bind_some, Option.pure_def]
    refine congrArg some ?_
    rw [← List.flatten_append]
    refine congrArg List.flatten ?_
    rcases hcase with ⟨hlt, rfl⟩ | ⟨hge, hk⟩
    · rw [List.take_length, List.drop_length, List.mapIdx_nil, List.append_nil]
      refine mapIdx_congr_of_lt fun i hi b => ?_
      rw [placed, if_pos hlt]
    · have hsplit := @mapIdx_xtsBlock_split cipher secondary (number n) _ _ hk _ hkle
      rw [List.length_drop] at hsplit
      rw [← hsplit]
      refine mapIdx_congr_of_lt fun i hi b => ?_
      rw [placed, if_neg hge]

end

/-! ## The variants -/

section

variable {cipher secondary : Bytes → Bytes}

/-- What every variant computes. -/
def output (cipher secondary : Bytes → Bytes) (data : Bytes) (startDataUnitNo : UInt64)
    (startBlock : Nat) : Bytes :=
  ((xtsBlocksOf data).mapIdx
    (placed cipher secondary startDataUnitNo startBlock (data.length / bytesPerXtsBlock))).flatten

/-- `out` is the stream that the comment on `EncryptBufferXTS` describes: block `b` is block
    `(startBlock + b) mod 32` of data unit `start + (startBlock + b) div 32`, and block `j` of a
    unit is whitened with the encrypted number of the unit times `α^j`. -/
def XtsStream (cipher secondary : Bytes → Bytes) (data : Bytes) (startDataUnitNo : UInt64)
    (startBlock : Nat) (out : Bytes) : Prop :=
  out.length = data.length ∧
    ∀ b, b < data.length / bytesPerXtsBlock →
      ∃ w : Bytes, w.length = 16 ∧
        gf128 w = gf128 (secondary (leBytes 8 (startDataUnitNo +
            UInt64.ofNat ((startBlock + b) / blocksPerXtsDataUnit)).toNat ++
              List.replicate 8 0)) * alpha ^ ((startBlock + b) % blocksPerXtsDataUnit) ∧
        slice out (b * bytesPerXtsBlock) bytesPerXtsBlock =
          whitened cipher w (slice data (b * bytesPerXtsBlock) bytesPerXtsBlock)

/-- A call that gives the stream. -/
def Meets (cipher secondary : Bytes → Bytes) (data : Bytes) (startDataUnitNo : UInt64)
    (startBlock : Nat) (result : Option Bytes) : Prop :=
  ∃ out, result = some out ∧ XtsStream cipher secondary data startDataUnitNo startBlock out

theorem length_whitened (hc : ∀ b, b.length = 16 → (cipher b).length = 16) {w b : Bytes}
    (hw : w.length = 16) (hb : b.length = 16) : (whitened cipher w b).length = 16 := by
  have hin : (xorBytes b w).length = 16 := by rw [length_xorBytes (by omega), hb]
  rw [whitened, length_xorBytes (by rw [hc _ hin, hw]), hc _ hin]

variable (hc : ∀ b, b.length = 16 → (cipher b).length = 16)
  (hs : ∀ b, b.length = 16 → (secondary b).length = 16)
include hs

theorem bufferXTSNonParallel_eq {data : Bytes} (h : data.length % bytesPerXtsBlock = 0) (n : UInt64)
    {startBlock : Nat} (hstart : startBlock < blocksPerXtsDataUnit) :
    bufferXTSNonParallel cipher secondary data n startBlock =
      some (output cipher secondary data n startBlock) := by
  have hloop : dataUnitLoop (· + 1) (unitNonParallel cipher secondary) _ _ _ _ _ = _ :=
    dataUnitLoop_flatten id (fun _ => rfl) (fun n s bs hbs _ => unitNonParallel_flatten hs n s hbs)
    (data.length / bytesPerXtsBlock) n startBlock (xtsBlocksOf data) hstart
    (fun b hb => length_of_mem_xtsBlocksOf hb) (by rw [length_xtsBlocksOf])
  rw [length_xtsBlocksOf, flatten_xtsBlocksOf h] at hloop
  rw [bufferXTSNonParallel, if_neg (not_not.mpr h)]
  exact hloop

theorem bufferXTS32_eq {data : Bytes} (h : data.length % bytesPerXtsBlock = 0) (n : UInt64)
    {startBlock : Nat} (hstart : startBlock < blocksPerXtsDataUnit) :
    bufferXTS32 cipher secondary data n startBlock =
      some (output cipher secondary data n startBlock) := by
  have hloop : dataUnitLoop _ (unit32 cipher secondary) _ _ _ _ _ = _ :=
    dataUnitLoop_flatten Uint64Struct.value Uint64Struct.value_increased
    (fun n s bs hbs _ => unit32_flatten hs n s hbs)
    (data.length / bytesPerXtsBlock) (Uint64Struct.ofUInt64 n) startBlock (xtsBlocksOf data) hstart
    (fun b hb => length_of_mem_xtsBlocksOf hb) (by rw [length_xtsBlocksOf])
  rw [length_xtsBlocksOf, flatten_xtsBlocksOf h, Uint64Struct.value_ofUInt64] at hloop
  exact hloop

include hc

theorem bufferXTSParallel_eq {data : Bytes} (h : data.length % bytesPerXtsBlock = 0) (n : UInt64)
    {startBlock : Nat} (hstart : startBlock < blocksPerXtsDataUnit) :
    bufferXTSParallel cipher secondary data n startBlock =
      some (output cipher secondary data n startBlock) := by
  have hloop : dataUnitLoop (· + 1) (unitParallel cipher secondary) _ _ _ _ _ = _ :=
    dataUnitLoop_flatten id (fun _ => rfl)
    (fun n s bs hbs hroom => unitParallel_flatten hc hs n s hbs hroom)
    (data.length / bytesPerXtsBlock) n startBlock (xtsBlocksOf data) hstart
    (fun b hb => length_of_mem_xtsBlocksOf hb) (by rw [length_xtsBlocksOf])
  rw [length_xtsBlocksOf, flatten_xtsBlocksOf h] at hloop
  rw [bufferXTSParallel, if_neg (not_not.mpr h)]
  exact hloop

theorem length_placed (n : UInt64) (startBlock total i : Nat) {b : Bytes} (hb : b.length = 16) :
    (placed cipher secondary n startBlock total i b).length = 16 := by
  unfold placed
  split
  · exact length_whitened hc (length_whitening_of_block hs _ _) hb
  · exact length_whitened hc (length_whitening_of_block hs _ _) hb

theorem length_of_mem_output (n : UInt64) (startBlock total : Nat) (data : Bytes) :
    ∀ o ∈ (xtsBlocksOf data).mapIdx (placed cipher secondary n startBlock total),
      o.length = 16 := by
  intro o ho
  obtain ⟨i, hi, rfl⟩ := List.mem_mapIdx.mp ho
  exact length_placed hc hs n startBlock total i (length_of_mem_xtsBlocksOf (List.getElem_mem hi))

theorem length_output {data : Bytes} (h : data.length % bytesPerXtsBlock = 0) (n : UInt64)
    (startBlock : Nat) : (output cipher secondary data n startBlock).length = data.length := by
  rw [output, length_flatten_const (length_of_mem_output hc hs n startBlock _ data),
    List.length_mapIdx, length_xtsBlocksOf]
  exact Nat.div_mul_cancel (Nat.dvd_of_mod_eq_zero h)

theorem slice_output (data : Bytes) (n : UInt64) (startBlock : Nat) {b : Nat}
    (hb : b < data.length / bytesPerXtsBlock) :
    slice (output cipher secondary data n startBlock) (b * bytesPerXtsBlock) bytesPerXtsBlock =
      placed cipher secondary n startBlock (data.length / bytesPerXtsBlock) b
        (slice data (b * bytesPerXtsBlock) bytesPerXtsBlock) := by
  have hlen : b < ((xtsBlocksOf data).mapIdx (placed cipher secondary n startBlock
      (data.length / bytesPerXtsBlock))).length := by
    rwa [List.length_mapIdx, length_xtsBlocksOf]
  have hslice := slice_flatten (n := bytesPerXtsBlock)
    (length_of_mem_output hc hs n startBlock (data.length / bytesPerXtsBlock) data) [] hlen
  have hget := getElem?_xtsBlocksOf data b
  rw [if_pos hb] at hget
  obtain ⟨hb', hget⟩ := List.getElem?_eq_some_iff.mp hget
  rw [List.append_nil] at hslice
  rw [output, hslice, List.getElem_mapIdx, hget]

/-- The output is the stream where each of its blocks has the place of the mode. -/
theorem xtsStream_output {data : Bytes} (h : data.length % bytesPerXtsBlock = 0) (n : UInt64)
    {startBlock : Nat} (hplace : ∀ b, b < data.length / bytesPerXtsBlock →
      data.length / bytesPerXtsBlock < blocksPerXtsDataUnit →
        startBlock + b < blocksPerXtsDataUnit) :
    XtsStream cipher secondary data n startBlock (output cipher secondary data n startBlock) := by
  refine ⟨length_output hc hs h n startBlock, fun b hb => ?_⟩
  refine ⟨_, length_whitening_of_block hs _ _, gf128_whitening hs _ _, ?_⟩
  rw [slice_output hc hs data n startBlock hb, placed_eq_xtsBlock (hplace b hb)]
  rfl

/-- Of every buffer the output back. -/
theorem output_output {decipher : Bytes → Bytes}
    (hd : ∀ b, b.length = 16 → (decipher b).length = 16)
    (hinv : ∀ b, b.length = 16 → decipher (cipher b) = b) {data : Bytes}
    (h : data.length % bytesPerXtsBlock = 0) (n : UInt64) (startBlock : Nat) :
    output decipher secondary (output cipher secondary data n startBlock) n startBlock = data := by
  have hlen := length_output hc hs h n startBlock
  have hlen' : (output decipher secondary (output cipher secondary data n startBlock) n
      startBlock).length = data.length := by
    rw [length_output hd hs (by rw [hlen]; exact h) n startBlock, hlen]
  have hwhitened : ∀ w b : Bytes, w.length = 16 → b.length = 16 →
      whitened decipher w (whitened cipher w b) = b := by
    intro w b hw hb
    have hin : (xorBytes b w).length = 16 := by rw [length_xorBytes (by omega), hb]
    rw [whitened, whitened, xorBytes_cancel (by rw [hc _ hin, hw]), hinv _ hin,
      xorBytes_cancel (by rw [hb, hw])]
  apply eq_of_slices_eq (n := bytesPerXtsBlock) (by decide) hlen' (by rw [hlen']; exact h)
  intro b hb
  rw [hlen'] at hb
  have hblock : (slice data (b * bytesPerXtsBlock) bytesPerXtsBlock).length = 16 := by
    apply length_slice
    have hmul := Nat.mul_le_mul_right bytesPerXtsBlock (Nat.succ_le_of_lt hb)
    have hdiv := Nat.div_mul_le_self data.length bytesPerXtsBlock
    rw [Nat.succ_mul] at hmul
    omega
  rw [slice_output hd hs _ n startBlock (by rwa [hlen]), slice_output hc hs data n startBlock hb,
    hlen]
  unfold placed
  split
  · exact hwhitened _ _ (length_whitening_of_block hs _ _) hblock
  · exact hwhitened _ _ (length_whitening_of_block hs _ _) hblock

end

/-! ## Where the place is wrong -/

/-- A cipher that reverses a block. -/
def reversing : KeyedCipher where
  encryptBlock := List.reverse
  decryptBlock := List.reverse
  length_encryptBlock b h := by rw [List.length_reverse, h]
  length_decryptBlock b h := by rw [List.length_reverse, h]
  decrypt_encrypt b _ := List.reverse_reverse b
  encrypt_decrypt b _ := List.reverse_reverse b

/-- The cipher that changes nothing. -/
def plain : KeyedCipher where
  encryptBlock := id
  decryptBlock := id
  length_encryptBlock _ h := h
  length_decryptBlock _ h := h
  decrypt_encrypt _ _ := rfl
  encrypt_decrypt _ _ := rfl

/-- With these the zeros that reach into the next data unit come out whitened with zeros. -/
theorem not_xtsStream_output {n startBlock : Nat} (hstart : startBlock < blocksPerXtsDataUnit)
    (hshort : n < blocksPerXtsDataUnit) (hcross : blocksPerXtsDataUnit < startBlock + n) :
    ¬ XtsStream List.reverse id (List.replicate (n * bytesPerXtsBlock) 0) 0 startBlock
      (output List.reverse id (List.replicate (n * bytesPerXtsBlock) 0) 0 startBlock) := by
  rintro ⟨-, hblocks⟩
  have hlen : (List.replicate (n * bytesPerXtsBlock) (0 : UInt8)).length / bytesPerXtsBlock =
      n := by
    rw [List.length_replicate]
    exact Nat.mul_div_cancel n (by decide)
  rw [hlen] at hblocks
  have hb : blocksPerXtsDataUnit - startBlock < n := by omega
  have hzero : slice (List.replicate (n * bytesPerXtsBlock) (0 : UInt8))
      ((blocksPerXtsDataUnit - startBlock) * bytesPerXtsBlock) bytesPerXtsBlock =
        List.replicate 16 0 := by
    have hmul := Nat.mul_le_mul_right bytesPerXtsBlock (Nat.succ_le_of_lt hb)
    rw [Nat.succ_mul] at hmul
    rw [slice, List.drop_replicate, List.take_replicate]
    exact congrArg (fun k => List.replicate k 0) (Nat.min_eq_left (by omega))
  obtain ⟨w, hw, hgf, hslice⟩ := hblocks _ hb
  have hc : ∀ b : Bytes, b.length = 16 → (List.reverse b).length = 16 :=
    reversing.length_encryptBlock
  have hs : ∀ b : Bytes, b.length = 16 → (id b).length = 16 := plain.length_encryptBlock
  rw [slice_output hc hs _ 0 startBlock (by rwa [hlen]), hlen, hzero, placed, if_pos hshort]
    at hslice
  have hfull : startBlock + (blocksPerXtsDataUnit - startBlock) = blocksPerXtsDataUnit := by omega
  rw [hfull] at hgf hslice
  -- the code's whitening value is zero, the mode's is the number of the next unit
  have hnext : w = leBytes 8 1 ++ List.replicate 8 0 := by
    apply gf128_inj hw (by simp)
    rw [hgf, show blocksPerXtsDataUnit % blocksPerXtsDataUnit = 0 from rfl, pow_zero, mul_one]
    rfl
  have hfixed : nextWhitening (firstWhitening id 0) = firstWhitening id 0 := by decide
  have hcode : whitening id 0 blocksPerXtsDataUnit = firstWhitening id 0 :=
    Function.iterate_fixed hfixed blocksPerXtsDataUnit
  rw [unitBlock, hcode, hnext] at hslice
  exact absurd hslice (by decide)

/-! ## All variants -/

/-- Every variant gives the stream, in either direction. -/
structure AllMeet (ks ks2 : KeyedCipher) (data : Bytes) (startDataUnitNo : UInt64)
    (startBlock : Nat) : Prop where
  encryptParallel : Meets ks.encryptBlock ks2.encryptBlock data startDataUnitNo startBlock
    (encryptBufferXTSParallel ks ks2 data startDataUnitNo startBlock)
  encryptNonParallel : Meets ks.encryptBlock ks2.encryptBlock data startDataUnitNo startBlock
    (encryptBufferXTSNonParallel ks ks2 data startDataUnitNo startBlock)
  encrypt32 : Meets ks.encryptBlock ks2.encryptBlock data startDataUnitNo startBlock
    (encryptDecryptBufferXTS32 ks ks2 false data startDataUnitNo startBlock)
  decryptParallel : Meets ks.decryptBlock ks2.encryptBlock data startDataUnitNo startBlock
    (decryptBufferXTSParallel ks ks2 data startDataUnitNo startBlock)
  decryptNonParallel : Meets ks.decryptBlock ks2.encryptBlock data startDataUnitNo startBlock
    (decryptBufferXTSNonParallel ks ks2 data startDataUnitNo startBlock)
  decrypt32 : Meets ks.decryptBlock ks2.encryptBlock data startDataUnitNo startBlock
    (encryptDecryptBufferXTS32 ks ks2 true data startDataUnitNo startBlock)

/-- The variants give one output, and each gives the data back from it. None of them is a write
    behind the whitening values of a data unit. -/
structure Inverted (ks ks2 : KeyedCipher) (data : Bytes) (startDataUnitNo : UInt64)
    (startBlock : Nat) (out : Bytes) : Prop where
  encryptParallel : encryptBufferXTSParallel ks ks2 data startDataUnitNo startBlock = some out
  encryptNonParallel : encryptBufferXTSNonParallel ks ks2 data startDataUnitNo startBlock = some out
  encrypt32 : encryptDecryptBufferXTS32 ks ks2 false data startDataUnitNo startBlock = some out
  decryptParallel : decryptBufferXTSParallel ks ks2 out startDataUnitNo startBlock = some data
  decryptNonParallel : decryptBufferXTSNonParallel ks ks2 out startDataUnitNo startBlock = some data
  decrypt32 : encryptDecryptBufferXTS32 ks ks2 true out startDataUnitNo startBlock = some data

section

variable (ks ks2 : KeyedCipher) {data : Bytes} {startBlock : Nat}
  (h : data.length % bytesPerXtsBlock = 0) (hstart : startBlock < blocksPerXtsDataUnit)
include h hstart

theorem allMeet (n : UInt64) (hplace : ∀ b, b < data.length / bytesPerXtsBlock →
    data.length / bytesPerXtsBlock < blocksPerXtsDataUnit →
      startBlock + b < blocksPerXtsDataUnit) : AllMeet ks ks2 data n startBlock := by
  have hc := ks.length_encryptBlock
  have hd := ks.length_decryptBlock
  have hs := ks2.length_encryptBlock
  have hencrypt := xtsStream_output hc hs h n hplace
  have hdecrypt := xtsStream_output hd hs h n hplace
  exact
    { encryptParallel := ⟨_, bufferXTSParallel_eq hc hs h n hstart, hencrypt⟩
      encryptNonParallel := ⟨_, bufferXTSNonParallel_eq hs h n hstart, hencrypt⟩
      encrypt32 := ⟨_, bufferXTS32_eq hs h n hstart, hencrypt⟩
      decryptParallel := ⟨_, bufferXTSParallel_eq hd hs h n hstart, hdecrypt⟩
      decryptNonParallel := ⟨_, bufferXTSNonParallel_eq hs h n hstart, hdecrypt⟩
      decrypt32 := ⟨_, bufferXTS32_eq hs h n hstart, hdecrypt⟩ }

theorem inverted (n : UInt64) : ∃ out, Inverted ks ks2 data n startBlock out := by
  have hc := ks.length_encryptBlock
  have hd := ks.length_decryptBlock
  have hs := ks2.length_encryptBlock
  have hout : (output ks.encryptBlock ks2.encryptBlock data n startBlock).length %
      bytesPerXtsBlock = 0 := by
    rw [length_output hc hs h n startBlock]
    exact h
  have hback := output_output hc hs hd ks.decrypt_encrypt h n startBlock
  refine ⟨output ks.encryptBlock ks2.encryptBlock data n startBlock, ?_⟩
  exact
    { encryptParallel := bufferXTSParallel_eq hc hs h n hstart
      encryptNonParallel := bufferXTSNonParallel_eq hs h n hstart
      encrypt32 := bufferXTS32_eq hs h n hstart
      decryptParallel := (bufferXTSParallel_eq hd hs hout n hstart).trans (congrArg some hback)
      decryptNonParallel := (bufferXTSNonParallel_eq hs hout n hstart).trans (congrArg some hback)
      decrypt32 := (bufferXTS32_eq hs hout n hstart).trans (congrArg some hback) }

end

/-- With these ciphers the zeros that reach into the next data unit are no stream of the mode. -/
theorem not_meets_parallel {n startBlock : Nat} (hstart : startBlock < blocksPerXtsDataUnit)
    (hshort : n < blocksPerXtsDataUnit) (hcross : blocksPerXtsDataUnit < startBlock + n) :
    ¬ Meets reversing.encryptBlock plain.encryptBlock (List.replicate (n * bytesPerXtsBlock) 0) 0
      startBlock (encryptBufferXTSParallel reversing plain
        (List.replicate (n * bytesPerXtsBlock) 0) 0 startBlock) := by
  have hwhole : (List.replicate (n * bytesPerXtsBlock) (0 : UInt8)).length %
      bytesPerXtsBlock = 0 := by
    rw [List.length_replicate]
    exact Nat.mul_mod_left n bytesPerXtsBlock
  rintro ⟨out, hout, hstream⟩
  have heq := bufferXTSParallel_eq reversing.length_encryptBlock plain.length_encryptBlock hwhole 0
    hstart
  have hsame := Option.some.inj (hout.symm.trans heq)
  rw [hsame] at hstream
  exact not_xtsStream_output hstart hshort hcross hstream

/-- A buffer of `n` blocks is the stream of the mode for all ciphers, numbers and data exactly where
    it has a data unit's blocks at least, or ends in the unit it starts in; decrypting inverts
    encrypting wherever it starts. -/
theorem variants_meet_iff (n : Nat) {startBlock : Nat}
    (hstart : startBlock < blocksPerXtsDataUnit) :
    ((∀ ks ks2 : KeyedCipher, ∀ (data : Bytes) (startDataUnitNo : UInt64),
        data.length = n * bytesPerXtsBlock → AllMeet ks ks2 data startDataUnitNo startBlock) ↔
      blocksPerXtsDataUnit ≤ n ∨ startBlock + n ≤ blocksPerXtsDataUnit) ∧
    ∀ ks ks2 : KeyedCipher, ∀ (data : Bytes) (startDataUnitNo : UInt64),
      data.length = n * bytesPerXtsBlock →
        ∃ out, Inverted ks ks2 data startDataUnitNo startBlock out := by
  have hwhole : ∀ data : Bytes, data.length = n * bytesPerXtsBlock →
      data.length % bytesPerXtsBlock = 0 := by
    intro data hdata
    rw [hdata]
    exact Nat.mul_mod_left n bytesPerXtsBlock
  refine ⟨⟨fun hall => ?_, fun hcond ks ks2 data unitNo hdata => ?_⟩,
    fun ks ks2 data unitNo hdata => inverted ks ks2 (hwhole data hdata) hstart unitNo⟩
  · by_contra hnot
    rw [not_or, Nat.not_le, Nat.not_le] at hnot
    exact not_meets_parallel hstart hnot.1 hnot.2
      (hall reversing plain (List.replicate (n * bytesPerXtsBlock) 0) 0
        List.length_replicate).encryptParallel
  · refine allMeet ks ks2 (hwhole data hdata) hstart unitNo fun b hb hshort => ?_
    rw [hdata, Nat.mul_div_cancel n (by decide)] at hb hshort
    omega

/-- A data unit started at its block 7. -/
theorem variants_meet_demo :
    ((∀ ks ks2 : KeyedCipher, ∀ (data : Bytes) (startDataUnitNo : UInt64),
        data.length = 32 * bytesPerXtsBlock → AllMeet ks ks2 data startDataUnitNo 7) ↔
      blocksPerXtsDataUnit ≤ 32 ∨ 7 + 32 ≤ blocksPerXtsDataUnit) ∧
    ∀ ks ks2 : KeyedCipher, ∀ (data : Bytes) (startDataUnitNo : UInt64),
      data.length = 32 * bytesPerXtsBlock →
        ∃ out, Inverted ks ks2 data startDataUnitNo 7 out :=
  variants_meet_iff 32 (by decide)

/-- Two blocks, the first of them the last of its data unit. -/
theorem two_blocks_not_met :
    ¬ Meets reversing.encryptBlock plain.encryptBlock (List.replicate (2 * bytesPerXtsBlock) 0) 0 31
      (encryptBufferXTSParallel reversing plain (List.replicate (2 * bytesPerXtsBlock) 0) 0 31) :=
  not_meets_parallel (by decide) (by decide) (by decide)

end Xts

end VeraCrypt
