import VeraCrypt.Crypto.AesCt
import VeraCrypt.Lib.Endian
import VeraCrypt.Lib.StreamXor

/-!
# The wide-block mode HCTR2 (`Crypto/Hctr2.c`)

A sector is one block: its first 16 bytes are masked with a hash of the rest, run through AES,
the rest is xored with a keystream from what went in and came out, and the result masked with
a hash of the new rest. The hash is POLYVAL over a scratch buffer of fixed size.

Buffers are ranges of one memory, so that input and output may be the same range; a store or a
load outside the scratch buffer is `none`. What is proved: within the length limits the buffer
is never left (`hctr2Hash_isSome`), what is written is a function of the input sector
(`hctr2Crypt_eq`), and the two directions undo each other on it (`sectorCrypt_sectorCrypt`).
Nothing is used of the hash but that it is a function.
-/

set_option autoImplicit false

namespace VeraCrypt

open Lib

/-! ## POLYVAL -/

/-- Two 64-bit limbs, the low one first. -/
structure W128 where
  w0 : UInt64
  w1 : UInt64
  deriving DecidableEq

/-- `hctr2_u256` -/
structure W256 where
  w0 : UInt64
  w1 : UInt64
  w2 : UInt64
  w3 : UInt64
  deriving DecidableEq

/-- `s ? (v >> (64 - s)) : 0` -/
def spill (v s : UInt64) : UInt64 := if s ≠ 0 then v >>> (64 - s) else 0

/-- Round `i` of the product loop of `gf_dot`. -/
def gfDotMul (a b : W128) (c : W256) (i : Nat) : W256 :=
  let s := UInt64.ofNat (i % 64)
  let m : UInt64 := 0 - (((if i < 64 then a.w0 else a.w1) >>> s) &&& 1)
  let x0 := (b.w0 <<< s) &&& m
  let x1 := (spill b.w0 s ^^^ (b.w1 <<< s)) &&& m
  let x2 := spill b.w1 s &&& m
  if i < 64 then { c with w0 := c.w0 ^^^ x0, w1 := c.w1 ^^^ x1, w2 := c.w2 ^^^ x2 }
  else { c with w1 := c.w1 ^^^ x0, w2 := c.w2 ^^^ x1, w3 := c.w3 ^^^ x2 }

/-- One exact halving modulo `P`. -/
def gfDotHalve (c : W256) : W256 :=
  let r : UInt64 := 0 - (c.w0 &&& 1)
  let w0 := c.w0 ^^^ (1 &&& r)
  let p1 : UInt64 := ((1 : UInt64) <<< 57) ||| ((1 : UInt64) <<< 62) ||| ((1 : UInt64) <<< 63)
  let w1 := c.w1 ^^^ (p1 &&& r)
  let w2 := c.w2 ^^^ (1 &&& r)
  { w0 := (w0 >>> 1) ||| (w1 <<< 63)
    w1 := (w1 >>> 1) ||| (w2 <<< 63)
    w2 := (w2 >>> 1) ||| (c.w3 <<< 63)
    w3 := c.w3 >>> 1 }

/-- `gf_dot` -/
def gfDot (a b : W128) : W128 :=
  let c := (List.range 128).foldl (gfDotMul a b) ⟨0, 0, 0, 0⟩
  let c := gfDotHalve^[128] c
  ⟨c.w0, c.w1⟩

/-- `ld128` -/
def ld128 (p : Bytes) : W128 :=
  ⟨UInt64.ofNat (leNat (slice p 0 8)), UInt64.ofNat (leNat (slice p 8 8))⟩

/-- `st128` -/
def st128 (w : W128) : Bytes := leBytes 8 w.w0.toNat ++ leBytes 8 w.w1.toNat

/-- `polyval_buf` over the first `len` bytes of `m`, 16 at a time. -/
def polyvalBuf (hbar m : Bytes) (len : Nat) : Option Bytes :=
  let h := ld128 hbar
  ((List.range ((len + 15) / 16)).foldlM
    (fun s c => (load m (16 * c) 16).map (fun block =>
      let x := ld128 block
      gfDot ⟨s.w0 ^^^ x.w0, s.w1 ^^^ x.w1⟩ h))
    (⟨0, 0⟩ : W128)).map st128

/-! ## HCTR2 -/

/-- `HCTR2_MAX_SECTOR`, `HCTR2_MAX_TWEAK`, `HCTR2_MIN_LEN` -/
def hctr2MaxSector : Nat := 4096
def hctr2MaxTweak : Nat := 64
def hctr2MinLen : Nat := 16

structure Hctr2Key where
  blk : Bytes
  hbar : Bytes
  l : Bytes

/-- `Hctr2Init` -/
def hctr2Init (key : Bytes) : Hctr2Key :=
  let blk := AesCt.init256 key
  let z := List.replicate 16 (0 : UInt8)
  { blk := blk
    hbar := AesCt.encryptBlock blk z
    l := AesCt.encryptBlock blk (z.set 0 1) }

theorem hctr2Init_blk (key : Bytes) : (hctr2Init key).blk = AesCt.init256 key := by
  unfold hctr2Init
  dsimp only

/-- The size of the scratch buffer of `hctr2_hash`. -/
def hctr2BufLen : Nat := 16 + hctr2MaxTweak + hctr2MaxSector + 16

/-- `hctr2_hash`: length block, padded tweak, padded message. -/
def hctr2Hash (hk : Hctr2Key) (tweak msg : Bytes) : Option Bytes := do
  let tlen := tweak.length
  let mlen := msg.length
  let lb := tlen * 8 * 2 + 2 + (if mlen % 16 ≠ 0 then 1 else 0)
  let buf ← store (List.replicate hctr2BufLen 0) 0 (leBytes 8 lb)
  let buf ← store buf 16 tweak
  let w := 16 + (tlen + (16 - tlen % 16) % 16)
  let buf ← store buf w msg
  if mlen % 16 ≠ 0 then
    let buf ← store buf (w + mlen) [1]
    polyvalBuf hk.hbar buf (w + (mlen + 1 + (16 - (mlen + 1) % 16) % 16))
  else polyvalBuf hk.hbar buf (w + mlen)

/-- Keystream block `i` of `hctr2_xctr_xor`. -/
def xctrBlock (hk : Hctr2Key) (s : Bytes) (i : UInt64) (j : Nat) : UInt8 :=
  (AesCt.encryptBlock hk.blk
    (xorBytes s (leBytes 8 i.toNat ++ List.replicate 8 0))).getD j 0

/-- `hctr2_xctr_xor`: blocks are counted from 1. -/
def hctr2XctrXor (hk : Hctr2Key) (s : Bytes) (src dst len : Nat) (mem : Bytes) : Bytes :=
  streamXor (xctrBlock hk s) (· + 1) 16 len 1 src dst len mem

/-- `hctr2_crypt` on the ranges `inp` and `out` of a memory: the return value and the memory
    afterwards. -/
def hctr2Crypt (hk : Hctr2Key) (enc : Bool) (tweak mem : Bytes) (inp len out : Nat) :
    Option (Int × Bytes) :=
  if len < hctr2MinLen ∨ len > hctr2MaxSector ∨ tweak.length > hctr2MaxTweak then some (0, mem)
  else do
    let blen := len - 16
    let dig ← hctr2Hash hk tweak (slice mem (inp + 16) blen)
    let first := xorBytes (slice mem inp 16) dig
    let ff := if enc then AesCt.encryptBlock hk.blk first else AesCt.decryptBlock hk.blk first
    let s := xorBytes (xorBytes first ff) hk.l
    let mem := hctr2XctrXor hk s (inp + 16) (out + 16) blen mem
    let dig ← hctr2Hash hk tweak (slice mem (out + 16) blen)
    some (1, patch mem out (xorBytes ff dig))

def hctr2Encrypt (hk : Hctr2Key) (tweak mem : Bytes) (pt len ct : Nat) : Option (Int × Bytes) :=
  hctr2Crypt hk true tweak mem pt len ct

def hctr2Decrypt (hk : Hctr2Key) (tweak mem : Bytes) (ct len pt : Nat) : Option (Int × Bytes) :=
  hctr2Crypt hk false tweak mem ct len pt

/-! ## The scratch buffer -/

@[simp] theorem length_st128 (w : W128) : (st128 w).length = 16 := by
  rw [st128, List.length_append, length_leBytes, length_leBytes]

theorem polyvalBuf_isSome (hbar : Bytes) {m : Bytes} {len : Nat}
    (h : 16 * ((len + 15) / 16) ≤ m.length) :
    ∃ dig, polyvalBuf hbar m len = some dig ∧ dig.length = 16 := by
  have hfold : ∀ (l : List Nat) (s : W128), (∀ c ∈ l, 16 * c + 16 ≤ m.length) →
      ∃ s', l.foldlM (fun s c => (load m (16 * c) 16).map (fun block =>
        let x := ld128 block
        gfDot ⟨s.w0 ^^^ x.w0, s.w1 ^^^ x.w1⟩ (ld128 hbar))) s = some s' := by
    intro l
    induction l with
    | nil => exact fun s _ => ⟨s, rfl⟩
    | cons c l ih =>
      intro s hl
      have hload := load_eq_some (hl c (by simp))
      obtain ⟨s', hs'⟩ := ih (gfDot ⟨s.w0 ^^^ (ld128 (slice m (16 * c) 16)).w0,
        s.w1 ^^^ (ld128 (slice m (16 * c) 16)).w1⟩ (ld128 hbar)) (fun d hd => hl d (by simp [hd]))
      refine ⟨s', ?_⟩
      rw [List.foldlM_cons, hload]
      exact hs'
  obtain ⟨s, hs⟩ := hfold (List.range ((len + 15) / 16)) ⟨0, 0⟩ (by
    intro c hc
    have hlt := List.mem_range.mp hc
    omega)
  refine ⟨st128 s, ?_, length_st128 s⟩
  unfold polyvalBuf
  simp only [hs, Option.map_some]

/-- **The scratch buffer is never left**, for every tweak and message within the limits. -/
theorem hctr2Hash_isSome (hk : Hctr2Key) {tweak msg : Bytes}
    (ht : tweak.length ≤ hctr2MaxTweak) (hm : msg.length + 16 ≤ hctr2MaxSector) :
    ∃ dig, hctr2Hash hk tweak msg = some dig ∧ dig.length = 16 := by
  have htw : tweak.length ≤ 64 := ht
  have hms : msg.length + 16 ≤ 4096 := hm
  have hsize : (List.replicate hctr2BufLen (0 : UInt8)).length = 4192 := List.length_replicate
  obtain ⟨buf0, h0, hlen0⟩ := @store_eq_some _ (List.replicate hctr2BufLen 0)
    (leBytes 8 (tweak.length * 8 * 2 + 2 + (if msg.length % 16 ≠ 0 then 1 else 0))) 0
    (by rw [hsize, length_leBytes]; omega)
  obtain ⟨buf1, h1, hlen1⟩ := @store_eq_some _ buf0 tweak 16 (by omega)
  obtain ⟨buf2, h2, hlen2⟩ := @store_eq_some _ buf1 msg
    (16 + (tweak.length + (16 - tweak.length % 16) % 16)) (by omega)
  unfold hctr2Hash
  simp only [h0, h1, h2, Option.bind_eq_bind, Option.bind_some]
  by_cases hrem : msg.length % 16 ≠ 0
  · obtain ⟨buf3, h3, hlen3⟩ := @store_eq_some _ buf2 [1]
      (16 + (tweak.length + (16 - tweak.length % 16) % 16) + msg.length)
      (by rw [List.length_singleton]; omega)
    rw [if_pos hrem]
    simp only [h3, Option.bind_some]
    exact polyvalBuf_isSome hk.hbar (by omega)
  · rw [if_neg hrem]
    exact polyvalBuf_isSome hk.hbar (by omega)

/-! ## What is written -/

/-- The hash of a message within the limits, as a value. -/
def hashOf (hk : Hctr2Key) (tweak msg : Bytes) : Bytes := (hctr2Hash hk tweak msg).getD []

/-- The mask of the keystream: from what went into the cipher and what came out of it. -/
def xctrSeed (hk : Hctr2Key) (first ff : Bytes) : Bytes := xorBytes (xorBytes first ff) hk.l

/-- The keystream of a seed. -/
def xctrStream (hk : Hctr2Key) (s : Bytes) : Nat → UInt8 :=
  keystream (xctrBlock hk s) (· + 1) 16 1

/-- A sector through the mode, for a hash and a block function. -/
def sectorCrypt (hk : Hctr2Key) (cipher : Bytes → Bytes) (tweak sector : Bytes) : Bytes :=
  let rest := sector.drop 16
  let first := xorBytes (sector.take 16) (hashOf hk tweak rest)
  let ff := cipher first
  let rest' := xorStream (xctrStream hk (xctrSeed hk first ff)) rest
  xorBytes ff (hashOf hk tweak rest') ++ rest'

/-- `AesCtEncryptBlock` or `AesCtDecryptBlock` -/
def hctr2Cipher (hk : Hctr2Key) (enc : Bool) (block : Bytes) : Bytes :=
  if enc then AesCt.encryptBlock hk.blk block else AesCt.decryptBlock hk.blk block

/-- The lengths both directions accept. -/
structure Hctr2Accepts (tweak : Bytes) (len : Nat) : Prop where
  min_le : hctr2MinLen ≤ len
  le_max : len ≤ hctr2MaxSector
  tweak_le : tweak.length ≤ hctr2MaxTweak

/-- Lengths outside the limits: both directions fail, and the memory is as it was. -/
theorem hctr2Crypt_refuses (hk : Hctr2Key) (enc : Bool) {tweak : Bytes} (mem : Bytes)
    {len : Nat} (h : ¬ Hctr2Accepts tweak len) (inp out : Nat) :
    hctr2Crypt hk enc tweak mem inp len out = some (0, mem) := by
  unfold hctr2Crypt
  rw [if_pos ?_]
  by_contra hc
  apply h
  simp only [not_or, Nat.not_lt] at hc
  exact ⟨hc.1, hc.2.1, hc.2.2⟩

section
variable {hk : Hctr2Key} {tweak : Bytes}

theorem hashOf_spec (hk : Hctr2Key) {msg : Bytes} {len : Nat} (h : Hctr2Accepts tweak len)
    (hmsg : msg.length + 16 ≤ len) :
    hctr2Hash hk tweak msg = some (hashOf hk tweak msg) ∧ (hashOf hk tweak msg).length = 16 := by
  obtain ⟨dig, hdig, hlen⟩ := hctr2Hash_isSome hk h.tweak_le (hmsg.trans h.le_max)
  unfold hashOf
  rw [hdig]
  exact ⟨rfl, hlen⟩

theorem hctr2Cipher_length (hrk : AesCt.WellKeyed hk.blk) (enc : Bool) (b : Bytes) :
    (hctr2Cipher hk enc b).length = 16 := by
  unfold hctr2Cipher
  cases enc with
  | true => exact AesCt.length_encryptBlock hrk b
  | false => exact AesCt.length_decryptBlock hrk b

theorem length_sectorCrypt (hrk : AesCt.WellKeyed hk.blk) {sector : Bytes} (enc : Bool)
    (h : Hctr2Accepts tweak sector.length) :
    (sectorCrypt hk (hctr2Cipher hk enc) tweak sector).length = sector.length := by
  have h16 : 16 ≤ sector.length := h.min_le
  have hrest : (xorStream (xctrStream hk (xctrSeed hk
      (xorBytes (sector.take 16) (hashOf hk tweak (sector.drop 16)))
      (hctr2Cipher hk enc (xorBytes (sector.take 16) (hashOf hk tweak (sector.drop 16))))))
      (sector.drop 16)).length + 16 ≤ sector.length := by
    rw [length_xorStream, List.length_drop]
    omega
  have hdig := (hashOf_spec hk h hrest).2
  have hff := hctr2Cipher_length hrk enc
    (xorBytes (sector.take 16) (hashOf hk tweak (sector.drop 16)))
  unfold sectorCrypt
  simp only []
  rw [List.length_append, length_xorBytes (by rw [hff, hdig]), hff, length_xorStream,
    List.length_drop]
  omega

/-- **What a call writes**: the sector it was given through the mode, and nothing else. -/
theorem hctr2Crypt_eq (hrk : AesCt.WellKeyed hk.blk) (enc : Bool) {mem : Bytes}
    {inp len out : Nat} (h : Hctr2Accepts tweak len) (hb : Buffers mem inp out len) :
    hctr2Crypt hk enc tweak mem inp len out =
      some (1, patch mem out (sectorCrypt hk (hctr2Cipher hk enc) tweak (slice mem inp len))) := by
  have h16 : 16 ≤ len := h.min_le
  have hmax : len ≤ 4096 := h.le_max
  have hinp := hb.inp_le
  have hout := hb.out_le
  have hrestIn : slice mem (inp + 16) (len - 16) = (slice mem inp len).drop 16 := by
    rw [slice, slice, List.drop_take, List.drop_drop]
  have hfirstIn : slice mem inp 16 = (slice mem inp len).take 16 := by
    rw [slice, slice, List.take_take, Nat.min_eq_left h16]
  have hapart : Apart (inp + 16) (out + 16) (len - 16) := by
    rcases hb.apart with heq | hlo | hhi
    · exact Or.inl (by omega)
    · exact Or.inr (Or.inl (by omega))
    · exact Or.inr (Or.inr (by omega))
  have hlen : (slice mem inp len).length = len := length_slice hinp
  -- the hash of what is read, and the block that goes into the cipher
  have hdropLen : ((slice mem inp len).drop 16).length + 16 ≤ len := by
    rw [List.length_drop]
    omega
  have hdig := (hashOf_spec hk h hdropLen).1
  set first := xorBytes ((slice mem inp len).take 16)
    (hashOf hk tweak ((slice mem inp len).drop 16)) with hfirst
  set ff := hctr2Cipher hk enc first with hff
  set rest := xorStream (xctrStream hk (xctrSeed hk first ff)) ((slice mem inp len).drop 16)
    with hrest
  have hrestLen : rest.length = len - 16 := by
    rw [hrest, length_xorStream, List.length_drop, hlen]
  -- the rest, written past the place of the first block
  have hxor : hctr2XctrXor hk (xctrSeed hk first ff) (inp + 16) (out + 16) (len - 16) mem =
      patch mem (out + 16) rest := by
    unfold hctr2XctrXor
    rw [streamXor_eq (by omega) 1 (Nat.le_refl _) (by omega) (by omega) hapart, hrestIn]
    rfl
  have hback : slice (patch mem (out + 16) rest) (out + 16) (len - 16) = rest :=
    slice_patch_self (by omega) hrestLen.symm
  have hrestLe : rest.length + 16 ≤ len := by omega
  have hdig' := hashOf_spec hk h hrestLe
  have hffLen : ff.length = 16 := hctr2Cipher_length hrk enc first
  have htop : (xorBytes ff (hashOf hk tweak rest)).length = 16 := by
    rw [length_xorBytes (by rw [hffLen, hdig'.2]), hffLen]
  have hguard : ¬ (len < hctr2MinLen ∨ len > hctr2MaxSector ∨ tweak.length > hctr2MaxTweak) := by
    rintro (hc | hc | hc)
    · exact Nat.not_lt.mpr h.min_le hc
    · exact Nat.not_lt.mpr h.le_max hc
    · exact Nat.not_lt.mpr h.tweak_le hc
  have hcipher : (if enc = true then AesCt.encryptBlock hk.blk first
      else AesCt.decryptBlock hk.blk first) = ff := rfl
  unfold hctr2Crypt
  rw [if_neg hguard]
  simp only [hrestIn, hfirstIn, hdig, Option.bind_eq_bind, Option.bind_some]
  rw [← hfirst, hcipher]
  have hseed : xorBytes (xorBytes first ff) hk.l = xctrSeed hk first ff := rfl
  rw [hseed, hxor, hback, hdig'.1, Option.bind_some,
    patch_patch_before (by rw [htop]) (by rw [hrestLen]; omega)]
  rfl

/-! ## The two directions -/

/-- The mode undoes itself where the block function does: the second pass finds in the first
    block what went into the cipher, so it makes the same hashes and the same keystream. -/
theorem sectorCrypt_sectorCrypt {cipher cipher' : Bytes → Bytes}
    (hlen : ∀ b, (cipher b).length = 16)
    (hinv : ∀ b, b.length = 16 → cipher' (cipher b) = b) {sector : Bytes}
    (h : Hctr2Accepts tweak sector.length) :
    sectorCrypt hk cipher' tweak (sectorCrypt hk cipher tweak sector) = sector := by
  have h16 : 16 ≤ sector.length := h.min_le
  have hdropLen : (sector.drop 16).length + 16 ≤ sector.length := by
    rw [List.length_drop]
    omega
  have hdig := (hashOf_spec hk h hdropLen).2
  have htake : (sector.take 16).length = 16 := by
    rw [List.length_take]
    omega
  set first := xorBytes (sector.take 16) (hashOf hk tweak (sector.drop 16)) with hfirst
  have hfirstLen : first.length = 16 := by
    rw [hfirst, length_xorBytes (by rw [htake, hdig]), htake]
  set ks := xctrStream hk (xctrSeed hk first (cipher first)) with hks
  set rest := xorStream ks (sector.drop 16) with hrest
  have hrestLe : rest.length + 16 ≤ sector.length := by
    rw [hrest, length_xorStream]
    exact hdropLen
  have hdig' := (hashOf_spec hk h hrestLe).2
  have hpair : (cipher first).length = (hashOf hk tweak rest).length := by rw [hlen, hdig']
  have htopLen : (xorBytes (cipher first) (hashOf hk tweak rest)).length = 16 := by
    rw [length_xorBytes hpair, hlen]
  have hout : sectorCrypt hk cipher tweak sector =
      xorBytes (cipher first) (hashOf hk tweak rest) ++ rest := rfl
  have hback : xorBytes (xorBytes (cipher first) (hashOf hk tweak rest)) (hashOf hk tweak rest) =
      cipher first := xorBytes_cancel hpair
  have hseed : xctrSeed hk (cipher first) first = xctrSeed hk first (cipher first) := by
    unfold xctrSeed
    rw [xorBytes_comm (cipher first) first]
  have hplain : xorStream ks rest = sector.drop 16 := xorStream_xorStream ks _
  rw [hout]
  unfold sectorCrypt
  simp only [List.take_left' htopLen, List.drop_left' htopLen]
  rw [hback, hinv first hfirstLen, hseed, ← hks, hplain]
  have htop : xorBytes first (hashOf hk tweak (sector.drop 16)) = sector.take 16 :=
    xorBytes_cancel (by rw [htake, hdig])
  rw [htop, List.take_append_drop]

/-- A call and the call in the other direction on what it wrote: the input is back. -/
theorem hctr2Crypt_hctr2Crypt (hrk : AesCt.WellKeyed hk.blk) (enc : Bool) {mem : Bytes}
    {inp out back len : Nat} (h : Hctr2Accepts tweak len) (hb : Buffers mem inp out len)
    (hb' : Buffers mem out back len) :
    ∃ c, c.length = len ∧ hctr2Crypt hk enc tweak mem inp len out = some (1, patch mem out c) ∧
      hctr2Crypt hk (!enc) tweak (patch mem out c) out len back =
        some (1, patch (patch mem out c) back (slice mem inp len)) := by
  have hsector : (slice mem inp len).length = len := length_slice hb.inp_le
  have haccepts : Hctr2Accepts tweak (slice mem inp len).length := by rwa [hsector]
  have hlen : (sectorCrypt hk (hctr2Cipher hk enc) tweak (slice mem inp len)).length = len := by
    rw [length_sectorCrypt hrk enc haccepts, hsector]
  obtain ⟨hnext, hread⟩ := hb.next hb' hlen
  have hinv : ∀ b : Bytes, b.length = 16 → hctr2Cipher hk (!enc) (hctr2Cipher hk enc b) = b := by
    intro b hblen
    cases enc with
    | true => exact AesCt.decryptBlock_encryptBlock hrk hblen
    | false => exact AesCt.encryptBlock_decryptBlock hrk hblen
  have hundo := @sectorCrypt_sectorCrypt hk tweak _ _ (hctr2Cipher_length hrk enc) hinv _ haccepts
  refine ⟨_, hlen, hctr2Crypt_eq hrk enc h hb, ?_⟩
  rw [hctr2Crypt_eq hrk (!enc) h hnext, hread, hundo]

end

/-- No call leaves the scratch buffer, whatever its lengths and its buffers are. -/
theorem hctr2Crypt_isSome (hk : Hctr2Key) (enc : Bool) (tweak mem : Bytes) (inp len out : Nat) :
    (hctr2Crypt hk enc tweak mem inp len out).isSome = true := by
  by_cases h : Hctr2Accepts tweak len
  · have hguard : ¬ (len < hctr2MinLen ∨ len > hctr2MaxSector ∨
        tweak.length > hctr2MaxTweak) := by
      rintro (hc | hc | hc)
      · exact Nat.not_lt.mpr h.min_le hc
      · exact Nat.not_lt.mpr h.le_max hc
      · exact Nat.not_lt.mpr h.tweak_le hc
    have h16 : 16 ≤ len := h.min_le
    have hmax := h.le_max
    have hhash : ∀ m off, ∃ dig, hctr2Hash hk tweak (slice m off (len - 16)) = some dig := by
      intro m off
      have hle : (slice m off (len - 16)).length + 16 ≤ hctr2MaxSector := by
        have hslice := length_slice_le m off (len - 16)
        omega
      obtain ⟨dig, hdig, _⟩ := hctr2Hash_isSome hk h.tweak_le hle
      exact ⟨dig, hdig⟩
    obtain ⟨dig, hdig⟩ := hhash mem (inp + 16)
    unfold hctr2Crypt
    rw [if_neg hguard]
    simp only [hdig, Option.bind_eq_bind, Option.bind_some]
    obtain ⟨dig', hdig'⟩ := hhash (hctr2XctrXor hk (xorBytes (xorBytes (xorBytes
      (slice mem inp 16) dig) (hctr2Cipher hk enc (xorBytes (slice mem inp 16) dig))) hk.l)
      (inp + 16) (out + 16) (len - 16) mem) (out + 16)
    unfold hctr2Cipher at hdig'
    rw [hdig']
    rfl
  · rw [hctr2Crypt_refuses hk enc mem h]
    rfl

/-- **The mode is a bijection for each key and tweak**, on every sector of an accepted length,
    from any buffer to any other or in place; calls out of the limits fail and write nothing;
    and no call leaves the scratch buffer. -/
theorem hctr2_bijection {key : Bytes} (hkey : key.length = 32) (tweak mem : Bytes)
    (inp out back len : Nat) :
    (Hctr2Accepts tweak len → Buffers mem inp out len → Buffers mem out back len →
      (∃ c, c.length = len ∧
        hctr2Encrypt (hctr2Init key) tweak mem inp len out = some (1, patch mem out c) ∧
        hctr2Decrypt (hctr2Init key) tweak (patch mem out c) out len back =
          some (1, patch (patch mem out c) back (slice mem inp len))) ∧
      (∃ p, p.length = len ∧
        hctr2Decrypt (hctr2Init key) tweak mem inp len out = some (1, patch mem out p) ∧
        hctr2Encrypt (hctr2Init key) tweak (patch mem out p) out len back =
          some (1, patch (patch mem out p) back (slice mem inp len)))) ∧
    (¬ Hctr2Accepts tweak len →
      hctr2Encrypt (hctr2Init key) tweak mem inp len out = some (0, mem) ∧
      hctr2Decrypt (hctr2Init key) tweak mem inp len out = some (0, mem)) ∧
    (hctr2Encrypt (hctr2Init key) tweak mem inp len out).isSome = true ∧
    (hctr2Decrypt (hctr2Init key) tweak mem inp len out).isSome = true := by
  have hrk : AesCt.WellKeyed (hctr2Init key).blk := by
    rw [hctr2Init_blk]
    exact AesCt.wellKeyed_init256 hkey
  refine ⟨?_, ?_, hctr2Crypt_isSome _ true tweak mem inp len out,
    hctr2Crypt_isSome _ false tweak mem inp len out⟩
  · intro h hb hb'
    exact ⟨hctr2Crypt_hctr2Crypt hrk true h hb hb', hctr2Crypt_hctr2Crypt hrk false h hb hb'⟩
  · intro h
    exact ⟨hctr2Crypt_refuses _ true mem h inp out, hctr2Crypt_refuses _ false mem h inp out⟩

namespace Hctr2Demo

/-- A key, and a memory with two places for a sector of 20 bytes. -/
def key : Bytes := List.replicate 32 7

theorem length_key : key.length = 32 := List.length_replicate

def mem : Bytes := List.replicate 40 3

theorem accepts : Hctr2Accepts [1, 2, 3] 20 := ⟨by decide, by decide, by decide⟩

theorem buffers : Buffers mem 0 20 20 := ⟨by decide, by decide, Or.inr (Or.inl (by decide))⟩

theorem inPlace : Buffers mem 20 20 20 := ⟨by decide, by decide, Or.inl rfl⟩

/-- A sector with a partial last block to another place, and back in place. -/
theorem hctr2_bijection_demo :
    ∃ c, c.length = 20 ∧
      hctr2Encrypt (hctr2Init key) [1, 2, 3] mem 0 20 20 = some (1, patch mem 20 c) ∧
      hctr2Decrypt (hctr2Init key) [1, 2, 3] (patch mem 20 c) 20 20 20 =
        some (1, patch (patch mem 20 c) 20 (slice mem 0 20)) :=
  ((hctr2_bijection length_key [1, 2, 3] mem 0 20 20 20).1
    accepts buffers inPlace).1

end Hctr2Demo

end VeraCrypt
