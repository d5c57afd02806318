import VeraCrypt.Crypto.AesCt
import VeraCrypt.Crypto.Poly1305
import VeraCrypt.Lib.ByteArith

/-!
# The wide-block mode Adiantum (`Crypto/Adiantum.c`)

A sector is one block: a hash of all but its last 16 bytes is added to those, the sum goes
through AES, what the cipher gives keys a stream over the rest, and a hash of the new rest is
taken off again. Sums and differences are modulo `2 ^ 128`.

As for the other wide-block mode, buffers are ranges of one memory and an access outside a
scratch buffer is `none`. Both directions are one function of the sector with two parameters:
the block function, and which of the blocks on its two sides keys the stream (`hbsh`). They
undo each other because that choice is the same block in both (`hbsh_hbsh`).
-/

set_option autoImplicit false

namespace VeraCrypt
namespace Adiantum

open Lib

/-! ## The parts -/

/-- `hchacha12` -/
def hchacha12 (key in16 : Bytes) : Bytes :=
  let x := ChaCha256.constants ++ (List.range 8).map (fun i => ld32 key (4 * i)) ++
    (List.range 4).map (fun i => ld32 in16 (4 * i))
  let x := ChaCha256.doubleRound^[6] x
  (x.take 4 ++ slice x 12 4).flatMap st32

/-- The context `xchacha12_xor` encrypts with. -/
def xchacha12Ctx (key nonce24 : Bytes) : ChaCha256.Ctx :=
  ChaCha256.init (hchacha12 key (slice nonce24 0 16)) (slice nonce24 16 8) 12

/-- `xchacha12_xor` -/
def xchacha12Xor (key nonce24 : Bytes) (src len dst : Nat) (mem : Bytes) : Bytes :=
  ChaCha256.encrypt (xchacha12Ctx key nonce24) src len dst mem

/-- One pass of `nh_hash`, from word `off` of the key. -/
def nhPass (kw m : List UInt32) (nw off : Nat) : UInt64 :=
  let word i := m.getD i 0 + kw.getD (off + i) 0
  (List.range ((nw + 3) / 4)).foldl
    (fun sum t => sum + (word (4 * t)).toUInt64 * (word (4 * t + 2)).toUInt64 +
      (word (4 * t + 1)).toUInt64 * (word (4 * t + 3)).toUInt64) 0

/-- `nh_hash` -/
def nhHash (kn chunk : Bytes) : Bytes :=
  let nw := chunk.length / 4
  let m := (List.range nw).map (fun i => ld32 chunk (4 * i))
  let kw := (List.range 268).map (fun i => ld32 kn (4 * i))
  (List.range 4).flatMap (fun p => leBytes 8 (nhPass kw m nw (4 * p)).toNat)

/-- `add128` -/
def add128 (a b : Bytes) : Bytes := addCarry 0 a b

/-- `sub128` -/
def sub128 (a b : Bytes) : Bytes := subBorrow 0 a b

/-- `poly_hrbar`: the MAC with the second half of its key zero. -/
def polyHrbar (r16 msg : Bytes) : Bytes :=
  Poly1305.poly1305 msg (r16 ++ List.replicate 16 0)

/-! ## The mode -/

/-- `ADIANTUM_MAX_SECTOR`, `ADIANTUM_MAX_TWEAK` -/
def maxSector : Nat := 4096
def maxTweak : Nat := 64

/-- `AdiantumKey` -/
structure Key where
  k : Bytes
  rt : Bytes
  rm : Bytes
  kn : Bytes
  blk : Bytes

/-- The NH digests of a padded message of `plen` bytes, in chunks of 1024. -/
def nhChunks (kn padded : Bytes) (plen : Nat) : Option Bytes :=
  (List.range ((plen + 1023) / 1024)).foldlM
    (fun nhcat c => (load padded (1024 * c) (min (plen - 1024 * c) 1024)).bind
      (fun chunk => store nhcat (32 * c) (nhHash kn chunk)))
    (List.replicate 128 0)

/-- `adiantum_hash` -/
def hash (ak : Key) (tweak l : Bytes) : Option Bytes := do
  let llen := l.length
  let plen := (llen + 15) / 16 * 16
  let msg1 ← store (List.replicate (16 + maxTweak) 0) 0 (leBytes 8 (llen * 8))
  let msg1 ← store msg1 16 tweak
  let out := polyHrbar ak.rt (msg1.take (16 + tweak.length))
  if llen > 0 then
    let padded ← store (List.replicate maxSector 0) 0 l
    let padded ← store padded llen (List.replicate (plen - llen) 0)
    let nhcat ← nhChunks ak.kn padded plen
    some (add128 out (polyHrbar ak.rm (nhcat.take (32 * ((plen + 1023) / 1024)))))
  else some out

/-- `AdiantumInit` -/
def init (key : Bytes) : Key :=
  let nonce := 1 :: List.replicate 23 0
  let ks := xchacha12Xor key nonce 0 1136 0 (List.replicate 1136 0)
  { k := key
    rt := slice ks 32 16
    rm := slice ks 48 16
    kn := slice ks 64 1072
    blk := AesCt.init256 (slice ks 0 32) }

/-- The nonce of the bulk stream: the block that keys it, marked. -/
def streamNonce (cm : Bytes) : Bytes := cm ++ 1 :: List.replicate 7 0

/-- The lengths both directions accept. -/
structure Accepts (tweak : Bytes) (len : Nat) : Prop where
  min_le : 16 ≤ len
  le_max : len ≤ maxSector
  tweak_le : tweak.length ≤ maxTweak

/-- `AdiantumEncrypt` on the ranges `pt` and `ct` of a memory: the return value and the memory
    afterwards. -/
def encrypt (ak : Key) (tweak mem : Bytes) (pt len ct : Nat) : Option (Int × Bytes) :=
  if len < 16 ∨ len > maxSector ∨ tweak.length > maxTweak then some (0, mem)
  else do
    let llen := len - 16
    let h ← hash ak tweak (slice mem pt llen)
    let pm := add128 (slice mem (pt + llen) 16) h
    let cm := AesCt.encryptBlock ak.blk pm
    let mem := xchacha12Xor ak.k (streamNonce cm) pt llen ct mem
    let h ← hash ak tweak (slice mem ct llen)
    let mem := patch mem (ct + llen) cm
    some (1, patch mem (ct + llen) (sub128 (slice mem (ct + llen) 16) h))

/-- `AdiantumDecrypt` -/
def decrypt (ak : Key) (tweak mem : Bytes) (ct len pt : Nat) : Option (Int × Bytes) :=
  if len < 16 ∨ len > maxSector ∨ tweak.length > maxTweak then some (0, mem)
  else do
    let llen := len - 16
    let h ← hash ak tweak (slice mem ct llen)
    let cm := add128 (slice mem (ct + llen) 16) h
    let mem := xchacha12Xor ak.k (streamNonce cm) ct llen pt mem
    let pm := AesCt.decryptBlock ak.blk cm
    let h ← hash ak tweak (slice mem pt llen)
    let mem := patch mem (pt + llen) pm
    some (1, patch mem (pt + llen) (sub128 (slice mem (pt + llen) 16) h))

/-! ## Sums and differences -/

theorem leNat_add128 {a b : Bytes} (ha : a.length = 16) (hb : b.length = 16) :
    leNat (add128 a b) = (leNat a + leNat b) % 2 ^ 128 := by
  have hsum := leNat_addBytes (ha.trans hb.symm)
  rw [ha] at hsum
  exact hsum

theorem leNat_sub128 {a b : Bytes} (ha : a.length = 16) (hb : b.length = 16) :
    (leNat (sub128 a b) : Int) = ((leNat a : Int) - leNat b) % 2 ^ 128 := by
  have hdiff := leNat_subBytes (ha.trans hb.symm)
  rw [ha] at hdiff
  exact hdiff

theorem sub128_add128 {a b : Bytes} (h : a.length = b.length) : sub128 (add128 a b) b = a :=
  subBytes_addBytes h

theorem add128_sub128 {a b : Bytes} (h : a.length = b.length) : add128 (sub128 a b) b = a :=
  addBytes_subBytes h

@[simp] theorem length_add128 (a b : Bytes) : (add128 a b).length = a.length :=
  length_addCarry 0 a b

@[simp] theorem length_sub128 (a b : Bytes) : (sub128 a b).length = a.length :=
  length_subBorrow 0 a b

/-! ## The hash stays inside its buffers -/

@[simp] theorem length_nhHash (kn chunk : Bytes) : (nhHash kn chunk).length = 32 := by
  unfold nhHash
  rw [length_flatMap_const (fun p _ => length_leBytes 8 _), List.length_range]

@[simp] theorem length_polyHrbar (r16 msg : Bytes) : (polyHrbar r16 msg).length = 16 :=
  Poly1305.length_poly1305 _ _

theorem nhChunks_isSome (kn : Bytes) {padded : Bytes} {plen : Nat} (hle : plen ≤ padded.length)
    (hmax : plen ≤ 4096) : ∃ nhcat, nhChunks kn padded plen = some nhcat := by
  have hfold : ∀ (l : List Nat) (nhcat : Bytes), nhcat.length = 128 →
      (∀ c ∈ l, 1024 * c < plen) →
      ∃ nhcat', l.foldlM
        (fun nhcat c => (load padded (1024 * c) (min (plen - 1024 * c) 1024)).bind
          (fun chunk => store nhcat (32 * c) (nhHash kn chunk))) nhcat = some nhcat' := by
    intro l
    induction l with
    | nil => exact fun nhcat _ _ => ⟨nhcat, rfl⟩
    | cons c l ih =>
      intro nhcat hlen hl
      have hc := hl c (by simp)
      have hin : 1024 * c + min (plen - 1024 * c) 1024 ≤ padded.length := by omega
      obtain ⟨next, hstore, hnext⟩ := @store_eq_some _ nhcat
        (nhHash kn (slice padded (1024 * c) (min (plen - 1024 * c) 1024))) (32 * c)
        (by rw [length_nhHash]; omega)
      obtain ⟨nhcat', hrest⟩ := ih next (hnext.trans hlen) (fun d hd => hl d (by simp [hd]))
      refine ⟨nhcat', ?_⟩
      rw [List.foldlM_cons, load_eq_some hin, Option.bind_some, hstore]
      exact hrest
  refine hfold _ _ List.length_replicate (fun c hc => ?_)
  have hlt := List.mem_range.mp hc
  omega

/-- **The scratch buffers are never left**, for every tweak and message within the limits. -/
theorem hash_isSome (ak : Key) {tweak l : Bytes} (ht : tweak.length ≤ maxTweak)
    (hl : l.length + 16 ≤ maxSector) : ∃ h, hash ak tweak l = some h ∧ h.length = 16 := by
  have htw : tweak.length ≤ 64 := ht
  have hls : l.length + 16 ≤ 4096 := hl
  have hmsg : (List.replicate (16 + maxTweak) (0 : UInt8)).length = 80 := List.length_replicate
  have hpad : (List.replicate maxSector (0 : UInt8)).length = 4096 := List.length_replicate
  obtain ⟨msg0, h0, hlen0⟩ := @store_eq_some _ (List.replicate (16 + maxTweak) 0)
    (leBytes 8 (l.length * 8)) 0 (by rw [hmsg, length_leBytes]; omega)
  obtain ⟨msg1, h1, hlen1⟩ := @store_eq_some _ msg0 tweak 16 (by omega)
  unfold hash
  simp only [h0, h1, Option.bind_eq_bind, Option.bind_some]
  by_cases hpos : l.length > 0
  · obtain ⟨pad0, h2, hlen2⟩ := @store_eq_some _ (List.replicate maxSector 0) l 0 (by omega)
    obtain ⟨pad1, h3, hlen3⟩ := @store_eq_some _ pad0
      (List.replicate ((l.length + 15) / 16 * 16 - l.length) 0) l.length
      (by rw [List.length_replicate]; omega)
    obtain ⟨nhcat, h4⟩ := @nhChunks_isSome ak.kn pad1 ((l.length + 15) / 16 * 16) (by omega)
      (by omega)
    rw [if_pos hpos]
    simp only [h2, h3, h4, Option.bind_some]
    exact ⟨_, rfl, by rw [length_add128, length_polyHrbar]⟩
  · rw [if_neg hpos]
    exact ⟨_, rfl, length_polyHrbar _ _⟩

/-! ## What is written -/

/-- The hash of a message within the limits, as a value. -/
def hashOf (ak : Key) (tweak l : Bytes) : Bytes := (hash ak tweak l).getD []

/-- The bulk keystream of a block. -/
def bulk (ak : Key) (cm : Bytes) : Nat → UInt8 :=
  ChaCha256.stream (xchacha12Ctx ak.k (streamNonce cm))

/-- A sector through the mode: hash, cipher, stream, hash. -/
def hbsh (ak : Key) (cipher : Bytes → Bytes) (pick : Bytes → Bytes → Bytes)
    (tweak sector : Bytes) : Bytes :=
  let llen := sector.length - 16
  let l := sector.take llen
  let first := add128 (sector.drop llen) (hashOf ak tweak l)
  let ff := cipher first
  let l' := xorStream (bulk ak (pick first ff)) l
  l' ++ sub128 ff (hashOf ak tweak l')

section
variable {ak : Key} {tweak : Bytes} {len : Nat}

theorem hashOf_spec (ak : Key) {l : Bytes} (h : Accepts tweak len) (hl : l.length + 16 ≤ len) :
    hash ak tweak l = some (hashOf ak tweak l) ∧ (hashOf ak tweak l).length = 16 := by
  obtain ⟨dig, hdig, hlen⟩ := hash_isSome ak h.tweak_le (hl.trans h.le_max)
  unfold hashOf
  rw [hdig]
  exact ⟨rfl, hlen⟩

theorem not_guard (h : Accepts tweak len) :
    ¬ (len < 16 ∨ len > maxSector ∨ tweak.length > maxTweak) := by
  rintro (hc | hc | hc)
  · exact Nat.not_lt.mpr h.min_le hc
  · exact Nat.not_lt.mpr h.le_max hc
  · exact Nat.not_lt.mpr h.tweak_le hc

theorem guard_of_not (h : ¬ Accepts tweak len) :
    len < 16 ∨ len > maxSector ∨ tweak.length > maxTweak := by
  by_contra hc
  simp only [not_or, Nat.not_lt] at hc
  exact h ⟨hc.1, hc.2.1, hc.2.2⟩

theorem length_hbsh {cipher : Bytes → Bytes} {pick : Bytes → Bytes → Bytes}
    (hcipher : ∀ b, (cipher b).length = 16) {sector : Bytes} (h16 : 16 ≤ sector.length) :
    (hbsh ak cipher pick tweak sector).length = sector.length := by
  unfold hbsh
  simp only []
  rw [List.length_append, length_sub128, hcipher, length_xorStream, List.length_take]
  omega

/-- What the second half of either direction leaves in the memory: the stream over the rest,
    then the block less its hash. -/
theorem stream_then_block {mem : Bytes} {inp out : Nat} (h16 : 16 ≤ len)
    (hb : Buffers mem inp out len) (cm : Bytes) :
    slice (xchacha12Xor ak.k (streamNonce cm) inp (len - 16) out mem) out (len - 16) =
      xorStream (bulk ak cm) (slice mem inp (len - 16)) ∧
    ∀ ff h : Bytes, ff.length = 16 →
      let mem1 := patch (xchacha12Xor ak.k (streamNonce cm) inp (len - 16) out mem)
        (out + (len - 16)) ff
      patch mem1 (out + (len - 16)) (sub128 (slice mem1 (out + (len - 16)) 16) h) =
        patch mem out (xorStream (bulk ak cm) (slice mem inp (len - 16)) ++ sub128 ff h) := by
  have hinp := hb.inp_le
  have hout := hb.out_le
  have hapart : Apart inp out (len - 16) := by
    rcases hb.apart with heq | hlo | hhi
    · exact Or.inl heq
    · exact Or.inr (Or.inl (by omega))
    · exact Or.inr (Or.inr (by omega))
  have hpart : Buffers mem inp out (len - 16) := ⟨by omega, by omega, hapart⟩
  have hrun : xchacha12Xor ak.k (streamNonce cm) inp (len - 16) out mem =
      patch mem out (xorStream (bulk ak cm) (slice mem inp (len - 16))) :=
    ChaCha256.encrypt_eq _ hpart
  have hlen : (xorStream (bulk ak cm) (slice mem inp (len - 16))).length = len - 16 := by
    rw [length_xorStream, length_slice (by omega)]
  have hmem : (patch mem out (xorStream (bulk ak cm) (slice mem inp (len - 16)))).length =
      mem.length := length_patch (by omega)
  rw [hrun]
  refine ⟨slice_patch_self (by omega) hlen.symm, ?_⟩
  intro ff h hff
  simp only []
  rw [slice_patch_self (by omega) hff.symm,
    patch_patch_same (by omega) (length_sub128 ff h),
    patch_patch_adjacent (by omega) (by omega)]

/-- **The mode undoes itself** where the block function does and the stream is keyed by the same
    one of the two blocks. -/
theorem hbsh_hbsh {cipher cipher' : Bytes → Bytes} {pick pick' : Bytes → Bytes → Bytes}
    (hlen : ∀ b, (cipher b).length = 16)
    (hinv : ∀ b, b.length = 16 → cipher' (cipher b) = b)
    (hpick : ∀ first ff, pick' ff first = pick first ff) {sector : Bytes}
    (h : Accepts tweak sector.length) :
    hbsh ak cipher' pick' tweak (hbsh ak cipher pick tweak sector) = sector := by
  have h16 := h.min_le
  set llen := sector.length - 16 with hllen
  have htakeLen : (sector.take llen).length = llen := by
    rw [List.length_take]
    omega
  have hdropLen : (sector.drop llen).length = 16 := by
    rw [List.length_drop]
    omega
  have hdig := (hashOf_spec ak h (l := sector.take llen) (by omega)).2
  set first := add128 (sector.drop llen) (hashOf ak tweak (sector.take llen)) with hfirst
  have hfirstLen : first.length = 16 := by rw [hfirst, length_add128, hdropLen]
  set ks := bulk ak (pick first (cipher first)) with hks
  set l' := xorStream ks (sector.take llen) with hl'
  have hl'Len : l'.length = llen := by rw [hl', length_xorStream, htakeLen]
  have hdig' := (hashOf_spec ak h (l := l') (by omega)).2
  have hout : hbsh ak cipher pick tweak sector =
      l' ++ sub128 (cipher first) (hashOf ak tweak l') := rfl
  have houtLen : (l' ++ sub128 (cipher first) (hashOf ak tweak l')).length - 16 = llen := by
    rw [List.length_append, length_sub128, hlen, hl'Len]
    omega
  have hmid : add128 (sub128 (cipher first) (hashOf ak tweak l')) (hashOf ak tweak l') =
      cipher first := add128_sub128 (by rw [hlen, hdig'])
  have hplain : xorStream ks l' = sector.take llen := xorStream_xorStream ks _
  have hlast : sub128 first (hashOf ak tweak (sector.take llen)) = sector.drop llen :=
    sub128_add128 (by rw [hdropLen, hdig])
  rw [hout]
  unfold hbsh
  simp only [houtLen, List.take_left' hl'Len, List.drop_left' hl'Len]
  rw [hmid, hinv first hfirstLen, hpick, ← hks, hplain, hlast, List.take_append_drop]

/-- The sector an encryption writes: the stream is keyed by what the cipher gives. -/
def encryptSector (ak : Key) (tweak sector : Bytes) : Bytes :=
  hbsh ak (AesCt.encryptBlock ak.blk) (fun _ cm => cm) tweak sector

/-- The sector a decryption writes: the stream is keyed by what the cipher is given. -/
def decryptSector (ak : Key) (tweak sector : Bytes) : Bytes :=
  hbsh ak (AesCt.decryptBlock ak.blk) (fun cm _ => cm) tweak sector

/-- The two halves of the sector that is read. -/
theorem sector_halves {mem : Bytes} {inp : Nat} (h16 : 16 ≤ len) (hinp : inp + len ≤ mem.length) :
    (slice mem inp len).length - 16 = len - 16 ∧
    (slice mem inp len).take (len - 16) = slice mem inp (len - 16) ∧
    (slice mem inp len).drop (len - 16) = slice mem (inp + (len - 16)) 16 := by
  refine ⟨by rw [length_slice hinp], ?_, ?_⟩
  · rw [slice, slice, List.take_take, Nat.min_eq_left (by omega)]
  · have hrest : len - (len - 16) = 16 := by omega
    rw [slice, slice, List.drop_take, List.drop_drop, hrest]

theorem encrypt_eq (hrk : AesCt.WellKeyed ak.blk) {mem : Bytes} {pt ct : Nat}
    (h : Accepts tweak len) (hb : Buffers mem pt ct len) :
    encrypt ak tweak mem pt len ct =
      some (1, patch mem ct (encryptSector ak tweak (slice mem pt len))) := by
  have h16 := h.min_le
  obtain ⟨hlen, htake, hdrop⟩ := sector_halves h16 hb.inp_le
  have hread : (slice mem pt (len - 16)).length + 16 ≤ len := by
    have hle := length_slice_le mem pt (len - 16)
    omega
  have hdig := (hashOf_spec ak h hread).1
  set cm := AesCt.encryptBlock ak.blk (add128 (slice mem (pt + (len - 16)) 16)
    (hashOf ak tweak (slice mem pt (len - 16)))) with hcm
  obtain ⟨hback, hwrite⟩ := @stream_then_block ak len mem pt ct h16 hb cm
  have hmade : (xorStream (bulk ak cm) (slice mem pt (len - 16))).length + 16 ≤ len := by
    rw [length_xorStream]
    exact hread
  have hdig' := (hashOf_spec ak h hmade).1
  have hsector : encryptSector ak tweak (slice mem pt len) =
      xorStream (bulk ak cm) (slice mem pt (len - 16)) ++ sub128 cm
        (hashOf ak tweak (xorStream (bulk ak cm) (slice mem pt (len - 16)))) := by
    unfold encryptSector hbsh
    simp only [hlen, htake, hdrop]
    rw [← hcm]
  unfold encrypt
  rw [if_neg (not_guard h)]
  simp only [hdig, Option.bind_eq_bind, Option.bind_some]
  rw [← hcm, hback, hdig', Option.bind_some, hsector,
    ← hwrite cm _ (AesCt.length_encryptBlock hrk _)]

theorem decrypt_eq (hrk : AesCt.WellKeyed ak.blk) {mem : Bytes} {ct pt : Nat}
    (h : Accepts tweak len) (hb : Buffers mem ct pt len) :
    decrypt ak tweak mem ct len pt =
      some (1, patch mem pt (decryptSector ak tweak (slice mem ct len))) := by
  have h16 := h.min_le
  obtain ⟨hlen, htake, hdrop⟩ := sector_halves h16 hb.inp_le
  have hread : (slice mem ct (len - 16)).length + 16 ≤ len := by
    have hle := length_slice_le mem ct (len - 16)
    omega
  have hdig := (hashOf_spec ak h hread).1
  set cm := add128 (slice mem (ct + (len - 16)) 16)
    (hashOf ak tweak (slice mem ct (len - 16))) with hcm
  obtain ⟨hback, hwrite⟩ := @stream_then_block ak len mem ct pt h16 hb cm
  have hmade : (xorStream (bulk ak cm) (slice mem ct (len - 16))).length + 16 ≤ len := by
    rw [length_xorStream]
    exact hread
  have hdig' := (hashOf_spec ak h hmade).1
  have hsector : decryptSector ak tweak (slice mem ct len) =
      xorStream (bulk ak cm) (slice mem ct (len - 16)) ++ sub128 (AesCt.decryptBlock ak.blk cm)
        (hashOf ak tweak (xorStream (bulk ak cm) (slice mem ct (len - 16)))) := by
    unfold decryptSector hbsh
    simp only [hlen, htake, hdrop]
    rw [← hcm]
  unfold decrypt
  rw [if_neg (not_guard h)]
  simp only [hdig, Option.bind_eq_bind, Option.bind_some]
  rw [← hcm, hback, hdig', Option.bind_some, hsector,
    ← hwrite (AesCt.decryptBlock ak.blk cm) _ (AesCt.length_decryptBlock hrk _)]

/-! ## The two directions -/

theorem length_encryptSector (hrk : AesCt.WellKeyed ak.blk) {sector : Bytes}
    (h16 : 16 ≤ sector.length) : (encryptSector ak tweak sector).length = sector.length :=
  length_hbsh (AesCt.length_encryptBlock hrk) h16

theorem length_decryptSector (hrk : AesCt.WellKeyed ak.blk) {sector : Bytes}
    (h16 : 16 ≤ sector.length) : (decryptSector ak tweak sector).length = sector.length :=
  length_hbsh (AesCt.length_decryptBlock hrk) h16

theorem decryptSector_encryptSector (hrk : AesCt.WellKeyed ak.blk) {sector : Bytes}
    (h : Accepts tweak sector.length) :
    decryptSector ak tweak (encryptSector ak tweak sector) = sector :=
  hbsh_hbsh (AesCt.length_encryptBlock hrk)
    (fun _ hb => AesCt.decryptBlock_encryptBlock hrk hb) (fun _ _ => rfl) h

theorem encryptSector_decryptSector (hrk : AesCt.WellKeyed ak.blk) {sector : Bytes}
    (h : Accepts tweak sector.length) :
    encryptSector ak tweak (decryptSector ak tweak sector) = sector :=
  hbsh_hbsh (AesCt.length_decryptBlock hrk)
    (fun _ hb => AesCt.encryptBlock_decryptBlock hrk hb) (fun _ _ => rfl) h

end

theorem init_blk (key : Bytes) : ∃ ke, ke.length = 32 ∧ (init key).blk = AesCt.init256 ke := by
  have hks : (xchacha12Xor key (1 :: List.replicate 23 0) 0 1136 0
      (List.replicate 1136 0)).length = 1136 := by
    have hb : Buffers (List.replicate 1136 (0 : UInt8)) 0 0 1136 :=
      ⟨by rw [List.length_replicate], by rw [List.length_replicate], Or.inl rfl⟩
    have hrun := ChaCha256.encrypt_eq (xchacha12Ctx key (1 :: List.replicate 23 0)) hb
    unfold xchacha12Xor
    rw [hrun, length_patch]
    · exact List.length_replicate
    · rw [length_xorStream, length_slice hb.inp_le, List.length_replicate]
  refine ⟨slice (xchacha12Xor key (1 :: List.replicate 23 0) 0 1136 0
    (List.replicate 1136 0)) 0 32, length_slice (by rw [hks]; omega), ?_⟩
  unfold init
  dsimp only

/-- **The mode is a bijection for each key and tweak**, on every sector of an accepted length,
    from any buffer to any other or in place; the sums and differences on its last block are
    inverse to each other modulo `2 ^ 128`; and calls out of the limits write nothing. -/
theorem adiantum_bijection (key tweak mem : Bytes) (inp out back len : Nat) :
    (Accepts tweak len → Buffers mem inp out len → Buffers mem out back len →
      (∃ c, c.length = len ∧
        encrypt (init key) tweak mem inp len out = some (1, patch mem out c) ∧
        decrypt (init key) tweak (patch mem out c) out len back =
          some (1, patch (patch mem out c) back (slice mem inp len))) ∧
      (∃ p, p.length = len ∧
        decrypt (init key) tweak mem inp len out = some (1, patch mem out p) ∧
        encrypt (init key) tweak (patch mem out p) out len back =
          some (1, patch (patch mem out p) back (slice mem inp len)))) ∧
    (¬ Accepts tweak len →
      encrypt (init key) tweak mem inp len out = some (0, mem) ∧
      decrypt (init key) tweak mem inp len out = some (0, mem)) ∧
    (∀ a b : Bytes, a.length = 16 → b.length = 16 →
      leNat (add128 a b) = (leNat a + leNat b) % 2 ^ 128 ∧
      (leNat (sub128 a b) : Int) = ((leNat a : Int) - leNat b) % 2 ^ 128 ∧
      sub128 (add128 a b) b = a ∧ add128 (sub128 a b) b = a) := by
  have hrk : AesCt.WellKeyed (init key).blk := by
    obtain ⟨ke, hlen, hblk⟩ := init_blk key
    rw [hblk]
    exact AesCt.wellKeyed_init256 hlen
  refine ⟨?_, ?_, ?_⟩
  · intro h hb hb'
    have hsector : (slice mem inp len).length = len := length_slice hb.inp_le
    have haccepts : Accepts tweak (slice mem inp len).length := by rwa [hsector]
    constructor
    · have hlen := @length_encryptSector (init key) tweak hrk _ haccepts.min_le
      rw [hsector] at hlen
      obtain ⟨hnext, hread⟩ := hb.next hb' hlen
      refine ⟨_, hlen, encrypt_eq hrk h hb, ?_⟩
      rw [decrypt_eq hrk h hnext, hread, decryptSector_encryptSector hrk haccepts]
    · have hlen := @length_decryptSector (init key) tweak hrk _ haccepts.min_le
      rw [hsector] at hlen
      obtain ⟨hnext, hread⟩ := hb.next hb' hlen
      refine ⟨_, hlen, decrypt_eq hrk h hb, ?_⟩
      rw [encrypt_eq hrk h hnext, hread, encryptSector_decryptSector hrk haccepts]
  · intro h
    constructor
    · unfold encrypt
      rw [if_pos (guard_of_not h)]
    · unfold decrypt
      rw [if_pos (guard_of_not h)]
  · intro a b ha hb
    have hab := ha.trans hb.symm
    exact ⟨leNat_add128 ha hb, leNat_sub128 ha hb, sub128_add128 hab, add128_sub128 hab⟩

namespace AdiantumDemo

/-- A memory with two places for a sector of 20 bytes. -/
def mem : Bytes := List.replicate 40 3

theorem length_mem : mem.length = 40 := List.length_replicate

theorem accepts : Accepts [1, 2, 3] 20 := ⟨by decide, by decide, by decide⟩

theorem buffers : Buffers mem 0 20 20 :=
  ⟨by rw [length_mem]; omega, by rw [length_mem], Or.inr (Or.inl (by omega))⟩

theorem inPlace : Buffers mem 20 20 20 :=
  ⟨by rw [length_mem], by rw [length_mem], Or.inl rfl⟩

/-- A sector with a partial last block to another place, and back in place. -/
theorem adiantum_bijection_demo :
    ∃ c, c.length = 20 ∧
      encrypt (init (List.replicate 32 7)) [1, 2, 3] mem 0 20 20 = some (1, patch mem 20 c) ∧
      decrypt (init (List.replicate 32 7)) [1, 2, 3] (patch mem 20 c) 20 20 20 =
        some (1, patch (patch mem 20 c) 20 (slice mem 0 20)) :=
  ((adiantum_bijection (List.replicate 32 7) [1, 2, 3] mem 0 20 20 20).1
    accepts buffers inPlace).1

end AdiantumDemo

end Adiantum
end VeraCrypt
