import VeraCrypt.Crypto.Primitives
import VeraCrypt.Lib.BlockHash
import VeraCrypt.Lib.Endian

/-!
# SHA-256 as a stream (`Crypto/Sha2.c`)

`sha256_begin`, `sha256_hash` and `sha256_end` around a compression function, which may be any. A
context stands for the message it was given (`Absorbed`), and what `sha256_end` returns depends on
that message alone (`sha256End_eq`). The length in the last block is the bits modulo `2^32`, since
`count[1]` is a `uint_32t`: that is the length of the standard up to 2^29 bytes
(`hashOf_eq_sha256Fips`).
-/

set_option autoImplicit false

namespace VeraCrypt
namespace Sha256

open Lib

/-- The eight words of a state. -/
abbrev Words := Vector UInt32 8

structure Ctx where
  /-- `count[0]`: the bytes in `wbuf`. -/
  pos : Nat
  /-- `count[1]`: the bits so far, modulo `2^32`. -/
  total : Nat
  hash : Words
  wbuf : Bytes

/-- The state a message starts from. -/
def iv : Words :=
  #v[0x6a09e667, 0xbb67ae85, 0x3c6ef372, 0xa54ff53a, 0x510e527f, 0x9b05688c, 0x1f83d9ab, 0x5be0cd19]

/-- `sha256_begin` on a context whose buffer holds anything. -/
def sha256Begin (wbuf : Bytes) : Ctx := ⟨0, 0, iv, wbuf⟩

/-- The state in big-endian bytes. -/
def digest (h : Words) : Bytes := h.toList.flatMap (fun w => beBytes 4 w.toNat)

section

variable (compress : Words → Bytes → Words)

/-- `sha256transfunc` over `blocks` blocks. -/
def transform (h : Words) (m : Bytes) (blocks : Nat) : Words :=
  (List.range blocks).foldl (fun h i => compress h (slice m (64 * i) 64)) h

/-- The part of `sha256_hash` that completes a block in the buffer. -/
def fillBlock (data : Bytes) (ctx : Ctx) : Bytes × Ctx :=
  let pos := ctx.pos
  if pos ≠ 0 ∧ (pos + data.length) % 2 ^ 32 ≥ 64 then
    let m := patch ctx.wbuf pos (data.take (64 - pos))
    (data.drop (64 - pos),
      { pos := 0
        total := (ctx.total + (64 - pos) * 8) % 2 ^ 32
        hash := transform compress ctx.hash m 1
        wbuf := m })
  else (data, ctx)

/-- The part that takes whole blocks from the data. -/
def wholeBlocks (data : Bytes) (ctx : Ctx) : Bytes × Ctx :=
  if data.length ≥ 64 then
    let blocks := data.length / 64
    let bytes := blocks * 64
    (data.drop bytes,
      { ctx with
        total := (ctx.total + bytes * 8) % 2 ^ 32
        hash := transform compress ctx.hash data blocks })
  else (data, ctx)

/-- `sha256_hash` -/
def sha256Hash (data : Bytes) (ctx : Ctx) : Ctx :=
  let (data, ctx) := fillBlock compress data ctx
  let (data, ctx) := wholeBlocks compress data ctx
  { ctx with
    pos := ctx.pos + data.length
    total := (ctx.total + data.length * 8) % 2 ^ 32
    wbuf := patch ctx.wbuf ctx.pos data }

/-- `sha256_end` -/
def sha256End (ctx : Ctx) : Bytes :=
  let m := patch ctx.wbuf ctx.pos [0x80]
  let pos := ctx.pos + 1
  let (h, m, pos) :=
    if pos > 56 then
      let m := patch m pos (List.replicate (64 - pos) 0)
      (transform compress ctx.hash m 1, m, 0)
    else (ctx.hash, m, pos)
  let m := patch m pos (List.replicate (56 - pos) 0)
  let m := patch m 56 (beBytes 8 ctx.total)
  digest (transform compress h m 1)

/-- `sha256` -/
def sha256 (wbuf source : Bytes) : Bytes :=
  sha256End compress (sha256Hash compress source (sha256Begin wbuf))

/-! ## What a context stands for -/

/-- What is put behind a message of `n` bytes whose length is written as `bits`. -/
def padding (n bits : Nat) : Bytes :=
  0x80 :: List.replicate ((119 - n % 64) % 64) 0 ++ beBytes 8 bits

/-- The hash of a message by the code: the length is the bits modulo `2^32`. -/
def hashOf (m : Bytes) : Bytes :=
  digest (absorb compress 64 iv (m ++ padding m.length (8 * m.length % 2 ^ 32)))

/-- The hash of a message by the standard. -/
def sha256Fips (m : Bytes) : Bytes :=
  digest (absorb compress 64 iv (m ++ padding m.length (8 * m.length)))

theorem hashOf_eq_sha256Fips {m : Bytes} (h : m.length < 2 ^ 29) :
    hashOf compress m = sha256Fips compress m := by
  rw [hashOf, sha256Fips, Nat.mod_eq_of_lt (by omega)]

/-- A context that has been given `m`. -/
structure Absorbed (m : Bytes) (ctx : Ctx) : Prop where
  pos : ctx.pos = m.length % 64
  total : ctx.total = 8 * m.length % 2 ^ 32
  hash : ctx.hash = absorb compress 64 iv m
  length : ctx.wbuf.length = 64
  wbuf : ctx.wbuf.take ctx.pos = m.drop (m.length - ctx.pos)

theorem absorbed_begin {wbuf : Bytes} (h : wbuf.length = 64) :
    Absorbed compress [] (sha256Begin wbuf) :=
  { pos := rfl, total := rfl, hash := rfl, length := h, wbuf := rfl }

theorem transform_eq_absorb (h : Words) (m : Bytes) :
    transform compress h m (m.length / 64) = absorb compress 64 h m := rfl

theorem transform_one (h : Words) {m : Bytes} (hm : m.length = 64) :
    transform compress h m 1 = compress h m := by
  simp [transform, slice_all (Nat.le_of_eq hm)]

/-- The whole blocks of the data, where there is none in the buffer. -/
theorem wholeBlocks_eq (data : Bytes) (ctx : Ctx) :
    (wholeBlocks compress data ctx).1 = data.drop (64 * (data.length / 64)) ∧
      (wholeBlocks compress data ctx).2.pos = ctx.pos ∧
      (wholeBlocks compress data ctx).2.wbuf = ctx.wbuf ∧
      (wholeBlocks compress data ctx).2.hash = absorb compress 64 ctx.hash data ∧
      (wholeBlocks compress data ctx).2.total % 2 ^ 32 =
        (ctx.total + 64 * (data.length / 64) * 8) % 2 ^ 32 := by
  unfold wholeBlocks
  by_cases h : data.length ≥ 64
  · rw [if_pos h]
    refine ⟨?_, rfl, rfl, rfl, ?_⟩
    · rw [Nat.mul_comm 64]
    · rw [Nat.mul_comm 64]
      exact Nat.mod_mod _ _
  · rw [if_neg h]
    have hz : data.length / 64 = 0 := Nat.div_eq_of_lt (by omega)
    refine ⟨?_, rfl, rfl, ?_, ?_⟩
    · rw [hz]
      rfl
    · rw [absorb_short compress _ (by omega)]
    · rw [hz]
      rfl

theorem total_step (a n : Nat) :
    ((8 * a % 2 ^ 32 + 64 * (n / 64) * 8) % 2 ^ 32 + n % 64 * 8 % 2 ^ 32) % 2 ^ 32 =
      8 * (a + n) % 2 ^ 32 := by
  omega

/-- More of a message, where the buffer is empty. -/
theorem absorbed_hash {m : Bytes} {ctx : Ctx} (h : Absorbed compress m ctx)
    (hm : m.length % 64 = 0) (data : Bytes) :
    Absorbed compress (m ++ data) (sha256Hash compress data ctx) := by
  have hpos : ctx.pos = 0 := by rw [h.pos, hm]
  have hfill : fillBlock compress data ctx = (data, ctx) := by simp [fillBlock, hpos]
  obtain ⟨hdata, hpos', hwbuf, hhash, htotal⟩ := wholeBlocks_eq compress data ctx
  have hlen : (wholeBlocks compress data ctx).1.length = data.length % 64 := by
    rw [hdata, List.length_drop]
    omega
  have hall : (m ++ data).length % 64 = data.length % 64 := by
    rw [List.length_append]
    omega
  unfold sha256Hash
  rw [hfill]
  dsimp only
  constructor
  · show (wholeBlocks compress data ctx).2.pos + (wholeBlocks compress data ctx).1.length = _
    rw [hpos', hpos, hlen, hall, Nat.zero_add]
  · show ((wholeBlocks compress data ctx).2.total + (wholeBlocks compress data ctx).1.length * 8) %
      2 ^ 32 = _
    rw [Nat.add_mod, htotal, hlen, h.total, List.length_append]
    exact total_step m.length data.length
  · show (wholeBlocks compress data ctx).2.hash = _
    rw [hhash, h.hash, absorb_append compress (by decide) iv hm]
  · show (patch (wholeBlocks compress data ctx).2.wbuf _ _).length = 64
    rw [hwbuf, hpos', hpos, length_patch (by rw [hlen, h.length]; omega), h.length]
  · show (patch (wholeBlocks compress data ctx).2.wbuf _ _).take _ = _
    rw [hwbuf, hpos', hpos, hlen, Nat.zero_add]
    have hback : patch ctx.wbuf 0 (wholeBlocks compress data ctx).1 =
        (wholeBlocks compress data ctx).1 ++ ctx.wbuf.drop (data.length % 64) := by
      simp [patch, hlen]
    have htail : (m ++ data).length - data.length % 64 = m.length + 64 * (data.length / 64) := by
      rw [List.length_append]
      omega
    rw [hback, List.take_append_of_le_length (Nat.le_of_eq hlen.symm),
      List.take_of_length_le (Nat.le_of_eq hlen), hdata, htail, List.drop_length_add_append]

/-- What is left of a message behind its whole blocks. -/
theorem Absorbed.split {m : Bytes} {ctx : Ctx} (h : Absorbed compress m ctx) :
    ∃ whole, m = whole ++ ctx.wbuf.take ctx.pos ∧ whole.length % 64 = 0 ∧
      ctx.hash = absorb compress 64 iv whole := by
  have hpos := h.pos
  refine ⟨m.take (m.length - ctx.pos), ?_, ?_, ?_⟩
  · rw [h.wbuf, List.take_append_drop]
  · rw [List.length_take]
    omega
  · have hm : m = m.take (m.length - ctx.pos) ++ m.drop (m.length - ctx.pos) :=
      (List.take_append_drop _ m).symm
    rw [h.hash]
    conv_lhs => rw [hm]
    rw [absorb_append compress (by decide) iv (by rw [List.length_take]; omega),
      absorb_short compress _ (by rw [List.length_drop]; omega)]

/-- Data that does not fill the block in the buffer. -/
theorem absorbed_hash_short {m : Bytes} {ctx : Ctx} (h : Absorbed compress m ctx) {data : Bytes}
    (hshort : ctx.pos + data.length < 64) :
    Absorbed compress (m ++ data) (sha256Hash compress data ctx) := by
  obtain ⟨whole, hm, hwhole, hhash⟩ := h.split
  have hpos := h.pos
  have hw := h.length
  have hfill : fillBlock compress data ctx = (data, ctx) := by
    unfold fillBlock
    rw [if_neg (by rw [Nat.mod_eq_of_lt (by omega)]; omega)]
  have hno : wholeBlocks compress data ctx = (data, ctx) := by
    unfold wholeBlocks
    rw [if_neg (by omega)]
  have hlen : (ctx.wbuf.take ctx.pos).length = ctx.pos := by
    rw [List.length_take]
    omega
  have hmlen : m.length = whole.length + ctx.pos := by
    rw [← hlen, ← List.length_append, ← hm]
  unfold sha256Hash
  rw [hfill]
  dsimp only
  rw [hno]
  dsimp only
  constructor
  · show ctx.pos + data.length = _
    rw [List.length_append]
    omega
  · show (ctx.total + data.length * 8) % 2 ^ 32 = _
    rw [h.total, List.length_append]
    omega
  · show ctx.hash = _
    have hback : m ++ data = whole ++ (ctx.wbuf.take ctx.pos ++ data) := by
      conv_lhs => rw [hm]
      rw [List.append_assoc]
    have hrest : (ctx.wbuf.take ctx.pos ++ data).length < 64 := by
      rw [List.length_append, hlen]
      exact hshort
    rw [hback, absorb_append compress (by decide) iv hwhole, hhash, absorb_short compress _ hrest]
  · show (patch ctx.wbuf ctx.pos data).length = 64
    rw [length_patch (by omega), hw]
  · show (patch ctx.wbuf ctx.pos data).take (ctx.pos + data.length) = _
    have hfront : (patch ctx.wbuf ctx.pos data).take (ctx.pos + data.length) =
        ctx.wbuf.take ctx.pos ++ data := by
      rw [patch, List.append_assoc, ← List.append_assoc _ data,
        List.take_append_of_le_length (by rw [List.length_append, hlen]),
        List.take_of_length_le (by rw [List.length_append, hlen])]
    have hdrop : (m ++ data).drop ((m ++ data).length - (ctx.pos + data.length)) =
        ctx.wbuf.take ctx.pos ++ data := by
      have hstart : (m ++ data).length - (ctx.pos + data.length) = whole.length := by
        rw [List.length_append]
        omega
      have hback : m ++ data = whole ++ (ctx.wbuf.take ctx.pos ++ data) := by
        conv_lhs => rw [hm]
        rw [List.append_assoc]
      rw [hstart, hback, List.drop_left]
    rw [hfront, hdrop]

/-- Data that fills it: the block is taken, and the rest comes to an empty buffer. -/
theorem absorbed_fill {m : Bytes} {ctx : Ctx} (h : Absorbed compress m ctx) {data : Bytes}
    (hpos : ctx.pos ≠ 0) (hfull : 64 ≤ ctx.pos + data.length)
    (hlen : ctx.pos + data.length < 2 ^ 32) :
    (fillBlock compress data ctx).1 = data.drop (64 - ctx.pos) ∧
      Absorbed compress (m ++ data.take (64 - ctx.pos)) (fillBlock compress data ctx).2 := by
  obtain ⟨whole, hm, hwhole, hhash⟩ := h.split
  have hp := h.pos
  have hw := h.length
  have htake : (data.take (64 - ctx.pos)).length = 64 - ctx.pos := by
    rw [List.length_take]
    omega
  have hbuf : patch ctx.wbuf ctx.pos (data.take (64 - ctx.pos)) =
      ctx.wbuf.take ctx.pos ++ data.take (64 - ctx.pos) := by
    have hend : ctx.wbuf.drop (ctx.pos + (data.take (64 - ctx.pos)).length) = [] := by
      apply List.drop_eq_nil_of_le
      rw [htake, hw]
      omega
    rw [patch, hend, List.append_nil]
  have hblock : (ctx.wbuf.take ctx.pos ++ data.take (64 - ctx.pos)).length = 64 := by
    rw [List.length_append, htake, List.length_take, hw]
    omega
  have hback : m ++ data.take (64 - ctx.pos) =
      whole ++ (ctx.wbuf.take ctx.pos ++ data.take (64 - ctx.pos)) := by
    conv_lhs => rw [hm]
    rw [List.append_assoc]
  unfold fillBlock
  dsimp only
  rw [if_pos ⟨hpos, by rw [Nat.mod_eq_of_lt hlen]; exact hfull⟩, hbuf]
  refine ⟨rfl, ?_⟩
  have hall : (m ++ data.take (64 - ctx.pos)).length % 64 = 0 := by
    rw [hback, List.length_append, hblock]
    omega
  constructor
  · exact hall.symm
  · show (ctx.total + (64 - ctx.pos) * 8) % 2 ^ 32 = _
    rw [h.total, List.length_append, htake]
    omega
  · show transform compress ctx.hash _ 1 = _
    rw [transform_one compress _ hblock, hback, absorb_append compress (by decide) iv hwhole,
      absorb_block compress (by decide) _ hblock, hhash]
  · exact hblock
  · show List.take 0 _ = _
    rw [List.take_zero, Nat.sub_zero, List.drop_length]

/-- More of a message. -/
theorem absorbed_more {m : Bytes} {ctx : Ctx} (h : Absorbed compress m ctx) {data : Bytes}
    (hlen : data.length < 2 ^ 31) :
    Absorbed compress (m ++ data) (sha256Hash compress data ctx) := by
  have hp := h.pos
  by_cases hz : ctx.pos = 0
  · exact absorbed_hash compress h (by omega) data
  · by_cases hfull : 64 ≤ ctx.pos + data.length
    · obtain ⟨hrest, hblock⟩ := absorbed_fill compress h hz hfull (by omega)
      have haligned : (m ++ data.take (64 - ctx.pos)).length % 64 = 0 := by
        rw [List.length_append, List.length_take]
        omega
      have hempty : (fillBlock compress data ctx).2.pos = 0 := by rw [hblock.pos, haligned]
      -- the rest goes on as with an empty buffer
      have hstep : sha256Hash compress data ctx =
          sha256Hash compress (data.drop (64 - ctx.pos)) (fillBlock compress data ctx).2 := by
        have hagain : fillBlock compress (data.drop (64 - ctx.pos))
            (fillBlock compress data ctx).2 = fillBlock compress data ctx := by
          rw [← hrest]
          conv_lhs => rw [fillBlock]
          rw [if_neg (by rw [hempty]; simp)]
        unfold sha256Hash
        rw [hagain]
      have hsplit : m ++ data = (m ++ data.take (64 - ctx.pos)) ++ data.drop (64 - ctx.pos) := by
        rw [List.append_assoc, List.take_append_drop]
      rw [hstep, hsplit]
      exact absorbed_hash compress hblock haligned _
    · exact absorbed_hash_short compress h (by omega)

/-! ## The end of a message -/

/-- What `sha256_end` makes of the buffer, if the length has room in it. -/
theorem end_one_block {w : Bytes} {p : Nat} (hw : w.length = 64) (hp : p + 1 ≤ 56) {bits : Bytes}
    (hbits : bits.length = 8) :
    patch (patch (patch w p [0x80]) (p + 1) (List.replicate (56 - (p + 1)) 0)) 56 bits =
      w.take p ++ (0x80 :: List.replicate (56 - (p + 1)) 0 ++ bits) := by
  have hmark : patch (patch w p [0x80]) (p + 1) (List.replicate (56 - (p + 1)) 0) =
      patch w p ([0x80] ++ List.replicate (56 - (p + 1)) 0) :=
    patch_patch_adjacent (by simp; omega) rfl
  rw [hmark, patch_patch_adjacent (by simp; omega) (by simp; omega)]
  have hend : w.drop (p + ([0x80] ++ List.replicate (56 - (p + 1)) 0 ++ bits).length) = [] := by
    apply List.drop_eq_nil_of_le
    simp [hbits]
    omega
  rw [patch, hend]
  simp

/-- The same in two blocks. -/
theorem end_two_blocks {w : Bytes} {p : Nat} (hw : w.length = 64) (hp : p + 1 ≤ 64) :
    patch (patch w p [0x80]) (p + 1) (List.replicate (64 - (p + 1)) 0) =
      w.take p ++ (0x80 :: List.replicate (64 - (p + 1)) 0) := by
  have hmark : patch (patch w p [0x80]) (p + 1) (List.replicate (64 - (p + 1)) 0) =
      patch w p ([0x80] ++ List.replicate (64 - (p + 1)) 0) :=
    patch_patch_adjacent (by simp; omega) rfl
  rw [hmark]
  have hend : w.drop (p + ([0x80] ++ List.replicate (64 - (p + 1)) (0 : UInt8)).length) = [] := by
    apply List.drop_eq_nil_of_le
    simp
    omega
  rw [patch, hend]
  simp

/-- The block with the length alone. -/
theorem end_last_block {w bits : Bytes} (hw : w.length = 64) (hbits : bits.length = 8) :
    patch (patch w 0 (List.replicate (56 - 0) 0)) 56 bits = List.replicate 56 0 ++ bits := by
  rw [patch_patch_adjacent (by simp; omega) (by simp)]
  have hend : w.drop (0 + (List.replicate (56 - 0) (0 : UInt8) ++ bits).length) = [] := by
    apply List.drop_eq_nil_of_le
    simp [hbits]
    omega
  rw [patch, hend]
  simp

/-- `sha256_end` returns the hash of the message that the context was given. -/
theorem sha256End_eq {m : Bytes} {ctx : Ctx} (h : Absorbed compress m ctx) :
    sha256End compress ctx = hashOf compress m := by
  have hp : ctx.pos < 64 := by
    rw [h.pos]
    exact Nat.mod_lt _ (by decide)
  have hle : ctx.pos ≤ m.length := by
    rw [h.pos]
    exact Nat.mod_le _ _
  have hpos := h.pos
  have htail : (m.drop (m.length - ctx.pos)).length = ctx.pos := by
    rw [List.length_drop]
    omega
  have hfront : (m.take (m.length - ctx.pos)).length % 64 = 0 := by
    rw [List.length_take]
    omega
  have hstate : ctx.hash = absorb compress 64 iv (m.take (m.length - ctx.pos)) := by
    have hsplit := absorb_append compress (by decide) iv hfront (m.drop (m.length - ctx.pos))
    have hshort := absorb_short compress (absorb compress 64 iv (m.take (m.length - ctx.pos)))
      (htail.trans_lt hp)
    rw [List.take_append_drop, hshort] at hsplit
    rw [h.hash, hsplit]
  have hwhole : hashOf compress m = digest (absorb compress 64 ctx.hash
      (m.drop (m.length - ctx.pos) ++ padding m.length (8 * m.length % 2 ^ 32))) := by
    rw [hashOf, hstate, ← absorb_append compress (by decide) iv hfront, ← List.append_assoc,
      List.take_append_drop]
  rw [hwhole, ← h.wbuf, ← h.total, padding, ← hpos]
  unfold sha256End
  dsimp only
  by_cases hroom : ctx.pos + 1 > 56
  · rw [if_pos hroom]
    have hzeros : (119 - ctx.pos) % 64 = (64 - (ctx.pos + 1)) + 56 := by omega
    have hfirst : (ctx.wbuf.take ctx.pos ++
        (0x80 :: List.replicate (64 - (ctx.pos + 1)) 0)).length = 64 := by
      rw [List.length_append, List.length_take, h.length]
      simp
      omega
    have hsecond : (List.replicate 56 (0 : UInt8) ++ beBytes 8 ctx.total).length = 64 := by simp
    dsimp only
    rw [end_two_blocks h.length (by omega), end_last_block hfirst (by simp),
      transform_one compress _ hfirst, transform_one compress _ hsecond, hzeros,
      ← List.replicate_append_replicate]
    have hjoin : ctx.wbuf.take ctx.pos ++ (0x80 :: (List.replicate (64 - (ctx.pos + 1)) 0 ++
        List.replicate 56 0) ++ beBytes 8 ctx.total) =
        (ctx.wbuf.take ctx.pos ++ (0x80 :: List.replicate (64 - (ctx.pos + 1)) 0)) ++
          (List.replicate 56 0 ++ beBytes 8 ctx.total) := by
      simp
    rw [hjoin, absorb_append compress (by decide) _ (by rw [hfirst]), absorb_block compress
      (by decide) _ hfirst, absorb_block compress (by decide) _ hsecond]
  · rw [if_neg hroom]
    have hzeros : (119 - ctx.pos) % 64 = 56 - (ctx.pos + 1) := by omega
    have hblock : (ctx.wbuf.take ctx.pos ++
        (0x80 :: List.replicate (56 - (ctx.pos + 1)) 0 ++ beBytes 8 ctx.total)).length = 64 := by
      rw [List.length_append, List.length_take, h.length]
      simp
      omega
    dsimp only
    rw [end_one_block h.length (by omega) (by simp), transform_one compress _ hblock, hzeros,
      absorb_block compress (by decide) _ hblock]

theorem sha256_eq {wbuf : Bytes} (h : wbuf.length = 64) (m : Bytes) :
    sha256 compress wbuf m = hashOf compress m := by
  have hm := absorbed_hash compress (absorbed_begin compress h) rfl m
  rw [sha256, sha256End_eq compress hm, List.nil_append]

theorem length_hashOf (m : Bytes) : (hashOf compress m).length = 32 := by
  unfold hashOf digest
  rw [length_flatMap_const (fun w _ => length_beBytes 4 w.toNat)]
  simp

end

end Sha256
end VeraCrypt
