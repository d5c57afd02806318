import VeraCrypt.Crypto.ChaCha

/-!
# Poly1305 (`Crypto/Poly1305.c`)

The one-shot MAC in five limbs of 26 bits: words of 32 bits, products in 64, carries passed on
once a block and settled at the end, and the residue below the prime chosen by a mask.
-/

set_option autoImplicit false

namespace VeraCrypt
namespace Poly1305

open Lib

/-- `h0` to `h4`, and likewise `r0` to `r4`. -/
structure Limbs where
  l0 : UInt32
  l1 : UInt32
  l2 : UInt32
  l3 : UInt32
  l4 : UInt32
  deriving DecidableEq

/-- The low 26 bits. -/
def limbMask : UInt32 := 0x03ffffff

/-- The clamped `r` of a key. -/
def clampR (key : Bytes) : Limbs where
  l0 := ld32 key 0 &&& 0x03ffffff
  l1 := (ld32 key 3 >>> 2) &&& 0x03ffff03
  l2 := (ld32 key 6 >>> 4) &&& 0x03ffc0ff
  l3 := (ld32 key 9 >>> 6) &&& 0x03f03fff
  l4 := (ld32 key 12 >>> 8) &&& 0x000fffff

/-- `h` plus a block of `n` bytes with its end marked. -/
def addBlock (h : Limbs) (msg : Bytes) : Limbs :=
  let n := msg.length
  let block := if n < 16 then msg ++ 1 :: List.replicate (15 - n) 0 else msg
  let hibit : UInt32 := if n < 16 then 0 else (1 : UInt32) <<< 24
  { l0 := h.l0 + (ld32 block 0 &&& limbMask)
    l1 := h.l1 + ((ld32 block 3 >>> 2) &&& limbMask)
    l2 := h.l2 + ((ld32 block 6 >>> 4) &&& limbMask)
    l3 := h.l3 + ((ld32 block 9 >>> 6) &&& limbMask)
    l4 := h.l4 + ((ld32 block 12 >>> 8) ||| hibit) }

/-- The product `h * r`, reduced as it is carried. -/
def mulR (r h : Limbs) : Limbs :=
  let s1 := (r.l1 * 5).toUInt64
  let s2 := (r.l2 * 5).toUInt64
  let s3 := (r.l3 * 5).toUInt64
  let s4 := (r.l4 * 5).toUInt64
  let r0 := r.l0.toUInt64
  let r1 := r.l1.toUInt64
  let r2 := r.l2.toUInt64
  let r3 := r.l3.toUInt64
  let r4 := r.l4.toUInt64
  let h0 := h.l0.toUInt64
  let h1 := h.l1.toUInt64
  let h2 := h.l2.toUInt64
  let h3 := h.l3.toUInt64
  let h4 := h.l4.toUInt64
  let d0 := h0 * r0 + h1 * s4 + h2 * s3 + h3 * s2 + h4 * s1
  let d1 := h0 * r1 + h1 * r0 + h2 * s4 + h3 * s3 + h4 * s2
  let d2 := h0 * r2 + h1 * r1 + h2 * r0 + h3 * s4 + h4 * s3
  let d3 := h0 * r3 + h1 * r2 + h2 * r1 + h3 * r0 + h4 * s4
  let d4 := h0 * r4 + h1 * r3 + h2 * r2 + h3 * r1 + h4 * r0
  let d1 := d1 + (d0 >>> 26)
  let d2 := d2 + (d1 >>> 26)
  let d3 := d3 + (d2 >>> 26)
  let d4 := d4 + (d3 >>> 26)
  let l0 := (d0.toUInt32 &&& limbMask) + (d4 >>> 26).toUInt32 * 5
  { l0 := l0 &&& limbMask
    l1 := (d1.toUInt32 &&& limbMask) + (l0 >>> 26)
    l2 := d2.toUInt32 &&& limbMask
    l3 := d3.toUInt32 &&& limbMask
    l4 := d4.toUInt32 &&& limbMask }

/-- The loop over the message. -/
def blocks (r : Limbs) (msg : Bytes) : Limbs :=
  (List.range ((msg.length + 15) / 16)).foldl
    (fun h i => mulR r (addBlock h (slice msg (16 * i) 16))) ⟨0, 0, 0, 0, 0⟩

/-- The carries after the last block. -/
def carry (h : Limbs) : Limbs :=
  let h2 := h.l2 + (h.l1 >>> 26)
  let h3 := h.l3 + (h2 >>> 26)
  let h4 := h.l4 + (h3 >>> 26)
  let h0 := h.l0 + (h4 >>> 26) * 5
  { l0 := h0 &&& limbMask
    l1 := (h.l1 &&& limbMask) + (h0 >>> 26)
    l2 := h2 &&& limbMask
    l3 := h3 &&& limbMask
    l4 := h4 &&& limbMask }

/-- `h` or `h - p`, by the sign of the latter. -/
def select (h : Limbs) : Limbs :=
  let g0 := h.l0 + 5
  let g1 := h.l1 + (g0 >>> 26)
  let g2 := h.l2 + (g1 >>> 26)
  let g3 := h.l3 + (g2 >>> 26)
  let g4 := h.l4 + (g3 >>> 26) - ((1 : UInt32) <<< 26)
  let mask := (g4 >>> 31) - 1
  { l0 := (h.l0 &&& ~~~mask) ||| (g0 &&& limbMask &&& mask)
    l1 := (h.l1 &&& ~~~mask) ||| (g1 &&& limbMask &&& mask)
    l2 := (h.l2 &&& ~~~mask) ||| (g2 &&& limbMask &&& mask)
    l3 := (h.l3 &&& ~~~mask) ||| (g3 &&& limbMask &&& mask)
    l4 := (h.l4 &&& ~~~mask) ||| (g4 &&& mask) }

/-- The tag: the limbs in four words, plus the second half of the key. -/
def finish (key : Bytes) (h : Limbs) : Bytes :=
  let f0 := h.l0 ||| (h.l1 <<< 26)
  let f1 := (h.l1 >>> 6) ||| (h.l2 <<< 20)
  let f2 := (h.l2 >>> 12) ||| (h.l3 <<< 14)
  let f3 := (h.l3 >>> 18) ||| (h.l4 <<< 8)
  let t0 := f0.toUInt64 + (ld32 key 16).toUInt64
  let t1 := f1.toUInt64 + (ld32 key 20).toUInt64 + (t0 >>> 32)
  let t2 := f2.toUInt64 + (ld32 key 24).toUInt64 + (t1 >>> 32)
  let t3 := f3.toUInt64 + (ld32 key 28).toUInt64 + (t2 >>> 32)
  st32 t0.toUInt32 ++ st32 t1.toUInt32 ++ st32 t2.toUInt32 ++ st32 t3.toUInt32

/-- `Poly1305` -/
def poly1305 (msg key : Bytes) : Bytes :=
  finish key (select (carry (blocks (clampR key) msg)))

@[simp] theorem length_poly1305 (msg key : Bytes) : (poly1305 msg key).length = 16 := by
  unfold poly1305 finish st32
  simp only [List.length_append, length_leBytes]

end Poly1305
end VeraCrypt
