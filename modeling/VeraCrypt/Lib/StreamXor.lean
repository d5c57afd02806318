import VeraCrypt.Lib.Region
import Mathlib.Data.UInt
import Mathlib.Logic.Function.Iterate

/-!
# A keystream xored from one place of a memory to another

A stream cipher reads its input at one offset of a memory and writes its output at another,
byte by byte, making the keystream a block at a time on the way. Where the two places are the
same or do not meet, the loop writes the input as it was before the loop, xored with the
keystream (`streamXor_eq`); where they meet in part it does not, which is why a caller has to
promise one or the other.

The blocks of the keystream come from a state that steps on after each block. What one block is
and what a step does are parameters.
-/

set_option autoImplicit false

namespace VeraCrypt
namespace Lib

/-! ## One block -/

/-- The first `n` bytes from `src`, xored with `ks`, to `dst`: lowest first, in place. -/
def xorBytesAt (ks : Nat → UInt8) (src dst n : Nat) (mem : List UInt8) : List UInt8 :=
  (List.range n).foldl
    (fun mem j => mem.set (dst + j) (mem.getD (src + j) 0 ^^^ ks j)) mem

/-- Two ranges of `n` bytes that are one range or do not meet. -/
def Apart (src dst n : Nat) : Prop := src = dst ∨ src + n ≤ dst ∨ dst + n ≤ src

/-- The input and the output of a call: ranges of the memory that are one or do not meet. -/
structure Buffers {α : Type _} (mem : List α) (inp out len : Nat) : Prop where
  inp_le : inp + len ≤ mem.length
  out_le : out + len ≤ mem.length
  apart : Apart inp out len

/-- What one call wrote can be the input of the next. -/
theorem Buffers.next {α : Type _} {mem c : List α} {inp out back len : Nat}
    (h : Buffers mem inp out len) (h' : Buffers mem out back len) (hc : c.length = len) :
    Buffers (patch mem out c) out back len ∧ slice (patch mem out c) out len = c := by
  have hout := h.out_le
  have hlen : (patch mem out c).length = mem.length := length_patch (by omega)
  constructor
  · exact ⟨by rw [hlen]; exact h'.inp_le, by rw [hlen]; exact h'.out_le, h'.apart⟩
  · exact slice_patch_self (by omega) hc.symm

/-- The bytes of a buffer under a keystream. -/
def xorStream (ks : Nat → UInt8) (data : List UInt8) : List UInt8 :=
  data.mapIdx (fun j b => b ^^^ ks j)

@[simp] theorem length_xorStream (ks : Nat → UInt8) (data : List UInt8) :
    (xorStream ks data).length = data.length := by
  simp [xorStream]

theorem xorStream_xorStream (ks : Nat → UInt8) (data : List UInt8) :
    xorStream ks (xorStream ks data) = data := by
  apply List.ext_getElem?
  intro j
  simp only [xorStream, List.getElem?_mapIdx, Option.map_map]
  cases data[j]? with
  | none => rfl
  | some b =>
    have hb : b ^^^ ks j ^^^ ks j = b := by rw [UInt8.xor_assoc, UInt8.xor_self, UInt8.xor_zero]
    simp [Function.comp, hb]

theorem length_xorBytesAt (ks : Nat → UInt8) (src dst n : Nat) (mem : List UInt8) :
    (xorBytesAt ks src dst n mem).length = mem.length := by
  unfold xorBytesAt
  induction n with
  | zero => rfl
  | succ n ih => rw [List.range_succ, List.foldl_append, List.foldl_cons, List.foldl_nil,
      List.length_set, ih]

section
variable {ks : Nat → UInt8} {src dst n : Nat} {mem : List UInt8}

/-- **The loop reads what stood there before it**, at ranges that are one or apart. -/
theorem xorBytesAt_eq (hsrc : src + n ≤ mem.length) (hdst : dst + n ≤ mem.length)
    (h : Apart src dst n) :
    xorBytesAt ks src dst n mem = patch mem dst (xorStream ks (slice mem src n)) := by
  -- after `k` bytes, the first `k` of the output stand and nothing else has changed
  have hrun : ∀ k ≤ n, ∀ i, (xorBytesAt ks src dst k mem)[i]? =
      if dst ≤ i ∧ i < dst + k then some (mem.getD (src + (i - dst)) 0 ^^^ ks (i - dst))
      else mem[i]? := by
    intro k
    induction k with
    | zero =>
      intro _ i
      rw [if_neg (by omega)]
      rfl
    | succ k ih =>
      intro hk i
      have hprev := ih (by omega)
      have hlen := length_xorBytesAt ks src dst k mem
      have hread : (xorBytesAt ks src dst k mem).getD (src + k) 0 = mem.getD (src + k) 0 := by
        rw [List.getD_eq_getElem?_getD, List.getD_eq_getElem?_getD, hprev, if_neg ?_]
        rcases h with heq | hlo | hhi
        · omega
        · omega
        · omega
      have hstep : xorBytesAt ks src dst (k + 1) mem =
          (xorBytesAt ks src dst k mem).set (dst + k) (mem.getD (src + k) 0 ^^^ ks k) := by
        rw [← hread]
        unfold xorBytesAt
        rw [List.range_succ, List.foldl_append, List.foldl_cons, List.foldl_nil]
      rw [hstep, List.getElem?_set]
      by_cases hi : dst + k = i
      · have hsub : i - dst = k := by omega
        rw [if_pos hi, if_pos (by omega), if_pos (by omega), hsub]
      · rw [if_neg hi, hprev]
        by_cases hin : dst ≤ i ∧ i < dst + k
        · rw [if_pos hin, if_pos (by omega)]
        · rw [if_neg hin, if_neg (by omega)]
  apply List.ext_getElem?
  intro i
  have hlen : (xorStream ks (slice mem src n)).length = n := by
    rw [length_xorStream, length_slice hsrc]
  rw [hrun n (Nat.le_refl n), getElem?_patch (by omega), hlen]
  by_cases hin : dst ≤ i ∧ i < dst + n
  · rw [if_pos hin, if_pos hin]
    unfold xorStream
    rw [List.getElem?_mapIdx, getElem?_slice, if_pos (by omega), List.getD_eq_getElem?_getD,
      List.getElem?_eq_getElem (by omega)]
    rfl
  · rw [if_neg hin, if_neg hin]

/-- A run of bytes is its beginning and then its end. -/
theorem xorBytesAt_add (ks : Nat → UInt8) (src dst a b : Nat) (mem : List UInt8) :
    xorBytesAt ks src dst (a + b) mem =
      xorBytesAt (fun j => ks (a + j)) (src + a) (dst + a) b (xorBytesAt ks src dst a mem) := by
  unfold xorBytesAt
  rw [List.range_add, List.foldl_append, List.foldl_map]
  simp only [Nat.add_assoc]

theorem xorBytesAt_congr {ks' : Nat → UInt8} (h : ∀ j < n, ks j = ks' j) :
    xorBytesAt ks src dst n mem = xorBytesAt ks' src dst n mem := by
  induction n with
  | zero => rfl
  | succ n ih =>
    have hprev := ih (fun j hj => h j (by omega))
    unfold xorBytesAt at hprev ⊢
    rw [List.range_succ, List.foldl_append, List.foldl_append, hprev]
    simp only [List.foldl_cons, List.foldl_nil, h n (by omega)]

end

/-! ## Block after block -/

section
variable {σ : Type _} (block : σ → Nat → UInt8) (next : σ → σ) (w : Nat)

/-- Byte `k` of the keystream of a state, in blocks of `w` bytes. -/
def keystream (s : σ) (k : Nat) : UInt8 := block (next^[k / w] s) (k % w)

/-- The loop of a stream cipher from its present place on: `fuel` blocks at most. -/
def streamXor : (fuel : Nat) → σ → (src dst len : Nat) → List UInt8 → List UInt8
  | 0, _, _, _, _, mem => mem
  | fuel + 1, s, src, dst, len, mem =>
    if len = 0 then mem
    else
      let n := if len < w then len else w
      streamXor fuel (next s) (src + n) (dst + n) (len - n) (xorBytesAt (block s) src dst n mem)

variable {block next w}

theorem keystream_of_lt (s : σ) {k : Nat} (h : k < w) : keystream block next w s k = block s k := by
  unfold keystream
  rw [Nat.div_eq_of_lt h, Nat.mod_eq_of_lt h]
  rfl

theorem keystream_add (hw : 0 < w) (s : σ) (k : Nat) :
    keystream block next w s (w + k) = keystream block next w (next s) k := by
  unfold keystream
  rw [Nat.add_div_left _ hw, Nat.add_mod_left, Function.iterate_succ_apply]

/-- The blocks, one after another, are one run under the keystream. -/
theorem streamXor_eq_xorBytesAt (hw : 0 < w) {fuel : Nat} (s : σ) (src dst : Nat) {len : Nat}
    (hfuel : len ≤ fuel) (mem : List UInt8) :
    streamXor block next w fuel s src dst len mem =
      xorBytesAt (keystream block next w s) src dst len mem := by
  induction fuel generalizing s src dst len mem with
  | zero =>
    have hz : len = 0 := Nat.le_zero.mp hfuel
    rw [hz]
    rfl
  | succ fuel ih =>
    unfold streamXor
    by_cases hz : len = 0
    · rw [if_pos hz, hz]
      rfl
    rw [if_neg hz]
    simp only []
    by_cases hlast : len < w
    · rw [if_pos hlast, Nat.sub_self, ih _ _ _ (Nat.zero_le _)]
      exact xorBytesAt_congr (fun j hj => (keystream_of_lt s (by omega)).symm)
    · have hlen : len = w + (len - w) := by omega
      have hfuel' : len - w ≤ fuel := by omega
      have hrest := ih (next s) (src + w) (dst + w) hfuel' (xorBytesAt (block s) src dst w mem)
      have hfirst : xorBytesAt (block s) src dst w mem =
          xorBytesAt (keystream block next w s) src dst w mem :=
        xorBytesAt_congr (fun j hj => (keystream_of_lt s hj).symm)
      have htail : (fun j => keystream block next w s (w + j)) =
          keystream block next w (next s) := funext (fun j => keystream_add hw s j)
      rw [if_neg hlast, hrest, hfirst]
      conv_rhs => rw [hlen, xorBytesAt_add, htail]

/-- **What a stream cipher writes**, at ranges that are one or apart. -/
theorem streamXor_eq (hw : 0 < w) {fuel : Nat} (s : σ) {src dst len : Nat} (hfuel : len ≤ fuel)
    {mem : List UInt8} (hsrc : src + len ≤ mem.length) (hdst : dst + len ≤ mem.length)
    (h : Apart src dst len) :
    streamXor block next w fuel s src dst len mem =
      patch mem dst (xorStream (keystream block next w s) (slice mem src len)) := by
  rw [streamXor_eq_xorBytesAt hw s src dst hfuel, xorBytesAt_eq hsrc hdst h]

end

end Lib
end VeraCrypt
