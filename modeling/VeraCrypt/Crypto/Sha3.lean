import VeraCrypt.Crypto.Primitives
import VeraCrypt.Lib.Keccak
import VeraCrypt.Lib.ArrayLoops

/-!
# SHA3-512 (`Crypto/Sha3.c`)

The permutation works in place: theta column by column from a buffer of parities (`getD_theta`),
rho and pi as one walk that carries a lane from place to place (`getD_rhoPi`), chi row by row
through the same buffer (`getD_chi`). Each is shown to be the simultaneous mapping of the standard
on the bits of the lanes (`keccakf_spec`). A context stands for the message it was given
(`Absorbed`): whole blocks are absorbed and the bytes beyond them added to the state, so the digest
does not depend on how the message was cut (`sha3_512_stream`).
-/

set_option autoImplicit false

namespace VeraCrypt
namespace Sha3

open Lib

/-! ## The functions of the source -/

/-- `ROTL64` -/
def rotl64 (x : UInt64) (y : Nat) : UInt64 :=
  (x <<< UInt64.ofNat y) ||| (x >>> UInt64.ofNat (64 - y))

/-- `keccakf_rndc` -/
def keccakfRndc : List UInt64 :=
  [ 0x0000000000000001, 0x0000000000008082, 0x800000000000808a,
    0x8000000080008000, 0x000000000000808b, 0x0000000080000001,
    0x8000000080008081, 0x8000000000008009, 0x000000000000008a,
    0x0000000000000088, 0x0000000080008009, 0x000000008000000a,
    0x000000008000808b, 0x800000000000008b, 0x8000000000008089,
    0x8000000000008003, 0x8000000000008002, 0x8000000000000080,
    0x000000000000800a, 0x800000008000000a, 0x8000000080008081,
    0x8000000000008080, 0x0000000080000001, 0x8000000080008008 ]

/-- `keccakf_rotc` -/
def keccakfRotc : List Nat :=
  [ 1, 3, 6, 10, 15, 21, 28, 36, 45, 55, 2, 14,
    27, 41, 56, 8, 25, 43, 62, 18, 39, 61, 20, 44 ]

/-- `keccakf_piln` -/
def keccakfPiln : List Nat :=
  [ 10, 7, 11, 17, 18, 3, 5, 16, 8, 21, 24, 4,
    15, 23, 19, 13, 12, 2, 20, 14, 22, 9, 6, 1 ]

/-- `t` of column `i`, from the parities `bc`. -/
def thetaMask (bc : List UInt64) (i : Nat) : UInt64 :=
  bc.getD ((i + 4) % 5) 0 ^^^ rotl64 (bc.getD ((i + 1) % 5) 0) 1

def theta (st : List UInt64) : List UInt64 :=
  let bc := (List.range 5).map (fun i =>
    st.getD i 0 ^^^ st.getD (i + 5) 0 ^^^ st.getD (i + 10) 0 ^^^ st.getD (i + 15) 0 ^^^
      st.getD (i + 20) 0)
  (List.range 5).foldl (fun st i =>
    let t := thetaMask bc i
    [0, 5, 10, 15, 20].foldl (fun st j => st.modify (j + i) (· ^^^ t)) st) st

/-- Rho and pi: the lanes and `t`. -/
def rhoPiStep (s : List UInt64 × UInt64) (i : Nat) : List UInt64 × UInt64 :=
  let (st, t) := s
  let j := keccakfPiln.getD i 0
  let bc0 := st.getD j 0
  (st.set j (rotl64 t (keccakfRotc.getD i 0)), bc0)

def rhoPi (st : List UInt64) : List UInt64 :=
  ((List.range 24).foldl rhoPiStep (st, st.getD 1 0)).1

/-- One row of chi. -/
def chiRow (st : List UInt64) (j : Nat) : List UInt64 :=
  let bc := (List.range 5).map (fun i => st.getD (j + i) 0)
  (List.range 5).foldl (fun st i =>
    st.modify (j + i) (· ^^^ (~~~ bc.getD ((i + 1) % 5) 0 &&& bc.getD ((i + 2) % 5) 0))) st

def chi (st : List UInt64) : List UInt64 := [0, 5, 10, 15, 20].foldl chiRow st

def iota (st : List UInt64) (r : Nat) : List UInt64 :=
  st.modify 0 (· ^^^ keccakfRndc.getD r 0)

def keccakfRound (st : List UInt64) (r : Nat) : List UInt64 := iota (chi (rhoPi (theta st))) r

def keccakf (st : List UInt64) : List UInt64 := (List.range 24).foldl keccakfRound st

/-- `SHA3_CTX` -/
structure Sha3Ctx where
  /-- 1600-bit Keccak state as 25 little-endian lanes -/
  st : List UInt64
  /-- current byte offset within the rate -/
  pt : Nat
  /-- rate in bytes -/
  rsiz : Nat
  /-- digest length in bytes -/
  mdlen : Nat

/-- `SHA3_512_BLOCKSIZE`, `SHA3_512_DIGESTSIZE` -/
def sha3_512BlockSize : Nat := 72
def sha3_512DigestSize : Nat := 64

def sha3_512Init : Sha3Ctx :=
  { st := List.replicate 25 0, pt := 0, rsiz := sha3_512BlockSize, mdlen := sha3_512DigestSize }

/-- A byte xored into its place in a lane: `st[j >> 3] ^= (uint64) b << (8 * (j & 7))`. -/
def xorByte (st : List UInt64) (j : Nat) (b : UInt8) : List UInt64 :=
  st.modify (j / 8) (· ^^^ (b.toUInt64 <<< UInt64.ofNat (8 * (j % 8))))

/-- The body of the loop of `sha3_512_update`. -/
def updateByte (ctx : Sha3Ctx) (b : UInt8) : Sha3Ctx :=
  let st := xorByte ctx.st ctx.pt b
  let j := ctx.pt + 1
  if j ≥ ctx.rsiz then { ctx with st := keccakf st, pt := 0 } else { ctx with st := st, pt := j }

def sha3_512Update (ctx : Sha3Ctx) (inp : Bytes) : Sha3Ctx := inp.foldl updateByte ctx

def sha3_512Final (ctx : Sha3Ctx) : Bytes :=
  let st := xorByte ctx.st ctx.pt 0x06
  let st := xorByte st (ctx.rsiz - 1) 0x80
  let st := keccakf st
  (List.range ctx.mdlen).map (fun i =>
    ((st.getD (i / 8) 0 >>> UInt64.ofNat (8 * (i % 8))) &&& 0xFF).toUInt8)

/-! ## The lanes after each step -/

/-- The parities of the columns. -/
def parities (st : List UInt64) : List UInt64 :=
  (List.range 5).map (fun i =>
    st.getD i 0 ^^^ st.getD (i + 5) 0 ^^^ st.getD (i + 10) 0 ^^^ st.getD (i + 15) 0 ^^^
      st.getD (i + 20) 0)

/-- The body of the outer loop of theta. -/
def thetaColumn (bc : List UInt64) (st : List UInt64) (i : Nat) : List UInt64 :=
  [0, 5, 10, 15, 20].foldl (fun st j => st.modify (j + i) (· ^^^ thetaMask bc i)) st

theorem theta_eq (st : List UInt64) :
    theta st = (List.range 5).foldl (thetaColumn (parities st)) st := rfl

@[simp] theorem length_thetaColumn (bc st : List UInt64) (i : Nat) :
    (thetaColumn bc st i).length = st.length :=
  length_foldl_modify (· + i) (fun _ => (· ^^^ thetaMask bc i)) _ st

@[simp] theorem length_theta (st : List UInt64) : (theta st).length = st.length := by
  rw [theta_eq]
  induction List.range 5 using List.reverseRecOn with
  | nil => rfl
  | append_singleton is i ih => rw [List.foldl_append]; simpa using ih

theorem getD_thetaColumn (bc : List UInt64) {st : List UInt64} (h : st.length = 25) {i : Nat}
    (hi : i < 5) (k : Fin 25) :
    (thetaColumn bc st i).getD k 0 =
      if k.val % 5 = i then st.getD k 0 ^^^ thetaMask bc (k.val % 5) else st.getD k 0 := by
  have hk := k.isLt
  by_cases hgrp : k.val % 5 = i
  · have hpos : k.val = 5 * (k.val / 5) + i := by omega
    have hmem : 5 * (k.val / 5) ∈ [0, 5, 10, 15, 20] := by
      have hrow : k.val / 5 < 5 := by omega
      simp
      omega
    have hnodup : ([0, 5, 10, 15, 20].map (· + i)).Nodup := by simp
    have hdone := getD_foldl_modify (· + i) (fun _ => (· ^^^ thetaMask bc i)) st 0 hnodup
      hmem (by rw [h]; omega)
    rw [← hpos] at hdone
    rw [if_pos hgrp, hgrp]
    exact hdone
  · rw [if_neg hgrp]
    apply getD_foldl_modify_of_forall_ne (· + i) (fun _ => (· ^^^ thetaMask bc i)) st 0
    intro j hj heq
    simp at hj
    omega

theorem getD_theta {st : List UInt64} (h : st.length = 25) (k : Fin 25) :
    (theta st).getD k 0 = st.getD k 0 ^^^ thetaMask (parities st) (k.val % 5) := by
  have hall := foldl_groups (fun s : List UInt64 => s.length = 25)
    (fun s (k : Fin 25) => s.getD k 0) (fun k : Fin 25 => k.val % 5) (thetaColumn (parities st))
    (fun s (k : Fin 25) => s.getD k 0 ^^^ thetaMask (parities st) (k.val % 5))
    (fun s g hs => by rw [length_thetaColumn, hs])
    (fun s g hg k hs => getD_thetaColumn (parities st) hs (List.mem_range.mp hg) k)
    (fun s s' k hsame => by rw [hsame k rfl]) (List.nodup_range (n := 5)) h k
  rw [if_pos (List.mem_range.mpr (Nat.mod_lt _ (by decide)))] at hall
  exact hall

/-- The row of the lane `k`, `i` places further on. -/
def rowLane (k : Fin 25) (i : Nat) : Nat := 5 * (k.val / 5) + (k.val % 5 + i) % 5

/-- A lane after chi. -/
def chiLane (st : List UInt64) (k : Fin 25) : UInt64 :=
  st.getD k 0 ^^^ (~~~ st.getD (rowLane k 1) 0 &&& st.getD (rowLane k 2) 0)

@[simp] theorem length_chiRow (st : List UInt64) (j : Nat) : (chiRow st j).length = st.length :=
  length_foldl_modify (j + ·) (fun i => (· ^^^
    (~~~ ((List.range 5).map (fun i => st.getD (j + i) 0)).getD ((i + 1) % 5) 0 &&&
      ((List.range 5).map (fun i => st.getD (j + i) 0)).getD ((i + 2) % 5) 0))) _ st

theorem getD_rowBuffer (st : List UInt64) (j : Nat) {i : Nat} (hi : i < 5) :
    ((List.range 5).map (fun i => st.getD (j + i) 0)).getD i 0 = st.getD (j + i) 0 := by
  rw [List.getD_eq_getElem _ _ (by simpa using hi)]
  simp

theorem getD_chiRow {st : List UInt64} (h : st.length = 25) {q : Nat} (hq : q < 5) (k : Fin 25) :
    (chiRow st (5 * q)).getD k 0 = if k.val / 5 = q then chiLane st k else st.getD k 0 := by
  have hk := k.isLt
  by_cases hgrp : k.val / 5 = q
  · have hpos : k.val = 5 * q + k.val % 5 := by omega
    have hnodup : ((List.range 5).map (5 * q + ·)).Nodup :=
      List.nodup_range.map (fun a b hab => Nat.add_left_cancel hab)
    have hdone := getD_foldl_modify (5 * q + ·) (fun i => (· ^^^
      (~~~ ((List.range 5).map (fun i => st.getD (5 * q + i) 0)).getD ((i + 1) % 5) 0 &&&
        ((List.range 5).map (fun i => st.getD (5 * q + i) 0)).getD ((i + 2) % 5) 0))) st 0 hnodup
      (List.mem_range.mpr (Nat.mod_lt k.val (by decide))) (by rw [h]; omega)
    rw [← hpos, getD_rowBuffer st _ (Nat.mod_lt _ (by decide)),
      getD_rowBuffer st _ (Nat.mod_lt _ (by decide))] at hdone
    rw [if_pos hgrp, chiLane, rowLane, rowLane, hgrp]
    exact hdone
  · rw [if_neg hgrp]
    apply getD_foldl_modify_of_forall_ne (5 * q + ·)
    intro i hi heq
    have hlt := List.mem_range.mp hi
    omega

theorem chi_eq (st : List UInt64) :
    chi st = (List.range 5).foldl (fun st q => chiRow st (5 * q)) st := rfl

@[simp] theorem length_chi (st : List UInt64) : (chi st).length = st.length := by
  rw [chi_eq]
  induction List.range 5 using List.reverseRecOn with
  | nil => rfl
  | append_singleton is i ih => rw [List.foldl_append]; simpa using ih

/-- **Every row is rewritten from what it held**, though the buffer is used for one after the
    other. -/
theorem getD_chi {st : List UInt64} (h : st.length = 25) (k : Fin 25) :
    (chi st).getD k 0 = chiLane st k := by
  have hall := foldl_groups (fun s : List UInt64 => s.length = 25)
    (fun s (k : Fin 25) => s.getD k 0) (fun k : Fin 25 => k.val / 5)
    (fun s q => chiRow s (5 * q)) chiLane
    (fun s g hs => by rw [length_chiRow, hs])
    (fun s g hg k hs => getD_chiRow hs (List.mem_range.mp hg) k)
    ?_ (List.nodup_range (n := 5)) h k
  · rw [if_pos (List.mem_range.mpr (by omega))] at hall
    exact hall
  · intro s s' k hsame
    have hrow : ∀ i, s.getD (rowLane k i) 0 = s'.getD (rowLane k i) 0 := by
      intro i
      have hlt : rowLane k i < 25 := by
        unfold rowLane
        omega
      exact hsame ⟨rowLane k i, hlt⟩ (by show rowLane k i / 5 = k.val / 5; unfold rowLane; omega)
    rw [chiLane, chiLane, hsame k rfl, hrow 1, hrow 2]

theorem rhoPi_eq (st : List UInt64) : rhoPi st = ((List.range 24).foldl
    (walkStep (fun n t => rotl64 t n) 0 (keccakfPiln.getD · 0) (keccakfRotc.getD · 0))
    (st, st.getD 1 0)).1 := rfl

@[simp] theorem length_rhoPi (st : List UInt64) : (rhoPi st).length = st.length := by
  rw [rhoPi_eq, length_walk]

/-- Where step `i` of the walk takes its lane from. -/
def walkSource : Nat → Nat
  | 0 => 1
  | i + 1 => keccakfPiln.getD i 0

/-- The walk comes to every lane but the first, once. -/
theorem piln_lt : ∀ i < 24, 0 < keccakfPiln.getD i 0 ∧ keccakfPiln.getD i 0 < 25 := by decide

theorem piln_inj : ∀ i < 24, ∀ j < 24, keccakfPiln.getD i 0 = keccakfPiln.getD j 0 → i = j := by
  decide

theorem carried_eq (st : List UInt64) (i : Nat) :
    carried 0 (keccakfPiln.getD · 0) st (st.getD 1 0) i = st.getD (walkSource i) 0 := by
  cases i with
  | zero => rfl
  | succ i => rfl

/-- **The walk moves every lane at once.** -/
theorem getD_rhoPi {st : List UInt64} (h : st.length = 25) :
    (rhoPi st).getD 0 0 = st.getD 0 0 ∧
    ∀ i < 24, (rhoPi st).getD (keccakfPiln.getD i 0) 0 =
      rotl64 (st.getD (walkSource i) 0) (keccakfRotc.getD i 0) := by
  have hwalk := getD_foldl_walk (fun n t => rotl64 t n) 0 (keccakfPiln.getD · 0)
    (keccakfRotc.getD · 0) (l := st) (n := 24) (st.getD 1 0)
    (fun i hi => by rw [h]; exact (piln_lt i hi).2) piln_inj
  rw [← rhoPi_eq] at hwalk
  refine ⟨hwalk.2.1 0 (fun i hi => Nat.ne_of_gt (piln_lt i hi).1), ?_⟩
  intro i hi
  rw [hwalk.2.2 i hi, carried_eq]

/-! ## The bits after each step -/

/-- Bit `z` of a lane. -/
def laneBit (w : UInt64) (z : Nat) : Bool := w.toBitVec.getLsbD z

/-- The state array of the standard that the lanes hold. -/
def stateArray (st : List UInt64) : Keccak.StateArray :=
  fun x y z => laneBit (st.getD (5 * y.val + x.val) 0) z.val

theorem laneBit_xor (v w : UInt64) (z : Nat) :
    laneBit (v ^^^ w) z = (laneBit v z ^^ laneBit w z) := by
  simp [laneBit]

theorem laneBit_and (v w : UInt64) (z : Nat) :
    laneBit (v &&& w) z = (laneBit v z && laneBit w z) := by
  simp [laneBit]

theorem laneBit_not (w : UInt64) {z : Nat} (hz : z < 64) :
    laneBit (~~~ w) z = (laneBit w z ^^ true) := by
  simp [laneBit, hz]

theorem laneBit_zero (z : Nat) : laneBit 0 z = false := by
  simp [laneBit]

theorem toNat_ofNat_lt {n : Nat} (hn : n < 64) : (UInt64.ofNat n).toNat = n :=
  UInt64.toNat_ofNat_of_lt' (by
    show n < 2 ^ 64
    omega)

theorem laneBit_shl (w : UInt64) {n z : Nat} (hn : n < 64) (hz : z < 64) :
    laneBit (w <<< UInt64.ofNat n) z = (decide (n ≤ z) && laneBit w (z - n)) := by
  rw [laneBit, BitVec.getLsbD, UInt64.toNat_toBitVec, UInt64.toNat_shiftLeft, toNat_ofNat_lt hn,
    Nat.mod_eq_of_lt hn, Nat.testBit_mod_two_pow, Nat.testBit_shiftLeft, decide_eq_true hz,
    Bool.true_and]
  rfl

theorem laneBit_shr (w : UInt64) {n : Nat} (hn : n < 64) (z : Nat) :
    laneBit (w >>> UInt64.ofNat n) z = laneBit w (n + z) := by
  rw [laneBit, BitVec.getLsbD, UInt64.toNat_toBitVec, UInt64.toNat_shiftRight, toNat_ofNat_lt hn,
    Nat.mod_eq_of_lt hn, Nat.testBit_shiftRight]
  rfl

theorem laneBit_of_le (w : UInt64) {z : Nat} (hz : 64 ≤ z) : laneBit w z = false := by
  simp [laneBit, hz]

theorem laneBit_rotl64 (w : UInt64) {n z : Nat} (hn0 : 0 < n) (hn : n < 64) (hz : z < 64) :
    laneBit (rotl64 w n) z = laneBit w ((z + (64 - n)) % 64) := by
  have hor : laneBit (rotl64 w n) z =
      (laneBit (w <<< UInt64.ofNat n) z || laneBit (w >>> UInt64.ofNat (64 - n)) z) := by
    simp [laneBit, rotl64]
  rw [hor, laneBit_shl w hn hz, laneBit_shr w (by omega)]
  by_cases hle : n ≤ z
  · have hidx : (z + (64 - n)) % 64 = z - n := by omega
    rw [laneBit_of_le w (by omega : 64 ≤ 64 - n + z), hidx]
    simp [hle]
  · have hidx : (z + (64 - n)) % 64 = 64 - n + z := by omega
    rw [hidx]
    simp [hle]

theorem pred_five (x : Fin 5) : (x - 1).val = (x.val + 4) % 5 := by
  revert x
  decide

theorem succ_five (x : Fin 5) : (x + 1).val = (x.val + 1) % 5 := by
  revert x
  decide

theorem succ_succ_five (x : Fin 5) : (x + 2).val = (x.val + 2) % 5 := by
  revert x
  decide

theorem pred_sixtyFour (z : Fin 64) : (z - 1).val = (z.val + 63) % 64 := by
  revert z
  decide

theorem sub_sixtyFour (z : Fin 64) (n : Nat) :
    (z - Fin.ofNat 64 n).val = (z.val + (64 - n % 64)) % 64 := by
  rw [Fin.sub_def]
  show (64 - n % 64 + z.val) % 64 = _
  rw [Nat.add_comm]

/-- The lane at `(x, y)`. -/
def lane (x y : Fin 5) : Fin 25 := ⟨5 * y.val + x.val, by omega⟩

theorem laneBit_parities (st : List UInt64) (x : Fin 5) (z : Fin 64) :
    laneBit ((parities st).getD x.val 0) z.val = Keccak.parity (stateArray st) x z := by
  have hget : (parities st).getD x.val 0 =
      st.getD x.val 0 ^^^ st.getD (x.val + 5) 0 ^^^ st.getD (x.val + 10) 0 ^^^
        st.getD (x.val + 15) 0 ^^^ st.getD (x.val + 20) 0 := by
    rw [parities, List.getD_eq_getElem _ _ (by simp)]
    simp
  rw [hget]
  simp only [laneBit_xor, Keccak.parity, stateArray]
  simp [Nat.add_comm]

theorem stateArray_theta {st : List UInt64} (h : st.length = 25) :
    stateArray (theta st) = Keccak.theta (stateArray st) := by
  funext x y z
  have hlane := getD_theta h (lane x y)
  have hcol : (lane x y).val % 5 = x.val := by
    show (5 * y.val + x.val) % 5 = x.val
    omega
  rw [hcol] at hlane
  have hprev := laneBit_parities st (x - 1) z
  have hnext := laneBit_parities st (x + 1) (z - 1)
  rw [pred_five] at hprev
  rw [succ_five, pred_sixtyFour] at hnext
  calc stateArray (theta st) x y z
      = laneBit (st.getD (lane x y).val 0 ^^^ thetaMask (parities st) x.val) z.val := by
        rw [← hlane]
        rfl
    _ = Keccak.theta (stateArray st) x y z := by
        rw [laneBit_xor, thetaMask, laneBit_xor, laneBit_rotl64 _ (by decide) (by decide) z.isLt,
          hprev, hnext]
        rfl

theorem stateArray_chi {st : List UInt64} (h : st.length = 25) :
    stateArray (chi st) = Keccak.chi (stateArray st) := by
  funext x y z
  have hlane := getD_chi h (lane x y)
  have hrow : (lane x y).val / 5 = y.val := by
    show (5 * y.val + x.val) / 5 = y.val
    omega
  have hcol : (lane x y).val % 5 = x.val := by
    show (5 * y.val + x.val) % 5 = x.val
    omega
  have hnext : rowLane (lane x y) 1 = 5 * y.val + (x + 1).val := by
    rw [rowLane, hrow, hcol, succ_five]
  have hnext2 : rowLane (lane x y) 2 = 5 * y.val + (x + 2).val := by
    rw [rowLane, hrow, hcol, succ_succ_five]
  calc stateArray (chi st) x y z = laneBit (chiLane st (lane x y)) z.val := by
        rw [← hlane]
        rfl
    _ = Keccak.chi (stateArray st) x y z := by
        rw [chiLane, laneBit_xor, laneBit_and, laneBit_not _ z.isLt, hnext, hnext2]
        rfl

/-- The tables against the standard: step `i` of the walk writes the lane `(x, y)` from the lane
    `(x + 3y, x)`, moved by the offset of that lane. -/
theorem walk_table : ∀ x y : Fin 5, (x, y) ≠ (0, 0) → ∃ i < 24,
    keccakfPiln.getD i 0 = (lane x y).val ∧ walkSource i = (lane (x + 3 * y) x).val ∧
      keccakfRotc.getD i 0 = Keccak.rhoOffset (x + 3 * y) x % 64 ∧
      0 < keccakfRotc.getD i 0 := by
  decide +kernel

theorem stateArray_rhoPi {st : List UInt64} (h : st.length = 25) :
    stateArray (rhoPi st) = Keccak.pi (Keccak.rho (stateArray st)) := by
  funext x y z
  obtain ⟨hfirst, hwalk⟩ := getD_rhoPi h
  by_cases horigin : (x, y) = (0, 0)
  · obtain ⟨rfl, rfl⟩ := Prod.mk.inj horigin
    have hoffset : Keccak.rhoOffset (0 + 3 * 0) 0 = 0 := by decide
    have hz : z - Fin.ofNat 64 0 = z := by simp
    rw [Keccak.pi, Keccak.rho, hoffset, hz]
    exact congrArg (laneBit · z.val) hfirst
  · obtain ⟨i, hi, hpos, hsource, hrot, hrot0⟩ := walk_table x y horigin
    have hlane := hwalk i hi
    rw [hpos, hsource] at hlane
    have hlt : keccakfRotc.getD i 0 < 64 := by
      rw [hrot]
      exact Nat.mod_lt _ (by decide)
    calc stateArray (rhoPi st) x y z
        = laneBit (rotl64 (st.getD (lane (x + 3 * y) x).val 0) (keccakfRotc.getD i 0)) z.val := by
          rw [← hlane]
          rfl
      _ = laneBit (st.getD (lane (x + 3 * y) x).val 0)
            (z - Fin.ofNat 64 (Keccak.rhoOffset (x + 3 * y) x)).val := by
          rw [laneBit_rotl64 _ hrot0 hlt z.isLt, sub_sixtyFour, hrot]
      _ = Keccak.pi (Keccak.rho (stateArray st)) x y z := rfl

/-- The table of round constants against the generator of the standard. -/
theorem rndc_table : ∀ r < 24, ∀ z : Fin 64,
    laneBit (keccakfRndc.getD r 0) z.val = Keccak.roundConstant r z := by
  decide +kernel

@[simp] theorem length_iota (st : List UInt64) (r : Nat) : (iota st r).length = st.length :=
  List.length_modify ..

theorem stateArray_iota {st : List UInt64} (h : st.length = 25) {r : Nat} (hr : r < 24) :
    stateArray (iota st r) = Keccak.iota r (stateArray st) := by
  funext x y z
  have hget := getD_modify st 0 (lane x y).val (· ^^^ keccakfRndc.getD r 0) 0
  unfold Keccak.iota
  by_cases horigin : x = 0 ∧ y = 0
  · rw [if_pos horigin]
    obtain ⟨rfl, rfl⟩ := horigin
    rw [if_pos ⟨rfl, by rw [h]; decide⟩] at hget
    calc stateArray (iota st r) 0 0 z
        = laneBit (st.getD (lane 0 0).val 0 ^^^ keccakfRndc.getD r 0) z.val := by
          rw [← hget]
          rfl
      _ = _ := by
          rw [laneBit_xor, rndc_table r hr]
          rfl
  · have hne : ¬(0 = (lane x y).val ∧ (lane x y).val < st.length) := by
      rintro ⟨hzero, -⟩
      have hval : 5 * y.val + x.val = 0 := hzero.symm
      exact horigin ⟨Fin.ext (by omega), Fin.ext (by omega)⟩
    rw [if_neg horigin]
    rw [if_neg hne] at hget
    exact congrArg (laneBit · z.val) hget

@[simp] theorem length_keccakfRound (st : List UInt64) (r : Nat) :
    (keccakfRound st r).length = st.length := by
  simp [keccakfRound]

/-- **One round is a round of the standard.** -/
theorem stateArray_keccakfRound {st : List UInt64} (h : st.length = 25) {r : Nat} (hr : r < 24) :
    stateArray (keccakfRound st r) = Keccak.round (stateArray st) r := by
  rw [keccakfRound, stateArray_iota (by simpa using h) hr, stateArray_chi (by simpa using h),
    stateArray_rhoPi (by simpa using h), stateArray_theta h, Keccak.round]

theorem keccakf_spec {st : List UInt64} (h : st.length = 25) :
    (keccakf st).length = 25 ∧ stateArray (keccakf st) = Keccak.keccakP (stateArray st) := by
  have hrounds : ∀ n ≤ 24,
      ((List.range n).foldl keccakfRound st).length = 25 ∧
        stateArray ((List.range n).foldl keccakfRound st) =
          (List.range n).foldl Keccak.round (stateArray st) := by
    intro n
    induction n with
    | zero => exact fun _ => ⟨h, rfl⟩
    | succ n ih =>
      intro hn
      obtain ⟨hlen, harray⟩ := ih (by omega)
      rw [List.range_succ, List.foldl_append, List.foldl_append, List.foldl_cons, List.foldl_nil,
        List.foldl_cons, List.foldl_nil, ← harray]
      exact ⟨by simpa using hlen, stateArray_keccakfRound hlen (by omega)⟩
  exact hrounds 24 (Nat.le_refl 24)

/-! ## The sponge -/

/-- The string of the standard that the lanes hold. -/
def stateString (st : List UInt64) : Keccak.StateString :=
  fun i => laneBit (st.getD (i.val / 64) 0) (i.val % 64)

theorem toArray_stateString (st : List UInt64) :
    Keccak.toArray (stateString st) = stateArray st := by
  funext x y z
  have hlane : (64 * (5 * y.val + x.val) + z.val) / 64 = 5 * y.val + x.val := by omega
  have hbit : (64 * (5 * y.val + x.val) + z.val) % 64 = z.val := by omega
  simp only [Keccak.toArray, stateString, stateArray, hlane, hbit]

theorem toString_stateArray (st : List UInt64) :
    Keccak.toString (stateArray st) = stateString st := by
  funext i
  have hlane : 5 * (i.val / 64 / 5) + i.val / 64 % 5 = i.val / 64 := Nat.div_add_mod _ _
  simp only [Keccak.toString, stateString, stateArray, hlane]

theorem stateString_keccakf {st : List UInt64} (h : st.length = 25) :
    stateString (keccakf st) = Keccak.keccakF (stateString st) := by
  rw [Keccak.keccakF, toArray_stateString, ← (keccakf_spec h).2, toString_stateArray]

theorem laneBit_toUInt64 (b : UInt8) (z : Nat) : laneBit b.toUInt64 z = b.toBitVec.getLsbD z := by
  by_cases hz : z < 8
  · simp [laneBit]
    omega
  · simp [laneBit, BitVec.getLsbD_of_ge _ _ (Nat.le_of_not_lt hz)]

/-- A byte is added at its own place. -/
theorem stateString_xorByte {st : List UInt64} (h : st.length = 25) {j : Nat} (hj : j < 200)
    (b : UInt8) (i : Fin 1600) :
    stateString (xorByte st j b) i =
      (stateString st i ^^ (decide (i.val / 8 = j) && b.toBitVec.getLsbD (i.val % 8))) := by
  have hi := i.isLt
  rw [stateString, xorByte, getD_modify]
  by_cases hlane : j / 8 = i.val / 64
  · rw [if_pos ⟨hlane, by rw [h]; omega⟩, laneBit_xor,
      laneBit_shl _ (by omega) (Nat.mod_lt _ (by decide)), laneBit_toUInt64, stateString]
    by_cases hat : i.val / 8 = j
    · have hle : 8 * (j % 8) ≤ i.val % 64 := by omega
      have hsub : i.val % 64 - 8 * (j % 8) = i.val % 8 := by omega
      rw [decide_eq_true hle, decide_eq_true hat, hsub]
    · rw [decide_eq_false hat]
      by_cases hle : 8 * (j % 8) ≤ i.val % 64
      · have hfar : 8 ≤ i.val % 64 - 8 * (j % 8) := by omega
        rw [BitVec.getLsbD_of_ge _ _ hfar, Bool.and_false, Bool.false_and]
      · rw [decide_eq_false hle, Bool.false_and, Bool.false_and]
  · have hat : i.val / 8 ≠ j := by omega
    rw [if_neg (fun hboth => hlane hboth.1), decide_eq_false hat, Bool.false_and, Bool.xor_false,
      stateString]

@[simp] theorem length_xorByte (st : List UInt64) (j : Nat) (b : UInt8) :
    (xorByte st j b).length = st.length :=
  List.length_modify ..

/-- One more byte in a block that is being filled. -/
theorem xorBlock_bitsOf_snoc (S : Keccak.StateString) (r : Bytes) (b : UInt8) (i : Fin 1600) :
    Keccak.xorBlock S (Keccak.bitsOf (r ++ [b])) i =
      (Keccak.xorBlock S (Keccak.bitsOf r) i ^^
        (decide (i.val / 8 = r.length) && b.toBitVec.getLsbD (i.val % 8))) := by
  simp only [Keccak.xorBlock, Keccak.getD_bitsOf, List.length_append, List.length_singleton]
  rcases Nat.lt_trichotomy (i.val / 8) r.length with hlt | heq | hgt
  · rw [List.getD_append _ _ _ _ hlt]
    simp [hlt, Nat.lt_succ_of_lt hlt, Nat.ne_of_lt hlt]
  · rw [List.getD_append_right _ _ _ _ (Nat.le_of_eq heq.symm), heq]
    simp
  · have hnot : ¬ i.val / 8 < r.length + 1 := by omega
    simp [Nat.lt_asymm hgt, hnot, Nat.ne_of_gt hgt]

/-- A context that has been given `m`: the whole blocks are absorbed, the bytes beyond them are
    added to the state. -/
structure Absorbed (m : Bytes) (ctx : Sha3Ctx) : Prop where
  rsiz : ctx.rsiz = 72
  mdlen : ctx.mdlen = 64
  length : ctx.st.length = 25
  split : ∃ w r : Bytes, m = w ++ r ∧ w.length % 72 = 0 ∧ r.length < 72 ∧ ctx.pt = r.length ∧
    stateString ctx.st = Keccak.xorBlock
      (absorb Keccak.absorbBlock 576 Keccak.zeroString (Keccak.bitsOf w)) (Keccak.bitsOf r)

theorem stateString_zeros (n : Nat) :
    stateString (List.replicate n 0) = Keccak.zeroString := by
  have hzero : ∀ k, (List.replicate n (0 : UInt64)).getD k 0 = 0 := by
    intro k
    rw [List.getD_eq_getElem?_getD, List.getElem?_replicate]
    split
    · rfl
    · rfl
  funext i
  rw [stateString, hzero, laneBit_zero]
  rfl

theorem absorbed_init : Absorbed [] sha3_512Init where
  rsiz := rfl
  mdlen := rfl
  length := rfl
  split := by
    refine ⟨[], [], rfl, rfl, by decide, rfl, ?_⟩
    rw [absorb_short _ _ (by decide)]
    exact (stateString_zeros 25).trans (Keccak.xorBlock_nil _).symm

/-- The state with one more byte in the block that is being filled. -/
theorem stateString_absorb_byte {st : List UInt64} (h : st.length = 25) {S : Keccak.StateString}
    {r : Bytes} (hr : r.length < 72) (b : UInt8)
    (hst : stateString st = Keccak.xorBlock S (Keccak.bitsOf r)) :
    stateString (xorByte st r.length b) = Keccak.xorBlock S (Keccak.bitsOf (r ++ [b])) := by
  funext i
  rw [stateString_xorByte h (by omega), xorBlock_bitsOf_snoc, hst]

/-- A block after whole blocks. -/
theorem absorb_next_block {w : Bytes} (hw : w.length % 72 = 0) (r : Bytes) (block : List Bool)
    (hblock : (Keccak.bitsOf r ++ block).length = 576) :
    absorb Keccak.absorbBlock 576 Keccak.zeroString (Keccak.bitsOf (w ++ r) ++ block) =
      Keccak.absorbBlock (absorb Keccak.absorbBlock 576 Keccak.zeroString (Keccak.bitsOf w))
        (Keccak.bitsOf r ++ block) := by
  have hwhole : (Keccak.bitsOf w).length % 576 = 0 := by
    rw [Keccak.length_bitsOf]
    omega
  rw [Keccak.bitsOf_append, List.append_assoc, absorb_append _ (by decide) _ hwhole,
    absorb_block _ (by decide) _ hblock]

theorem absorbed_updateByte {m : Bytes} {ctx : Sha3Ctx} (h : Absorbed m ctx) (b : UInt8) :
    Absorbed (m ++ [b]) (updateByte ctx b) := by
  obtain ⟨hrsiz, hmdlen, hlen, w, r, rfl, hw, hr, hpt, hst⟩ := h
  have hnext := stateString_absorb_byte hlen hr b hst
  rw [← hpt] at hnext
  unfold updateByte
  dsimp only
  rw [hrsiz]
  by_cases hfull : ctx.pt + 1 ≥ 72
  · have hxor : (xorByte ctx.st ctx.pt b).length = 25 := by simpa using hlen
    have hperm := (keccakf_spec hxor).1
    have hstring := stateString_keccakf hxor
    have hlast := absorb_next_block hw (r ++ [b]) [] (by simp; omega)
    rw [List.append_nil, List.append_nil] at hlast
    rw [if_pos hfull]
    generalize keccakf (xorByte ctx.st ctx.pt b) = st at hperm hstring ⊢
    refine ⟨rfl, hmdlen, hperm, w ++ (r ++ [b]), [], by simp, ?_, by decide, rfl, ?_⟩
    · simp
      omega
    · rw [hlast, hstring, hnext]
      exact (Keccak.xorBlock_nil _).symm
  · rw [if_neg hfull]
    refine ⟨rfl, hmdlen, by simpa using hlen, w, r ++ [b], by simp, hw, ?_, ?_, hnext⟩
    · simp
      omega
    · simp [hpt]

theorem absorbed_update {m : Bytes} {ctx : Sha3Ctx} (h : Absorbed m ctx) (inp : Bytes) :
    Absorbed (m ++ inp) (sha3_512Update ctx inp) := by
  unfold sha3_512Update
  induction inp generalizing m ctx with
  | nil => simpa using h
  | cons b inp ih =>
    have hnext := ih (absorbed_updateByte h b)
    simpa using hnext

theorem absorbed_pieces (pieces : List Bytes) :
    Absorbed pieces.flatten (pieces.foldl sha3_512Update sha3_512Init) := by
  induction pieces using List.reverseRecOn with
  | nil => exact absorbed_init
  | append_singleton pieces piece ih =>
    rw [List.foldl_append, List.foldl_cons, List.foldl_nil, List.flatten_append]
    simpa using absorbed_update ih piece

/-! ## The last block -/

/-- What the standard puts behind the `n` bytes of the last block. -/
def tailBits (n : Nat) : List Bool :=
  [false, true, true] ++ List.replicate (572 - 8 * n) false ++ [true]

theorem pad_eq {m n : Nat} (h : m % 576 = 8 * n) :
    [false, true] ++ Keccak.pad 576 (m + 2) = tailBits n := by
  have hzeros : (576 - (m + 2 + 2) % 576) % 576 = 572 - 8 * n := by omega
  rw [Keccak.pad, hzeros, tailBits]
  rfl

theorem length_tailBits {n : Nat} (hn : n < 72) : (tailBits n).length = 576 - 8 * n := by
  simp [tailBits]
  omega

theorem getD_tailBits {n : Nat} (hn : n < 72) (k : Nat) :
    (tailBits n).getD k false = decide (k = 1 ∨ k = 2 ∨ k = 575 - 8 * n) := by
  have hfirst : ([false, true, true] : List Bool).length = 3 := rfl
  rw [tailBits, List.append_assoc]
  by_cases hlow : k < 3
  · rw [List.getD_append _ _ _ _ hlow]
    have hlast : k ≠ 575 - 8 * n := by omega
    have hk : k = 0 ∨ k = 1 ∨ k = 2 := by omega
    rcases hk with rfl | rfl | rfl
    · simp [hlast]
    · rfl
    · rfl
  · have hiff : (k = 1 ∨ k = 2 ∨ k = 575 - 8 * n) ↔ k = 575 - 8 * n := by omega
    rw [List.getD_append_right _ _ _ _ (Nat.le_of_not_lt hlow), hfirst, decide_eq_decide.mpr hiff]
    by_cases hmid : k - 3 < 572 - 8 * n
    · have hlast : k ≠ 575 - 8 * n := by omega
      rw [List.getD_append _ _ _ _ (by simpa using hmid),
        List.getD_eq_getElem _ _ (by simpa using hmid)]
      simp [hlast]
    · rw [List.getD_append_right _ _ _ _ (by simpa using Nat.le_of_not_lt hmid),
        List.length_replicate]
      by_cases hend : k = 575 - 8 * n
      · have hidx : k - 3 - (572 - 8 * n) = 0 := by omega
        rw [hidx, decide_eq_true hend]
        rfl
      · have hidx : k - 3 - (572 - 8 * n) = k - 3 - (572 - 8 * n) - 1 + 1 := by omega
        rw [hidx, decide_eq_false hend, List.getD_cons_succ]
        rfl

/-- The tail is the two bytes `0x06` and `0x80`, which may fall on the same place. -/
theorem xorBlock_tail (S : Keccak.StateString) {r : Bytes} (hr : r.length < 72) (i : Fin 1600) :
    Keccak.xorBlock S (Keccak.bitsOf r ++ tailBits r.length) i =
      ((Keccak.xorBlock S (Keccak.bitsOf r) i ^^
        (decide (i.val / 8 = r.length) && (0x06 : UInt8).toBitVec.getLsbD (i.val % 8))) ^^
        (decide (i.val / 8 = 71) && (0x80 : UInt8).toBitVec.getLsbD (i.val % 8))) := by
  have h06 : ∀ u < 8, (0x06 : UInt8).toBitVec.getLsbD u = decide (u = 1 ∨ u = 2) := by decide
  have h80 : ∀ u < 8, (0x80 : UInt8).toBitVec.getLsbD u = decide (u = 7) := by decide
  rw [h06 _ (Nat.mod_lt _ (by decide)), h80 _ (Nat.mod_lt _ (by decide)), Keccak.xorBlock,
    Keccak.xorBlock, Bool.xor_assoc, Bool.xor_assoc]
  congr 1
  by_cases hlow : i.val < 8 * r.length
  · have hat : i.val / 8 ≠ r.length := by omega
    have hlast : i.val / 8 ≠ 71 ∨ i.val % 8 ≠ 7 := by omega
    rw [List.getD_append _ _ _ _ (by simpa using hlow)]
    rcases hlast with h | h
    · simp [hat, h]
    · simp [hat, h]
  · have hnone : (Keccak.bitsOf r).getD i.val false = false :=
      List.getD_eq_default _ _ (by simpa using Nat.le_of_not_lt hlow)
    rw [hnone, List.getD_append_right _ _ _ _ (by simpa using Nat.le_of_not_lt hlow),
      Keccak.length_bitsOf, getD_tailBits hr, Bool.false_xor, ← Bool.decide_and, ← Bool.decide_and]
    by_cases hsix : i.val / 8 = r.length ∧ (i.val % 8 = 1 ∨ i.val % 8 = 2)
    · have hnot : ¬(i.val / 8 = 71 ∧ i.val % 8 = 7) := by omega
      have hin : i.val - 8 * r.length = 1 ∨ i.val - 8 * r.length = 2 ∨
          i.val - 8 * r.length = 575 - 8 * r.length := by omega
      rw [decide_eq_true hsix, decide_eq_false hnot, decide_eq_true hin]
      rfl
    · rw [decide_eq_false hsix, Bool.false_xor]
      have hiff : (i.val - 8 * r.length = 1 ∨ i.val - 8 * r.length = 2 ∨
          i.val - 8 * r.length = 575 - 8 * r.length) ↔ i.val / 8 = 71 ∧ i.val % 8 = 7 := by omega
      rw [decide_eq_decide.mpr hiff]

/-- The state before the last permutation. -/
theorem stateString_final {st : List UInt64} (h : st.length = 25) {S : Keccak.StateString}
    {r : Bytes} (hr : r.length < 72)
    (hst : stateString st = Keccak.xorBlock S (Keccak.bitsOf r)) :
    stateString (xorByte (xorByte st r.length 0x06) 71 0x80) =
      Keccak.xorBlock S (Keccak.bitsOf r ++ tailBits r.length) := by
  funext i
  rw [stateString_xorByte (by simpa using h) (by decide), stateString_xorByte h (by omega), hst,
    xorBlock_tail S hr]

/-! ## The digest -/

theorem laneBit_byte (w : UInt64) {u : Nat} (hu : u < 8) :
    (w &&& 0xFF).toUInt8.toBitVec.getLsbD u = laneBit w u := by
  have hmask : ∀ u < 8, laneBit 0xFF u = true := by decide
  have hand := laneBit_and w 0xFF u
  rw [hmask u hu, Bool.and_true] at hand
  have hwide : (255#64).getLsbD u = true := hmask u hu
  have hnarrow : ∀ u, (h : u < 8) → (255#8)[u] = true := by decide
  rw [← hand]
  simp [laneBit, hu, hwide, hnarrow u hu]

/-- The bytes of the digest are the first bits of the state. -/
theorem bitsOf_digest (st : List UInt64) {n : Nat} (hn : n ≤ 200) :
    Keccak.bitsOf ((List.range n).map (fun i =>
      ((st.getD (i / 8) 0 >>> UInt64.ofNat (8 * (i % 8))) &&& 0xFF).toUInt8)) =
      (List.ofFn (stateString st)).take (8 * n) := by
  apply List.ext_getElem
  · rw [Keccak.length_bitsOf, List.length_map, List.length_range, List.length_take,
      List.length_ofFn]
    omega
  · intro k hk _
    have hlt : k < 8 * n := by simpa using hk
    have hbyte : k / 8 < n := by omega
    have hlane : k / 8 / 8 = k / 64 := by omega
    have hbit : 8 * (k / 8 % 8) + k % 8 = k % 64 := by omega
    rw [← List.getD_eq_getElem _ false hk, Keccak.getD_bitsOf,
      List.getD_eq_getElem _ _ (by simpa using hbyte)]
    simp only [List.length_map, List.length_range, hbyte, decide_true, Bool.true_and,
      List.getElem_map, List.getElem_range, List.getElem_take, List.getElem_ofFn]
    rw [laneBit_byte _ (Nat.mod_lt _ (by decide)), laneBit_shr _ (by omega), hlane, hbit,
      stateString]

theorem sha3_512_eq (m : Bytes) {tail : List Bool}
    (htail : [false, true] ++ Keccak.pad 576 (8 * m.length + 2) = tail) :
    Keccak.sha3_512 (Keccak.bitsOf m) = (List.ofFn (absorb Keccak.absorbBlock 576 Keccak.zeroString
      (Keccak.bitsOf m ++ tail))).take 512 := by
  have hrate : 1600 - 1024 = 576 := rfl
  have hlen : (Keccak.bitsOf m ++ [false, true]).length = 8 * m.length + 2 := by simp
  rw [Keccak.sha3_512, Keccak.keccak, hrate, Keccak.sponge, hlen, List.append_assoc, htail]
  have hone : (512 + 576 - 1) / 576 = 1 := rfl
  have hmin : min 512 576 = 512 := rfl
  rw [hone, List.range_one]
  simp only [List.flatMap_cons, List.flatMap_nil, List.append_nil, Function.iterate_zero, id_eq]
  rw [Keccak.trunc, List.take_take, hmin]

theorem sha3_512Final_eq {m : Bytes} {ctx : Sha3Ctx} (h : Absorbed m ctx) :
    Keccak.bitsOf (sha3_512Final ctx) = Keccak.sha3_512 (Keccak.bitsOf m) := by
  obtain ⟨hrsiz, hmdlen, hlen, w, r, rfl, hw, hr, hpt, hst⟩ := h
  have hmod : 8 * (w ++ r).length % 576 = 8 * r.length := by
    rw [List.length_append]
    omega
  have hlast := absorb_next_block hw r (tailBits r.length)
    (by rw [List.length_append, length_tailBits hr, Keccak.length_bitsOf]; omega)
  have hfinal := stateString_final hlen hr hst
  have hxor : (xorByte (xorByte ctx.st r.length 0x06) 71 0x80).length = 25 := by simpa using hlen
  have hstring := stateString_keccakf hxor
  rw [sha3_512_eq _ (pad_eq hmod), hlast, Keccak.absorbBlock, ← hfinal, ← hstring, sha3_512Final,
    hmdlen, hrsiz, hpt]
  exact bitsOf_digest _ (by decide)

/-- **SHA3-512 as a stream**: however a message is cut into pieces, the digest is that of the
    standard; and the permutation is the standard's, with every step its step mapping. -/
theorem sha3_512_stream :
    (∀ pieces : List Bytes,
      Keccak.bitsOf (sha3_512Final (pieces.foldl sha3_512Update sha3_512Init)) =
        Keccak.sha3_512 (Keccak.bitsOf pieces.flatten)) ∧
    ∀ st : List UInt64, st.length = 25 →
      stateArray (theta st) = Keccak.theta (stateArray st) ∧
      stateArray (rhoPi st) = Keccak.pi (Keccak.rho (stateArray st)) ∧
      stateArray (chi st) = Keccak.chi (stateArray st) ∧
      (∀ r < 24, stateArray (iota st r) = Keccak.iota r (stateArray st)) ∧
      stateArray (keccakf st) = Keccak.keccakP (stateArray st) :=
  ⟨fun pieces => sha3_512Final_eq (absorbed_pieces pieces),
    fun _ h => ⟨stateArray_theta h, stateArray_rhoPi h, stateArray_chi h,
      fun _ hr => stateArray_iota h hr, (keccakf_spec h).2⟩⟩

/-- A message that ends one byte before a block is full. -/
theorem sha3_512_stream_demo :
    Keccak.bitsOf (sha3_512Final
        ([List.replicate 70 0x61, [], [0x61]].foldl sha3_512Update sha3_512Init)) =
        Keccak.sha3_512 (Keccak.bitsOf (List.flatten [List.replicate 70 0x61, [], [0x61]])) ∧
      stateArray (keccakf (List.replicate 25 0)) =
        Keccak.keccakP (stateArray (List.replicate 25 0)) :=
  ⟨sha3_512_stream.1 _, (sha3_512_stream.2 _ List.length_replicate).2.2.2.2⟩

end Sha3
end VeraCrypt
