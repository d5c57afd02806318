import VeraCrypt.Crypto.Primitives
import VeraCrypt.Lib.Endian
import VeraCrypt.Lib.StreamXor

/-!
# The ChaCha stream (`Crypto/chacha256.c`)

Sixteen words are the state; a block of keystream is the state after some double rounds, added
to the state before them, and the counter in words 12 and 13 moves on. Modelled is the first
call on a context that `ChaCha256Init` has just made, which is how the wide-block mode uses it:
the position inside a block, kept for a call that goes on, is zero.
-/

set_option autoImplicit false

namespace VeraCrypt

open Lib

/-- `ld32` -/
def ld32 (p : Bytes) (off : Nat) : UInt32 := UInt32.ofNat (leNat (slice p off 4))

/-- `st32` -/
def st32 (v : UInt32) : Bytes := leBytes 4 v.toNat

namespace ChaCha256

/-- `rotl32` -/
def rotl32 (x n : UInt32) : UInt32 := (x <<< n) ||| (x >>> (32 - n))

/-- The eight lines of `chacha_core` for one set of words; `QR` in `Crypto/Adiantum.c`. -/
def quarterRound (x : List UInt32) (a b c d : Nat) : List UInt32 :=
  let xa := x.getD a 0 + x.getD b 0
  let xd := rotl32 (x.getD d 0 ^^^ xa) 16
  let xc := x.getD c 0 + xd
  let xb := rotl32 (x.getD b 0 ^^^ xc) 12
  let xa := xa + xb
  let xd := rotl32 (xd ^^^ xa) 8
  let xc := xc + xd
  let xb := rotl32 (xb ^^^ xc) 7
  (((x.set a xa).set b xb).set c xc).set d xd

/-- One turn of the loop of `chacha_core`. -/
def doubleRound (x : List UInt32) : List UInt32 :=
  let x := quarterRound x 0 4 8 12
  let x := quarterRound x 1 5 9 13
  let x := quarterRound x 2 6 10 14
  let x := quarterRound x 3 7 11 15
  let x := quarterRound x 0 5 10 15
  let x := quarterRound x 1 6 11 12
  let x := quarterRound x 2 7 8 13
  quarterRound x 3 4 9 14

/-- `chacha_core` -/
def chachaCore (x : List UInt32) (r : Nat) : List UInt32 := doubleRound^[r] x

/-- `chacha_hash` -/
def chachaHash (input : List UInt32) (r : Nat) : List UInt32 :=
  List.zipWith (· + ·) (chachaCore input r) input

/-- The state after `incrementSalsaCounter`. -/
def incrementCounter (input : List UInt32) : List UInt32 :=
  let low := input.getD 12 0 + 1
  let input := input.set 12 low
  if low = 0 then input.set 13 (input.getD 13 0 + 1) else input

/-- Byte `j` of the block `incrementSalsaCounter` makes. -/
def blockByte (r : Nat) (input : List UInt32) (j : Nat) : UInt8 :=
  ((chachaHash input r).getD (j / 4) 0 >>> UInt32.ofNat (8 * (j % 4))).toUInt8

/-- `ChaCha256Ctx` -/
structure Ctx where
  input : List UInt32
  internalRounds : Nat

/-- The words a state begins with: "expand 32-byte k". -/
def constants : List UInt32 := [0x61707865, 0x3320646E, 0x79622D32, 0x6B206574]

/-- `ChaCha256Init` -/
def init (key iv : Bytes) (rounds : Nat) : Ctx where
  input := constants ++ (List.range 8).map (fun i => ld32 key (4 * i)) ++ [0, 0] ++
    [ld32 iv 0, ld32 iv 4]
  internalRounds := rounds / 2

/-- `ChaCha256Encrypt` from `src` to `dst` of a memory. -/
def encrypt (ctx : Ctx) (src len dst : Nat) (mem : Bytes) : Bytes :=
  streamXor (blockByte ctx.internalRounds) incrementCounter 64 len ctx.input src dst len mem

/-- The keystream of a context. -/
def stream (ctx : Ctx) : Nat → UInt8 :=
  keystream (blockByte ctx.internalRounds) incrementCounter 64 ctx.input

/-- **What the cipher writes**: its input under the keystream, and nothing else. -/
theorem encrypt_eq (ctx : Ctx) {src len dst : Nat} {mem : Bytes} (h : Buffers mem src dst len) :
    encrypt ctx src len dst mem = patch mem dst (xorStream (stream ctx) (slice mem src len)) :=
  streamXor_eq (by decide) ctx.input (Nat.le_refl len) h.inp_le h.out_le h.apart

end ChaCha256

end VeraCrypt
