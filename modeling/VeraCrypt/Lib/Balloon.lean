import VeraCrypt.Lib.Endian
import Mathlib.Logic.Function.Basic

/-!
# Balloon hashing

The memory-hard function over any hash, one lane, three dependencies for each block: a table of `n`
blocks is expanded from the password, mixed `t` times from front to back, and the last block is the
result. Every hash call has a number of its own, which is hashed first; here the number is computed
from the place of the call (`mixNumber`), not counted.
-/

set_option autoImplicit false

namespace VeraCrypt
namespace Lib
namespace Balloon

variable (H : List UInt8 → List UInt8) (pwd salt : List UInt8) (n : Nat)

/-- A number as it is hashed. -/
def le64 (v : Nat) : List UInt8 := leBytes 8 v

/-- Block `m` before the first round. -/
def expanded : Nat → List UInt8
  | 0 => H (le64 0 ++ pwd ++ salt)
  | m + 1 => H (le64 (m + 1) ++ expanded m)

/-- The number of the first hash call for block `m` in round `t`: there are seven for each block. -/
def mixNumber (t m : Nat) : Nat := n + 7 * (t * n + m)

/-- The block that dependency `i` of block `m` reads in round `t`. -/
def neighbour (t m i : Nat) : Nat :=
  leNat ((H (le64 (mixNumber n t m + 1 + 2 * i) ++ le64 t ++ le64 m ++ le64 i ++ salt)).take 8) % n

/-- Block `m` hashed with the block before it. -/
def chained (t m : Nat) (B : Nat → List UInt8) : Nat → List UInt8 :=
  Function.update B m (H (le64 (mixNumber n t m) ++ B ((m + n - 1) % n) ++ B m))

/-- Block `m` hashed with dependency `i`. -/
def depended (t m : Nat) (B : Nat → List UInt8) (i : Nat) : Nat → List UInt8 :=
  Function.update B m
    (H (le64 (mixNumber n t m + 2 + 2 * i) ++ B m ++ B (neighbour H salt n t m i)))

def mixedBlock (t : Nat) (B : Nat → List UInt8) (m : Nat) : Nat → List UInt8 :=
  (List.range 3).foldl (depended H salt n t m) (chained H n t m B)

def mixedRound (B : Nat → List UInt8) (t : Nat) : Nat → List UInt8 :=
  (List.range n).foldl (mixedBlock H salt n t) B

/-- The last block after `tcost` rounds. -/
def balloon (tcost : Nat) : List UInt8 :=
  (List.range tcost).foldl (mixedRound H salt n) (expanded H pwd salt) (n - 1)

/-- Block `j` of a longer output. -/
def outputBlock (K : List UInt8) (j : Nat) : List UInt8 := H (K ++ beBytes 4 (j + 1) ++ salt)

/-- `len` bytes: the last block cut short, or blocks made from it by counting. -/
def output (tcost len : Nat) : List UInt8 :=
  let K := balloon H pwd salt n tcost
  if len ≤ 32 then K.take len
  else ((List.range ((len + 31) / 32)).flatMap (outputBlock H salt K)).take len

end Balloon
end Lib
end VeraCrypt
