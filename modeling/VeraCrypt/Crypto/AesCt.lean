import VeraCrypt.Crypto.Primitives
import VeraCrypt.Lib.Region
import VeraCrypt.Threshold.Gf256

/-!
# AES-256 without tables (`Crypto/AesCt.c`)

The cipher with its S-box computed: a field inversion and an affine map of the byte. The field
is the one of the secret sharing, whose branch-free product and inverse the source repeats.

Each layer of a round has its inverse. The S-box undoes because inversion is its own inverse;
`ShiftRows` permutes the state; `MixColumns` multiplies a column by a circulant matrix, and the
products of its coefficients with those of the inverse are four facts about field elements.
Decryption runs the layers backwards, so it undoes encryption round by round
(`decryptBlock_encryptBlock` and the converse), for any round keys at all, and so for those that
`AesCtInit256` expands a key to (`aes256_inverse`).
-/

set_option autoImplicit false

namespace VeraCrypt

open Lib

namespace AesCt

/-! ## The S-box -/

def rotl8 (x : UInt8) (n : UInt8) : UInt8 := (x <<< n) ||| (x >>> (8 - n))

/-- `S(x) = affine( gf_inv(x) )` -/
def sbox (x : UInt8) : UInt8 :=
  let b := gfInv x
  b ^^^ rotl8 b 1 ^^^ rotl8 b 2 ^^^ rotl8 b 3 ^^^ rotl8 b 4 ^^^ 0x63

/-- `S^{-1}(y) = gf_inv( invAffine(y) )` -/
def invSbox (y : UInt8) : UInt8 := gfInv (rotl8 y 1 ^^^ rotl8 y 3 ^^^ rotl8 y 6 ^^^ 0x05)

/-! ## Key expansion -/

/-- `AESCT_ROUNDS_256` -/
def rounds : Nat := 14

def rcon : List UInt8 := [0x00, 0x01, 0x02, 0x04, 0x08, 0x10, 0x20, 0x40]

/-- Word `i` of the schedule, from the `i` words before it. -/
def nextWord (w : List Bytes) : Bytes :=
  let i := w.length
  let t := w.getD (i - 1) []
  let t :=
    if i % 8 = 0 then
      ((t.drop 1 ++ t.take 1).map sbox).modifyHead (· ^^^ rcon.getD (i / 8) 0)
    else if i % 8 = 4 then t.map sbox
    else t
  xorBytes (w.getD (i - 8) []) t

/-- The expansion loop, `k` words still to go. -/
def expand : Nat → List Bytes → List Bytes
  | 0, w => w
  | k + 1, w => expand k (w ++ [nextWord w])

/-- `AesCtInit256`: `ctx->rk` for a key of 32 bytes. -/
def init256 (key : Bytes) : Bytes :=
  (expand 52 ((List.range 8).map (fun i => slice key (4 * i) 4))).flatten

/-! ## The layers of a round -/

def subBytes (s : Bytes) : Bytes := s.map sbox

def invSubBytes (s : Bytes) : Bytes := s.map invSbox

/-- `t[4*c + r] = s[4*((c + r) & 3) + r]` -/
def shiftRows (s : Bytes) : Bytes :=
  (List.range 16).map (fun k => s.getD (4 * ((k / 4 + k % 4) % 4) + k % 4) 0)

/-- `t[4*c + r] = s[4*((c - r) & 3) + r]`, the difference modulo 4. -/
def invShiftRows (s : Bytes) : Bytes :=
  (List.range 16).map (fun k => s.getD (4 * ((k / 4 + 4 - k % 4) % 4) + k % 4) 0)

def mixColumn (a0 a1 a2 a3 : UInt8) : Bytes :=
  [xtime a0 ^^^ (xtime a1 ^^^ a1) ^^^ a2 ^^^ a3,
    a0 ^^^ xtime a1 ^^^ (xtime a2 ^^^ a2) ^^^ a3,
    a0 ^^^ a1 ^^^ xtime a2 ^^^ (xtime a3 ^^^ a3),
    (xtime a0 ^^^ a0) ^^^ a1 ^^^ a2 ^^^ xtime a3]

def invMixColumn (a0 a1 a2 a3 : UInt8) : Bytes :=
  [gfMul a0 0x0e ^^^ gfMul a1 0x0b ^^^ gfMul a2 0x0d ^^^ gfMul a3 0x09,
    gfMul a0 0x09 ^^^ gfMul a1 0x0e ^^^ gfMul a2 0x0b ^^^ gfMul a3 0x0d,
    gfMul a0 0x0d ^^^ gfMul a1 0x09 ^^^ gfMul a2 0x0e ^^^ gfMul a3 0x0b,
    gfMul a0 0x0b ^^^ gfMul a1 0x0d ^^^ gfMul a2 0x09 ^^^ gfMul a3 0x0e]

/-- A map of columns on the whole state. -/
def onColumns (f : UInt8 → UInt8 → UInt8 → UInt8 → Bytes) : Bytes → Bytes
  | a0 :: a1 :: a2 :: a3 :: s => f a0 a1 a2 a3 ++ onColumns f s
  | s => s

def mixColumns : Bytes → Bytes := onColumns mixColumn

def invMixColumns : Bytes → Bytes := onColumns invMixColumn

/-- `s[i] ^= ctx->rk[16*round + i]` -/
def addRoundKey (rk : Bytes) (round : Nat) (s : Bytes) : Bytes :=
  xorBytes s (slice rk (16 * round) 16)

/-! ## The cipher -/

/-- The round function, from `SubBytes` to `AddRoundKey`. -/
def encryptRound (rk : Bytes) (s : Bytes) (round : Nat) : Bytes :=
  addRoundKey rk round (mixColumns (shiftRows (subBytes s)))

/-- `AesCtEncryptBlock` -/
def encryptBlock (rk : Bytes) (block : Bytes) : Bytes :=
  let s := addRoundKey rk 0 block
  let s := ((List.range (rounds - 1)).map (· + 1)).foldl (encryptRound rk) s
  addRoundKey rk rounds (shiftRows (subBytes s))

/-- One round of the inverse cipher. -/
def decryptRound (rk : Bytes) (s : Bytes) (round : Nat) : Bytes :=
  invMixColumns (addRoundKey rk round (invSubBytes (invShiftRows s)))

/-- `AesCtDecryptBlock` -/
def decryptBlock (rk : Bytes) (block : Bytes) : Bytes :=
  let s := addRoundKey rk rounds block
  let s := ((List.range (rounds - 1)).map (· + 1)).reverse.foldl (decryptRound rk) s
  addRoundKey rk 0 (invSubBytes (invShiftRows s))

/-! ## The layers undo -/

theorem gfInv_gfInv (a : UInt8) : gfInv (gfInv a) = a :=
  congrArg Gf256.byte (inv_inv (⟨a⟩ : Gf256))

theorem invSbox_sbox (x : UInt8) : invSbox (sbox x) = x := by
  have haff : ∀ b : UInt8, (fun y => rotl8 y 1 ^^^ rotl8 y 3 ^^^ rotl8 y 6 ^^^ 0x05)
      (b ^^^ rotl8 b 1 ^^^ rotl8 b 2 ^^^ rotl8 b 3 ^^^ rotl8 b 4 ^^^ 0x63) = b :=
    forall_byte (by decide +kernel)
  exact (congrArg gfInv (haff (gfInv x))).trans (gfInv_gfInv x)

example : invSbox (sbox 0x53) = 0x53 := by decide +kernel

theorem sbox_invSbox (y : UInt8) : sbox (invSbox y) = y := by
  have haff : ∀ b : UInt8, (fun c => c ^^^ rotl8 c 1 ^^^ rotl8 c 2 ^^^ rotl8 c 3 ^^^ rotl8 c 4 ^^^
      0x63) (rotl8 b 1 ^^^ rotl8 b 3 ^^^ rotl8 b 6 ^^^ 0x05) = b :=
    forall_byte (by decide +kernel)
  have hinv : gfInv (invSbox y) = rotl8 y 1 ^^^ rotl8 y 3 ^^^ rotl8 y 6 ^^^ 0x05 := gfInv_gfInv _
  unfold sbox
  rw [hinv]
  exact haff y

theorem invSubBytes_subBytes (s : Bytes) : invSubBytes (subBytes s) = s := by
  unfold invSubBytes subBytes
  rw [List.map_map]
  exact (List.map_congr_left (fun x _ => invSbox_sbox x)).trans (List.map_id s)

theorem subBytes_invSubBytes (s : Bytes) : subBytes (invSubBytes s) = s := by
  unfold invSubBytes subBytes
  rw [List.map_map]
  exact (List.map_congr_left (fun x _ => sbox_invSbox x)).trans (List.map_id s)

/-- A state rearranged, and rearranged back. -/
theorem map_getD_map_getD {s : Bytes} (h : s.length = 16) {f g : Nat → Nat}
    (hf : ∀ k < 16, f k < 16) (hfg : ∀ k < 16, g (f k) = k) :
    (List.range 16).map (fun k => ((List.range 16).map (fun j => s.getD (g j) 0)).getD (f k) 0) =
      s := by
  apply List.ext_getElem?
  intro k
  rw [List.getElem?_map]
  by_cases hk : k < 16
  · have hfk := hf k hk
    rw [List.getElem?_range hk, List.getElem?_eq_getElem (by omega)]
    simp only [Option.map_some, List.getD_eq_getElem?_getD, List.getElem?_map,
      List.getElem?_range hfk, hfg k hk, Option.getD_some,
      List.getElem?_eq_getElem (show k < s.length by omega)]
  · rw [List.getElem?_eq_none (by simpa using hk), List.getElem?_eq_none (by omega)]
    rfl

theorem invShiftRows_shiftRows {s : Bytes} (h : s.length = 16) :
    invShiftRows (shiftRows s) = s :=
  map_getD_map_getD h (f := fun k => 4 * ((k / 4 + 4 - k % 4) % 4) + k % 4) (by decide) (by decide)

theorem shiftRows_invShiftRows {s : Bytes} (h : s.length = 16) :
    shiftRows (invShiftRows s) = s :=
  map_getD_map_getD h (f := fun k => 4 * ((k / 4 + k % 4) % 4) + k % 4) (by decide) (by decide)

/-- `xtime` multiplies by the field element 2. -/
theorem xtime_eq_mul (a : UInt8) : (⟨xtime a⟩ : Gf256) = ⟨a⟩ * ⟨2⟩ := by
  have hbits : ∀ i ∈ bitBytes, xtime i = gfMul i 2 := by decide +kernel
  exact Gf256.ext (xtime_xor.ext (gfMul_xor_left 2) hbits a)

theorem gf_xor (a b : UInt8) : (⟨a ^^^ b⟩ : Gf256) = ⟨a⟩ + ⟨b⟩ := rfl

theorem gf_mul (a b : UInt8) : (⟨gfMul a b⟩ : Gf256) = ⟨a⟩ * ⟨b⟩ := rfl

/-- A row of a circulant matrix at a column. -/
def dot4 (c0 c1 c2 c3 a0 a1 a2 a3 : Gf256) : Gf256 := c0 * a0 + c1 * a1 + c2 * a2 + c3 * a3

/-- The column of `MixColumns` and of its inverse: one row, at the column turned. -/
def circulant (c0 c1 c2 c3 : Gf256) (a0 a1 a2 a3 : UInt8) : Bytes :=
  [(dot4 c0 c1 c2 c3 ⟨a0⟩ ⟨a1⟩ ⟨a2⟩ ⟨a3⟩).byte, (dot4 c0 c1 c2 c3 ⟨a1⟩ ⟨a2⟩ ⟨a3⟩ ⟨a0⟩).byte,
    (dot4 c0 c1 c2 c3 ⟨a2⟩ ⟨a3⟩ ⟨a0⟩ ⟨a1⟩).byte, (dot4 c0 c1 c2 c3 ⟨a3⟩ ⟨a0⟩ ⟨a1⟩ ⟨a2⟩).byte]

theorem gf_three : (⟨3⟩ : Gf256) = ⟨2⟩ + 1 := by decide

theorem mixColumn_eq (a0 a1 a2 a3 : UInt8) :
    mixColumn a0 a1 a2 a3 = circulant ⟨2⟩ ⟨3⟩ 1 1 a0 a1 a2 a3 := by
  have hrow : ∀ {x : UInt8} {y : Gf256}, (⟨x⟩ : Gf256) = y → x = y.byte := fun h =>
    congrArg Gf256.byte h
  unfold mixColumn circulant
  refine congrArg₂ List.cons (hrow ?_) (congrArg₂ List.cons (hrow ?_)
    (congrArg₂ List.cons (hrow ?_) (congrArg₂ List.cons (hrow ?_) rfl)))
  all_goals
    simp only [gf_xor, xtime_eq_mul, dot4, gf_three]
    ring

theorem invMixColumn_eq (a0 a1 a2 a3 : UInt8) :
    invMixColumn a0 a1 a2 a3 = circulant ⟨0x0e⟩ ⟨0x0b⟩ ⟨0x0d⟩ ⟨0x09⟩ a0 a1 a2 a3 := by
  have hrow : ∀ {x : UInt8} {y : Gf256}, (⟨x⟩ : Gf256) = y → x = y.byte := fun h =>
    congrArg Gf256.byte h
  unfold invMixColumn circulant
  refine congrArg₂ List.cons (hrow ?_) (congrArg₂ List.cons (hrow ?_)
    (congrArg₂ List.cons (hrow ?_) (congrArg₂ List.cons (hrow ?_) rfl)))
  all_goals
    simp only [gf_xor, gf_mul, dot4]
    ring

section
variable {c0 c1 c2 c3 d0 d1 d2 d3 : Gf256} (h0 : c0 * d0 + c1 * d3 + c2 * d2 + c3 * d1 = 1)
  (h1 : c0 * d1 + c1 * d0 + c2 * d3 + c3 * d2 = 0)
  (h2 : c0 * d2 + c1 * d1 + c2 * d0 + c3 * d3 = 0)
  (h3 : c0 * d3 + c1 * d2 + c2 * d1 + c3 * d0 = 0)
include h0 h1 h2 h3

/-- The first entry of a product of circulants whose coefficients multiply to those of the
    identity; the others are this one at the column turned. -/
theorem dot4_dot4 (a0 a1 a2 a3 : Gf256) :
    dot4 c0 c1 c2 c3 (dot4 d0 d1 d2 d3 a0 a1 a2 a3) (dot4 d0 d1 d2 d3 a1 a2 a3 a0)
      (dot4 d0 d1 d2 d3 a2 a3 a0 a1) (dot4 d0 d1 d2 d3 a3 a0 a1 a2) = a0 := by
  unfold dot4
  linear_combination a0 * h0 + a1 * h1 + a2 * h2 + a3 * h3

theorem onColumns_circulant (s : Bytes) :
    onColumns (circulant c0 c1 c2 c3) (onColumns (circulant d0 d1 d2 d3) s) = s := by
  induction s using onColumns.induct with
  | case1 a0 a1 a2 a3 s ih =>
    have hcolumn : onColumns (circulant c0 c1 c2 c3)
        (onColumns (circulant d0 d1 d2 d3) (a0 :: a1 :: a2 :: a3 :: s)) =
        circulant c0 c1 c2 c3 (dot4 d0 d1 d2 d3 ⟨a0⟩ ⟨a1⟩ ⟨a2⟩ ⟨a3⟩).byte
          (dot4 d0 d1 d2 d3 ⟨a1⟩ ⟨a2⟩ ⟨a3⟩ ⟨a0⟩).byte (dot4 d0 d1 d2 d3 ⟨a2⟩ ⟨a3⟩ ⟨a0⟩ ⟨a1⟩).byte
          (dot4 d0 d1 d2 d3 ⟨a3⟩ ⟨a0⟩ ⟨a1⟩ ⟨a2⟩).byte ++
        onColumns (circulant c0 c1 c2 c3) (onColumns (circulant d0 d1 d2 d3) s) := rfl
    have hback : ∀ x : UInt8, (⟨x⟩ : Gf256).byte = x := fun _ => rfl
    have hwrap : ∀ x : Gf256, (⟨x.byte⟩ : Gf256) = x := fun _ => rfl
    rw [hcolumn, ih]
    simp only [circulant, hwrap, dot4_dot4 h0 h1 h2 h3]
    rfl
  | case2 s hs =>
    have hshort : ∀ f, onColumns f s = s := by
      intro f
      unfold onColumns
      split
      · exact absurd rfl (hs _ _ _ _ _)
      · rfl
    rw [hshort, hshort]

end

theorem mixColumn_eq_circulant : mixColumn = circulant ⟨2⟩ ⟨3⟩ 1 1 := by
  funext a0 a1 a2 a3
  exact mixColumn_eq a0 a1 a2 a3

theorem invMixColumn_eq_circulant :
    invMixColumn = circulant ⟨0x0e⟩ ⟨0x0b⟩ ⟨0x0d⟩ ⟨0x09⟩ := by
  funext a0 a1 a2 a3
  exact invMixColumn_eq a0 a1 a2 a3

/-- The coefficients of the two directions multiply to those of the identity. -/
theorem mixColumn_coefficients :
    (⟨2⟩ * ⟨0x0e⟩ + ⟨3⟩ * ⟨0x09⟩ + 1 * ⟨0x0d⟩ + 1 * ⟨0x0b⟩ : Gf256) = 1 ∧
    (⟨2⟩ * ⟨0x0b⟩ + ⟨3⟩ * ⟨0x0e⟩ + 1 * ⟨0x09⟩ + 1 * ⟨0x0d⟩ : Gf256) = 0 ∧
    (⟨2⟩ * ⟨0x0d⟩ + ⟨3⟩ * ⟨0x0b⟩ + 1 * ⟨0x0e⟩ + 1 * ⟨0x09⟩ : Gf256) = 0 ∧
    (⟨2⟩ * ⟨0x09⟩ + ⟨3⟩ * ⟨0x0d⟩ + 1 * ⟨0x0b⟩ + 1 * ⟨0x0e⟩ : Gf256) = 0 := by
  decide +kernel

theorem invMixColumns_mixColumns (s : Bytes) : invMixColumns (mixColumns s) = s := by
  obtain ⟨h0, h1, h2, h3⟩ := mixColumn_coefficients
  unfold invMixColumns mixColumns
  rw [mixColumn_eq_circulant, invMixColumn_eq_circulant]
  apply onColumns_circulant
  · linear_combination h0
  · linear_combination h1
  · linear_combination h2
  · linear_combination h3

theorem mixColumns_invMixColumns (s : Bytes) : mixColumns (invMixColumns s) = s := by
  obtain ⟨h0, h1, h2, h3⟩ := mixColumn_coefficients
  unfold invMixColumns mixColumns
  rw [mixColumn_eq_circulant, invMixColumn_eq_circulant]
  apply onColumns_circulant
  · linear_combination h0
  · linear_combination h1
  · linear_combination h2
  · linear_combination h3

/-! ## Lengths -/

@[simp] theorem length_shiftRows (s : Bytes) : (shiftRows s).length = 16 := by
  simp [shiftRows]

@[simp] theorem length_invShiftRows (s : Bytes) : (invShiftRows s).length = 16 := by
  simp [invShiftRows]

theorem length_onColumns {f : UInt8 → UInt8 → UInt8 → UInt8 → Bytes}
    (h : ∀ a0 a1 a2 a3, (f a0 a1 a2 a3).length = 4) (s : Bytes) :
    (onColumns f s).length = s.length := by
  induction s using onColumns.induct with
  | case1 a0 a1 a2 a3 s ih =>
    rw [onColumns, List.length_append, h, ih]
    simp only [List.length_cons]
    omega
  | case2 s hs =>
    unfold onColumns
    split
    · exact absurd rfl (hs _ _ _ _ _)
    · rfl

theorem length_mixColumns (s : Bytes) : (mixColumns s).length = s.length :=
  length_onColumns (fun _ _ _ _ => rfl) s

theorem length_invMixColumns (s : Bytes) : (invMixColumns s).length = s.length :=
  length_onColumns (fun _ _ _ _ => rfl) s

/-! ## The cipher undoes -/

/-- The round keys of a schedule: 240 bytes. -/
def WellKeyed (rk : Bytes) : Prop := rk.length = 16 * (rounds + 1)

theorem rounds_le {r : Nat} (h : r ∈ (List.range (rounds - 1)).map (· + 1)) : r ≤ rounds := by
  obtain ⟨k, hk, rfl⟩ := List.mem_map.mp h
  have hlt := List.mem_range.mp hk
  exact (Nat.succ_le_of_lt hlt).trans (Nat.sub_le _ _)

section
variable {rk : Bytes} (hrk : WellKeyed rk)
include hrk

theorem length_roundKey {round : Nat} (h : round ≤ rounds) :
    (slice rk (16 * round) 16).length = 16 := by
  apply length_slice
  unfold WellKeyed at hrk
  omega

theorem length_addRoundKey {round : Nat} (h : round ≤ rounds) {s : Bytes} (hs : s.length = 16) :
    (addRoundKey rk round s).length = 16 := by
  have hkey := length_roundKey hrk h
  unfold addRoundKey
  rw [length_xorBytes (by rw [hs, hkey]), hs]

theorem addRoundKey_addRoundKey {round : Nat} (h : round ≤ rounds) {s : Bytes}
    (hs : s.length = 16) : addRoundKey rk round (addRoundKey rk round s) = s := by
  have hkey := length_roundKey hrk h
  unfold addRoundKey
  exact xorBytes_cancel (by rw [hs, hkey])

theorem length_encryptRound {round : Nat} (h : round ≤ rounds) (s : Bytes) :
    (encryptRound rk s round).length = 16 := by
  unfold encryptRound
  exact length_addRoundKey hrk h (by rw [length_mixColumns, length_shiftRows])

/-- **The rounds, backwards.** The inverse cipher meets a state between the layers: before its
    first step and after every round it has `ShiftRows` of `SubBytes` of the cipher's state. -/
theorem decryptRounds_encryptRounds {l : List Nat} (hl : ∀ r ∈ l, r ≤ rounds) {s : Bytes}
    (hs : s.length = 16) :
    l.reverse.foldl (decryptRound rk) (shiftRows (subBytes (l.foldl (encryptRound rk) s))) =
      shiftRows (subBytes s) := by
  induction l generalizing s with
  | nil => rfl
  | cons r l ih =>
    have hr : r ≤ rounds := hl r (by simp)
    have hnext := length_encryptRound hrk hr s
    have hmixed : (mixColumns (shiftRows (subBytes s))).length = 16 := by
      rw [length_mixColumns, length_shiftRows]
    have hsub : (subBytes (encryptRound rk s r)).length = 16 := by
      rw [subBytes, List.length_map, hnext]
    have hstep : decryptRound rk (shiftRows (subBytes (encryptRound rk s r))) r =
        shiftRows (subBytes s) := by
      unfold decryptRound
      rw [invShiftRows_shiftRows hsub, invSubBytes_subBytes]
      unfold encryptRound
      rw [addRoundKey_addRoundKey hrk hr hmixed, invMixColumns_mixColumns]
    simp only [List.reverse_cons, List.foldl_append, List.foldl_cons, List.foldl_nil]
    rw [ih (fun q hq => hl q (by simp [hq])) hnext, hstep]

theorem length_decryptRound {round : Nat} (h : round ≤ rounds) (s : Bytes) :
    (decryptRound rk s round).length = 16 := by
  unfold decryptRound
  rw [length_invMixColumns]
  exact length_addRoundKey hrk h (by rw [invSubBytes, List.length_map, length_invShiftRows])

/-- The same the other way round. -/
theorem encryptRounds_decryptRounds {l : List Nat} (hl : ∀ r ∈ l, r ≤ rounds) (s : Bytes) :
    l.foldl (encryptRound rk) (invSubBytes (invShiftRows (l.reverse.foldl (decryptRound rk) s))) =
      invSubBytes (invShiftRows s) := by
  induction l with
  | nil => rfl
  | cons r l ih =>
    have hr : r ≤ rounds := hl r (by simp)
    have hrest : ∀ q ∈ l, q ≤ rounds := fun q hq => hl q (by simp [hq])
    have hback : ∀ z : Bytes, encryptRound rk (invSubBytes (invShiftRows (decryptRound rk z r))) r =
        invSubBytes (invShiftRows z) := by
      intro z
      have hz : (invSubBytes (invShiftRows z)).length = 16 := by
        rw [invSubBytes, List.length_map, length_invShiftRows]
      unfold encryptRound
      rw [subBytes_invSubBytes, shiftRows_invShiftRows (length_decryptRound hrk hr z)]
      unfold decryptRound
      rw [mixColumns_invMixColumns, addRoundKey_addRoundKey hrk hr hz]
    simp only [List.reverse_cons, List.foldl_append, List.foldl_cons, List.foldl_nil]
    rw [hback, ih hrest]

theorem length_encryptBlock (block : Bytes) :
    (encryptBlock rk block).length = 16 := by
  unfold encryptBlock
  exact length_addRoundKey hrk (Nat.le_refl _) (length_shiftRows _)

theorem length_decryptBlock (block : Bytes) :
    (decryptBlock rk block).length = 16 := by
  unfold decryptBlock
  exact length_addRoundKey hrk (Nat.zero_le _)
    (by rw [invSubBytes, List.length_map, length_invShiftRows])

/-- **Decryption undoes encryption**, for every schedule of round keys and every block. -/
theorem decryptBlock_encryptBlock {block : Bytes} (h : block.length = 16) :
    decryptBlock rk (encryptBlock rk block) = block := by
  have hfirst := length_addRoundKey hrk (Nat.zero_le _) h
  unfold decryptBlock encryptBlock
  simp only []
  rw [addRoundKey_addRoundKey hrk (Nat.le_refl _) (length_shiftRows _),
    decryptRounds_encryptRounds hrk (fun r hr => rounds_le hr) hfirst,
    invShiftRows_shiftRows (by rw [subBytes, List.length_map, hfirst]), invSubBytes_subBytes,
    addRoundKey_addRoundKey hrk (Nat.zero_le _) h]

/-- **Encryption undoes decryption.** -/
theorem encryptBlock_decryptBlock {block : Bytes} (h : block.length = 16) :
    encryptBlock rk (decryptBlock rk block) = block := by
  have hlast := length_addRoundKey hrk (Nat.le_refl _) h
  unfold decryptBlock encryptBlock
  simp only []
  rw [addRoundKey_addRoundKey hrk (Nat.zero_le _)
      (by rw [invSubBytes, List.length_map, length_invShiftRows]),
    encryptRounds_decryptRounds hrk (fun r hr => rounds_le hr) _, subBytes_invSubBytes,
    shiftRows_invShiftRows hlast, addRoundKey_addRoundKey hrk (Nat.le_refl _) h]

end

/-! ## The schedule -/

theorem length_nextWord {w : List Bytes} (h8 : 8 ≤ w.length) (hw : ∀ x ∈ w, x.length = 4) :
    (nextWord w).length = 4 := by
  have hget : ∀ i, i < w.length → (w.getD i []).length = 4 := by
    intro i hi
    rw [List.getD_eq_getElem?_getD, List.getElem?_eq_getElem hi]
    exact hw _ (List.getElem_mem hi)
  have hlast := hget (w.length - 1) (by omega)
  have hback := hget (w.length - 8) (by omega)
  have hmix : (let i := w.length
      let t := w.getD (i - 1) []
      if i % 8 = 0 then
        ((t.drop 1 ++ t.take 1).map sbox).modifyHead (· ^^^ rcon.getD (i / 8) 0)
      else if i % 8 = 4 then t.map sbox
      else t).length = 4 := by
    simp only []
    by_cases h0 : w.length % 8 = 0
    · rw [if_pos h0, List.length_modifyHead, List.length_map, List.length_append, List.length_drop,
        List.length_take]
      omega
    · rw [if_neg h0]
      by_cases h4 : w.length % 8 = 4
      · rw [if_pos h4, List.length_map, hlast]
      · rw [if_neg h4, hlast]
  unfold nextWord
  rw [length_xorBytes (hback.trans hmix.symm), hback]

theorem length_expand {k : Nat} {w : List Bytes} (h8 : 8 ≤ w.length)
    (hw : ∀ x ∈ w, x.length = 4) :
    (expand k w).length = w.length + k ∧ ∀ x ∈ expand k w, x.length = 4 := by
  induction k generalizing w with
  | zero => exact ⟨rfl, hw⟩
  | succ k ih =>
    have hnext : ∀ x ∈ w ++ [nextWord w], x.length = 4 := by
      intro x hx
      rcases List.mem_append.mp hx with hx | hx
      · exact hw x hx
      · rw [List.mem_singleton.mp hx]
        exact length_nextWord h8 hw
    obtain ⟨hlen, hall⟩ := ih (w := w ++ [nextWord w]) (by rw [List.length_append]; omega) hnext
    refine ⟨?_, hall⟩
    rw [expand, hlen, List.length_append, List.length_singleton]
    omega

/-- **Every key of 32 bytes expands to a whole schedule.** -/
theorem wellKeyed_init256 {key : Bytes} (h : key.length = 32) : WellKeyed (init256 key) := by
  have hwords : ∀ x ∈ (List.range 8).map (fun i => slice key (4 * i) 4), x.length = 4 := by
    intro x hx
    obtain ⟨i, hi, rfl⟩ := List.mem_map.mp hx
    have hlt := List.mem_range.mp hi
    exact length_slice (by omega)
  obtain ⟨hlen, hall⟩ := @length_expand 52 _ (by simp) hwords
  unfold WellKeyed init256
  rw [length_flatten_const hall, hlen, List.length_map, List.length_range]
  rfl

/-- **AES-256 and its inverse cipher** under the schedule of a key: each undoes the other, on every
    block. -/
theorem aes256_inverse (key block : Bytes) (hkey : key.length = 32) (hblock : block.length = 16) :
    decryptBlock (init256 key) (encryptBlock (init256 key) block) = block ∧
      encryptBlock (init256 key) (decryptBlock (init256 key) block) = block := by
  have hrk := wellKeyed_init256 hkey
  constructor
  · exact decryptBlock_encryptBlock hrk hblock
  · exact encryptBlock_decryptBlock hrk hblock

theorem aes256_inverse_zero :
    decryptBlock (init256 (List.replicate 32 0))
        (encryptBlock (init256 (List.replicate 32 0)) (List.replicate 16 0)) =
      List.replicate 16 0 ∧
    encryptBlock (init256 (List.replicate 32 0))
        (decryptBlock (init256 (List.replicate 32 0)) (List.replicate 16 0)) =
      List.replicate 16 0 :=
  aes256_inverse (List.replicate 32 0) (List.replicate 16 0) rfl rfl

end AesCt

end VeraCrypt
