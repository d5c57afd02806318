import VeraCrypt.Threshold.ShareCode

/-!
# Shares as codex32 text (`Common/ShareCode.c`)

The other text form: a header of threshold, identifier and index, the payload in symbols, and a
checksum of 13 symbols, or of 15 where the data are long. The register of the checksum is wider
than a machine word and is kept in two.

What the encoder writes is read back with the letters of the header in lower case, for payloads
of at most 64 bytes (`codex32Decode_codex32Encode`). The encoder writes longer ones too, where it
is given the room, and the decoder refuses all of those by their length
(`codex32Decode_of_long`): one counts the data against the buffer, the other the whole string.
-/

set_option autoImplicit false

namespace VeraCrypt

open Lib

/-! ## The checksum -/

/-- `sc_u128` -/
structure ScU128 where
  hi : UInt64
  lo : UInt64
  deriving DecidableEq

/-- `MS32_GEN` -/
def ms32Gen : List ScU128 :=
  [⟨0x1, 0x9dc500ce73fde210⟩, ⟨0x1, 0xbfae00def77fe529⟩, ⟨0x1, 0xfbd920fffe7bee52⟩,
   ⟨0x1, 0x739640bdeee3fdad⟩, ⟨0x0, 0x7729a039cfc75f5a⟩]

/-- `MS32_GEN_LONG` -/
def ms32GenLong : List ScU128 :=
  [⟨0x3d5, 0x9d273535ea62d897⟩, ⟨0x7a9, 0xbecb6361c6c51507⟩, ⟨0x543, 0xf9b7e6c38d8a2a0e⟩,
   ⟨0x0c5, 0x77eaeccf1990d13c⟩, ⟨0x188, 0x7f74f8dc71b10651⟩]

/-- `MS32_CONST` and `MS32_LONG_CONST` -/
def ms32Const (isLong : Bool) : ScU128 :=
  if isLong then ⟨0x433, 0x81e570bf4798ab26⟩ else ⟨0x1, 0x0ce0795c2fd1e62a⟩

/-- `MS32_CSUM_SHORT` and `MS32_CSUM_LONG` -/
def ms32Csum (isLong : Bool) : Nat := if isLong then 15 else 13

/-- The constants of a checksum. -/
def ms32Gens (isLong : Bool) : List ScU128 := if isLong then ms32GenLong else ms32Gen

def ScU128.xor (r g : ScU128) : ScU128 := ⟨r.hi ^^^ g.hi, r.lo ^^^ g.lo⟩

/-- The symbol at the top of the register. -/
def ms32Top (isLong : Bool) (r : ScU128) : UInt64 :=
  if isLong then (r.hi >>> 6) &&& 31 else ((r.hi <<< 4) ||| (r.lo >>> 60)) &&& 31

/-- The register moved up by a symbol, without its top. -/
def ms32Up (isLong : Bool) (r : ScU128) : ScU128 :=
  let mlo := r.lo &&& (if isLong then 0xffffffffffffffff else 0x0fffffffffffffff)
  let mhi := r.hi &&& (if isLong then 0x3f else 0x0)
  ⟨(mhi <<< 5) ||| (mlo >>> 59), mlo <<< 5⟩

/-- One turn of the loop of `ms32_polymod`. -/
def ms32Step (isLong : Bool) (r : ScU128) (v : UInt8) : ScU128 :=
  let b := ms32Top isLong r
  let up := ms32Up isLong r
  (List.range 5).foldl
    (fun r j => if (b >>> UInt64.ofNat j) &&& 1 ≠ 0 then r.xor ((ms32Gens isLong).getD j ⟨0, 0⟩)
      else r)
    ⟨up.hi, up.lo ^^^ v.toUInt64⟩

/-- `ms32_polymod` -/
def ms32Polymod (v : Bytes) (isLong : Bool) : ScU128 :=
  v.foldl (ms32Step isLong) ⟨0, 0x23181b3⟩

/-- `ms32_extract5` -/
def ms32Extract5 (r : ScU128) (p : Nat) : UInt8 :=
  if p ≥ 64 then ((r.hi >>> UInt64.ofNat (p - 64)) &&& 31).toUInt8
  else if p > 59 then
    (((r.lo >>> UInt64.ofNat p) ||| (r.hi <<< UInt64.ofNat (64 - p))) &&& 31).toUInt8
  else ((r.lo >>> UInt64.ofNat p) &&& 31).toUInt8

/-- The symbols of a checksum. -/
def ms32Symbols (isLong : Bool) (r : ScU128) : Bytes :=
  (List.range (ms32Csum isLong)).map (fun i => ms32Extract5 r (5 * (ms32Csum isLong - 1 - i)))

/-! ## Encoding and decoding -/

/-- `sc_tolower` -/
def scTolower (c : UInt8) : UInt8 := if ascii 'A' ≤ c ∧ c ≤ ascii 'Z' then c + 32 else c

/-- `sc_from5_trunc`: whatever bits are left behind the last byte, if fewer than a symbol. -/
def scFrom5Trunc (data : Bytes) (outCap : Nat) : Option Bytes :=
  (regroup 5 8 outCap data).bind (fun s => if s.bits ≥ 5 then none else some s.out)

/-- `SHARECODE_CODEX32_MAX_LEN`, `MS32_LONG_DATA_THRESHOLD` -/
def codex32MaxLen : Nat := 128
def ms32LongDataThreshold : Nat := 80

/-- The header and the payload as symbols; `none` is `SHARECODE_ERR_PARAM`. -/
def codex32Data (k : Int) (id : Bytes) (shareIndex : UInt8) (payload : Bytes) : Option Bytes := do
  let kv ← scCharval (UInt8.ofNat ((48 + k) % 256).toNat)
  let ids ← scCharvals ((List.range 4).map (fun i => scTolower (id.getD i 0)))
  let v ← scCharval (scTolower shareIndex)
  let five ← scTo5 payload (codex32MaxLen - 6)
  some (kv :: ids ++ v :: five)

/-- The string of some data, with the checksum for its length. -/
def codex32String (data : Bytes) : Bytes :=
  let isLong := decide (data.length > ms32LongDataThreshold)
  let pm := (ms32Polymod (data ++ List.replicate (ms32Csum isLong) 0) isLong).xor (ms32Const isLong)
  ['m', 's', '1'].map ascii ++ (data ++ ms32Symbols isLong pm).map scChar

/-- `ShareCodeCodex32Encode` -/
def codex32Encode (k : Int) (id : Bytes) (shareIndex : UInt8) (payload : Bytes) (outCap : Int) :
    Except Int Bytes :=
  if payload.length < 1 then .error shareCodeErrParam
  else if ¬ (k = 0 ∨ 2 ≤ k ∧ k ≤ 9) then .error shareCodeErrParam
  else
    match codex32Data k id shareIndex payload with
    | none => .error shareCodeErrParam
    | some data =>
      let csumLen := ms32Csum (decide (data.length > ms32LongDataThreshold))
      if data.length + csumLen > codex32MaxLen then .error shareCodeErrParam
      else if ((2 + 1 + data.length + csumLen + 1 : Nat) : Int) > outCap then
        .error shareCodeErrParam
      else .ok (codex32String data)

/-- What is read from a string. -/
structure Codex32 where
  k : Int
  id : Bytes
  shareIndex : UInt8
  payload : Bytes
  deriving DecidableEq

/-- `ShareCodeCodex32Decode` -/
def codex32Decode (str : Bytes) (payloadCap : Nat) : Except Int Codex32 :=
  let slen := intOfSize str.length
  if slen < 3 ∨ slen > codex32MaxLen - 1 then .error shareCodeErrFormat
  else if scTolower (str.getD 0 0) ≠ ascii 'm' ∨ scTolower (str.getD 1 0) ≠ ascii 's' ∨
      str.getD 2 0 ≠ ascii '1' then .error shareCodeErrFormat
  else
    let dlen := slen.toNat - 3
    let isLong := decide (dlen ≥ 96)
    let csumLen := ms32Csum isLong
    if dlen < 6 + 1 + csumLen then .error shareCodeErrFormat
    else
      match scCharvals ((slice str 3 dlen).map scTolower) with
      | none => .error shareCodeErrFormat
      | some data =>
        if ms32Polymod data isLong ≠ ms32Const isLong then .error shareCodeErrChecksum
        else
          let kv := scTolower (str.getD 3 0)
          if kv < ascii '0' ∨ kv > ascii '9' ∨ kv = ascii '1' then .error shareCodeErrFormat
          else
            match scFrom5Trunc (slice data 6 (dlen - csumLen - 6)) payloadCap with
            | none => .error shareCodeErrFormat
            | some payload =>
              if payload.length < 1 then .error shareCodeErrFormat
              else .ok
                { k := kv.toNat - 48
                  id := (slice str 4 4).map scTolower
                  shareIndex := scTolower (str.getD 8 0)
                  payload := payload }

/-! ## The two words of the register -/

/-- The register as one number. -/
def ScU128.toNat (r : ScU128) : Nat := 2 ^ 64 * r.hi.toNat + r.lo.toNat

theorem ScU128.toNat_inj {r g : ScU128} : r.toNat = g.toNat ↔ r = g := by
  constructor
  · intro h
    have hr := r.lo.toNat_lt
    have hg := g.lo.toNat_lt
    unfold ScU128.toNat at h
    have hhi : r.hi.toNat = g.hi.toNat := by omega
    have hlo : r.lo.toNat = g.lo.toNat := by omega
    cases r
    cases g
    rw [ScU128.mk.injEq]
    exact ⟨UInt64.toNat_inj.mp hhi, UInt64.toNat_inj.mp hlo⟩
  · rintro rfl
    rfl

theorem ScU128.toNat_xor (r g : ScU128) : (r.xor g).toNat = r.toNat ^^^ g.toNat := by
  have hr := r.lo.toNat_lt
  have hg := g.lo.toNat_lt
  have hx := (r.lo ^^^ g.lo).toNat_lt
  apply Nat.eq_of_testBit_eq
  intro i
  unfold ScU128.toNat ScU128.xor
  rw [Nat.testBit_xor, Nat.testBit_two_pow_mul_add _ hr, Nat.testBit_two_pow_mul_add _ hg,
    Nat.testBit_two_pow_mul_add _ hx, UInt64.toNat_xor, UInt64.toNat_xor, Nat.testBit_xor,
    Nat.testBit_xor]
  by_cases hi : i < 64
  · rw [if_pos hi, if_pos hi, if_pos hi]
  · rw [if_neg hi, if_neg hi, if_neg hi]

/-- Bit `i` of the high word is bit `64 + i` of the number. -/
theorem ScU128.testBit_toNat (r : ScU128) (i : Nat) :
    r.toNat.testBit i = if i < 64 then r.lo.toNat.testBit i else r.hi.toNat.testBit (i - 64) :=
  Nat.testBit_two_pow_mul_add _ r.lo.toNat_lt i

/-- The low five bits of a word. -/
theorem toNat_and_31 (x : UInt64) : (x &&& 31).toNat = x.toNat % 32 := by
  have hmask : UInt64.toNat 31 = 2 ^ 5 - 1 := rfl
  rw [UInt64.toNat_and, hmask, Nat.and_two_pow_sub_one_eq_mod]

theorem toNat_shr (x : UInt64) {n : Nat} (hn : n < 64) :
    (x >>> UInt64.ofNat n).toNat = x.toNat >>> n := by
  rw [UInt64.toNat_shiftRight, UInt64.toNat_ofNat', Nat.mod_eq_of_lt (by omega : n < 2 ^ 64),
    Nat.mod_eq_of_lt hn]

theorem toNat_shl (x : UInt64) {n : Nat} (hn : n < 64) :
    (x <<< UInt64.ofNat n).toNat = x.toNat <<< n % 2 ^ 64 := by
  rw [UInt64.toNat_shiftLeft, UInt64.toNat_ofNat', Nat.mod_eq_of_lt (by omega : n < 2 ^ 64),
    Nat.mod_eq_of_lt hn]

theorem toNat_ms32Extract5 (r : ScU128) {p : Nat} (hp : p < 128) :
    (ms32Extract5 r p).toNat = r.toNat >>> p % 32 := by
  have hbyte : ∀ x : UInt64, (x &&& 31).toUInt8.toNat = x.toNat % 32 := by
    intro x
    have hlt := Nat.mod_lt x.toNat (by omega : 0 < 32)
    rw [UInt64.toNat_toUInt8, toNat_and_31, Nat.mod_eq_of_lt (by omega)]
  -- both sides bit by bit, below bit 5
  have hbits : ∀ x : UInt64,
      (∀ i < 5, x.toNat.testBit i = r.toNat.testBit (p + i)) →
      (x &&& 31).toUInt8.toNat = r.toNat >>> p % 32 := by
    intro x hx
    rw [hbyte]
    apply Nat.eq_of_testBit_eq
    intro i
    have h32 : 32 = 2 ^ 5 := rfl
    rw [h32, Nat.testBit_mod_two_pow, Nat.testBit_mod_two_pow, Nat.testBit_shiftRight]
    by_cases hi : i < 5
    · rw [hx i hi]
    · rw [decide_eq_false hi, Bool.false_and, Bool.false_and]
  unfold ms32Extract5
  by_cases hhigh : p ≥ 64
  · rw [if_pos hhigh]
    apply hbits
    intro i hi
    rw [toNat_shr _ (by omega), Nat.testBit_shiftRight, r.testBit_toNat, if_neg (by omega)]
    congr 1
    omega
  rw [if_neg hhigh]
  by_cases hmid : p > 59
  · rw [if_pos hmid]
    apply hbits
    intro i hi
    rw [UInt64.toNat_or, Nat.testBit_or, toNat_shr _ (by omega), toNat_shl _ (by omega),
      Nat.testBit_shiftRight, Nat.testBit_mod_two_pow, Nat.testBit_shiftLeft, r.testBit_toNat,
      decide_eq_true (by omega : i < 64), Bool.true_and]
    by_cases hlow : p + i < 64
    · rw [if_pos hlow, decide_eq_false (by omega : ¬ i ≥ 64 - p), Bool.false_and, Bool.or_false]
    · have hout : r.lo.toNat.testBit (p + i) = false := by
        apply Nat.testBit_lt_two_pow
        have hlt := r.lo.toNat_lt
        have hle := Nat.pow_le_pow_right (n := 2) (by omega) (by omega : 64 ≤ p + i)
        omega
      have hidx : i - (64 - p) = p + i - 64 := by omega
      rw [if_neg hlow, hout, decide_eq_true (by omega : i ≥ 64 - p), Bool.true_and,
        Bool.false_or, hidx]
  · rw [if_neg hmid]
    apply hbits
    intro i hi
    rw [toNat_shr _ (by omega), Nat.testBit_shiftRight, r.testBit_toNat, if_pos (by omega)]

/-- The register of `ms32_polymod`. -/
def ms32Bch (isLong : Bool) : Bch where
  w := ms32Csum isLong
  gen j := ((ms32Gens isLong).getD j ⟨0, 0⟩).toNat
  w_pos := by cases isLong <;> decide
  gen_lt j := by
    have hlen : (ms32Gens isLong).length = 5 := by cases isLong <;> rfl
    by_cases hj : j < 5
    · have hall : ∀ j < 5, ((ms32Gens isLong).getD j ⟨0, 0⟩).toNat < 2 ^ (5 * ms32Csum isLong) := by
        cases isLong <;> decide
      exact hall j hj
    · have hnone : (ms32Gens isLong).getD j ⟨0, 0⟩ = ⟨0, 0⟩ := by
        rw [List.getD_eq_getElem?_getD, List.getElem?_eq_none (by omega)]
        rfl
      rw [hnone]
      exact Nat.two_pow_pos _

theorem toNat_ms32Top (isLong : Bool) (r : ScU128) :
    (ms32Top isLong r).toNat = r.toNat >>> (ms32Bch isLong).top % 32 := by
  have hlo := r.lo.toNat_lt
  have hhi := r.hi.toNat_lt
  cases isLong with
  | true =>
    have htop : (ms32Bch true).top = 70 := rfl
    have hshift : (r.hi >>> 6).toNat = r.hi.toNat >>> 6 := @toNat_shr r.hi 6 (by omega)
    unfold ms32Top ScU128.toNat
    rw [if_pos rfl, toNat_and_31, hshift, htop, Nat.shiftRight_eq_div_pow,
      Nat.shiftRight_eq_div_pow]
    omega
  | false =>
    have htop : (ms32Bch false).top = 60 := rfl
    have hshr : (r.lo >>> 60).toNat = r.lo.toNat / 2 ^ 60 := by
      rw [← Nat.shiftRight_eq_div_pow]
      exact @toNat_shr r.lo 60 (by omega)
    have hshl : (r.hi <<< 4).toNat = (r.hi.toNat % 2 ^ 60) <<< 4 := by
      have hword : (r.hi <<< 4).toNat = r.hi.toNat <<< 4 % 2 ^ 64 := @toNat_shl r.hi 4 (by omega)
      rw [hword, Nat.shiftLeft_eq, Nat.shiftLeft_eq]
      omega
    have hjoin : ((r.hi <<< 4) ||| (r.lo >>> 60)).toNat =
        (r.hi.toNat % 2 ^ 60) * 16 + r.lo.toNat / 2 ^ 60 := by
      rw [UInt64.toNat_or, hshl, hshr, ← Nat.shiftLeft_add_eq_or_of_lt (by omega), Nat.shiftLeft_eq]
    unfold ms32Top ScU128.toNat
    rw [if_neg (by decide), toNat_and_31, hjoin, htop, Nat.shiftRight_eq_div_pow]
    omega

theorem toNat_ms32Up (isLong : Bool) (r : ScU128) :
    (ms32Up isLong r).toNat = (r.toNat % 2 ^ (ms32Bch isLong).top) <<< 5 := by
  have hlo := r.lo.toNat_lt
  have hhi := r.hi.toNat_lt
  -- the two words masked and moved up, as numbers
  have hup : ∀ mhi mlo : UInt64, mhi.toNat < 2 ^ 59 →
      (ScU128.mk ((mhi <<< 5) ||| (mlo >>> 59)) (mlo <<< 5)).toNat =
        (2 ^ 64 * mhi.toNat + mlo.toNat) * 32 := by
    intro mhi mlo hm
    have hmlo := mlo.toNat_lt
    have hshr : (mlo >>> 59).toNat = mlo.toNat / 2 ^ 59 := by
      rw [← Nat.shiftRight_eq_div_pow]
      exact @toNat_shr mlo 59 (by omega)
    have hshlo : (mlo <<< 5).toNat = mlo.toNat * 32 % 2 ^ 64 := by
      have hword : (mlo <<< 5).toNat = mlo.toNat <<< 5 % 2 ^ 64 := @toNat_shl mlo 5 (by omega)
      rw [hword, Nat.shiftLeft_eq]
    have hshhi : (mhi <<< 5).toNat = mhi.toNat <<< 5 := by
      have hword : (mhi <<< 5).toNat = mhi.toNat <<< 5 % 2 ^ 64 := @toNat_shl mhi 5 (by omega)
      rw [hword, Nat.shiftLeft_eq, Nat.mod_eq_of_lt (by omega)]
    have hjoin : ((mhi <<< 5) ||| (mlo >>> 59)).toNat = mhi.toNat * 32 + mlo.toNat / 2 ^ 59 := by
      rw [UInt64.toNat_or, hshhi, hshr, ← Nat.shiftLeft_add_eq_or_of_lt (by omega),
        Nat.shiftLeft_eq]
    unfold ScU128.toNat
    rw [hjoin, hshlo]
    omega
  cases isLong with
  | true =>
    have htop : (ms32Bch true).top = 70 := rfl
    have hmlo : (r.lo &&& 0xffffffffffffffff).toNat = r.lo.toNat := by
      have hmask : UInt64.toNat 0xffffffffffffffff = 2 ^ 64 - 1 := rfl
      rw [UInt64.toNat_and, hmask, Nat.and_two_pow_sub_one_eq_mod, Nat.mod_eq_of_lt hlo]
    have hmhi : (r.hi &&& 0x3f).toNat = r.hi.toNat % 2 ^ 6 := by
      have hmask : UInt64.toNat 0x3f = 2 ^ 6 - 1 := rfl
      rw [UInt64.toNat_and, hmask, Nat.and_two_pow_sub_one_eq_mod]
    have hword := hup (r.hi &&& 0x3f) (r.lo &&& 0xffffffffffffffff) (by rw [hmhi]; omega)
    rw [hmhi, hmlo] at hword
    unfold ms32Up
    simp only [if_true]
    rw [hword, htop, Nat.shiftLeft_eq]
    unfold ScU128.toNat
    omega
  | false =>
    have htop : (ms32Bch false).top = 60 := rfl
    have hmlo : (r.lo &&& 0x0fffffffffffffff).toNat = r.lo.toNat % 2 ^ 60 := by
      have hmask : UInt64.toNat 0x0fffffffffffffff = 2 ^ 60 - 1 := rfl
      rw [UInt64.toNat_and, hmask, Nat.and_two_pow_sub_one_eq_mod]
    have hmhi : (r.hi &&& 0x0).toNat = 0 := by
      rw [UInt64.toNat_and]
      exact Nat.and_zero _
    have hword := hup (r.hi &&& 0x0) (r.lo &&& 0x0fffffffffffffff) (by rw [hmhi]; omega)
    rw [hmhi, hmlo] at hword
    unfold ms32Up
    simp only [Bool.false_eq_true, if_false]
    rw [hword, htop, Nat.shiftLeft_eq]
    unfold ScU128.toNat
    omega

theorem toNat_ms32Step (isLong : Bool) (r : ScU128) (v : UInt8) :
    (ms32Step isLong r v).toNat = (ms32Bch isLong).step r.toNat v.toNat := by
  have hbit : ∀ j < 5, (ms32Top isLong r >>> UInt64.ofNat j) &&& 1 ≠ 0 ↔
      (r.toNat >>> (ms32Bch isLong).top).testBit j = true := by
    intro j hj
    have hone : UInt64.toNat 1 = 1 := rfl
    have hzero : UInt64.toNat 0 = 0 := rfl
    have hlow : (r.toNat >>> (ms32Bch isLong).top % 32).testBit j =
        (r.toNat >>> (ms32Bch isLong).top).testBit j := by
      have h32 : 32 = 2 ^ 5 := rfl
      rw [h32, Nat.testBit_mod_two_pow, decide_eq_true hj, Bool.true_and]
    rw [← hlow, ← toNat_ms32Top, Ne, ← UInt64.toNat_inj, UInt64.toNat_and, toNat_shr _ (by omega),
      hone, hzero, Nat.and_one_is_mod, Nat.testBit_eq_decide_div_mod_eq, decide_eq_true_eq,
      ← Nat.shiftRight_eq_div_pow]
    omega
  have hfold : ∀ (l : List Nat) (a : ScU128), (∀ j ∈ l, j < 5) →
      (l.foldl (fun a j => if (ms32Top isLong r >>> UInt64.ofNat j) &&& 1 ≠ 0
        then a.xor ((ms32Gens isLong).getD j ⟨0, 0⟩) else a) a).toNat =
      l.foldl (fun acc j => acc ^^^ if (r.toNat >>> (ms32Bch isLong).top).testBit j
        then ((ms32Gens isLong).getD j ⟨0, 0⟩).toNat else 0) a.toNat := by
    intro l
    induction l with
    | nil => exact fun a _ => rfl
    | cons j l ih =>
      intro a hl
      rw [List.foldl_cons, List.foldl_cons, ih _ (fun i hi => hl i (by simp [hi]))]
      congr 1
      have hj := hbit j (hl j (by simp))
      by_cases hset : (r.toNat >>> (ms32Bch isLong).top).testBit j = true
      · rw [if_pos hset, if_pos (hj.mpr hset), ScU128.toNat_xor]
      · rw [if_neg hset, if_neg (fun hc => hset (hj.mp hc)), Nat.xor_zero]
  have hlow : (ScU128.mk (ms32Up isLong r).hi ((ms32Up isLong r).lo ^^^ v.toUInt64)).toNat =
      (ms32Up isLong r).toNat ^^^ v.toNat := by
    have hxor := (ms32Up isLong r).toNat_xor ⟨0, v.toUInt64⟩
    have hv : (ScU128.mk 0 v.toUInt64).toNat = v.toNat := by
      unfold ScU128.toNat
      rw [UInt8.toNat_toUInt64]
      exact Nat.zero_add _
    have hhi : (ms32Up isLong r).hi ^^^ 0 = (ms32Up isLong r).hi := UInt64.xor_zero
    rw [hv, ScU128.xor, hhi] at hxor
    exact hxor
  unfold ms32Step
  simp only []
  rw [hfold _ _ (fun j hj => List.mem_range.mp hj), Bch.foldl_xor, hlow, toNat_ms32Up]
  rfl

theorem toNat_ms32Polymod (isLong : Bool) (vs : Bytes) :
    (ms32Polymod vs isLong).toNat = (ms32Bch isLong).polymod 0x23181b3 (vs.map UInt8.toNat) := by
  have hrun : ∀ (vs : Bytes) (r : ScU128), (vs.foldl (ms32Step isLong) r).toNat =
      (ms32Bch isLong).polymod r.toNat (vs.map UInt8.toNat) := by
    intro vs
    induction vs with
    | nil => exact fun r => rfl
    | cons v vs ih =>
      intro r
      rw [List.foldl_cons, ih, toNat_ms32Step]
      rfl
  exact hrun vs ⟨0, 0x23181b3⟩

theorem map_toNat_ms32Symbols (isLong : Bool) (r : ScU128) :
    (ms32Symbols isLong r).map UInt8.toNat = (ms32Bch isLong).symbols r.toNat := by
  have hcsum : ms32Csum isLong ≤ 15 := by cases isLong <;> decide
  unfold ms32Symbols Bch.symbols
  rw [List.map_map]
  apply List.map_congr_left
  intro i _
  exact toNat_ms32Extract5 r (by omega)

/-- The length of the data decides which checksum they get. -/
def codex32Long (data : Bytes) : Bool := decide (data.length > ms32LongDataThreshold)

/-- The checksum of some data. -/
def codex32Checksum (data : Bytes) : Bytes :=
  ms32Symbols (codex32Long data)
    ((ms32Polymod (data ++ List.replicate (ms32Csum (codex32Long data)) 0) (codex32Long data)).xor
      (ms32Const (codex32Long data)))

@[simp] theorem length_codex32Checksum (data : Bytes) :
    (codex32Checksum data).length = ms32Csum (codex32Long data) := by
  simp [codex32Checksum, ms32Symbols]

theorem codex32Checksum_lt {data : Bytes} {v : UInt8} (h : v ∈ codex32Checksum data) :
    v.toNat < 32 := by
  have hmem := List.mem_map_of_mem (f := UInt8.toNat) h
  unfold codex32Checksum at hmem
  rw [map_toNat_ms32Symbols] at hmem
  exact (ms32Bch _).symbols_lt hmem

/-- Data with their checksum pass. -/
theorem ms32Polymod_codex32Checksum {data : Bytes} (h : ∀ v ∈ data, v.toNat < 32) :
    ms32Polymod (data ++ codex32Checksum data) (codex32Long data) =
      ms32Const (codex32Long data) := by
  have hlt : ∀ u ∈ data.map UInt8.toNat, u < 32 := by
    intro u hu
    obtain ⟨v, hmem, rfl⟩ := List.mem_map.mp hu
    exact h v hmem
  unfold codex32Checksum
  generalize codex32Long data = isLong
  have hstart : 0x23181b3 < 2 ^ (5 * (ms32Bch isLong).w) := by cases isLong <;> decide
  have hconst : (ms32Const isLong).toNat < 2 ^ (5 * (ms32Bch isLong).w) := by
    cases isLong <;> decide
  have hreach := (ms32Bch isLong).polymod_append_symbols hstart hconst hlt
  rw [← ScU128.toNat_inj, toNat_ms32Polymod, List.map_append, map_toNat_ms32Symbols,
    ScU128.toNat_xor, toNat_ms32Polymod, List.map_append, List.map_replicate]
  exact hreach

/-! ## The two directions -/

theorem scFrom5Trunc_of_symbols {payload five : Bytes} {pad cap : Nat}
    (h : Symbols payload five pad) (hcap : payload.length ≤ cap) :
    scFrom5Trunc five cap = some payload := by
  have hfrom := scFrom5_of_symbols h hcap
  unfold scFrom5 at hfrom
  obtain ⟨s, hs, hlast⟩ := Option.bind_eq_some_iff.mp hfrom
  unfold scFrom5Trunc
  rw [hs, Option.bind_some]
  by_cases hbad : s.bits ≥ 5 ∨ (s.acc <<< UInt32.ofNat (8 - s.bits)) &&& 0xff ≠ 0
  · rw [if_pos hbad] at hlast
    cases hlast
  · rw [if_neg hbad] at hlast
    rw [if_neg (fun hc => hbad (Or.inl hc)), hlast]

/-- The characters of a header: threshold, identifier, index. -/
def codex32Header (k : Int) (id : Bytes) (shareIndex : UInt8) : Bytes :=
  UInt8.ofNat ((48 + k) % 256).toNat ::
    ((List.range 4).map (fun i => scTolower (id.getD i 0)) ++ [scTolower shareIndex])

/-- The data of a string: the symbols of a header and of a payload. -/
structure Codex32Data (k : Int) (id : Bytes) (shareIndex : UInt8) (payload data : Bytes)
    (header five : Bytes) (pad : Nat) : Prop where
  eq : data = header ++ five
  header_eq : header.map scChar = codex32Header k id shareIndex
  header_lt : ∀ v ∈ header, v.toNat < 32
  payload_eq : Symbols payload five pad

section
variable {k : Int} {id : Bytes} {shareIndex : UInt8} {payload data header five : Bytes} {pad : Nat}

theorem codex32Data_eq_some (h : codex32Data k id shareIndex payload = some data) :
    ∃ header five pad, Codex32Data k id shareIndex payload data header five pad := by
  unfold codex32Data at h
  simp only [Option.bind_eq_bind] at h
  obtain ⟨kv, hkv, h⟩ := Option.bind_eq_some_iff.mp h
  obtain ⟨ids, hids, h⟩ := Option.bind_eq_some_iff.mp h
  obtain ⟨v, hv, h⟩ := Option.bind_eq_some_iff.mp h
  obtain ⟨five, hfive, h⟩ := Option.bind_eq_some_iff.mp h
  cases h
  obtain ⟨pad, hsym⟩ := scTo5_symbols hfive
  obtain ⟨hklt, hkc⟩ := scChar_of_charval _ _ hkv
  obtain ⟨hidlt, hidc⟩ := scCharvals_eq_some hids
  obtain ⟨hvlt, hvc⟩ := scChar_of_charval _ _ hv
  refine ⟨kv :: (ids ++ [v]), five, pad, ?_, ?_, ?_, hsym⟩
  · simp
  · rw [List.map_cons, List.map_append, List.map_singleton, hkc, hidc, hvc]
    rfl
  · intro u hu
    rcases List.mem_cons.mp hu with rfl | hu
    · exact hklt
    rcases List.mem_append.mp hu with hu | hu
    · exact hidlt u hu
    · rw [List.mem_singleton.mp hu]
      exact hvlt

theorem Codex32Data.length_header
    (h : Codex32Data k id shareIndex payload data header five pad) : header.length = 6 := by
  have hlen := congrArg List.length h.header_eq
  rw [List.length_map] at hlen
  rw [hlen]
  rfl

theorem Codex32Data.lt (h : Codex32Data k id shareIndex payload data header five pad) :
    ∀ v ∈ data, v.toNat < 32 := by
  intro v hv
  rw [h.eq] at hv
  rcases List.mem_append.mp hv with hv | hv
  · exact h.header_lt v hv
  · exact h.payload_eq.lt v hv

theorem Codex32Data.length (h : Codex32Data k id shareIndex payload data header five pad) :
    5 * data.length = 30 + 8 * payload.length + pad := by
  have hsize := h.payload_eq.size
  rw [h.eq, List.length_append, h.length_header]
  omega

end

/-- **What the encoder writes**, and for which fields. -/
theorem codex32Encode_eq_ok {k : Int} {id : Bytes} {shareIndex : UInt8} {payload str : Bytes}
    {outCap : Int} (h : codex32Encode k id shareIndex payload outCap = .ok str) :
    1 ≤ payload.length ∧ (k = 0 ∨ 2 ≤ k ∧ k ≤ 9) ∧
    ∃ data header five pad, Codex32Data k id shareIndex payload data header five pad ∧
      str = codex32String data := by
  unfold codex32Encode at h
  simp only [guard_eq_ok] at h
  obtain ⟨hpos, hk, h⟩ := h
  rw [not_not] at hk
  cases hdata : codex32Data k id shareIndex payload with
  | none =>
    rw [hdata] at h
    cases h
  | some data =>
    rw [hdata] at h
    simp only [guard_eq_ok] at h
    obtain ⟨_, _, h⟩ := h
    cases h
    obtain ⟨header, five, pad, hd⟩ := codex32Data_eq_some hdata
    exact ⟨by omega, hk, data, header, five, pad, hd, rfl⟩

theorem codex32String_eq (data : Bytes) :
    codex32String data =
      ['m', 's', '1'].map ascii ++ (data ++ codex32Checksum data).map scChar := rfl

theorem length_codex32String (data : Bytes) :
    (codex32String data).length = 3 + data.length + ms32Csum (codex32Long data) := by
  rw [codex32String_eq, List.length_append, List.length_map, List.length_map, List.length_append,
    length_codex32Checksum, Nat.add_assoc]
  rfl

theorem scTolower_scChar (v : UInt8) (hv : v.toNat < 32) : scTolower (scChar v) = scChar v := by
  have hall : ∀ c ∈ scCharset, scTolower c = c := by decide +kernel
  have h32 : scCharset.length = 32 := rfl
  apply hall
  unfold scChar
  rw [List.getD_eq_getElem _ _ (by omega)]
  exact List.getElem_mem _

/-- Where the encoder and the decoder put the bound between the two checksums: no length of a
    whole string lies on different sides. -/
theorem codex32Long_eq (data : Bytes) :
    decide (data.length + ms32Csum (codex32Long data) ≥ 96) = codex32Long data := by
  have hthreshold : ms32LongDataThreshold = 80 := rfl
  by_cases h : data.length > ms32LongDataThreshold
  · have hlong : codex32Long data = true := decide_eq_true h
    have hcsum : ms32Csum true = 15 := rfl
    rw [hlong, hcsum]
    exact decide_eq_true (by omega)
  · have hlong : codex32Long data = false := decide_eq_false h
    have hcsum : ms32Csum false = 13 := rfl
    rw [hlong, hcsum]
    exact decide_eq_false (by omega)

theorem scTolower_scTolower (c : UInt8) : scTolower (scTolower c) = scTolower c := by
  have hZ : (ascii 'Z').toNat = 90 := rfl
  have hA : (ascii 'A').toNat = 65 := rfl
  unfold scTolower
  by_cases h : ascii 'A' ≤ c ∧ c ≤ ascii 'Z'
  · -- a small letter is behind the capitals
    have hle := UInt8.le_iff_toNat_le.mp h.1
    have hle' := UInt8.le_iff_toNat_le.mp h.2
    have hsmall : ¬ (ascii 'A' ≤ c + 32 ∧ c + 32 ≤ ascii 'Z') := by
      rintro ⟨-, hback⟩
      rw [UInt8.le_iff_toNat_le, UInt8.toNat_add] at hback
      have h32 : (32 : UInt8).toNat = 32 := rfl
      omega
    rw [if_pos h, if_neg hsmall]
  · rw [if_neg h, if_neg h]

/-- The digit of a threshold is a digit, and the threshold is read off it. -/
theorem digit_of_threshold {k : Int} (hk : k = 0 ∨ 2 ≤ k ∧ k ≤ 9) :
    let kv := scTolower (UInt8.ofNat ((48 + k) % 256).toNat)
    ¬ (kv < ascii '0' ∨ kv > ascii '9' ∨ kv = ascii '1') ∧ (kv.toNat : Int) - 48 = k := by
  have hall : ∀ n < 10, n ≠ 1 →
      ¬ (scTolower (UInt8.ofNat (48 + n)) < ascii '0' ∨
        scTolower (UInt8.ofNat (48 + n)) > ascii '9' ∨
        scTolower (UInt8.ofNat (48 + n)) = ascii '1') ∧
      (scTolower (UInt8.ofNat (48 + n))).toNat = 48 + n := by decide
  have hcode : ((48 + k) % 256).toNat = 48 + k.toNat := by omega
  obtain ⟨hdigit, hval⟩ := hall k.toNat (by omega) (by omega)
  simp only [hcode]
  refine ⟨hdigit, ?_⟩
  rw [hval]
  omega

section
variable {k : Int} {id : Bytes} {shareIndex : UInt8} {payload data header five : Bytes} {pad : Nat}

/-- A string of data, its header and its payload apart. -/
theorem Codex32Data.string_eq (h : Codex32Data k id shareIndex payload data header five pad) :
    codex32String data = ['m', 's', '1'].map ascii ++
      (codex32Header k id shareIndex ++ (five ++ codex32Checksum data).map scChar) := by
  rw [codex32String_eq, ← h.header_eq, ← List.map_append, ← List.append_assoc header, ← h.eq]

/-- **Round trip**: what the encoder wrote is read back, its header in lower case. -/
theorem codex32Decode_string (h : Codex32Data k id shareIndex payload data header five pad)
    (hk : k = 0 ∨ 2 ≤ k ∧ k ≤ 9) (hpos : 1 ≤ payload.length) (hmax : payload.length ≤ 64)
    {cap : Nat} (hcap : payload.length ≤ cap) :
    codex32Decode (codex32String data) cap =
      .ok { k := k, id := (List.range 4).map (fun i => scTolower (id.getD i 0)),
            shareIndex := scTolower shareIndex, payload := payload } := by
  have hlen := h.length
  have hpad := h.payload_eq.pad_lt
  have hstrLen := length_codex32String data
  have hcsum : 13 ≤ ms32Csum (codex32Long data) ∧ ms32Csum (codex32Long data) ≤ 15 := by
    cases codex32Long data <;> decide
  have hint : intOfSize (codex32String data).length =
      (3 + data.length + ms32Csum (codex32Long data) : Nat) := by
    rw [hstrLen]
    exact intOfSize_of_lt (by omega)
  have hdlen : 3 + data.length + ms32Csum (codex32Long data) - 3 =
      data.length + ms32Csum (codex32Long data) := by omega
  have hheaderLen : (codex32Header k id shareIndex).length = 6 := rfl
  -- the parts of the string that are read
  have hchars : (slice (codex32String data) 3
      (data.length + ms32Csum (codex32Long data))).map scTolower =
      (data ++ codex32Checksum data).map scChar := by
    have hslice : slice (codex32String data) 3 (data.length + ms32Csum (codex32Long data)) =
        (data ++ codex32Checksum data).map scChar := by
      refine slice_of_eq_append (p := ['m', 's', '1'].map ascii) (q := []) ?_ rfl ?_
      · rw [List.append_nil, codex32String_eq]
      · rw [List.length_map, List.length_append, length_codex32Checksum]
    rw [hslice, List.map_map]
    apply List.map_congr_left
    intro v hv
    rcases List.mem_append.mp hv with hv | hv
    · exact scTolower_scChar v (h.lt v hv)
    · exact scTolower_scChar v (codex32Checksum_lt hv)
  have hlt : ∀ v ∈ data ++ codex32Checksum data, v.toNat < 32 := by
    intro v hv
    rcases List.mem_append.mp hv with hv | hv
    · exact h.lt v hv
    · exact codex32Checksum_lt hv
  have hfive : slice (data ++ codex32Checksum data) 6
      (data.length + ms32Csum (codex32Long data) - ms32Csum (codex32Long data) - 6) = five := by
    refine slice_of_eq_append (p := header) (q := codex32Checksum data) ?_ h.length_header.symm ?_
    · rw [← List.append_assoc, ← h.eq]
    · have hsum := congrArg List.length h.eq
      rw [List.length_append, h.length_header] at hsum
      omega
  have hm : (codex32String data).getD 0 0 = ascii 'm' := by rw [h.string_eq]; rfl
  have hs : (codex32String data).getD 1 0 = ascii 's' := by rw [h.string_eq]; rfl
  have h1 : (codex32String data).getD 2 0 = ascii '1' := by rw [h.string_eq]; rfl
  have hkv : (codex32String data).getD 3 0 = UInt8.ofNat ((48 + k) % 256).toNat := by
    rw [h.string_eq]
    rfl
  have hid : (slice (codex32String data) 4 4).map scTolower =
      (List.range 4).map (fun i => scTolower (id.getD i 0)) := by
    have hslice : slice (codex32String data) 4 4 =
        (List.range 4).map (fun i => scTolower (id.getD i 0)) := by
      rw [h.string_eq]
      rfl
    rw [hslice, List.map_map]
    exact List.map_congr_left (fun i _ => scTolower_scTolower _)
  have hindex : (codex32String data).getD 8 0 = scTolower shareIndex := by
    rw [h.string_eq]
    rfl
  obtain ⟨hdigit, hval⟩ := digit_of_threshold hk
  have hmaxLen : ((codex32MaxLen : Nat) : Int) = 128 := rfl
  unfold codex32Decode
  simp only [hint, Int.toNat_natCast, hdlen, hm, hs, h1, hkv, hid, hindex, codex32Long_eq]
  rw [if_neg (by omega), if_neg (by decide), if_neg (by omega), hchars, scCharvals_map hlt]
  simp only []
  rw [if_neg (fun hc => hc (ms32Polymod_codex32Checksum h.lt)), if_neg hdigit, hfive,
    scFrom5Trunc_of_symbols h.payload_eq hcap]
  simp only []
  rw [if_neg (by omega), hval, scTolower_scTolower]

/-- **Longer payloads are refused**: their strings do not fit the buffer the decoder thinks of. -/
theorem codex32Decode_of_long (h : Codex32Data k id shareIndex payload data header five pad)
    (hfit : data.length + ms32Csum (codex32Long data) ≤ codex32MaxLen)
    (hlong : 64 < payload.length) (cap : Nat) :
    codex32Decode (codex32String data) cap = .error shareCodeErrFormat := by
  have hlen := h.length
  have hstrLen := length_codex32String data
  have hmaxLen : codex32MaxLen = 128 := rfl
  have hthreshold : ms32LongDataThreshold = 80 := rfl
  have hcsum : ms32Csum (codex32Long data) = 15 := by
    have hisLong : codex32Long data = true := decide_eq_true (by omega)
    rw [hisLong]
    rfl
  have hint : intOfSize (codex32String data).length =
      (3 + data.length + ms32Csum (codex32Long data) : Nat) := by
    rw [hstrLen]
    exact intOfSize_of_lt (by omega)
  unfold codex32Decode
  simp only [hint]
  rw [if_pos (Or.inr (by omega))]

end

/-- **The codex32 round trip**: what was encoded for a payload of at most 64 bytes is decoded,
    where there is room for the payload, to the same threshold and payload, with the identifier
    and the index in lower case. -/
theorem codex32Decode_codex32Encode {k : Int} {id : Bytes} {shareIndex : UInt8}
    {payload str : Bytes} {outCap : Int} (hid : id.length = 4) (hmax : payload.length ≤ 64)
    (h : codex32Encode k id shareIndex payload outCap = .ok str) {payloadCap : Nat}
    (hcap : payload.length ≤ payloadCap) :
    codex32Decode str payloadCap =
      .ok { k := k, id := id.map scTolower, shareIndex := scTolower shareIndex,
            payload := payload } := by
  obtain ⟨hpos, hk, data, header, five, pad, hd, rfl⟩ := codex32Encode_eq_ok h
  have hids : (List.range 4).map (fun i => scTolower (id.getD i 0)) = id.map scTolower := by
    match id, hid with
    | [a, b, c, d], _ => rfl
  rw [codex32Decode_string hd hk hpos hmax hcap, hids]

/-- A payload of at most 66 bytes is encoded under any header whose characters are all in the
    alphabet. -/
theorem codex32Encode_isOk {k : Int} {id : Bytes} {shareIndex : UInt8} {payload : Bytes}
    {outCap : Int} {kv v : UInt8} {ids : Bytes} (hk : k = 0 ∨ 2 ≤ k ∧ k ≤ 9)
    (hkv : scCharval (UInt8.ofNat ((48 + k) % 256).toNat) = some kv)
    (hids : scCharvals ((List.range 4).map (fun i => scTolower (id.getD i 0))) = some ids)
    (hv : scCharval (scTolower shareIndex) = some v) (hpos : 1 ≤ payload.length)
    (hmax : payload.length ≤ 66) (hcap : 131 ≤ outCap) :
    ∃ str, codex32Encode k id shareIndex payload outCap = .ok str := by
  have hmaxLen : codex32MaxLen = 128 := rfl
  obtain ⟨five, hfive⟩ := @scTo5_isSome payload (codex32MaxLen - 6) (by omega)
  have hdata : codex32Data k id shareIndex payload = some (kv :: ids ++ v :: five) := by
    unfold codex32Data
    simp only [hkv, hids, hv, hfive, Option.bind_eq_bind, Option.bind_some]
  obtain ⟨_, _, _, hd⟩ := codex32Data_eq_some hdata
  have hlen := hd.length
  have hpad := hd.payload_eq.pad_lt
  set data := kv :: ids ++ v :: five
  have hcsum : ms32Csum (decide (data.length > ms32LongDataThreshold)) ≤ 15 := by
    cases decide (data.length > ms32LongDataThreshold) <;> decide
  unfold codex32Encode
  rw [if_neg (by omega), if_neg (fun hc => hc hk), hdata]
  simp only []
  rw [if_neg (by omega), if_neg (by omega)]
  exact ⟨_, rfl⟩

namespace Codex32Demo

def ident : Bytes := ['t', 'E', 's', 't'].map ascii

theorem encode_isOk (shareIndex : UInt8) {v : UInt8} (hv : scCharval (scTolower shareIndex) = some v)
    {payload : Bytes} (hpos : 1 ≤ payload.length) (hmax : payload.length ≤ 66) :
    ∃ str, codex32Encode 0 ident shareIndex payload 131 = .ok str :=
  codex32Encode_isOk (Or.inl rfl)
    (by decide : scCharval (UInt8.ofNat ((48 + (0 : Int)) % 256).toNat) = some 15)
    (by decide : scCharvals ((List.range 4).map (fun i => scTolower (ident.getD i 0))) =
      some [11, 25, 16, 11])
    hv hpos hmax (by omega)

/-- One byte under the identifier `tEst`, read back. -/
theorem codex32Decode_codex32Encode_demo :
    ∃ str, codex32Encode 0 ident (ascii 's') [10] 131 = .ok str ∧
      codex32Decode str 64 = .ok
        { k := 0, id := ident.map scTolower, shareIndex := scTolower (ascii 's'), payload := [10] } := by
  obtain ⟨str, hstr⟩ := @encode_isOk (ascii 's') 16 (by decide) [10] (by decide) (by decide)
  exact ⟨str, hstr, codex32Decode_codex32Encode rfl (by decide) hstr (by decide)⟩

/-- An index given as a capital comes back as a small letter; and a payload of 65 bytes is
    encoded, but not decoded. -/
theorem not_same_fields :
    (∃ str, codex32Encode 0 ident (ascii 'S') [10] 131 = .ok str ∧
      codex32Decode str 64 = .ok
        { k := 0, id := ident.map scTolower, shareIndex := ascii 's', payload := [10] } ∧
      ascii 's' ≠ ascii 'S') ∧
    (∃ str, codex32Encode 0 ident (ascii 's') (List.replicate 65 10) 131 = .ok str ∧
      ∀ cap, codex32Decode str cap = .error shareCodeErrFormat) := by
  constructor
  · obtain ⟨str, hstr⟩ := @encode_isOk (ascii 'S') 16 (by decide) [10] (by decide)
      (by decide)
    obtain ⟨hpos, hk, data, header, five, pad, hd, rfl⟩ := codex32Encode_eq_ok hstr
    exact ⟨_, hstr, codex32Decode_string hd hk hpos (by decide) (by decide), by decide⟩
  · have hlen : (List.replicate 65 (10 : UInt8)).length = 65 := List.length_replicate
    obtain ⟨str, hstr⟩ := @encode_isOk (ascii 's') 16 (by decide) (List.replicate 65 10)
      (by omega) (by omega)
    obtain ⟨hpos, hk, data, header, five, pad, hd, rfl⟩ := codex32Encode_eq_ok hstr
    have hdata := hd.length
    have hpad := hd.payload_eq.pad_lt
    have hcsum : ms32Csum (codex32Long data) ≤ 15 := by cases codex32Long data <;> decide
    have hmaxLen : codex32MaxLen = 128 := rfl
    exact ⟨_, hstr, codex32Decode_of_long hd (by omega) (by omega)⟩

end Codex32Demo

end VeraCrypt
