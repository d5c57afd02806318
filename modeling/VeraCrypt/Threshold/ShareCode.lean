import VeraCrypt.Lib.BchRegister
import VeraCrypt.Lib.Except
import VeraCrypt.Lib.Region
import VeraCrypt.Threshold.Shamir

/-!
# Shares as text (`Common/ShareCode.c`)

A share is written out as bytes, regrouped into symbols of five bits and followed by six symbols
of checksum. Proved here: what the encoder writes the decoder reads back, and a string the
decoder takes is the one the encoder writes for what was read, so a share has one code. The
latter has an exception the decoder makes by keeping the length of the string in an `int`:
a string longer than that is read as its beginning (`shareCode_canonical_iff`).

A string is the list of its bytes before the NUL.
-/

set_option autoImplicit false

namespace VeraCrypt

open Lib

/-! ## Symbols and characters -/

def ascii (c : Char) : UInt8 := UInt8.ofNat c.toNat

/-- `SC_CHARSET` -/
def scCharset : Bytes :=
  ['q', 'p', 'z', 'r', 'y', '9', 'x', '8', 'g', 'f', '2', 't', 'v', 'd', 'w', '0',
   's', '3', 'j', 'n', '5', '4', 'k', 'h', 'c', 'e', '6', 'm', 'u', 'a', '7', 'l'].map ascii

/-- `SC_HRP` -/
def scHrp : Bytes := ['v', 'c', 's'].map ascii

/-- The character of a symbol. -/
def scChar (v : UInt8) : UInt8 := scCharset.getD v.toNat 0

/-- `sc_charval`; `none` is -1. -/
def scCharval (c : UInt8) : Option UInt8 := (scCharset.findIdx? (· == c)).map UInt8.ofNat

/-- The loop of the decoders over `sc_charval`. -/
def scCharvals : Bytes → Option Bytes
  | [] => some []
  | c :: cs => (scCharval c).bind (fun v => (scCharvals cs).map (v :: ·))

/-! ## The checksum -/

/-- `SC_BECH32M_CONST` -/
def scBech32mConst : UInt32 := 0x2bc830a3

/-- `SC_GEN` -/
def scGen : List UInt32 := [0x3b6a57b2, 0x26508e6d, 0x1ea119fa, 0x3d4233dd, 0x2a1462b3]

/-- One turn of the loop of `sc_polymod`. -/
def scStep (chk : UInt32) (v : UInt8) : UInt32 :=
  let b := chk >>> 25
  (List.range 5).foldl
    (fun chk j => if (b >>> UInt32.ofNat j) &&& 1 ≠ 0 then chk ^^^ scGen.getD j 0 else chk)
    (((chk &&& 0x1ffffff) <<< 5) ^^^ v.toUInt32)

/-- `sc_polymod` -/
def scPolymod (values : Bytes) : UInt32 := values.foldl scStep 1

/-- `sc_hrp_expand` -/
def scHrpExpand : Bytes :=
  scHrp.map (fun c : UInt8 => c >>> 5) ++ 0 :: scHrp.map (fun c : UInt8 => c &&& 31)

/-- The six symbols of a checksum. -/
def scSymbols (pm : UInt32) : Bytes :=
  (List.range 6).map (fun i => ((pm >>> UInt32.ofNat (5 * (5 - i))) &&& 31).toUInt8)

/-! ## Bytes and symbols -/

/-- `sc_to5` -/
def scTo5 (data : Bytes) (outCap : Nat) : Option Bytes :=
  (regroup 8 5 outCap data).bind (fun s =>
    if s.bits > 0 then
      if outCap ≤ s.out.length then none
      else some (s.out ++ [((s.acc <<< UInt32.ofNat (5 - s.bits)) &&& 31).toUInt8])
    else some s.out)

/-- `sc_from5` -/
def scFrom5 (data : Bytes) (outCap : Nat) : Option Bytes :=
  (regroup 5 8 outCap data).bind (fun s =>
    if s.bits ≥ 5 ∨ (s.acc <<< UInt32.ofNat (8 - s.bits)) &&& 0xff ≠ 0 then none
    else some s.out)

/-! ## Encoding and decoding -/

/-- `SHARECODE_VERSION`, `SHARECODE_MAC_SIZE`, `SHARECODE_MAX_LEN` -/
def shareCodeVersion : UInt8 := 1
def shareCodeMacSize : Nat := 32
def shareCodeMaxLen : Nat := 200

/-- The results but `SHARECODE_OK`. -/
def shareCodeErrParam : Int := -1
def shareCodeErrChecksum : Int := -2
def shareCodeErrFormat : Int := -3

/-- `sizeof (payload)`, in both directions. -/
def sharePayloadSize : Nat := 3 + shamirMaxSecret + shareCodeMacSize

/-- What is regrouped: version, index, length, values, and the MAC if there is one. -/
def sharePayload (share : ShamirShare) (mac : Option Bytes) : Bytes :=
  shareCodeVersion :: share.x :: UInt8.ofNat (share.len % 256).toNat ::
    slice share.y 0 share.len.toNat ++ (mac.map (·.take shareCodeMacSize)).getD []

/-- The string for the symbols of a payload. -/
def shareString (five : Bytes) : Bytes :=
  let pm := scPolymod (scHrpExpand ++ five ++ List.replicate 6 0) ^^^ scBech32mConst
  scHrp ++ ascii '1' :: (five ++ scSymbols pm).map scChar

/-- `ShareCodeEncode` -/
def shareCodeEncode (share : ShamirShare) (mac : Option Bytes) (outCap : Int) :
    Except Int Bytes :=
  if share.len < 1 ∨ share.len > shamirMaxSecret then .error shareCodeErrParam
  else
    match scTo5 (sharePayload share mac) (8 * sharePayloadSize / 5 + 2) with
    | none => .error shareCodeErrParam
    | some five =>
      if ((3 + 1 + five.length + 6 + 1 : Nat) : Int) > outCap then .error shareCodeErrParam
      else .ok (shareString five)

/-- A `size_t` in an `int`. -/
def intOfSize (n : Nat) : Int := (n : Int).bmod (2 ^ 32)

/-- The share and the MAC in a payload; `y` is the buffer the values are written to. -/
def shareOfPayload (payload y : Bytes) : Except Int (ShamirShare × Option Bytes) :=
  let pn := payload.length
  if pn < 3 then .error shareCodeErrFormat
  else if payload.getD 0 0 ≠ shareCodeVersion then .error shareCodeErrFormat
  else
    let len := (payload.getD 2 0).toNat
    if len < 1 ∨ len > shamirMaxSecret then .error shareCodeErrFormat
    else if 3 + len > pn then .error shareCodeErrFormat
    else
      let share : ShamirShare :=
        { x := payload.getD 1 0, y := patch y 0 (slice payload 3 len), len := len }
      let macLen := pn - (3 + len)
      if macLen = shareCodeMacSize then .ok (share, some (slice payload (3 + len) macLen))
      else if macLen = 0 then .ok (share, none)
      else .error shareCodeErrFormat

/-- `ShareCodeDecode`: the share, with the buffer `y` for its values, and the MAC if the string
    carries one. -/
def shareCodeDecode (str y : Bytes) : Except Int (ShamirShare × Option Bytes) :=
  let slen := intOfSize str.length
  if slen < 3 + 1 + 6 ∨ slen > shareCodeMaxLen then .error shareCodeErrFormat
  else if str.take 3 ≠ scHrp ∨ str.getD 3 0 ≠ ascii '1' then .error shareCodeErrFormat
  else
    let dataLen := slen.toNat - (3 + 1)
    match scCharvals (slice str 4 dataLen) with
    | none => .error shareCodeErrFormat
    | some five =>
      if scPolymod (scHrpExpand ++ five) ≠ scBech32mConst then .error shareCodeErrChecksum
      else
        match scFrom5 (five.take (dataLen - 6)) sharePayloadSize with
        | none => .error shareCodeErrFormat
        | some payload => shareOfPayload payload y

/-! ## Characters -/

theorem scChar_of_charval : ∀ c : UInt8, ∀ v, scCharval c = some v → v.toNat < 32 ∧ scChar v = c := by
  intro c v hv
  unfold scCharval at hv
  obtain ⟨i, hfind, rfl⟩ := Option.map_eq_some_iff.mp hv
  obtain ⟨hlt, hc, -⟩ := List.findIdx?_eq_some_iff_getElem.mp hfind
  have h32 : scCharset.length = 32 := rfl
  have hi : (UInt8.ofNat i).toNat = i := by
    rw [UInt8.toNat_ofNat']
    omega
  refine ⟨by omega, ?_⟩
  unfold scChar
  rw [hi, List.getD_eq_getElem _ _ hlt]
  exact eq_of_beq hc

theorem charval_scChar (v : UInt8) (hv : v.toNat < 32) : scCharval (scChar v) = some v := by
  have hall : ∀ n < 32, scCharval (scChar (UInt8.ofNat n)) = some (UInt8.ofNat n) := by
    decide +kernel
  have h := hall v.toNat hv
  rwa [UInt8.ofNat_toNat] at h

example : scCharvals [scChar 17, scChar 3] = some [17, 3] := by
  rw [scCharvals, scCharvals, scCharvals]
  decide +kernel

theorem scCharvals_map {vs : Bytes} (hv : ∀ v ∈ vs, v.toNat < 32) :
    scCharvals (vs.map scChar) = some vs := by
  induction vs with
  | nil => rfl
  | cons v vs ih =>
    have hhead := charval_scChar v (hv v (by simp))
    have htail := ih (fun u hu => hv u (by simp [hu]))
    rw [List.map_cons, scCharvals, hhead, htail]
    rfl

theorem scCharvals_eq_some {cs vs : Bytes} (h : scCharvals cs = some vs) :
    (∀ v ∈ vs, v.toNat < 32) ∧ vs.map scChar = cs := by
  induction cs generalizing vs with
  | nil =>
    cases h
    exact ⟨by simp, rfl⟩
  | cons c cs ih =>
    rw [scCharvals] at h
    obtain ⟨v, hv, hrest⟩ := Option.bind_eq_some_iff.mp h
    obtain ⟨vs', hvs, rfl⟩ := Option.map_eq_some_iff.mp hrest
    obtain ⟨hlt, hchars⟩ := ih hvs
    obtain ⟨hv32, hc⟩ := scChar_of_charval c v hv
    refine ⟨?_, by rw [List.map_cons, hc, hchars]⟩
    intro u hu
    rcases List.mem_cons.mp hu with rfl | hu
    · exact hv32
    · exact hlt u hu

/-! ## Bytes and their symbols -/

/-- `five` are the symbols of `data`, filled up with zero bits to a whole symbol. -/
structure Symbols (data five : Bytes) (pad : Nat) : Prop where
  pad_lt : pad < 5
  size : 5 * five.length = 8 * data.length + pad
  lt : ∀ v ∈ five, v.toNat < 32
  value : bigEndian (2 ^ 5) five = bigEndian (2 ^ 8) data * 2 ^ pad

theorem forall_byte_lt (data : Bytes) : ∀ d ∈ data, d.toNat < 2 ^ 8 := fun d _ => d.toNat_lt

theorem Symbols.unique {data five five' : Bytes} {pad pad' : Nat} (h : Symbols data five pad)
    (h' : Symbols data five' pad') : five = five' := by
  have hpad := h.pad_lt
  have hpad' := h'.pad_lt
  have hsize := h.size
  have hsize' := h'.size
  have hlen : five.length = five'.length := by omega
  have hsame : pad = pad' := by omega
  apply bigEndian_inj (by norm_num : 1 < 2 ^ 5) hlen h.lt h'.lt
  rw [h.value, h'.value, hsame]

theorem scTo5_symbols {data five : Bytes} {cap : Nat} (h : scTo5 data cap = some five) :
    ∃ pad, Symbols data five pad := by
  unfold scTo5 at h
  obtain ⟨s, hs, hlast⟩ := Option.bind_eq_some_iff.mp h
  obtain ⟨hheld, hbits⟩ := Groups.regroup_holds (by omega) (by omega) (by omega)
    (forall_byte_lt data) hs
  by_cases hpos : s.bits > 0
  · rw [if_pos hpos] at hlast
    by_cases hfull : cap ≤ s.out.length
    · rw [if_pos hfull] at hlast
      cases hlast
    rw [if_neg hfull] at hlast
    cases hlast
    -- the bits still held make one more symbol
    have hgroup : ((s.acc <<< UInt32.ofNat (5 - s.bits)) &&& 31).toUInt8.toNat =
        s.acc.toNat % 2 ^ s.bits * 2 ^ (5 - s.bits) := by
      have hpadded := @Groups.toNat_pad 5 s.acc s.bits (by omega) (by omega)
      have hmask : UInt32.ofNat (2 ^ 5 - 1) = 31 := by decide
      rw [hmask] at hpadded
      have hle : s.acc.toNat % 2 ^ s.bits * 2 ^ (5 - s.bits) < 256 := by
        have hmod := Nat.mod_lt s.acc.toNat (Nat.two_pow_pos s.bits)
        have hmul := Nat.mul_lt_mul_of_pos_right hmod (Nat.two_pow_pos (5 - s.bits))
        rw [← pow_add, Nat.add_sub_cancel' (by omega)] at hmul
        omega
      rw [UInt32.toNat_toUInt8, hpadded, Nat.mod_eq_of_lt hle]
    refine ⟨5 - s.bits, by omega, ?_, ?_, ?_⟩
    · have hsize := hheld.size
      rw [List.length_append, List.length_singleton]
      omega
    · intro v hv
      rcases List.mem_append.mp hv with hv | hv
      · exact hheld.lt v hv
      · rw [List.mem_singleton.mp hv, hgroup]
        have hmod := Nat.mod_lt s.acc.toNat (Nat.two_pow_pos s.bits)
        have hmul := Nat.mul_lt_mul_of_pos_right hmod (Nat.two_pow_pos (5 - s.bits))
        rw [← pow_add, Nat.add_sub_cancel' (by omega)] at hmul
        exact hmul
    · have hsplit : 2 ^ 5 = 2 ^ s.bits * 2 ^ (5 - s.bits) := by
        rw [← pow_add, Nat.add_sub_cancel' (by omega)]
      have hout : bigEndian (2 ^ 5) s.out * 2 ^ 5 =
          bigEndian (2 ^ 5) s.out * (2 ^ s.bits * 2 ^ (5 - s.bits)) := congrArg _ hsplit
      rw [bigEndian_append_singleton, hgroup, hout, hheld.value]
      ring
  · rw [if_neg hpos] at hlast
    cases hlast
    have hzero : s.bits = 0 := by omega
    refine ⟨0, by omega, ?_, hheld.lt, ?_⟩
    · have hsize := hheld.size
      omega
    · have hvalue := hheld.value
      rw [hzero, pow_zero, Nat.mod_one, Nat.add_zero] at hvalue
      rw [hvalue, pow_zero]
      ring

theorem scTo5_isSome {data : Bytes} {cap : Nat} (h : 8 * data.length + 4 < 5 * (cap + 1)) :
    ∃ five, scTo5 data cap = some five := by
  obtain ⟨s, hs⟩ := @Groups.regroup_isSome 8 5 cap data (by omega) (by omega) (by omega)
    (forall_byte_lt data) (by omega)
  obtain ⟨hheld, hbits⟩ := Groups.regroup_holds (by omega) (by omega) (by omega)
    (forall_byte_lt data) hs
  have hsize := hheld.size
  unfold scTo5
  rw [hs, Option.bind_some]
  by_cases hpos : s.bits > 0
  · rw [if_pos hpos, if_neg (by omega)]
    exact ⟨_, rfl⟩
  · rw [if_neg hpos]
    exact ⟨_, rfl⟩

/-- The bits left behind the last byte are fewer than a symbol and clear. -/
theorem scFrom5_accepts (s : Groups) (hbits : s.bits < 8) :
    ¬ (s.bits ≥ 5 ∨ (s.acc <<< UInt32.ofNat (8 - s.bits)) &&& 0xff ≠ 0) ↔
      s.bits < 5 ∧ s.acc.toNat % 2 ^ s.bits = 0 := by
  have hpad := @Groups.toNat_pad 8 s.acc s.bits (by omega) (by omega)
  have hmask : UInt32.ofNat (2 ^ 8 - 1) = 0xff := by decide
  rw [hmask] at hpad
  have hclear : (s.acc <<< UInt32.ofNat (8 - s.bits)) &&& 0xff = 0 ↔
      s.acc.toNat % 2 ^ s.bits = 0 := by
    rw [← UInt32.toNat_inj, hpad]
    constructor
    · intro h
      rcases Nat.mul_eq_zero.mp h with h | h
      · exact h
      · exact absurd h (Nat.two_pow_pos _).ne'
    · intro h
      rw [h, Nat.zero_mul]
      rfl
  rw [not_or, not_not, hclear, Nat.not_le]

theorem scFrom5_eq_some {data five : Bytes} {cap : Nat} (hfive : ∀ v ∈ five, v.toNat < 32)
    (h : scFrom5 five cap = some data) : ∃ pad, Symbols data five pad := by
  unfold scFrom5 at h
  obtain ⟨s, hs, hlast⟩ := Option.bind_eq_some_iff.mp h
  obtain ⟨hheld, hbits⟩ := Groups.regroup_holds (by omega) (by omega) (by omega) hfive hs
  by_cases hbad : s.bits ≥ 5 ∨ (s.acc <<< UInt32.ofNat (8 - s.bits)) &&& 0xff ≠ 0
  · rw [if_pos hbad] at hlast
    cases hlast
  rw [if_neg hbad] at hlast
  cases hlast
  obtain ⟨hlow, hzero⟩ := (scFrom5_accepts s hbits).mp hbad
  refine ⟨s.bits, hlow, hheld.size, hfive, ?_⟩
  rw [hheld.value, hzero, Nat.add_zero]

/-- **Regrouping back**: symbols of some bytes give those bytes. -/
theorem scFrom5_of_symbols {data five : Bytes} {pad cap : Nat} (h : Symbols data five pad)
    (hcap : data.length ≤ cap) : scFrom5 five cap = some data := by
  have hpad := h.pad_lt
  have hsize := h.size
  obtain ⟨s, hs⟩ := @Groups.regroup_isSome 5 8 cap five (by omega) (by omega) (by omega) h.lt
    (by omega)
  obtain ⟨hheld, hbits⟩ := Groups.regroup_holds (by omega) (by omega) (by omega) h.lt hs
  have hsize' := hheld.size
  have hlen : s.out.length = data.length := by omega
  have hsame : s.bits = pad := by omega
  have hvalue := hheld.value
  rw [h.value, hsame] at hvalue
  have hpos := Nat.two_pow_pos pad
  have hmod := Nat.mod_lt s.acc.toNat hpos
  -- the number of the bytes and the clear bits behind it are quotient and remainder
  have hquot : bigEndian (2 ^ 8) data = bigEndian (2 ^ 8) s.out := by
    have hdiv := congrArg (· / 2 ^ pad) hvalue
    simp only [Nat.mul_div_cancel _ hpos] at hdiv
    rw [hdiv, Nat.mul_comm, Nat.mul_add_div hpos, Nat.div_eq_of_lt hmod, Nat.add_zero]
  have hrem : s.acc.toNat % 2 ^ pad = 0 := by
    rw [hquot] at hvalue
    omega
  have hout : s.out = data :=
    bigEndian_inj (by norm_num : 1 < 2 ^ 8) hlen hheld.lt (forall_byte_lt data) hquot.symm
  unfold scFrom5
  rw [hs, Option.bind_some, if_neg ((scFrom5_accepts s hbits).mpr ⟨by omega, by rw [hsame, hrem]⟩),
    hout]

/-! ## The register of the checksum -/

/-- The register of `sc_polymod`: six symbols. -/
def scBch : Bch where
  w := 6
  gen j := (scGen.getD j 0).toNat
  w_pos := by omega
  gen_lt j := by
    by_cases hj : j < 5
    · have hall : ∀ j < 5, (scGen.getD j 0).toNat < 2 ^ (5 * 6) := by decide
      exact hall j hj
    · have hnone : scGen.getD j 0 = 0 := by
        rw [List.getD_eq_getElem?_getD, List.getElem?_eq_none (by simpa [scGen] using hj)]
        rfl
      rw [hnone]
      decide

theorem toNat_scStep (chk : UInt32) (v : UInt8) :
    (scStep chk v).toNat = scBch.step chk.toNat v.toNat := by
  have hbit : ∀ j < 5, ((chk >>> 25) >>> UInt32.ofNat j) &&& 1 ≠ 0 ↔
      (chk.toNat >>> 25).testBit j = true := by
    intro j hj
    have hshift : UInt32.toNat 25 % 32 = 25 := rfl
    have hone : UInt32.toNat 1 = 1 := rfl
    rw [Ne, ← UInt32.toNat_inj, UInt32.toNat_and, UInt32.toNat_shiftRight,
      UInt32.toNat_shiftRight, UInt32.toNat_ofNat', Nat.mod_eq_of_lt (by omega : j < 2 ^ 32),
      Nat.mod_eq_of_lt (by omega : j < 32), hshift, hone, Nat.testBit_eq_decide_div_mod_eq,
      Nat.and_one_is_mod, ← Nat.shiftRight_eq_div_pow, decide_eq_true_eq]
    have hzero : UInt32.toNat 0 = 0 := rfl
    rw [hzero]
    omega
  have hfold : ∀ (l : List Nat) (a : UInt32), (∀ j ∈ l, j < 5) →
      (l.foldl (fun chk' j => if ((chk >>> 25) >>> UInt32.ofNat j) &&& 1 ≠ 0
        then chk' ^^^ scGen.getD j 0 else chk') a).toNat =
      l.foldl (fun acc j => acc ^^^
        if (chk.toNat >>> 25).testBit j then (scGen.getD j 0).toNat else 0) a.toNat := by
    intro l
    induction l with
    | nil => exact fun a _ => rfl
    | cons j l ih =>
      intro a hl
      rw [List.foldl_cons, List.foldl_cons, ih _ (fun i hi => hl i (by simp [hi]))]
      congr 1
      have hj := hbit j (hl j (by simp))
      by_cases hset : (chk.toNat >>> 25).testBit j = true
      · rw [if_pos hset, if_pos (hj.mpr hset), UInt32.toNat_xor]
      · rw [if_neg hset, if_neg (fun hc => hset (hj.mp hc)), Nat.xor_zero]
  have hlow : ((chk &&& 0x1ffffff) <<< 5).toNat = (chk.toNat % 2 ^ 25) <<< 5 := by
    have hmask : UInt32.toNat 0x1ffffff = 2 ^ 25 - 1 := rfl
    have hfive : UInt32.toNat 5 % 32 = 5 := rfl
    have hmod := Nat.mod_lt chk.toNat (Nat.two_pow_pos 25)
    rw [UInt32.toNat_shiftLeft, UInt32.toNat_and, hmask, hfive, Nat.and_two_pow_sub_one_eq_mod,
      Nat.shiftLeft_eq]
    apply Nat.mod_eq_of_lt
    omega
  unfold scStep
  simp only []
  rw [hfold _ _ (fun j hj => List.mem_range.mp hj), Bch.foldl_xor, UInt32.toNat_xor,
    UInt8.toNat_toUInt32, hlow]
  rfl

theorem toNat_scPolymod (vs : Bytes) :
    (scPolymod vs).toNat = scBch.polymod 1 (vs.map UInt8.toNat) := by
  have hrun : ∀ (vs : Bytes) (chk : UInt32),
      (vs.foldl scStep chk).toNat = scBch.polymod chk.toNat (vs.map UInt8.toNat) := by
    intro vs
    induction vs with
    | nil => exact fun chk => rfl
    | cons v vs ih =>
      intro chk
      rw [List.foldl_cons, ih, toNat_scStep]
      rfl
  exact hrun vs 1

theorem map_toNat_scSymbols (pm : UInt32) :
    (scSymbols pm).map UInt8.toNat = scBch.symbols pm.toNat := by
  unfold scSymbols Bch.symbols
  rw [List.map_map]
  apply List.map_congr_left
  intro i hi
  have hlt : i < 6 := List.mem_range.mp hi
  have hmask : UInt32.toNat 31 = 2 ^ 5 - 1 := rfl
  have hmod := Nat.mod_lt (pm.toNat >>> (5 * (5 - i))) (Nat.two_pow_pos 5)
  rw [Function.comp_apply, UInt32.toNat_toUInt8, UInt32.toNat_and, UInt32.toNat_shiftRight,
    UInt32.toNat_ofNat', Nat.mod_eq_of_lt (by omega : 5 * (5 - i) < 2 ^ 32),
    Nat.mod_eq_of_lt (by omega : 5 * (5 - i) < 32), hmask, Nat.and_two_pow_sub_one_eq_mod,
    Nat.mod_eq_of_lt (by omega)]
  rfl

/-- The checksum of some symbols. -/
def scChecksum (five : Bytes) : Bytes :=
  scSymbols (scPolymod (scHrpExpand ++ five ++ List.replicate 6 0) ^^^ scBech32mConst)

@[simp] theorem length_scChecksum (five : Bytes) : (scChecksum five).length = 6 := by
  simp [scChecksum, scSymbols]

theorem scChecksum_lt {five : Bytes} {v : UInt8} (h : v ∈ scChecksum five) : v.toNat < 32 := by
  have hmem := List.mem_map_of_mem (f := UInt8.toNat) h
  unfold scChecksum at hmem
  rw [map_toNat_scSymbols] at hmem
  exact scBch.symbols_lt hmem

theorem scHrpExpand_lt : ∀ v ∈ scHrpExpand, v.toNat < 32 := by decide +kernel

theorem map_toNat_lt {vs : Bytes} (hv : ∀ v ∈ vs, v.toNat < 32) :
    ∀ u ∈ (scHrpExpand ++ vs).map UInt8.toNat, u < 32 := by
  intro u hu
  obtain ⟨v, hmem, rfl⟩ := List.mem_map.mp hu
  rcases List.mem_append.mp hmem with hmem | hmem
  · exact scHrpExpand_lt v hmem
  · exact hv v hmem

/-- What the checksum is, as symbols of the register. -/
theorem map_toNat_scChecksum (five : Bytes) :
    (scChecksum five).map UInt8.toNat =
      scBch.symbols (scBch.polymod 1
        ((scHrpExpand ++ five).map UInt8.toNat ++ List.replicate scBch.w 0) ^^^
          scBech32mConst.toNat) := by
  unfold scChecksum
  rw [map_toNat_scSymbols, UInt32.toNat_xor, toNat_scPolymod, List.map_append, List.map_replicate]
  rfl

/-- A string with its checksum passes. -/
theorem scPolymod_scChecksum {five : Bytes} (h : ∀ v ∈ five, v.toNat < 32) :
    scPolymod (scHrpExpand ++ (five ++ scChecksum five)) = scBech32mConst := by
  rw [← UInt32.toNat_inj, toNat_scPolymod, ← List.append_assoc, List.map_append,
    map_toNat_scChecksum]
  exact scBch.polymod_append_symbols (by decide) (by decide) (map_toNat_lt h)

/-- **One checksum passes**, the one that is written. -/
theorem scChecksum_unique {five last : Bytes} (h : ∀ v ∈ five, v.toNat < 32)
    (hlast : ∀ v ∈ last, v.toNat < 32) (hlen : last.length = 6)
    (hpass : scPolymod (scHrpExpand ++ (five ++ last)) = scBech32mConst) :
    last = scChecksum five := by
  have hnat := congrArg UInt32.toNat hpass
  rw [toNat_scPolymod, ← List.append_assoc, List.map_append] at hnat
  have hlt : ∀ u ∈ last.map UInt8.toNat, u < 32 := by
    intro u hu
    obtain ⟨v, hmem, rfl⟩ := List.mem_map.mp hu
    exact hlast v hmem
  have huniq := scBch.symbols_unique (by decide) (by decide) (map_toNat_lt h) hlt
    (by rw [List.length_map, hlen]; rfl) hnat
  rw [← map_toNat_scChecksum] at huniq
  exact List.map_injective_iff.mpr (fun _ _ he => UInt8.toNat_inj.mp he) huniq

/-! ## Payloads -/

/-- A share as the encoder takes it: the buffer of its values has room for the longest. -/
structure Encodable (share : ShamirShare) (mac : Option Bytes) : Prop where
  pos : 1 ≤ share.len
  le_max : share.len ≤ shamirMaxSecret
  size_y : share.y.length = shamirMaxSecret
  size_mac : ∀ m ∈ mac, m.length = shareCodeMacSize

/-- The bytes of a MAC that may be there. -/
def macBytes (mac : Option Bytes) : Bytes := mac.getD []

section
variable {share : ShamirShare} {mac : Option Bytes}

theorem Encodable.payload_eq (h : Encodable share mac) :
    sharePayload share mac = shareCodeVersion :: share.x :: UInt8.ofNat share.len.toNat ::
      (slice share.y 0 share.len.toNat ++ macBytes mac) := by
  have hpos := h.pos
  have hmax : share.len ≤ 64 := h.le_max
  have hbyte : share.len % 256 = share.len := Int.emod_eq_of_lt (by omega) (by omega)
  have hmac : (mac.map (·.take shareCodeMacSize)).getD [] = macBytes mac := by
    cases mac with
    | none => rfl
    | some m => exact List.take_of_length_le (h.size_mac m rfl).le
  unfold sharePayload
  rw [hbyte, hmac]
  rfl

theorem Encodable.length_values (h : Encodable share mac) :
    (slice share.y 0 share.len.toNat).length = share.len.toNat := by
  have hmax := h.le_max
  apply length_slice
  rw [h.size_y]
  omega

theorem Encodable.length_mac (h : Encodable share mac) :
    (macBytes mac).length = if mac.isSome then shareCodeMacSize else 0 := by
  cases mac with
  | none => rfl
  | some m => exact h.size_mac m rfl

theorem Encodable.length_payload (h : Encodable share mac) :
    (sharePayload share mac).length =
      3 + share.len.toNat + if mac.isSome then shareCodeMacSize else 0 := by
  rw [h.payload_eq, List.length_cons, List.length_cons, List.length_cons, List.length_append,
    h.length_values, h.length_mac]
  omega

/-- What is read from the payload of a share. -/
theorem Encodable.shareOfPayload_eq (h : Encodable share mac) (y : Bytes) :
    shareOfPayload (sharePayload share mac) y =
      .ok ({ x := share.x, y := patch y 0 (slice share.y 0 share.len.toNat), len := share.len },
        mac) := by
  have hpos := h.pos
  have hmax : share.len ≤ 64 := h.le_max
  have hlen := h.length_payload
  have hvalues := h.length_values
  have hmacLen := h.length_mac
  have hx : (sharePayload share mac).getD 1 0 = share.x := by rw [h.payload_eq]; rfl
  have hversion : (sharePayload share mac).getD 0 0 = shareCodeVersion := by
    rw [h.payload_eq]
    rfl
  have hbyte : ((sharePayload share mac).getD 2 0).toNat = share.len.toNat := by
    have hget : (sharePayload share mac).getD 2 0 = UInt8.ofNat share.len.toNat := by
      rw [h.payload_eq]
      rfl
    rw [hget, UInt8.toNat_ofNat']
    omega
  have hparts : sharePayload share mac =
      [shareCodeVersion, share.x, UInt8.ofNat share.len.toNat] ++
        (slice share.y 0 share.len.toNat ++ macBytes mac) := h.payload_eq
  have hys : slice (sharePayload share mac) 3 share.len.toNat =
      slice share.y 0 share.len.toNat := slice_of_eq_append hparts rfl hvalues.symm
  have hmac : slice (sharePayload share mac) (3 + share.len.toNat) (macBytes mac).length =
      macBytes mac := by
    have htail : sharePayload share mac =
        ([shareCodeVersion, share.x, UInt8.ofNat share.len.toNat] ++
          slice share.y 0 share.len.toNat) ++ (macBytes mac ++ []) := by
      rw [hparts, List.append_nil, List.append_assoc]
    refine slice_of_eq_append htail ?_ rfl
    rw [List.length_append, hvalues]
    rfl
  have hcast : ((share.len.toNat : Nat) : Int) = share.len := by omega
  have hrest : (sharePayload share mac).length - (3 + share.len.toNat) =
      (macBytes mac).length := by
    rw [hlen, hmacLen]
    omega
  have hmax64 : shamirMaxSecret = 64 := rfl
  unfold shareOfPayload
  simp only [hx, hversion, hbyte, hys, hcast, hrest]
  rw [if_neg (by omega), if_neg (fun hc => hc rfl), if_neg (by omega), if_neg (by omega)]
  cases mac with
  | none =>
    rw [if_neg (by decide : ¬ (macBytes none).length = shareCodeMacSize),
      if_pos (by decide : (macBytes none).length = 0)]
  | some m =>
    have hsize : (macBytes (some m)).length = shareCodeMacSize := hmacLen
    rw [if_pos hsize, hmac]
    rfl

/-- What is read from a payload has that payload. -/
theorem sharePayload_of_read {payload y : Bytes}
    (h : shareOfPayload payload y = .ok (share, mac)) :
    sharePayload share mac = payload ∧ 1 ≤ share.len ∧ share.len ≤ shamirMaxSecret := by
  have hmax64 : shamirMaxSecret = 64 := rfl
  have hmac32 : shareCodeMacSize = 32 := rfl
  unfold shareOfPayload at h
  simp only [guard_eq_ok] at h
  obtain ⟨h3, hversion, hlen, hfit, hrest⟩ := h
  rw [not_not] at hversion
  set len := (payload.getD 2 0).toNat with hlenDef
  have hhead : payload = [shareCodeVersion, payload.getD 1 0, payload.getD 2 0] ++
      payload.drop 3 := by
    match payload, h3 with
    | [], h3 => exact absurd (by simp) h3
    | [_], h3 => exact absurd (by simp) h3
    | [_, _], h3 => exact absurd (by simp) h3
    | a :: b :: c :: rest, _ =>
      have ha : a = shareCodeVersion := hversion
      rw [ha]
      rfl
  have hbyte : payload.getD 2 0 = UInt8.ofNat ((len : Int) % 256).toNat := by
    apply UInt8.toNat_inj.mp
    rw [UInt8.toNat_ofNat', ← hlenDef]
    omega
  have hys : slice (patch y 0 (slice payload 3 len)) 0 (len : Int).toNat = slice payload 3 len :=
    slice_patch_self (Nat.zero_le _) (by rw [length_slice (by omega)]; omega)
  have hvalues : slice payload 3 len = (payload.drop 3).take len := rfl
  have hbounds : 1 ≤ (len : Int) ∧ (len : Int) ≤ shamirMaxSecret := by omega
  by_cases hmac : payload.length - (3 + len) = shareCodeMacSize
  · rw [if_pos hmac] at hrest
    cases hrest
    refine ⟨?_, hbounds⟩
    have htail : (some (slice payload (3 + len) (payload.length - (3 + len)))).map
        (·.take shareCodeMacSize) = some ((payload.drop 3).drop len) := by
      have hall : slice payload (3 + len) (payload.length - (3 + len)) =
          (payload.drop 3).drop len := by
        rw [slice, List.drop_drop, List.take_of_length_le (by rw [List.length_drop])]
      rw [hall, Option.map_some, List.take_of_length_le (by
        rw [List.length_drop, List.length_drop]
        omega)]
    unfold sharePayload
    rw [hys, htail, ← hbyte, hvalues, Option.getD_some, List.cons_append, List.cons_append,
      List.cons_append, List.take_append_drop]
    exact hhead.symm
  · rw [if_neg hmac] at hrest
    by_cases hnone : payload.length - (3 + len) = 0
    · rw [if_pos hnone] at hrest
      cases hrest
      refine ⟨?_, hbounds⟩
      unfold sharePayload
      rw [hys, ← hbyte, hvalues, Option.map_none, Option.getD_none, List.append_nil,
        List.take_of_length_le (by rw [List.length_drop]; omega)]
      exact hhead.symm
    · rw [if_neg hnone] at hrest
      cases hrest

end

/-! ## Strings -/

theorem shareString_eq (five : Bytes) :
    shareString five = scHrp ++ ascii '1' :: (five ++ scChecksum five).map scChar := rfl

@[simp] theorem length_shareString (five : Bytes) :
    (shareString five).length = 10 + five.length := by
  rw [shareString_eq, List.length_append, List.length_cons, List.length_map, List.length_append,
    length_scChecksum]
  have hhrp : scHrp.length = 3 := rfl
  omega

theorem intOfSize_of_lt {n : Nat} (h : n < 2 ^ 31) : intOfSize n = n := by
  unfold intOfSize
  rw [Int.bmod_def]
  omega

/-- A length that is small in an `int` is that length and some multiple of `2 ^ 32`. -/
theorem intOfSize_eq {n : Nat} {k : Nat} (h : intOfSize n = k) : ∃ q, n = k + 2 ^ 32 * q := by
  unfold intOfSize at h
  rw [Int.bmod_def] at h
  refine ⟨n / 2 ^ 32, ?_⟩
  omega

theorem shareCodeDecode_shareString {payload five : Bytes} {pad : Nat}
    (h : Symbols payload five pad) (hlen : payload.length ≤ sharePayloadSize) (y : Bytes) :
    shareCodeDecode (shareString five) y = shareOfPayload payload y := by
  have hsize := h.size
  have hpad := h.pad_lt
  have hmax : payload.length ≤ 99 := hlen
  have hslen := length_shareString five
  have hint : intOfSize (shareString five).length = (10 + five.length : Nat) := by
    rw [hslen]
    exact intOfSize_of_lt (by omega)
  have hlt : ∀ v ∈ five ++ scChecksum five, v.toNat < 32 := by
    intro v hv
    rcases List.mem_append.mp hv with hv | hv
    · exact h.lt v hv
    · exact scChecksum_lt hv
  have hdata : slice (shareString five) 4 (10 + five.length - 4) =
      (five ++ scChecksum five).map scChar := by
    refine slice_of_eq_append (p := scHrp ++ [ascii '1']) (q := []) ?_ rfl ?_
    · rw [shareString_eq, List.append_nil, List.append_assoc]
      rfl
    · rw [List.length_map, List.length_append, length_scChecksum]
      omega
  have hbegin : ¬ ((shareString five).take 3 ≠ scHrp ∨
      (shareString five).getD 3 0 ≠ ascii '1') := by
    rw [not_or, not_not, not_not]
    exact ⟨rfl, rfl⟩
  have hsyms : (five ++ scChecksum five).take (10 + five.length - 4 - 6) = five :=
    List.take_left' (by omega)
  have hmaxLen : (shareCodeMaxLen : Int) = 200 := rfl
  unfold shareCodeDecode
  simp only [hint, Int.toNat_natCast]
  rw [if_neg (by omega), if_neg hbegin, hdata, scCharvals_map hlt]
  simp only []
  rw [if_neg (fun hc => hc (scPolymod_scChecksum h.lt)), hsyms, scFrom5_of_symbols h hlen]

/-- The beginning of a string: its prefix, the separator, and what comes after. -/
theorem take_eq_header {str : Bytes} {n : Nat} (hn : 4 ≤ n) (hstr : 4 ≤ str.length) :
    str.take n = str.take 3 ++ str.getD 3 0 :: slice str 4 (n - 4) := by
  obtain ⟨k, rfl⟩ := Nat.exists_eq_add_of_le' hn
  match str, hstr with
  | a :: b :: c :: d :: rest, _ =>
    rw [Nat.add_sub_cancel]
    rfl

/-- **What the decoder takes**: as far as it looks, the string of the payload it reads. -/
theorem shareCodeDecode_eq_ok {str y : Bytes} {r : ShamirShare × Option Bytes}
    (h : shareCodeDecode str y = .ok r) :
    ∃ payload five pad, Symbols payload five pad ∧
      intOfSize str.length = (shareString five).length ∧
      str.take (shareString five).length = shareString five ∧
      shareOfPayload payload y = .ok r := by
  have hmaxLen : (shareCodeMaxLen : Int) = 200 := rfl
  unfold shareCodeDecode at h
  simp only [guard_eq_ok] at h
  obtain ⟨hlen, hbegin, hrest⟩ := h
  rw [not_or, not_not, not_not] at hbegin
  obtain ⟨hhrp, hone⟩ := hbegin
  obtain ⟨n, hn⟩ : ∃ n : Nat, intOfSize str.length = n := ⟨(intOfSize str.length).toNat, by omega⟩
  rw [hn] at hlen hrest
  rw [Int.toNat_natCast] at hrest
  obtain ⟨q, hq⟩ := intOfSize_eq hn
  have hn10 : 10 ≤ n := by omega
  have hle : n ≤ str.length := by omega
  cases hchars : scCharvals (slice str 4 (n - (3 + 1))) with
  | none =>
    rw [hchars] at hrest
    cases hrest
  | some all =>
  rw [hchars] at hrest
  simp only [guard_eq_ok] at hrest
  obtain ⟨hpass, hrest⟩ := hrest
  rw [not_not] at hpass
  obtain ⟨hlt, hmap⟩ := scCharvals_eq_some hchars
  have hall : all.length = n - 4 := by
    have hlenEq := congrArg List.length hmap
    rwa [List.length_map, length_slice (by omega)] at hlenEq
  -- the last six symbols are the checksum of those before them
  set five := all.take (n - (3 + 1) - 6) with hfive
  have hsplit : all = five ++ all.drop (n - (3 + 1) - 6) := (List.take_append_drop _ _).symm
  have hltFive : ∀ v ∈ five, v.toNat < 32 := fun v hv => hlt v (List.mem_of_mem_take hv)
  have hlast : all.drop (n - (3 + 1) - 6) = scChecksum five := by
    apply scChecksum_unique hltFive (fun v hv => hlt v (List.mem_of_mem_drop hv))
    · rw [List.length_drop, hall]
      omega
    · rw [← hsplit]
      exact hpass
  rw [hlast] at hsplit
  cases hfrom : scFrom5 five sharePayloadSize with
  | none =>
    rw [hfrom] at hrest
    cases hrest
  | some payload =>
  rw [hfrom] at hrest
  obtain ⟨pad, hsym⟩ := scFrom5_eq_some hltFive hfrom
  have hfiveLen : five.length = n - 10 := by
    rw [hfive, List.length_take, hall]
    omega
  have hslen : (shareString five).length = n := by
    rw [length_shareString, hfiveLen]
    omega
  refine ⟨payload, five, pad, hsym, by rw [hn, hslen], ?_, hrest⟩
  rw [hslen, take_eq_header (by omega) (by omega), hhrp, hone, shareString_eq, ← hsplit, hmap]

/-! ## The two directions -/

theorem length_sharePayload_le {share : ShamirShare} (mac : Option Bytes)
    (h : share.len ≤ shamirMaxSecret) : (sharePayload share mac).length ≤ sharePayloadSize := by
  have hy := length_slice_le share.y 0 share.len.toNat
  have hmac : ((mac.map (·.take shareCodeMacSize)).getD []).length ≤ shareCodeMacSize := by
    cases mac with
    | none => exact Nat.zero_le _
    | some m => exact List.length_take_le _ _
  have hmax64 : shamirMaxSecret = 64 := rfl
  have hsize : sharePayloadSize = 99 := rfl
  have hmac32 : shareCodeMacSize = 32 := rfl
  unfold sharePayload
  rw [List.length_append, List.length_cons, List.length_cons, List.length_cons]
  omega

/-- **What the encoder writes**: the string of the payload, when there is room for it. -/
theorem shareCodeEncode_eq_ok {share : ShamirShare} {mac : Option Bytes} {outCap : Int}
    {str : Bytes} : shareCodeEncode share mac outCap = .ok str ↔
      1 ≤ share.len ∧ share.len ≤ shamirMaxSecret ∧ (str.length : Int) + 1 ≤ outCap ∧
      ∃ five pad, Symbols (sharePayload share mac) five pad ∧ str = shareString five := by
  unfold shareCodeEncode
  rw [guard_eq_ok, not_or, Int.not_lt, not_lt, and_assoc]
  apply and_congr_right
  intro _
  apply and_congr_right
  intro hmax
  have hsize := length_sharePayload_le mac hmax
  have h99 : sharePayloadSize = 99 := rfl
  obtain ⟨five, hfive⟩ := @scTo5_isSome (sharePayload share mac) (8 * sharePayloadSize / 5 + 2)
    (by omega)
  obtain ⟨pad, hsym⟩ := scTo5_symbols hfive
  rw [hfive]
  simp only [guard_eq_ok, Except.ok.injEq]
  have hlen := length_shareString five
  constructor
  · rintro ⟨hroom, rfl⟩
    exact ⟨by omega, five, pad, hsym, rfl⟩
  · rintro ⟨hroom, five', pad', hsym', rfl⟩
    have hsame := hsym.unique hsym'
    subst hsame
    exact ⟨by omega, rfl⟩

/-- A share in range is encoded into a buffer of the longest length. -/
theorem shareCodeEncode_isOk {share : ShamirShare} (mac : Option Bytes) (hpos : 1 ≤ share.len)
    (hmax : share.len ≤ shamirMaxSecret) {outCap : Int} (hcap : (shareCodeMaxLen : Int) ≤ outCap) :
    ∃ str, shareCodeEncode share mac outCap = .ok str := by
  have hsize := length_sharePayload_le mac hmax
  have h99 : sharePayloadSize = 99 := rfl
  have h200 : (shareCodeMaxLen : Int) = 200 := rfl
  obtain ⟨five, hfive⟩ := @scTo5_isSome (sharePayload share mac) 160 (by omega)
  obtain ⟨pad, hsym⟩ := scTo5_symbols hfive
  have hlen := length_shareString five
  have hcount := hsym.size
  have hpad := hsym.pad_lt
  exact ⟨shareString five, shareCodeEncode_eq_ok.mpr ⟨hpos, hmax, by omega, five, pad, hsym, rfl⟩⟩

/-- **Round trip**: what was encoded is read back. -/
theorem shareCodeDecode_shareCodeEncode {share : ShamirShare} {mac : Option Bytes} {outCap : Int}
    {str : Bytes} (hy : share.y.length = shamirMaxSecret)
    (hmac : ∀ m ∈ mac, m.length = shareCodeMacSize)
    (h : shareCodeEncode share mac outCap = .ok str) (y : Bytes) :
    ∃ read, shareCodeDecode str y = .ok (read, mac) ∧ read.x = share.x ∧ read.len = share.len ∧
      read.y.take share.len.toNat = share.y.take share.len.toNat := by
  obtain ⟨hpos, hmax, _, five, pad, hsym, rfl⟩ := shareCodeEncode_eq_ok.mp h
  have henc : Encodable share mac := ⟨hpos, hmax, hy, hmac⟩
  have hread := shareCodeDecode_shareString hsym (length_sharePayload_le mac hmax) y
  rw [henc.shareOfPayload_eq] at hread
  refine ⟨_, hread, rfl, rfl, ?_⟩
  have hback : slice (patch y 0 (slice share.y 0 share.len.toNat)) 0 share.len.toNat =
      slice share.y 0 share.len.toNat :=
    slice_patch_self (Nat.zero_le _) henc.length_values.symm
  exact hback

/-- **Canonicity**: a string the decoder takes is the one written for what was read, if and only
    if its length was not cut off. -/
theorem shareCode_canonical_iff {str y : Bytes} {read : ShamirShare} {mac : Option Bytes}
    {outCap : Int} (hcap : (shareCodeMaxLen : Int) ≤ outCap)
    (h : shareCodeDecode str y = .ok (read, mac)) :
    shareCodeEncode read mac outCap = .ok str ↔ str.length < 2 ^ 32 := by
  obtain ⟨payload, five, pad, hsym, hint, htake, hread⟩ := shareCodeDecode_eq_ok h
  obtain ⟨rfl, hpos, hmax⟩ := sharePayload_of_read hread
  have h200 : (shareCodeMaxLen : Int) = 200 := rfl
  have hsize := length_sharePayload_le mac hmax
  have h99 : sharePayloadSize = 99 := rfl
  have hcount := hsym.size
  have hpad := hsym.pad_lt
  have hlen := length_shareString five
  obtain ⟨q, hq⟩ := intOfSize_eq hint
  constructor
  · intro henc
    obtain ⟨_, _, _, five', pad', hsym', rfl⟩ := shareCodeEncode_eq_ok.mp henc
    rw [hsym'.unique hsym]
    omega
  · intro hlt
    have hwhole : str = shareString five := by
      rw [← htake, List.take_of_length_le (by omega)]
    rw [shareCodeEncode_eq_ok]
    exact ⟨hpos, hmax, by rw [hwhole]; omega, five, pad, hsym, hwhole⟩

/-- **One code per share.** What the encoder writes is read back whole; and what the decoder
    takes is what the encoder writes, for every string shorter than `2 ^ 32`. -/
theorem shareCode_roundtrip (str y : Bytes) :
    (∀ (share : ShamirShare) (mac : Option Bytes) (outCap : Int),
      share.y.length = shamirMaxSecret → (∀ m ∈ mac, m.length = shareCodeMacSize) →
      shareCodeEncode share mac outCap = .ok str →
      ∃ read, shareCodeDecode str y = .ok (read, mac) ∧ read.x = share.x ∧
        read.len = share.len ∧ read.y.take share.len.toNat = share.y.take share.len.toNat) ∧
    (∀ (read : ShamirShare) (mac : Option Bytes) (outCap : Int),
      (shareCodeMaxLen : Int) ≤ outCap → shareCodeDecode str y = .ok (read, mac) →
      (shareCodeEncode read mac outCap = .ok str ↔ str.length < 2 ^ 32)) := by
  constructor
  · intro share mac outCap hy hmac h
    exact shareCodeDecode_shareCodeEncode hy hmac h y
  · intro read mac outCap hcap h
    exact shareCode_canonical_iff hcap h

/-- A string is read as its beginning when the `int` of its length is that of the beginning. -/
theorem shareCodeDecode_append {five : Bytes} {tail : Bytes} (hfive : five.length ≤ 159)
    (htail : tail.length = 2 ^ 32) (y : Bytes) :
    shareCodeDecode (shareString five ++ tail) y = shareCodeDecode (shareString five) y := by
  have hlen := length_shareString five
  have hint : intOfSize (shareString five ++ tail).length = (10 + five.length : Nat) := by
    unfold intOfSize
    rw [List.length_append, hlen, htail, Int.bmod_def]
    omega
  have hint' : intOfSize (shareString five).length = (10 + five.length : Nat) := by
    rw [hlen]
    exact intOfSize_of_lt (by omega)
  have htake : (shareString five ++ tail).take 3 = (shareString five).take 3 :=
    List.take_append_of_le_length (by omega)
  have hget : (shareString five ++ tail).getD 3 0 = (shareString five).getD 3 0 := by
    rw [List.getD_append _ _ _ _ (by omega)]
  have hslice : slice (shareString five ++ tail) 4 (10 + five.length - (3 + 1)) =
      slice (shareString five) 4 (10 + five.length - (3 + 1)) := slice_append_left (by omega)
  unfold shareCodeDecode
  simp only [hint, hint', htake, hget, Int.toNat_natCast, hslice]

namespace ShareCodeDemo

/-- A share of a secret of two bytes. -/
def share : ShamirShare := { x := 3, y := [7, 9] ++ List.replicate 62 0, len := 2 }

theorem length_y : share.y.length = shamirMaxSecret := by
  rw [share, List.length_append, List.length_replicate]
  rfl

/-- The share with a MAC, to a string and back, and the string that belongs to it. -/
theorem shareCode_roundtrip_demo :
    ∃ str read, shareCodeEncode share (some (List.replicate 32 5)) 200 = .ok str ∧
      shareCodeDecode str [] = .ok (read, some (List.replicate 32 5)) ∧ read.len = 2 ∧
      (shareCodeEncode read (some (List.replicate 32 5)) 200 = .ok str ↔ str.length < 2 ^ 32) := by
  have hcap : (shareCodeMaxLen : Int) ≤ 200 := by decide
  obtain ⟨str, hstr⟩ := @shareCodeEncode_isOk share (some (List.replicate 32 5)) (by decide)
    (by decide) 200 hcap
  have hmac : ∀ m ∈ some (List.replicate 32 (5 : UInt8)), m.length = shareCodeMacSize := by
    intro m hm
    cases hm
    exact List.length_replicate
  have hround := shareCode_roundtrip str []
  obtain ⟨read, hread, _, hlen, _⟩ := hround.1 share _ 200 length_y hmac hstr
  exact ⟨str, read, hstr, hread, hlen, hround.2 read _ 200 hcap hread⟩

/-- A code followed by `2 ^ 32` more characters is taken, and is not what is written for what
    was read. -/
theorem long_string_taken :
    ∃ (str y : Bytes) (read : ShamirShare) (mac : Option Bytes),
      shareCodeDecode str y = .ok (read, mac) ∧ shareCodeEncode read mac 200 ≠ .ok str := by
  have hcap : (shareCodeMaxLen : Int) ≤ 200 := by decide
  obtain ⟨code, hcode⟩ := @shareCodeEncode_isOk share none (by decide) (by decide) 200 hcap
  obtain ⟨_, hmax, _, five, pad, hsym, rfl⟩ := shareCodeEncode_eq_ok.mp hcode
  obtain ⟨read, hread, _⟩ := shareCodeDecode_shareCodeEncode length_y (by simp) hcode []
  have hsize := length_sharePayload_le none hmax
  have h99 : sharePayloadSize = 99 := rfl
  have hcount := hsym.size
  have hpad := hsym.pad_lt
  have hlong : shareCodeDecode (shareString five ++ List.replicate (2 ^ 32) (ascii 'q')) [] =
      .ok (read, none) := by
    rw [shareCodeDecode_append (by omega) List.length_replicate, hread]
  refine ⟨_, [], read, none, hlong, ?_⟩
  intro henc
  have hlt := (shareCode_canonical_iff hcap hlong).mp henc
  rw [List.length_append, List.length_replicate] at hlt
  omega

end ShareCodeDemo

end VeraCrypt
