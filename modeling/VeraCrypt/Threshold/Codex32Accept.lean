import VeraCrypt.Lib.XorLinear
import VeraCrypt.Threshold.Codex32

/-!
# What `ShareCodeCodex32Decode` takes

A string of the code is what the encoder writes for the fields, in small letters or in capitals,
with any bits behind the last byte of the payload. The decoder makes every letter small before it
looks at it, and it takes the short checksum for all data that are shorter than the shortest with
a long one, of which those of 95 symbols have room for a payload. So it also takes strings of
mixed case and strings of 98 characters (`codex32Decode_isCodex32_iff`).
-/

set_option autoImplicit false

namespace VeraCrypt

open Lib

/-! ## Strings of the code -/

/-- A small letter as a capital. -/
def scToupper (c : UInt8) : UInt8 := if ascii 'a' ≤ c ∧ c ≤ ascii 'z' then c - 32 else c

def IsSmall (c : UInt8) : Prop := ascii 'a' ≤ c ∧ c ≤ ascii 'z'

def IsCapital (c : UInt8) : Prop := ascii 'A' ≤ c ∧ c ≤ ascii 'Z'

instance (c : UInt8) : Decidable (IsSmall c) := inferInstanceAs (Decidable (_ ∧ _))

instance (c : UInt8) : Decidable (IsCapital c) := inferInstanceAs (Decidable (_ ∧ _))

/-- A string with letters of both cases. -/
def MixedCase (str : Bytes) : Prop := (∃ c ∈ str, IsSmall c) ∧ ∃ c ∈ str, IsCapital c

/-- A string in its own letters, or all of it in capitals. -/
def UniformCase (str small : Bytes) : Prop := str = small ∨ str = small.map scToupper

/-- Symbols that differ in the bits behind the last byte only. -/
structure UpToPad (payload five five' : Bytes) : Prop where
  length_eq : five'.length = five.length
  lt : ∀ v ∈ five', v.toNat < 32
  bits : bigEndian (2 ^ 5) five' / 2 ^ (5 * five.length - 8 * payload.length) =
    bigEndian (2 ^ 5) five / 2 ^ (5 * five.length - 8 * payload.length)

/-- The string is what the encoder writes for the fields, up to the case of all its letters and
    the bits that the decoder discards. -/
def IsCodex32 (str : Bytes) (r : Codex32) : Prop :=
  ∃ (outCap : Int) (header five five' : Bytes),
    header.length = 6 ∧ (∀ v ∈ header, v.toNat < 32) ∧
    codex32Encode r.k r.id r.shareIndex r.payload outCap = .ok (codex32String (header ++ five)) ∧
    UpToPad r.payload five five' ∧ UniformCase str (codex32String (header ++ five'))

/-! ## Letters -/

theorem scTolower_eq_self_iff : ∀ c : UInt8, scTolower c = c ↔ ¬ IsCapital c :=
  forall_byte (by decide +kernel)

example : scTolower (ascii 'Q') = ascii 'q' := by decide +kernel

theorem scToupper_scTolower : ∀ c : UInt8, ¬ IsSmall c → scToupper (scTolower c) = c :=
  forall_byte (by decide +kernel)

theorem scTolower_scToupper : ∀ c : UInt8, scTolower (scToupper c) = scTolower c :=
  forall_byte (by decide +kernel)

theorem not_isSmall_scToupper : ∀ c : UInt8, ¬ IsSmall (scToupper c) :=
  forall_byte (by decide +kernel)

/-- A string is not of mixed case where it is its small letters, or those in capitals. -/
theorem uniformCase_iff {str : Bytes} :
    UniformCase str (str.map scTolower) ↔ ¬ MixedCase str := by
  constructor
  · rintro (hsmall | hcapital) ⟨⟨c, hc, hcs⟩, ⟨d, hd, hdc⟩⟩
    · rw [hsmall] at hd
      obtain ⟨e, -, rfl⟩ := List.mem_map.mp hd
      exact (scTolower_eq_self_iff _).mp (scTolower_scTolower e) hdc
    · rw [hcapital] at hc
      obtain ⟨e, -, rfl⟩ := List.mem_map.mp hc
      exact not_isSmall_scToupper e hcs
  · intro hmixed
    by_cases hcapital : ∃ c ∈ str, IsCapital c
    · right
      rw [List.map_map]
      conv_lhs => rw [← List.map_id str]
      apply List.map_congr_left
      intro c hc
      have hnot : ¬ IsSmall c := fun hsmall => hmixed ⟨⟨c, hc, hsmall⟩, hcapital⟩
      exact (scToupper_scTolower c hnot).symm
    · left
      conv_lhs => rw [← List.map_id str]
      apply List.map_congr_left
      intro c hc
      exact ((scTolower_eq_self_iff c).mpr (fun h => hcapital ⟨c, hc, h⟩)).symm

theorem codex32String_small {data : Bytes} (h : ∀ v ∈ data, v.toNat < 32) :
    (codex32String data).map scTolower = codex32String data := by
  have hsymbols : ((data ++ codex32Checksum data).map scChar).map scTolower =
      (data ++ codex32Checksum data).map scChar := by
    rw [List.map_map]
    apply List.map_congr_left
    intro v hv
    rcases List.mem_append.mp hv with hv | hv
    · exact scTolower_scChar v (h v hv)
    · exact scTolower_scChar v (codex32Checksum_lt hv)
  rw [codex32String_eq, List.map_append, hsymbols]
  rfl

theorem map_scTolower_of_uniformCase {str small : Bytes} (hsmall : small.map scTolower = small)
    (h : UniformCase str small) : str.map scTolower = small := by
  rcases h with rfl | rfl
  · exact hsmall
  · rw [List.map_map]
    refine Eq.trans (List.map_congr_left ?_) hsmall
    intro c _
    exact scTolower_scToupper c

/-! ## What an accepted string holds -/

/-- The checksum of one kind. -/
def checksumOf (isLong : Bool) (data : Bytes) : Bytes :=
  ms32Symbols isLong ((ms32Polymod (data ++ List.replicate (ms32Csum isLong) 0) isLong).xor
    (ms32Const isLong))

/-- Symbols that pass end with their checksum. -/
theorem checksumOf_unique {isLong : Bool} {data last : Bytes} (h : ∀ v ∈ data, v.toNat < 32)
    (hlast : ∀ v ∈ last, v.toNat < 32) (hlen : last.length = ms32Csum isLong)
    (hpass : ms32Polymod (data ++ last) isLong = ms32Const isLong) :
    last = checksumOf isLong data := by
  have hnat := congrArg ScU128.toNat hpass
  rw [toNat_ms32Polymod, List.map_append] at hnat
  have hstart : 0x23181b3 < 2 ^ (5 * (ms32Bch isLong).w) := by cases isLong <;> decide
  have hconst : (ms32Const isLong).toNat < 2 ^ (5 * (ms32Bch isLong).w) := by
    cases isLong <;> decide
  have hlt : ∀ {vs : Bytes}, (∀ v ∈ vs, v.toNat < 32) → ∀ u ∈ vs.map UInt8.toNat, u < 32 := by
    intro vs hvs u hu
    obtain ⟨v, hmem, rfl⟩ := List.mem_map.mp hu
    exact hvs v hmem
  have huniq := (ms32Bch isLong).symbols_unique hstart hconst (hlt h) (hlt hlast)
    (by rw [List.length_map, hlen]; rfl) hnat
  have hsymbols : (checksumOf isLong data).map UInt8.toNat = last.map UInt8.toNat := by
    rw [checksumOf, map_toNat_ms32Symbols, ScU128.toNat_xor, toNat_ms32Polymod, List.map_append,
      List.map_replicate, huniq]
    rfl
  exact (List.map_injective_iff.mpr (fun _ _ he => UInt8.toNat_inj.mp he) hsymbols).symm

/-- Symbols of bytes with any bits behind them. -/
structure LooseSymbols (payload five : Bytes) (pad : Nat) : Prop where
  pad_lt : pad < 5
  size : 5 * five.length = 8 * payload.length + pad
  lt : ∀ v ∈ five, v.toNat < 32
  value : bigEndian (2 ^ 5) five / 2 ^ pad = bigEndian (2 ^ 8) payload

theorem scFrom5Trunc_eq_some {payload five : Bytes} {cap : Nat} (hfive : ∀ v ∈ five, v.toNat < 32)
    (h : scFrom5Trunc five cap = some payload) : ∃ pad, LooseSymbols payload five pad := by
  unfold scFrom5Trunc at h
  obtain ⟨s, hs, hlast⟩ := Option.bind_eq_some_iff.mp h
  obtain ⟨hheld, hbits⟩ := Groups.regroup_holds (by omega) (by omega) (by omega) hfive hs
  by_cases hbad : s.bits ≥ 5
  · rw [if_pos hbad] at hlast
    cases hlast
  · rw [if_neg hbad] at hlast
    cases hlast
    refine ⟨s.bits, Nat.lt_of_not_le hbad, hheld.size, hfive, ?_⟩
    rw [hheld.value, Nat.mul_comm, Nat.mul_add_div (Nat.two_pow_pos _),
      Nat.div_eq_of_lt (Nat.mod_lt _ (Nat.two_pow_pos _)), Nat.add_zero]

/-- The symbols that the encoder writes, and others with the same bytes. -/
theorem LooseSymbols.upToPad {payload five five' : Bytes} {pad pad' : Nat}
    (h : Symbols payload five pad) (h' : LooseSymbols payload five' pad') :
    UpToPad payload five five' := by
  have hpad := h.pad_lt
  have hpad' := h'.pad_lt
  have hsize := h.size
  have hsize' := h'.size
  have hsame : pad' = pad := by omega
  have hrest : 5 * five.length - 8 * payload.length = pad := by omega
  refine ⟨by omega, h'.lt, ?_⟩
  rw [hrest, h.value, Nat.mul_div_cancel _ (Nat.two_pow_pos _), ← hsame, h'.value]

/-- An accepted string: its symbols, and the fields read from them. -/
structure Accepted (str : Bytes) (r : Codex32) (n : Nat) (header five : Bytes) (pad : Nat) :
    Prop where
  length_eq : intOfSize str.length = (n : Int)
  le : n ≤ str.length
  max : n ≤ 127
  size : n = 3 + (header ++ five).length + ms32Csum (decide (n - 3 ≥ 96))
  chars : (str.take n).map scTolower = ['m', 's', '1'].map ascii ++
    ((header ++ five) ++ checksumOf (decide (n - 3 ≥ 96)) (header ++ five)).map scChar
  header_length : header.length = 6
  lt : ∀ v ∈ header ++ five, v.toNat < 32
  header_eq : header.map scChar = codex32Header r.k r.id r.shareIndex
  threshold : r.k = 0 ∨ 2 ≤ r.k ∧ r.k ≤ 9
  payload : LooseSymbols r.payload five pad
  payload_pos : 1 ≤ r.payload.length

/-- The digit of a threshold, and the threshold as a digit. -/
theorem threshold_of_digit : ∀ kv : UInt8,
    ¬ (kv < ascii '0' ∨ kv > ascii '9' ∨ kv = ascii '1') →
      ((kv.toNat : Int) - 48 = 0 ∨ 2 ≤ (kv.toNat : Int) - 48 ∧ (kv.toNat : Int) - 48 ≤ 9) ∧
        UInt8.ofNat ((48 + ((kv.toNat : Int) - 48)) % 256).toNat = kv :=
  forall_byte (by decide +kernel)

/-- The first characters of a string behind its prefix, as the encoder would write them. -/
theorem header_chars {str : Bytes} {n : Nat} (hn : 6 ≤ n) (hlen : 9 ≤ str.length) {k : Int}
    (hdigit : UInt8.ofNat ((48 + k) % 256).toNat = scTolower (str.getD 3 0)) :
    ((slice str 3 n).map scTolower).take 6 =
      codex32Header k ((slice str 4 4).map scTolower) (scTolower (str.getD 8 0)) := by
  obtain ⟨m, rfl⟩ := Nat.exists_eq_add_of_le' hn
  match str, hlen with
  | _ :: _ :: _ :: c₀ :: c₁ :: c₂ :: c₃ :: c₄ :: c₅ :: rest, _ =>
    unfold codex32Header
    rw [hdigit, scTolower_scTolower]
    show [scTolower c₀, scTolower c₁, scTolower c₂, scTolower c₃, scTolower c₄, scTolower c₅] =
      [scTolower c₀, scTolower (scTolower c₁), scTolower (scTolower c₂),
        scTolower (scTolower c₃), scTolower (scTolower c₄), scTolower c₅]
    simp only [scTolower_scTolower]

theorem prefix_chars {str : Bytes} (hlen : 3 ≤ str.length)
    (hm : scTolower (str.getD 0 0) = ascii 'm') (hs : scTolower (str.getD 1 0) = ascii 's')
    (hone : str.getD 2 0 = ascii '1') :
    (str.take 3).map scTolower = ['m', 's', '1'].map ascii := by
  match str, hlen with
  | a :: b :: c :: rest, _ =>
    have hm' : scTolower a = ascii 'm' := hm
    have hs' : scTolower b = ascii 's' := hs
    have hone' : c = ascii '1' := hone
    rw [List.take_succ_cons, List.take_succ_cons, List.take_succ_cons, List.take_zero,
      List.map_cons, List.map_cons, List.map_cons, hm', hs', hone']
    rfl

/-- **What the decoder takes.** -/
theorem codex32Decode_eq_ok {str : Bytes} {payloadCap : Nat} {r : Codex32}
    (h : codex32Decode str payloadCap = .ok r) :
    ∃ n header five pad, Accepted str r n header five pad := by
  have hmaxLen : (codex32MaxLen : Int) = 128 := rfl
  unfold codex32Decode at h
  simp only [guard_eq_ok] at h
  obtain ⟨hlen, hbegin, hroom, hrest⟩ := h
  rw [not_or, not_or, not_not, not_not, not_not] at hbegin
  obtain ⟨hm, hs, hone⟩ := hbegin
  obtain ⟨n, hn⟩ : ∃ n : Nat, intOfSize str.length = n := ⟨(intOfSize str.length).toNat, by omega⟩
  rw [hn] at hlen hroom hrest
  rw [Int.toNat_natCast] at hroom hrest
  obtain ⟨q, hq⟩ := intOfSize_eq hn
  have hle : n ≤ str.length := by omega
  have hcsum : 13 ≤ ms32Csum (decide (n - 3 ≥ 96)) := by
    cases decide (n - 3 ≥ 96) <;> decide
  cases hchars : scCharvals ((slice str 3 (n - 3)).map scTolower) with
  | none =>
    rw [hchars] at hrest
    cases hrest
  | some data =>
  rw [hchars] at hrest
  simp only [guard_eq_ok] at hrest
  obtain ⟨hpass, hdigit, hrest⟩ := hrest
  rw [not_not] at hpass
  obtain ⟨hlt, hmap⟩ := scCharvals_eq_some hchars
  have hdata : data.length = n - 3 := by
    have hlenEq := congrArg List.length hmap
    rwa [List.length_map, List.length_map, length_slice (by omega)] at hlenEq
  cases hfrom : scFrom5Trunc (slice data 6 (n - 3 - ms32Csum (decide (n - 3 ≥ 96)) - 6))
      payloadCap with
  | none =>
    rw [hfrom] at hrest
    cases hrest
  | some payload =>
  rw [hfrom] at hrest
  simp only [guard_eq_ok] at hrest
  obtain ⟨hpayload, hr⟩ := hrest
  cases hr
  -- the header, the payload and the checksum
  set isLong := decide (n - 3 ≥ 96) with hisLong
  set header := data.take 6 with hheader
  set five := slice data 6 (n - 3 - ms32Csum isLong - 6) with hfive
  set last := (data.drop 6).drop (n - 3 - ms32Csum isLong - 6) with hlast
  have hsplit : data = (header ++ five) ++ last := by
    have h₁ : data = header ++ data.drop 6 := (List.take_append_drop 6 data).symm
    have h₂ : data.drop 6 = five ++ last := (List.take_append_drop _ (data.drop 6)).symm
    rw [List.append_assoc, ← h₂]
    exact h₁
  have hheaderLen : header.length = 6 := by
    rw [hheader, List.length_take]
    omega
  have hfiveLen : five.length = n - 3 - ms32Csum isLong - 6 := by
    rw [hfive, length_slice (by omega)]
  have hltData : ∀ v ∈ header ++ five, v.toNat < 32 := by
    intro v hv
    exact hlt v (hsplit ▸ List.mem_append_left last hv)
  have hltLast : ∀ v ∈ last, v.toNat < 32 := by
    intro v hv
    exact hlt v (hsplit ▸ List.mem_append_right (header ++ five) hv)
  have hlastLen : last.length = ms32Csum isLong := by
    rw [hlast, List.length_drop, List.length_drop]
    omega
  have hchecksum : last = checksumOf isLong (header ++ five) := by
    apply checksumOf_unique hltData hltLast hlastLen
    rw [← hsplit]
    exact hpass
  obtain ⟨pad, hloose⟩ := scFrom5Trunc_eq_some
    (fun v hv => hltData v (List.mem_append_right header hv)) hfrom
  obtain ⟨hthreshold, hkv⟩ := threshold_of_digit _ hdigit
  refine ⟨n, header, five, pad, hn, hle, by omega, ?_, ?_, hheaderLen, hltData, ?_, hthreshold,
    hloose, Nat.le_of_not_lt hpayload⟩
  · rw [List.length_append, ← hisLong]
    omega
  · have htake : str.take n = str.take 3 ++ slice str 3 (n - 3) := by
      obtain ⟨m, hm3⟩ := Nat.exists_eq_add_of_le (show 3 ≤ n by omega)
      rw [hm3, List.take_add, Nat.add_sub_cancel_left]
      rfl
    have hprefix := prefix_chars (by omega) hm hs hone
    rw [htake, List.map_append, hprefix, ← hchecksum, ← hsplit, hmap]
  · have hhead := header_chars (k := (scTolower (str.getD 3 0)).toNat - 48)
      (show 6 ≤ n - 3 by omega) (show 9 ≤ str.length by omega) hkv
    rw [← hhead, ← hmap, List.map_take]

/-! ## Which of them are strings of the code -/

/-- Where the length of the whole string says of the checksum what the length of the data does. -/
theorem codex32Long_of_length {n size : Nat} {data : Bytes} (hdata : data.length = size)
    (h : n = 3 + size + ms32Csum (decide (n - 3 ≥ 96))) :
    codex32Long data = decide (n - 3 ≥ 96) ↔ n ≠ 97 ∧ n ≠ 98 := by
  have hthreshold : ms32LongDataThreshold = 80 := rfl
  have hlong : ms32Csum true = 15 := rfl
  have hshort : ms32Csum false = 13 := rfl
  unfold codex32Long
  rw [hthreshold, hdata]
  by_cases hn : n - 3 ≥ 96
  · rw [decide_eq_true hn] at h ⊢
    rw [decide_eq_true_iff]
    omega
  · rw [decide_eq_false hn] at h ⊢
    rw [decide_eq_false_iff_not]
    omega

theorem codex32Encode_length {k : Int} {id : Bytes} {shareIndex : UInt8} {payload str : Bytes}
    {outCap : Int} (h : codex32Encode k id shareIndex payload outCap = .ok str) :
    str.length ≤ 131 := by
  have hmaxLen : codex32MaxLen = 128 := rfl
  unfold codex32Encode at h
  simp only [guard_eq_ok] at h
  obtain ⟨-, -, h⟩ := h
  cases hdata : codex32Data k id shareIndex payload with
  | none =>
    rw [hdata] at h
    cases h
  | some data =>
    rw [hdata] at h
    simp only [guard_eq_ok] at h
    obtain ⟨hfit, -, h⟩ := h
    cases h
    have hlength := length_codex32String data
    rw [codex32Long] at hlength
    omega

/-- The encoder takes the fields of an accepted string, and writes the same header. -/
theorem Accepted.encode {str : Bytes} {r : Codex32} {n : Nat} {header five : Bytes} {pad : Nat}
    (h : Accepted str r n header five pad) :
    ∃ five', codex32Encode r.k r.id r.shareIndex r.payload 131 =
        .ok (codex32String (header ++ five')) ∧ UpToPad r.payload five' five := by
  have hsize := h.size
  have hmax := h.max
  have hpayload := h.payload.size
  have hpad := h.payload.pad_lt
  have hcsum : 13 ≤ ms32Csum (decide (n - 3 ≥ 96)) := by
    cases decide (n - 3 ≥ 96) <;> decide
  rw [List.length_append, h.header_length] at hsize
  have hlt : ∀ v ∈ header, v.toNat < 32 := fun v hv => h.lt v (List.mem_append_left five hv)
  have hcharvals := scCharvals_map hlt
  obtain ⟨str', hencode⟩ : ∃ str', codex32Encode r.k r.id r.shareIndex r.payload 131 = .ok str' := by
    match header, h.header_length, hlt, h.header_eq with
    | [a, b₀, b₁, b₂, b₃, c], _, hlt, heq =>
      unfold codex32Header at heq
      obtain ⟨ha, hrest⟩ := List.cons.inj heq
      have happend : [b₀, b₁, b₂, b₃].map scChar ++ [scChar c] =
          (List.range 4).map (fun i => scTolower (r.id.getD i 0)) ++ [scTolower r.shareIndex] :=
        hrest
      have hb := List.append_inj_left happend rfl
      have hc := List.cons.inj (List.append_inj_right happend rfl)
      refine @codex32Encode_isOk r.k r.id r.shareIndex r.payload 131 a c [b₀, b₁, b₂, b₃]
        h.threshold ?_ ?_ ?_ h.payload_pos (by omega) (by omega)
      · rw [← ha]
        exact charval_scChar a (hlt a (by simp))
      · rw [← hb]
        exact scCharvals_map (fun v hv => hlt v (List.mem_cons_of_mem _ (List.mem_append_left [c] hv)))
      · rw [← hc.1]
        exact charval_scChar c (hlt c (by simp))
  obtain ⟨-, -, data, header', five', pad', hd, rfl⟩ := codex32Encode_eq_ok hencode
  have hheader : header' = header := by
    have hboth := scCharvals_map hd.header_lt
    rw [hd.header_eq, ← h.header_eq, hcharvals] at hboth
    exact (Option.some.inj hboth).symm
  refine ⟨five', ?_, LooseSymbols.upToPad hd.payload_eq h.payload⟩
  rw [← hheader, ← hd.eq]
  exact hencode

/-- **What a string of the code is like**: of one case, not of 98 characters, and short. -/
theorem IsCodex32.canonical {str : Bytes} {r : Codex32} (h : IsCodex32 str r) :
    ¬ MixedCase str ∧ str.length ≠ 98 ∧ str.length < 2 ^ 32 := by
  obtain ⟨outCap, header, five, five', hheader, hltHeader, hencode, hpad, hcase⟩ := h
  have hlt : ∀ v ∈ header ++ five', v.toNat < 32 := by
    intro v hv
    rcases List.mem_append.mp hv with hv | hv
    · exact hltHeader v hv
    · exact hpad.lt v hv
  have hsmall := map_scTolower_of_uniformCase (codex32String_small hlt) hcase
  have hsame : (header ++ five').length = (header ++ five).length := by
    rw [List.length_append, List.length_append, hpad.length_eq]
  have hlength : str.length = 3 + (header ++ five).length +
      ms32Csum (codex32Long (header ++ five)) := by
    have hstr := congrArg List.length hsmall
    rw [List.length_map, length_codex32String] at hstr
    rw [hstr]
    unfold codex32Long
    rw [hsame]
  have hencodeLen := codex32Encode_length hencode
  rw [length_codex32String, ← hlength] at hencodeLen
  refine ⟨?_, ?_, by omega⟩
  · rw [← uniformCase_iff, hsmall]
    exact hcase
  · -- no data are as long as those of a string of 98 characters
    have hlong : ms32Csum true = 15 := rfl
    have hshort : ms32Csum false = 13 := rfl
    have hthreshold : ms32LongDataThreshold = 80 := rfl
    unfold codex32Long at hlength
    by_cases hdata : (header ++ five).length > ms32LongDataThreshold
    · rw [decide_eq_true hdata] at hlength
      omega
    · rw [decide_eq_false hdata] at hlength
      omega

/-- **Which accepted strings are strings of the code**: those of one case, that are not of 98
    characters and whose length the decoder reads as it is. -/
theorem codex32Decode_isCodex32_iff {str : Bytes} {payloadCap : Nat} {r : Codex32}
    (h : codex32Decode str payloadCap = .ok r) :
    IsCodex32 str r ↔ ¬ MixedCase str ∧ str.length ≠ 98 ∧ str.length < 2 ^ 32 := by
  constructor
  · exact IsCodex32.canonical
  rintro ⟨hmixed, h98, hword⟩
  obtain ⟨n, header, five, pad, ha⟩ := codex32Decode_eq_ok h
  have hsize := ha.size
  obtain ⟨q, hq⟩ := intOfSize_eq ha.length_eq
  have hn : str.length = n := by omega
  have hpayload := ha.payload.size
  have hpad := ha.payload.pad_lt
  -- data of 94 symbols have seven bits behind the last byte
  have h97 : n ≠ 97 := by
    intro h97
    have hcsum : ms32Csum (decide (n - 3 ≥ 96)) = 13 := by rw [h97]; rfl
    rw [hcsum, List.length_append, ha.header_length] at hsize
    omega
  have hlong : codex32Long (header ++ five) = decide (n - 3 ≥ 96) :=
    (codex32Long_of_length rfl hsize).mpr ⟨h97, by omega⟩
  have hsmall : str.map scTolower = codex32String (header ++ five) := by
    have hchars := ha.chars
    rw [← hn, List.take_length, hn, ← hlong] at hchars
    exact hchars
  obtain ⟨five', hencode, hupto⟩ := ha.encode
  refine ⟨131, header, five', five, ha.header_length,
    fun v hv => ha.lt v (List.mem_append_left five hv), hencode, hupto, ?_⟩
  rw [← hsmall]
  exact uniformCase_iff.mpr hmixed

namespace Codex32Demo

/-- One byte, in the letters of the encoder. -/
def plain : Bytes := "ms10testsqq3sz8jjx6uz57n".toList.map ascii

/-- The same with its first letter as a capital. -/
def mixed : Bytes := "Ms10testsqq3sz8jjx6uz57n".toList.map ascii

/-- 82 symbols of data with the short checksum. -/
def between : Bytes :=
  "ms10tests".toList.map ascii ++ List.replicate 76 (ascii 'q') ++
    "zhnk538ueydgt".toList.map ascii

def fields (payload : Bytes) : Codex32 where
  k := 0
  id := ['t', 'e', 's', 't'].map ascii
  shareIndex := ascii 's'
  payload := payload

theorem codex32Decode_isCodex32_iff_demo :
    IsCodex32 plain (fields [0]) ↔
      ¬ MixedCase plain ∧ plain.length ≠ 98 ∧ plain.length < 2 ^ 32 :=
  @codex32Decode_isCodex32_iff plain 64 (fields [0]) (by decide +kernel)

/-- A string of mixed case is taken, and so is one of 98 characters. -/
theorem not_isCodex32 :
    codex32Decode mixed 64 = .ok (fields [0]) ∧ ¬ IsCodex32 mixed (fields [0]) ∧
      codex32Decode between 64 = .ok (fields (List.replicate 47 0)) ∧
      ¬ IsCodex32 between (fields (List.replicate 47 0)) := by
  refine ⟨by decide +kernel, ?_, by decide +kernel, ?_⟩
  · intro h
    exact h.canonical.1 ⟨⟨ascii 's', by decide, by decide⟩,
      ⟨ascii 'M', by decide, by decide⟩⟩
  · intro h
    exact h.canonical.2.1 (by decide)

end Codex32Demo

end VeraCrypt
