import VeraCrypt.Lib.PackedGf32
import VeraCrypt.Threshold.ShareCode

/-!
# What the checksum of a share code detects (`Common/ShareCode.c`)

The register of the checksum is a vector of six elements of GF(32), and a step without a symbol
is linear over that field (`scShift`). So the register after some errors is the combination of
its powers with the errors as coefficients (`polymod_eq_combination`), and that no four errors in
85 places cancel is that no three of the powers after the first are dependent beside it. That is
computed once (`columns_independent`).
-/

set_option autoImplicit false

namespace VeraCrypt

open Lib

/-! ## The register as a vector -/

/-- A step of the register without a symbol. -/
def scShift (s : Nat) : Nat := ((s % 2 ^ 25) <<< 5) ^^^ scale (s >>> 25) 0x3b6a57b2

/-- The register that holds `x`, after each of `n` steps. -/
def powers : Nat → Nat → List Nat
  | 0, _ => []
  | n + 1, x => x :: powers n (scShift x)

/-- Moduli for the computation. -/
def columnModuli : List Nat :=
  [733, 728, 617, 803, 839, 744, 637, 722, 688, 472, 580, 548, 592, 438, 544, 426, 416, 375, 538,
   447, 340, 430, 560, 484, 435, 510, 362, 278, 413, 391, 404, 334, 337, 307, 308, 222, 371, 192,
   183, 258, 215, 261, 315, 188, 200, 130, 274, 204, 189, 207, 151, 184, 152, 151, 122, 113, 136,
   110, 98, 87, 85, 58, 115, 49, 58, 45, 59, 57, 36, 32, 37, 26, 51, 41, 32, 23, 22, 14, 11, 7, 5,
   3, 2, 1]

/-- The elements but the first of the registers after 1 to 84 steps. -/
def columns : List Nat := (powers 84 (scShift 1)).map (fun x => x >>> 5)

/-- **No three of 84 columns are dependent.** -/
theorem columns_independent : independentThree columnModuli columns = true := by
  decide +kernel

example : columns.length = 84 := by decide +kernel

theorem scShift_xor : XorHom scShift := by
  intro a b
  unfold scShift
  rw [Nat.xor_mod_two_pow, Nat.shiftLeft_xor_distrib, Nat.shiftRight_xor_distrib]
  have hsum : scale (a >>> 25 ^^^ b >>> 25) 0x3b6a57b2 =
      scale (a >>> 25) 0x3b6a57b2 ^^^ scale (b >>> 25) 0x3b6a57b2 := scale_xor_left _ _ _
  rw [hsum]
  ac_rfl

theorem scShift_lt (s : Nat) : scShift s < 2 ^ 30 := by
  have hlow : (s % 2 ^ 25) <<< 5 < 2 ^ 30 := by
    have hlt := Nat.mod_lt s (Nat.two_pow_pos 25)
    rw [Nat.shiftLeft_eq]
    omega
  exact Nat.xor_lt_two_pow hlow (scale_lt _ (by decide))

/-- The step is linear. -/
theorem scShift_scale {c x : Nat} (hc : c < 32) (hx : x < 2 ^ 30) :
    scShift (scale c x) = scale c (scShift x) := by
  have hbasis : ∀ i < 5, ∀ k < 30,
      scShift (scale (2 ^ i) (2 ^ k)) = scale (2 ^ i) (scShift (2 ^ k)) := by decide +kernel
  refine @bilinear_ext (fun c x => scShift (scale c x)) (fun c x => scale c (scShift x))
    ?_ ?_ ?_ ?_ hbasis c x hc hx
  · exact fun x => scShift_xor.comp (scale_xor_left x)
  · exact fun x => scale_xor_left _
  · exact fun c => scShift_xor.comp (scale_xor_right c)
  · exact fun c => (scale_xor_right c).comp scShift_xor

/-- The constants the top symbol selects are its multiple of one vector. -/
theorem select_eq_scale {b : Nat} (hb : b < 32) : scBch.select b = scale b 0x3b6a57b2 := by
  have hbasis : ∀ i < 5, scBch.select (2 ^ i) = scale (2 ^ i) 0x3b6a57b2 := by decide
  exact XorHom.ext scBch.select_xor (scale_xor_left _) hbasis hb

theorem step_eq_scShift {s : Nat} (hs : s < 2 ^ 30) (v : Nat) :
    scBch.step s v = scShift s ^^^ v := by
  have htop : scBch.top = 25 := rfl
  have hb : s >>> 25 < 32 := by
    rw [Nat.shiftRight_eq_div_pow]
    omega
  unfold Bch.step scShift
  rw [htop, select_eq_scale hb]
  ac_rfl

/-- Nothing but an empty register is empty after a step. -/
theorem scShift_eq_zero {s : Nat} (hs : s < 2 ^ 30) (h : scShift s = 0) : s = 0 := by
  have hb : s >>> 25 < 32 := by
    rw [Nat.shiftRight_eq_div_pow]
    omega
  have hlow : (s % 2 ^ 25) <<< 5 % 2 ^ 5 = 0 := by
    rw [Nat.shiftLeft_eq]
    exact Nat.mul_mod_left _ _
  -- the lowest symbol of what the top selects is zero
  have hsel := congrArg (· % 2 ^ 5) h
  unfold scShift at hsel
  simp only [Nat.xor_mod_two_pow, hlow, Nat.zero_xor, Nat.zero_mod] at hsel
  have htop : s >>> 25 = 0 := by
    have hall : ∀ b < 32, scale b 0x3b6a57b2 % 2 ^ 5 = 0 → b = 0 := by decide
    exact hall _ hb hsel
  unfold scShift at h
  rw [htop, scale_zero_left, Nat.xor_zero, Nat.shiftLeft_eq] at h
  rw [Nat.shiftRight_eq_div_pow] at htop
  omega

/-! ## Errors as a combination -/

@[simp] theorem length_powers (n x : Nat) : (powers n x).length = n := by
  induction n generalizing x with
  | zero => rfl
  | succ n ih => rw [powers, List.length_cons, ih]

theorem powers_lt {n x : Nat} (hx : x < 2 ^ 30) : ∀ v ∈ powers n x, v < 2 ^ 30 := by
  induction n generalizing x with
  | zero => simp [powers]
  | succ n ih =>
    intro v hv
    rcases List.mem_cons.mp hv with rfl | hv
    · exact hx
    · exact ih (scShift_lt x) v hv

theorem combination_lt {cs vs : List Nat} (hv : ∀ v ∈ vs, v < 2 ^ 30) :
    combination cs vs < 2 ^ 30 := by
  induction cs generalizing vs with
  | nil => exact Nat.two_pow_pos 30
  | cons c cs ih =>
    cases vs with
    | nil => exact Nat.two_pow_pos 30
    | cons v vs =>
      exact Nat.xor_lt_two_pow (scale_lt c (hv v (by simp)))
        (ih (fun y hy => hv y (by simp [hy])))

section
variable {cs : List Nat} (hc : ∀ c ∈ cs, c < 32)
include hc

/-- A step more for each power is a step of the combination. -/
theorem combination_powers_scShift {x : Nat} (hx : x < 2 ^ 30) (n : Nat) :
    combination cs (powers n (scShift x)) = scShift (combination cs (powers n x)) := by
  induction cs generalizing n x with
  | nil => exact scShift_xor.map_zero.symm
  | cons c cs ih =>
    cases n with
    | zero => exact scShift_xor.map_zero.symm
    | succ n =>
      rw [powers, powers, combination, combination, scShift_xor,
        scShift_scale (hc c (by simp)) hx, ih (fun d hd => hc d (by simp [hd])) (scShift_lt x)]

/-- Only as many powers matter as there are coefficients. -/
theorem combination_powers_length {n m : Nat} (hn : cs.length ≤ n) (hm : cs.length ≤ m) (x : Nat) :
    combination cs (powers n x) = combination cs (powers m x) := by
  induction cs generalizing n m x with
  | nil => rfl
  | cons c cs ih =>
    cases n with
    | zero => simp at hn
    | succ n =>
      cases m with
      | zero => simp at hm
      | succ m =>
        rw [powers, powers, combination, combination,
          ih (fun d hd => hc d (by simp [hd])) (by simpa using hn) (by simpa using hm)]

/-- The elements of a combination but its first. -/
theorem combination_shiftRight {vs : List Nat} (hv : ∀ v ∈ vs, v < 2 ^ 30) :
    combination cs (vs.map (fun x => x >>> 5)) = combination cs vs >>> 5 := by
  induction cs generalizing vs with
  | nil => exact (Nat.zero_shiftRight 5).symm
  | cons c cs ih =>
    cases vs with
    | nil => exact (Nat.zero_shiftRight 5).symm
    | cons v vs =>
      have hscale : scale c (v >>> 5) = scale c v >>> 5 :=
        @scale_shiftRight c v 1 (hc c (by simp)) (hv v (by simp)) (by omega)
      rw [List.map_cons, combination, combination, hscale, Nat.shiftRight_xor_distrib,
        ih (fun d hd => hc d (by simp [hd])) (fun y hy => hv y (by simp [hy]))]

/-- **Four errors in 85 places do not cancel.** -/
theorem combination_powers_ne_zero (hlen : cs.length ≤ 85) (h : weight cs ≤ 4)
    (hzero : combination cs (powers 85 1) = 0) : ∀ c ∈ cs, c = 0 := by
  induction cs with
  | nil => simp
  | cons c cs ih =>
    have hc' : ∀ d ∈ cs, d < 32 := fun d hd => hc d (by simp [hd])
    have hlen' : cs.length ≤ 84 := by
      rw [List.length_cons] at hlen
      omega
    have hsplit : scale c 1 ^^^ combination cs (powers 84 (scShift 1)) = 0 := hzero
    by_cases h0 : c = 0
    · -- the lowest place is free of errors: one step back
      subst h0
      rw [weight_cons_zero] at h
      rw [scale_zero_left, Nat.zero_xor, combination_powers_scShift hc' (by decide),
        combination_powers_length hc' hlen' (by omega : cs.length ≤ 85)] at hsplit
      have hrest := ih hc' (by omega) h
        (scShift_eq_zero (combination_lt (powers_lt (by decide))) hsplit)
      intro d hd
      rcases List.mem_cons.mp hd with rfl | hd
      · rfl
      · exact hrest d hd
    · -- it is not: the others cancel in every element but the first
      rw [weight_cons h0] at h
      have hc0 := hc c (by simp)
      have hothers : combination cs columns = 0 := by
        have hsame := Nat.xor_eq_zero_iff.mp hsplit
        unfold columns
        rw [combination_shiftRight hc' (powers_lt (scShift_lt 1)), ← hsame, scale_one_right hc0,
          Nat.shiftRight_eq_div_pow, Nat.div_eq_of_lt (by omega)]
      have hcolumns : ∀ v ∈ columns, v < 2 ^ 30 := by
        intro v hv
        obtain ⟨x, hx, rfl⟩ := List.mem_map.mp hv
        exact (Nat.shiftRight_le x 5).trans_lt (powers_lt (scShift_lt 1) x hx)
      have hrest := independentThree_spec columns_independent
        (by rw [columns, List.length_map, length_powers]; exact hlen') hc' hcolumns (by omega)
        hothers
      have hw : weight cs = 0 := by
        unfold weight
        rw [List.countP_eq_zero]
        intro x hx
        simp [hrest x hx]
      rw [combination_powers_scShift hc' (by decide),
        (combination_of_weight_zero hw).2, scShift_xor.map_zero, Nat.xor_zero,
        scale_one_right hc0] at hsplit
      exact absurd hsplit h0

/-- The register after some errors. -/
theorem polymod_eq_combination {n : Nat} (hn : cs.length ≤ n) :
    scBch.polymod 0 cs = combination cs.reverse (powers n 1) := by
  induction cs using List.reverseRecOn generalizing n with
  | nil => rfl
  | append_singleton cs c ih =>
    rw [List.length_append, List.length_singleton] at hn
    have hc' : ∀ d ∈ cs, d < 32 := fun d hd => hc d (by simp [hd])
    have hrev : ∀ d ∈ cs.reverse, d < 32 := fun d hd => hc' d (List.mem_reverse.mp hd)
    have hlt : scBch.polymod 0 cs < 2 ^ 30 := scBch.polymod_lt (by decide) hc'
    obtain ⟨m, rfl⟩ := Nat.exists_eq_add_of_le' (by omega : 1 ≤ n)
    have hlast : scBch.polymod 0 (cs ++ [c]) = scShift (scBch.polymod 0 cs) ^^^ c := by
      rw [Bch.polymod_append]
      exact step_eq_scShift hlt c
    rw [hlast, List.reverse_append, List.reverse_singleton, List.singleton_append, powers,
      combination, scale_one_right (hc c (by simp)), combination_powers_scShift hrev (by decide),
      ← ih hc' (by omega), Nat.xor_comm]

end

/-! ## Strings with some characters replaced -/

/-- In how many places two strings differ. -/
def changes (s t : Bytes) : Nat := (s.zip t).countP (fun p => p.1 ≠ p.2)

/-- The errors between two lists of symbols. -/
def errors (us vs : Bytes) : List Nat :=
  List.zipWith (· ^^^ ·) (us.map UInt8.toNat) (vs.map UInt8.toNat)

section
variable {us vs : Bytes} (hlen : us.length = vs.length)
include hlen

/-- Places that differ as characters have an error as symbols. -/
theorem weight_errors (hu : ∀ u ∈ us, u.toNat < 32) (hv : ∀ v ∈ vs, v.toNat < 32) :
    weight (errors us vs) = changes (us.map scChar) (vs.map scChar) := by
  induction us generalizing vs with
  | nil => rfl
  | cons u us ih =>
    cases vs with
    | nil => simp at hlen
    | cons v vs =>
      have hrest := ih (by simpa using hlen) (fun x hx => hu x (by simp [hx]))
        (fun x hx => hv x (by simp [hx]))
      have hsame : scChar u = scChar v ↔ u.toNat ^^^ v.toNat = 0 := by
        rw [Nat.xor_eq_zero_iff, UInt8.toNat_inj]
        constructor
        · intro h
          have hcu := charval_scChar u (hu u (by simp))
          have hcv := charval_scChar v (hv v (by simp))
          rw [h, hcv] at hcu
          exact (Option.some.inj hcu).symm
        · rintro rfl
          rfl
      unfold weight errors changes at hrest ⊢
      simp only [List.map_cons, List.zipWith_cons_cons, List.zip_cons_cons, List.countP_cons,
        ne_eq, decide_not, Bool.not_eq_true', decide_eq_false_iff_not, hsame]
      simp only [ne_eq, decide_not] at hrest
      rw [hrest]

theorem errors_lt (hu : ∀ u ∈ us, u.toNat < 32) (hv : ∀ v ∈ vs, v.toNat < 32) :
    ∀ e ∈ errors us vs, e < 32 := by
  induction us generalizing vs with
  | nil => simp [errors]
  | cons u us ih =>
    cases vs with
    | nil => simp at hlen
    | cons v vs =>
      intro e he
      unfold errors at he
      rw [List.map_cons, List.map_cons, List.zipWith_cons_cons] at he
      rcases List.mem_cons.mp he with rfl | he
      · exact Nat.xor_lt_two_pow (n := 5) (hu u (by simp)) (hv v (by simp))
      · exact ih (by simpa using hlen) (fun x hx => hu x (by simp [hx]))
          (fun x hx => hv x (by simp [hx])) e he

theorem length_errors : (errors us vs).length = us.length := by
  unfold errors
  rw [List.length_zipWith, List.length_map, List.length_map, hlen, Nat.min_self]

/-- Two lists of symbols that both pass differ by errors that cancel. -/
theorem polymod_errors (hu : scPolymod (scHrpExpand ++ us) = scBech32mConst)
    (hv : scPolymod (scHrpExpand ++ vs) = scBech32mConst) :
    scBch.polymod 0 (errors us vs) = 0 := by
  have hnat := congrArg UInt32.toNat hu
  have hnat' := congrArg UInt32.toNat hv
  rw [toNat_scPolymod, List.map_append, Bch.polymod_append] at hnat hnat'
  have hcount : (us.map UInt8.toNat).length = (vs.map UInt8.toNat).length := by
    rw [List.length_map, List.length_map, hlen]
  have hsum := scBch.polymod_xor hcount
    (scBch.polymod 1 (scHrpExpand.map UInt8.toNat)) (scBch.polymod 1 (scHrpExpand.map UInt8.toNat))
  rw [hnat, hnat', Nat.xor_self, Nat.xor_self] at hsum
  exact hsum

/-- **A list of symbols with one to four errors does not pass.** -/
theorem scPolymod_of_errors (hu : ∀ u ∈ us, u.toNat < 32) (hv : ∀ v ∈ vs, v.toNat < 32)
    (h85 : us.length ≤ 85) (h1 : 1 ≤ weight (errors us vs)) (h4 : weight (errors us vs) ≤ 4)
    (hpass : scPolymod (scHrpExpand ++ us) = scBech32mConst) :
    scPolymod (scHrpExpand ++ vs) ≠ scBech32mConst := by
  intro hpass'
  have hzero := polymod_errors hlen hpass hpass'
  have hlt := errors_lt hlen hu hv
  have hcount : (errors us vs).length ≤ 85 := by rwa [length_errors hlen]
  rw [polymod_eq_combination hlt hcount] at hzero
  have hrev : weight (errors us vs).reverse = weight (errors us vs) := List.countP_reverse
  have hall := combination_powers_ne_zero (fun c hc => hlt c (List.mem_reverse.mp hc))
    (by rwa [List.length_reverse]) (by rw [hrev]; exact h4) hzero
  have hnone : weight (errors us vs) = 0 := by
    unfold weight
    rw [List.countP_eq_zero]
    intro x hx
    simp [hall x (List.mem_reverse.mpr hx)]
  omega

end

theorem scChar_of_mem {c : UInt8} (h : c ∈ scCharset) : ∃ v : UInt8, v.toNat < 32 ∧ scChar v = c := by
  obtain ⟨n, hn, rfl⟩ := List.mem_iff_getElem.mp h
  have h32 : scCharset.length = 32 := rfl
  have hback : (UInt8.ofNat n).toNat = n := by
    rw [UInt8.toNat_ofNat']
    omega
  refine ⟨UInt8.ofNat n, by omega, ?_⟩
  unfold scChar
  rw [hback, List.getD_eq_getElem _ _ hn]

theorem symbols_of_chars {cs : Bytes} (h : ∀ c ∈ cs, c ∈ scCharset) :
    ∃ vs : Bytes, (∀ v ∈ vs, v.toNat < 32) ∧ vs.map scChar = cs := by
  induction cs with
  | nil => exact ⟨[], by simp, rfl⟩
  | cons c cs ih =>
    obtain ⟨v, hv, rfl⟩ := scChar_of_mem (h c (by simp))
    obtain ⟨vs, hvs, rfl⟩ := ih (fun d hd => h d (by simp [hd]))
    refine ⟨v :: vs, ?_, rfl⟩
    intro u hu
    rcases List.mem_cons.mp hu with rfl | hu
    · exact hv
    · exact hvs u hu

theorem changes_append {a b : Bytes} (s t : Bytes) (h : a.length = b.length) :
    changes (a ++ s) (b ++ t) = changes a b + changes s t := by
  unfold changes
  rw [List.zip_append h, List.countP_append]

theorem changes_self (s : Bytes) : changes s s = 0 := by
  unfold changes
  rw [List.countP_eq_zero]
  intro p hp
  have hsame : p.1 = p.2 := by
    have hmem := hp
    rw [List.zip_eq_zipWith, List.zipWith_self] at hmem
    obtain ⟨x, _, rfl⟩ := List.mem_map.mp hmem
    rfl
  simp [hsame]

/-- **Every replacement of one to four characters is detected**: of a valid code of at most 89
    characters, in the data part, by characters of the alphabet. -/
theorem shareCode_detects {code str y : Bytes} {r : ShamirShare × Option Bytes}
    (hvalid : shareCodeDecode code y = .ok r) (h89 : code.length ≤ 89)
    (hlen : str.length = code.length) (hbegin : str.take 4 = code.take 4)
    (hchars : ∀ c ∈ str.drop 4, c ∈ scCharset) (h1 : 1 ≤ changes code str)
    (h4 : changes code str ≤ 4) (y' : Bytes) :
    shareCodeDecode str y' = .error shareCodeErrChecksum := by
  obtain ⟨payload, five, pad, hsym, hint, htake, _⟩ := shareCodeDecode_eq_ok hvalid
  have hfiveLen := length_shareString five
  rw [intOfSize_of_lt (by omega)] at hint
  have hcode : code = shareString five := by
    rw [← htake, List.take_of_length_le (by omega)]
  have hcodeLen : code.length = 10 + five.length := by rw [hcode, hfiveLen]
  set all := five ++ scChecksum five with hall
  have hallLen : all.length = code.length - 4 := by
    rw [hall, List.length_append, length_scChecksum]
    omega
  have hallLt : ∀ v ∈ all, v.toNat < 32 := by
    intro v hv
    rcases List.mem_append.mp hv with hv | hv
    · exact hsym.lt v hv
    · exact scChecksum_lt hv
  have hparts : code = code.take 4 ++ all.map scChar := by
    have hdrop : code.drop 4 = all.map scChar := by
      rw [hcode]
      rfl
    rw [← hdrop, List.take_append_drop]
  -- the symbols of the changed string
  obtain ⟨vs, hvs, hmap⟩ := symbols_of_chars hchars
  have hvsLen : all.length = vs.length := by
    have hcount := congrArg List.length hmap
    rw [List.length_map, List.length_drop] at hcount
    omega
  have hstr : str = code.take 4 ++ vs.map scChar := by
    rw [hmap, ← hbegin, List.take_append_drop]
  have hchanges : changes code str = weight (errors all vs) := by
    rw [weight_errors hvsLen hallLt hvs]
    generalize code.take 4 = start at hparts hstr
    rw [hparts, hstr, changes_append _ _ rfl, changes_self, Nat.zero_add]
  have hfail := scPolymod_of_errors hvsLen hallLt hvs (by omega) (by omega) (by omega)
    (scPolymod_scChecksum hsym.lt)
  have hstart : code.take 4 = scHrp ++ [ascii '1'] := by
    rw [hcode]
    rfl
  have hbegins : ¬ (str.take 3 ≠ scHrp ∨ str.getD 3 0 ≠ ascii '1') := by
    rw [hstr, hstart, not_or, not_not, not_not]
    exact ⟨rfl, rfl⟩
  have hdata : slice str 4 (str.length - 4) = vs.map scChar := by
    rw [hmap]
    exact List.take_of_length_le (by rw [List.length_drop])
  have hmaxLen : (shareCodeMaxLen : Int) = 200 := rfl
  unfold shareCodeDecode
  simp only [intOfSize_of_lt (show str.length < 2 ^ 31 by omega), Int.toNat_natCast]
  rw [if_neg (by omega), if_neg hbegins, hdata, scCharvals_map hvs]
  exact if_pos hfail

namespace ShareCodeDistanceDemo

/-- The code of the share with the number 3 and the values 7 and 9. -/
def code : Bytes :=
  (['v', 'c', 's', '1', 'q', 'y', 'p', 's', 'y', 'p', 'c', 'f', '6', 's', '7', '8', 'h', 'f']).map ascii

/-- The code with the first and the last character of its data part replaced. -/
def changed : Bytes :=
  (['v', 'c', 's', '1', 'p', 'y', 'p', 's', 'y', 'p', 'c', 'f', '6', 's', '7', '8', 'h', 'q']).map ascii

theorem code_eq : shareCodeEncode ShareCodeDemo.share none 200 = .ok code := by
  decide +kernel

/-- The changed code is not taken, for its checksum. -/
theorem shareCode_detects_demo :
    changes code changed = 2 ∧ shareCodeDecode changed [] = .error shareCodeErrChecksum := by
  have hcount : changes code changed = 2 := by decide +kernel
  obtain ⟨read, hread, _⟩ :=
    shareCodeDecode_shareCodeEncode ShareCodeDemo.length_y (by simp) code_eq []
  have hlen : changed.length = code.length := rfl
  have h1 : 1 ≤ changes code changed := by rw [hcount]; decide
  have h4 : changes code changed ≤ 4 := by rw [hcount]; decide
  exact ⟨hcount, shareCode_detects hread (by decide) hlen rfl (by decide +kernel) h1 h4 []⟩

end ShareCodeDistanceDemo

end VeraCrypt
