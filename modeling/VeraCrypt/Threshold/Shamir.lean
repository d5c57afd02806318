import VeraCrypt.Crypto.Primitives
import VeraCrypt.Lib.Interpolation
import VeraCrypt.Threshold.Gf256
import Mathlib.Data.List.GetD

/-!
# Secret sharing (`Common/Shamir.c`)

Every byte of the secret is the constant coefficient of a polynomial of its own, the other
coefficients are random, and a share holds the values of all the polynomials at one point.
`shamir_combine` interpolates at 0.
-/

set_option autoImplicit false

namespace VeraCrypt

open Lib

def shamirMaxShares : Nat := 16
def shamirMaxSecret : Nat := 64

structure ShamirShare where
  x : UInt8
  y : Bytes
  len : Int
  deriving DecidableEq

/-- `gf_poly_eval`, by Horner's rule from the last coefficient down. -/
def gfPolyEval : List UInt8 → UInt8 → UInt8
  | [], _ => 0
  | [c], _ => c
  | c :: cs, x => gfMul (gfPolyEval cs x) x ^^^ c

/-- The coefficients for byte `b` of the secret: the byte, then random ones. -/
def shamirCoefs (secret : Bytes) (threshold : Nat) (random : RandStream) (b : Nat) :
    List UInt8 :=
  secret.getD b 0 :: (List.range (threshold - 1)).map (fun k => random (k * secret.length + b))

/-- Share `s` of a split. Behind the secret its buffer keeps what it held. -/
def shamirShare (secret : Bytes) (threshold : Nat) (random : RandStream)
    (stack : Nat → RandStream) (s : Nat) : ShamirShare where
  x := UInt8.ofNat (s + 1)
  len := secret.length
  y := (List.range shamirMaxSecret).map (fun b =>
    if b < secret.length then
      gfPolyEval (shamirCoefs secret threshold random b) (UInt8.ofNat (s + 1))
    else stack s b)

/-- `shamir_split`; `none` is `SHAMIR_ERR_PARAM`. -/
def shamirSplit (secret : Bytes) (threshold nShares : Int) (random : RandStream)
    (stack : Nat → RandStream) : Option (List ShamirShare) :=
  if secret.length < 1 ∨ secret.length > shamirMaxSecret then none
  else if threshold < 2 ∨ nShares < threshold ∨ nShares > shamirMaxShares then none
  else
    some ((List.range nShares.toNat).map
      (shamirShare secret threshold.toNat random stack))

/-- The products of `shamir_combine` at share `i`: `num` and `den`. -/
def lagrangeNum (xs : List UInt8) (i : Nat) : UInt8 :=
  (List.range xs.length).foldl
    (fun num j => if j = i then num else gfMul num (xs.getD j 0)) 1

def lagrangeDen (xs : List UInt8) (i : Nat) : UInt8 :=
  (List.range xs.length).foldl
    (fun den j => if j = i then den else gfMul den (xs.getD j 0 ^^^ xs.getD i 0)) 1

/-- One byte of the secret: the sum of `shamir_combine` over the shares. -/
def combineByte (shares : List ShamirShare) (b : Nat) : UInt8 :=
  let xs := shares.map ShamirShare.x
  (List.range shares.length).foldl
    (fun acc i =>
      let li := gfMul (lagrangeNum xs i) (gfInv (lagrangeDen xs i))
      acc ^^^ gfMul ((shares.map (fun share => share.y.getD b 0)).getD i 0) li) 0

/-- What `shamir_combine` checks of the shares: one length, no zero and no two equal points. -/
def CombinableShares (len : Int) (shares : List ShamirShare) : Prop :=
  (∀ share ∈ shares, share.len = len ∧ share.x ≠ 0) ∧ (shares.map ShamirShare.x).Nodup

instance (len : Int) (shares : List ShamirShare) : Decidable (CombinableShares len shares) :=
  inferInstanceAs (Decidable (_ ∧ _))

/-- `shamir_combine`; `none` is `SHAMIR_ERR_PARAM`. -/
def shamirCombine (shares : List ShamirShare) : Option Bytes :=
  match shares with
  | [] => none
  | first :: _ =>
    if shares.length < 2 ∨ shares.length > shamirMaxShares then none
    else if first.len < 1 ∨ first.len > shamirMaxSecret then none
    else if ¬ CombinableShares first.len shares then none
    else some ((List.range first.len.toNat).map (combineByte shares))

/-! ## The loops as sums and products of the field -/

section

theorem gfPolyEval_eq (cs : List UInt8) (x : UInt8) :
    (⟨gfPolyEval cs x⟩ : Gf256) = (ofCoefs (cs.map Gf256.mk)).eval ⟨x⟩ := by
  induction cs with
  | nil => rw [List.map_nil, ofCoefs, Polynomial.eval_zero]; rfl
  | cons c cs ih =>
    rw [List.map_cons, eval_ofCoefs_cons, ← ih]
    cases cs with
    | nil =>
      have hzero : (⟨gfPolyEval [] x⟩ : Gf256) = 0 := rfl
      rw [hzero, mul_zero, add_zero]
      rfl
    | cons c' cs =>
      have hhorner : (⟨gfPolyEval (c :: c' :: cs) x⟩ : Gf256) =
          ⟨gfPolyEval (c' :: cs) x⟩ * ⟨x⟩ + ⟨c⟩ := rfl
      rw [hhorner, mul_comm, add_comm]

variable {f : Nat → UInt8}

theorem foldl_gfMul_ite (n i : Nat) :
    (⟨(List.range n).foldl (fun m j => if j = i then m else gfMul m (f j)) 1⟩ : Gf256) =
      ∏ j ∈ Finset.range n, if j = i then 1 else ⟨f j⟩ := by
  induction n with
  | zero => rfl
  | succ n ih =>
    rw [Finset.prod_range_succ, ← ih, List.range_succ, List.foldl_append, List.foldl_cons,
      List.foldl_nil]
    by_cases hn : n = i
    · rw [if_pos hn, if_pos hn, mul_one]
    · rw [if_neg hn, if_neg hn]
      rfl

/-- A running product that passes over one index. -/
theorem foldl_gfMul_skip (n i : Nat) :
    (⟨(List.range n).foldl (fun m j => if j = i then m else gfMul m (f j)) 1⟩ : Gf256) =
      ∏ j ∈ (Finset.range n).erase i, ⟨f j⟩ := by
  have hone : (if i = i then 1 else ⟨f i⟩ : Gf256) = 1 := if_pos rfl
  rw [foldl_gfMul_ite, ← Finset.prod_erase (Finset.range n) hone]
  refine Finset.prod_congr rfl ?_
  intro j hj
  exact if_neg (Finset.ne_of_mem_erase hj)

/-- A running xor. -/
theorem foldl_xor_sum (n : Nat) :
    (⟨(List.range n).foldl (fun acc i => acc ^^^ f i) 0⟩ : Gf256) =
      ∑ i ∈ Finset.range n, ⟨f i⟩ := by
  induction n with
  | zero => rfl
  | succ n ih =>
    rw [Finset.sum_range_succ, ← ih, List.range_succ, List.foldl_append, List.foldl_cons,
      List.foldl_nil]
    rfl

/-- The points of a list of shares. -/
def sharePoint (xs : List UInt8) (i : Nat) : Gf256 := ⟨xs.getD i 0⟩

theorem lagrangeWeight_eq (xs : List UInt8) (i : Nat) :
    (⟨gfMul (lagrangeNum xs i) (gfInv (lagrangeDen xs i))⟩ : Gf256) =
      lagrangeWeight xs.length (sharePoint xs) i := by
  have hnum : (⟨lagrangeNum xs i⟩ : Gf256) =
      ∏ j ∈ (Finset.range xs.length).erase i, sharePoint xs j := foldl_gfMul_skip _ _
  have hden : (⟨lagrangeDen xs i⟩ : Gf256) =
      ∏ j ∈ (Finset.range xs.length).erase i, (sharePoint xs j - sharePoint xs i) :=
    foldl_gfMul_skip _ _
  unfold lagrangeWeight
  rw [← hnum, ← hden]
  rfl

theorem combineByte_eq (shares : List ShamirShare) (b : Nat) :
    (⟨combineByte shares b⟩ : Gf256) =
      ∑ i ∈ Finset.range shares.length,
        ⟨(shares.map (fun share => share.y.getD b 0)).getD i 0⟩ *
          lagrangeWeight shares.length (sharePoint (shares.map ShamirShare.x)) i := by
  unfold combineByte
  simp only
  rw [foldl_xor_sum]
  refine Finset.sum_congr rfl ?_
  intro i _
  have hweight := lagrangeWeight_eq (shares.map ShamirShare.x) i
  rw [List.length_map] at hweight
  rw [← hweight]
  rfl

end

/-! ## Reconstruction -/

section
variable {secret : Bytes} {threshold nShares : Int} {random : RandStream}
  {stack : Nat → RandStream} {shares picked : List ShamirShare}

/-- What a split that is accepted gives. -/
theorem shamirSplit_some (h : shamirSplit secret threshold nShares random stack = some shares) :
    (1 ≤ secret.length ∧ secret.length ≤ shamirMaxSecret) ∧
      (2 ≤ threshold ∧ threshold ≤ nShares ∧ nShares ≤ shamirMaxShares) ∧
      shares = (List.range nShares.toNat).map
        (shamirShare secret threshold.toNat random stack) := by
  unfold shamirSplit at h
  split at h
  · exact absurd h (by simp)
  · rename_i hlen
    split at h
    · exact absurd h (by simp)
    · rename_i hcount
      refine ⟨by omega, by omega, (Option.some.inj h).symm⟩

theorem getD_shamirShare_y {s b : Nat} (hb : b < secret.length)
    (hmax : secret.length ≤ shamirMaxSecret) (t : Nat) :
    (shamirShare secret t random stack s).y.getD b 0 =
      gfPolyEval (shamirCoefs secret t random b) (shamirShare secret t random stack s).x := by
  have hb' : b < shamirMaxSecret := Nat.lt_of_lt_of_le hb hmax
  simp only [shamirShare, List.getD_eq_getElem?_getD, List.getElem?_map, List.getElem?_range hb',
    Option.map_some, Option.getD_some, if_pos hb]

/-- One byte of the secret, from enough shares at distinct points. -/
theorem combineByte_eq_secret {b t : Nat} (hb : b < secret.length)
    (hmax : secret.length ≤ shamirMaxSecret) (ht : 1 ≤ t)
    (hfrom : ∀ share ∈ picked, ∃ s, share = shamirShare secret t random stack s)
    (hdistinct : (picked.map ShamirShare.x).Nodup) (henough : t ≤ picked.length) :
    combineByte picked b = secret.getD b 0 := by
  let coefs := shamirCoefs secret t random b
  have hlen : coefs.length = t := by
    simp only [coefs, shamirCoefs, List.length_cons, List.length_map, List.length_range]
    exact Nat.sub_add_cancel ht
  have hdeg : (ofCoefs (coefs.map Gf256.mk)).degree < (picked.length : WithBot ℕ) := by
    refine lt_of_lt_of_le (degree_ofCoefs_lt _) ?_
    rw [List.length_map, hlen]
    exact_mod_cast henough
  have hinj : Set.InjOn (sharePoint (picked.map ShamirShare.x))
      (Finset.range picked.length) := by
    intro i hi j hj hij
    have hi' : i < (picked.map ShamirShare.x).length := by
      rw [List.length_map]
      exact Finset.mem_range.mp hi
    have hj' : j < (picked.map ShamirShare.x).length := by
      rw [List.length_map]
      exact Finset.mem_range.mp hj
    have hbyte : (picked.map ShamirShare.x).getD i 0 = (picked.map ShamirShare.x).getD j 0 :=
      congrArg Gf256.byte hij
    rw [List.getD_eq_getElem _ _ hi', List.getD_eq_getElem _ _ hj'] at hbyte
    exact (List.Nodup.getElem_inj_iff hdistinct).mp hbyte
  have hvalue : ∀ i ∈ Finset.range picked.length,
      (⟨(picked.map (fun share => share.y.getD b 0)).getD i 0⟩ : Gf256) =
        (ofCoefs (coefs.map Gf256.mk)).eval (sharePoint (picked.map ShamirShare.x) i) := by
    intro i hi
    have hi' : i < picked.length := Finset.mem_range.mp hi
    obtain ⟨s, hs⟩ := hfrom picked[i] (List.getElem_mem hi')
    have hy := @getD_shamirShare_y secret random stack s b hb hmax t
    rw [sharePoint, ← gfPolyEval_eq]
    simp only [List.getD_eq_getElem?_getD, List.getElem?_map, List.getElem?_eq_getElem hi',
      Option.map_some, Option.getD_some, hs] at hy ⊢
    rw [hy]
  have hzero := eval_zero_eq_sum hinj hdeg
  have hsum := combineByte_eq picked b
  rw [Finset.sum_congr rfl (fun i hi => by rw [hvalue i hi]), ← hzero] at hsum
  have hconst : (ofCoefs (coefs.map Gf256.mk)).eval 0 = ⟨secret.getD b 0⟩ := by
    simp only [coefs, shamirCoefs, List.map_cons, eval_ofCoefs_cons, zero_mul, add_zero]
  rw [hconst] at hsum
  exact congrArg Gf256.byte hsum

/-- **Any `threshold` shares, in any order, give the secret back.** -/
theorem shamirCombine_shamirSplit
    (hsplit : shamirSplit secret threshold nShares random stack = some shares)
    (hpicked : picked ⊆ shares) (hdistinct : (picked.map ShamirShare.x).Nodup)
    (henough : threshold ≤ picked.length) : shamirCombine picked = some secret := by
  obtain ⟨⟨hmin, hmax⟩, ⟨htwo, -, hshares⟩, rfl⟩ := shamirSplit_some hsplit
  have hfrom : ∀ share ∈ picked, ∃ s < nShares.toNat,
      share = shamirShare secret threshold.toNat random stack s := by
    intro share hshare
    obtain ⟨s, hs, rfl⟩ := List.mem_map.mp (hpicked hshare)
    exact ⟨s, List.mem_range.mp hs, rfl⟩
  have hmany : picked.length ≤ shamirMaxShares := by
    have hsub := List.Nodup.subperm hdistinct (List.map_subset ShamirShare.x hpicked)
    have hle := hsub.length_le
    rw [List.length_map, List.length_map, List.length_map, List.length_range] at hle
    omega
  have hcheck : CombinableShares secret.length picked := by
    refine ⟨?_, hdistinct⟩
    intro share hshare
    obtain ⟨s, hs, rfl⟩ := hfrom share hshare
    refine ⟨rfl, ?_⟩
    intro hx
    have hnat := congrArg UInt8.toNat hx
    rw [shamirShare, UInt8.toNat_ofNat', UInt8.toNat_zero] at hnat
    have h16 : nShares ≤ 16 := hshares
    omega
  cases picked with
  | nil =>
    simp only [List.length_nil] at henough
    omega
  | cons first rest =>
    have hlen : first.len = secret.length := (hcheck.1 first List.mem_cons_self).1
    unfold shamirCombine
    simp only
    rw [if_neg (by omega), if_neg (by rw [hlen]; omega), hlen, if_neg (not_not_intro hcheck)]
    refine congrArg some ?_
    rw [Int.toNat_natCast]
    apply List.ext_getElem
    · rw [List.length_map, List.length_range]
    · intro b hb hb'
      rw [List.getElem_map, List.getElem_range,
        combineByte_eq_secret hb' hmax (by omega : 1 ≤ threshold.toNat)
          (fun share hshare => (hfrom share hshare).imp fun s hs => hs.2) hdistinct (by omega),
        List.getD_eq_getElem _ _ hb']

/-- Two of three shares of a secret, in the other order. -/
theorem shamirCombine_shamirSplit_demo :
    shamirCombine
      [shamirShare [7, 200] 2 UInt8.ofNat (fun _ _ => 0) 2,
        shamirShare [7, 200] 2 UInt8.ofNat (fun _ _ => 0) 0] = some [7, 200] :=
  @shamirCombine_shamirSplit _ 2 3 UInt8.ofNat (fun _ _ => 0) _ _ rfl (by decide +kernel)
    (by decide +kernel) (by decide)

end

end VeraCrypt
