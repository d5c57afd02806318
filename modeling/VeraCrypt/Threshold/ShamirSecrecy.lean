import VeraCrypt.Threshold.Shamir
import Mathlib.SetTheory.Cardinal.Finite

/-!
# Secrecy of the shares

The random bytes of a split are the coefficients above the constant one, so fewer shares than
the threshold say nothing about the secret. To go from one secret to another, a polynomial is
added to each byte's that differs at 0 and vanishes at the points of the shares: that
takes the outcomes of the random bytes that give certain share values for the one secret to
those that give them for the other (`shamirSplit_secret`).
-/

set_option autoImplicit false

namespace VeraCrypt

open Lib

/-- The stream that starts with the bytes of an outcome. -/
def outcomeStream {m : Nat} (outcome : Fin m → UInt8) : RandStream := fun i =>
  if h : i < m then outcome ⟨i, h⟩ else 0

/-- A split gives the shares at the indices `observed` the values `v`. -/
def Gives (secret : Bytes) (threshold nShares : Int) (stack : Nat → RandStream)
    (observed : Finset Nat) (v : (s b : Nat) → UInt8) (random : RandStream) : Prop :=
  ∃ shares, shamirSplit secret threshold nShares random stack = some shares ∧
    ∀ s ∈ observed, ∃ share, shares[s]? = some share ∧
      ∀ b < secret.length, share.y.getD b 0 = v s b

/-- How many outcomes of the random bytes do. -/
noncomputable def outcomes (secret : Bytes) (threshold nShares : Int) (stack : Nat → RandStream)
    (observed : Finset Nat) (v : (s b : Nat) → UInt8) : Nat :=
  Nat.card { outcome : Fin ((threshold.toNat - 1) * secret.length) → UInt8 //
    Gives secret threshold nShares stack observed v (outcomeStream outcome) }

/-- The point of a share in the field. -/
def pointOf (s : Nat) : Gf256 := ⟨UInt8.ofNat (s + 1)⟩

/-! ## The values of one byte -/

section
variable {secret : Bytes} {threshold nShares : Int} {stack : Nat → RandStream}
  {observed : Finset Nat} {v : (s b : Nat) → UInt8} {random : RandStream}

/-- The coefficients above the constant one, for byte `b`. -/
def randomCoefs (len : Nat) (random : RandStream) (b k : Nat) : Gf256 := ⟨random (k * len + b)⟩

theorem gfPolyEval_shamirCoefs (secret : Bytes) (t : Nat) (random : RandStream) (b s : Nat) :
    (⟨gfPolyEval (shamirCoefs secret t random b) (UInt8.ofNat (s + 1))⟩ : Gf256) =
      ⟨secret.getD b 0⟩ + pointOf s *
        (ofCoefs ((List.range (t - 1)).map (randomCoefs secret.length random b))).eval
          (pointOf s) := by
  rw [gfPolyEval_eq, shamirCoefs, List.map_cons, eval_ofCoefs_cons, List.map_map]
  rfl

/-- What it takes for a split that is accepted to give the values. -/
theorem gives_iff (hlen : 1 ≤ secret.length ∧ secret.length ≤ shamirMaxSecret)
    (hcount : 2 ≤ threshold ∧ threshold ≤ nShares ∧ nShares ≤ shamirMaxShares)
    (hobserved : ∀ s ∈ observed, s < nShares.toNat) :
    Gives secret threshold nShares stack observed v random ↔
      ∀ b < secret.length, ∀ s ∈ observed,
        ⟨secret.getD b 0⟩ + pointOf s *
          (ofCoefs ((List.range (threshold.toNat - 1)).map
            (randomCoefs secret.length random b))).eval (pointOf s) = ⟨v s b⟩ := by
  have hsplit : shamirSplit secret threshold nShares random stack =
      some ((List.range nShares.toNat).map (shamirShare secret threshold.toNat random stack)) := by
    unfold shamirSplit
    rw [if_neg (by omega), if_neg (by omega)]
  have hshare : ∀ s ∈ observed,
      ((List.range nShares.toNat).map (shamirShare secret threshold.toNat random stack))[s]? =
        some (shamirShare secret threshold.toNat random stack s) := by
    intro s hs
    rw [List.getElem?_map, List.getElem?_range (hobserved s hs)]
    rfl
  have hvalue : ∀ b < secret.length, ∀ s,
      (⟨(shamirShare secret threshold.toNat random stack s).y.getD b 0⟩ : Gf256) =
        ⟨secret.getD b 0⟩ + pointOf s *
          (ofCoefs ((List.range (threshold.toNat - 1)).map
            (randomCoefs secret.length random b))).eval (pointOf s) := by
    intro b hb s
    rw [getD_shamirShare_y hb hlen.2, ← gfPolyEval_shamirCoefs]
    rfl
  constructor
  · rintro ⟨shares, hsome, hgives⟩ b hb s hs
    rw [hsplit] at hsome
    obtain rfl := Option.some.inj hsome
    obtain ⟨share, hat, hbytes⟩ := hgives s hs
    rw [hshare s hs] at hat
    obtain rfl := Option.some.inj hat
    rw [← hvalue b hb s, hbytes b hb]
  · intro h
    refine ⟨_, hsplit, ?_⟩
    intro s hs
    refine ⟨_, hshare s hs, ?_⟩
    intro b hb
    exact congrArg Gf256.byte ((hvalue b hb s).trans (h b hb s hs))

/-- A split that gives the values was accepted, and has the shares. -/
theorem Gives.accepted (h : Gives secret threshold nShares stack observed v random) :
    (1 ≤ secret.length ∧ secret.length ≤ shamirMaxSecret) ∧
      (2 ≤ threshold ∧ threshold ≤ nShares ∧ nShares ≤ shamirMaxShares) ∧
      ∀ s ∈ observed, s < nShares.toNat := by
  obtain ⟨shares, hsplit, hgives⟩ := h
  obtain ⟨hlen, hcount, rfl⟩ := shamirSplit_some hsplit
  refine ⟨hlen, hcount, ?_⟩
  intro s hs
  obtain ⟨share, hat, -⟩ := hgives s hs
  have hin := (List.getElem?_eq_some_iff.mp hat).1
  rwa [List.length_map, List.length_range] at hin

/-- The points of the shares are distinct, and not 0. -/
theorem pointOf_injOn (hmax : nShares ≤ shamirMaxShares)
    (hobserved : ∀ s ∈ observed, s < nShares.toNat) : Set.InjOn pointOf observed := by
  intro i hi j hj hij
  have hnat := congrArg (fun a => (Gf256.byte a).toNat) hij
  have hi' := hobserved i hi
  have hj' := hobserved j hj
  have hsixteen : nShares ≤ 16 := hmax
  simp only [pointOf, UInt8.toNat_ofNat'] at hnat
  omega

theorem pointOf_ne_zero (hmax : nShares ≤ shamirMaxShares) {s : Nat} (hs : s < nShares.toNat) :
    pointOf s ≠ 0 := by
  intro h
  have hnat := congrArg (fun a => (Gf256.byte a).toNat) h
  have hsixteen : nShares ≤ 16 := hmax
  simp only [pointOf, UInt8.toNat_ofNat', Gf256.byte_zero, UInt8.toNat_zero] at hnat
  omega

end

/-! ## Outcomes -/

section
variable {t len : Nat}

/-- The random coefficients of an outcome, and the outcome of given coefficients. -/
def outcomeOf (t len : Nat) (coefs : (b k : Nat) → Gf256) : Fin ((t - 1) * len) → UInt8 :=
  fun i => (coefs (i % len) (i / len)).byte

theorem index_lt {b k : Nat} (hb : b < len) (hk : k < t - 1) : k * len + b < (t - 1) * len := by
  have hstep := Nat.mul_le_mul_right len (show k + 1 ≤ t - 1 from hk)
  rw [Nat.succ_mul] at hstep
  omega

theorem index_split {b : Nat} (hb : b < len) (k : Nat) :
    (k * len + b) % len = b ∧ (k * len + b) / len = k := by
  constructor
  · rw [Nat.mul_add_mod', Nat.mod_eq_of_lt hb]
  · rw [Nat.add_comm, Nat.add_mul_div_right _ _ (by omega), Nat.div_eq_of_lt hb, Nat.zero_add]

theorem randomCoefs_outcome (outcome : Fin ((t - 1) * len) → UInt8) {b k : Nat} (hb : b < len)
    (hk : k < t - 1) :
    randomCoefs len (outcomeStream outcome) b k = ⟨outcome ⟨k * len + b, index_lt hb hk⟩⟩ := by
  unfold randomCoefs outcomeStream
  rw [dif_pos (index_lt hb hk)]

theorem randomCoefs_outcomeOf (coefs : (b k : Nat) → Gf256) {b k : Nat} (hb : b < len)
    (hk : k < t - 1) :
    randomCoefs len (outcomeStream (outcomeOf t len coefs)) b k = coefs b k := by
  obtain ⟨hmod, hdiv⟩ := index_split hb k
  rw [randomCoefs_outcome _ hb hk]
  unfold outcomeOf
  simp only [hmod, hdiv]

/-- Every outcome adds coefficients up from those of two others. -/
def addOutcome (outcome outcome' : Fin ((t - 1) * len) → UInt8) : Fin ((t - 1) * len) → UInt8 :=
  fun i => outcome i ^^^ outcome' i

theorem addOutcome_involutive (outcome' : Fin ((t - 1) * len) → UInt8) :
    Function.Involutive (fun outcome => addOutcome outcome outcome') := by
  intro outcome
  funext i
  unfold addOutcome
  simp only
  rw [UInt8.xor_assoc, UInt8.xor_self, UInt8.xor_zero]

theorem map_randomCoefs_addOutcome (outcome : Fin ((t - 1) * len) → UInt8)
    (coefs : (b k : Nat) → Gf256) {b : Nat} (hb : b < len) :
    (List.range (t - 1)).map (randomCoefs len
        (outcomeStream (addOutcome outcome (outcomeOf t len coefs))) b) =
      (List.range (t - 1)).map (fun k => randomCoefs len (outcomeStream outcome) b k +
        coefs b k) := by
  refine List.map_congr_left ?_
  intro k hk
  have hk' := List.mem_range.mp hk
  rw [← randomCoefs_outcomeOf coefs hb hk', randomCoefs_outcome _ hb hk',
    randomCoefs_outcome _ hb hk', randomCoefs_outcome _ hb hk']
  rfl

end

/-! ## Secrecy -/

section
variable {secret secret' : Bytes} {threshold nShares : Int} {stack : Nat → RandStream}
  {observed : Finset Nat} {v : (s b : Nat) → UInt8}

/-- Coefficients that take the values of one secret to those of another. -/
theorem exists_shift (hmax : nShares ≤ shamirMaxShares)
    (hobserved : ∀ s ∈ observed, s < nShares.toNat) {n : Nat} (hfew : observed.card ≤ n)
    (target : (b s : Nat) → Gf256) :
    ∃ coefs : (b k : Nat) → Gf256, ∀ b, ∀ s ∈ observed,
      pointOf s * (ofCoefs ((List.range n).map (coefs b))).eval (pointOf s) = target b s := by
  have hone : ∀ b, ∃ c : Nat → Gf256, ∀ s ∈ observed,
      (ofCoefs ((List.range n).map c)).eval (pointOf s) = (pointOf s)⁻¹ * target b s := fun b =>
    exists_ofCoefs_eval (pointOf_injOn hmax hobserved) hfew _
  choose coefs hcoefs using hone
  refine ⟨coefs, ?_⟩
  intro b s hs
  rw [hcoefs b s hs, mul_inv_cancel_left₀ (pointOf_ne_zero hmax (hobserved s hs))]

/-- Two secrets of one length are given away by as many outcomes. -/
theorem outcomes_eq (hlen : secret'.length = secret.length)
    (hfew : (observed.card : Int) < threshold) :
    outcomes secret' threshold nShares stack observed v =
      outcomes secret threshold nShares stack observed v := by
  unfold outcomes
  rw [hlen]
  by_cases haccepted : (1 ≤ secret.length ∧ secret.length ≤ shamirMaxSecret) ∧
      (2 ≤ threshold ∧ threshold ≤ nShares ∧ nShares ≤ shamirMaxShares) ∧
      ∀ s ∈ observed, s < nShares.toNat
  · obtain ⟨hsize, hcount, hobserved⟩ := haccepted
    obtain ⟨coefs, hcoefs⟩ := exists_shift hcount.2.2 hobserved
      (show observed.card ≤ threshold.toNat - 1 by omega)
      (fun b _ => (⟨secret'.getD b 0⟩ : Gf256) - ⟨secret.getD b 0⟩)
    refine Nat.card_congr (Equiv.subtypeEquiv
      ((addOutcome_involutive
        (outcomeOf threshold.toNat secret.length coefs)).toPerm
          (fun outcome => addOutcome outcome (outcomeOf threshold.toNat secret.length coefs))) ?_)
    intro outcome
    rw [Function.Involutive.coe_toPerm]
    rw [gives_iff (by rw [hlen]; exact hsize) hcount hobserved, gives_iff hsize hcount hobserved,
      hlen]
    have hbyte : ∀ b < secret.length, ∀ s ∈ observed,
        (⟨secret.getD b 0⟩ : Gf256) + pointOf s *
          (ofCoefs ((List.range (threshold.toNat - 1)).map (randomCoefs secret.length
            (outcomeStream (addOutcome outcome
              (outcomeOf threshold.toNat secret.length coefs))) b))).eval (pointOf s) =
        ⟨secret'.getD b 0⟩ + pointOf s *
          (ofCoefs ((List.range (threshold.toNat - 1)).map (randomCoefs secret.length
            (outcomeStream outcome) b))).eval (pointOf s) := by
      intro b hb s hs
      have hshift := hcoefs b s hs
      have hmap := map_randomCoefs_addOutcome outcome coefs hb
      rw [hmap, ofCoefs_range_add, Polynomial.eval_add, mul_add, hshift]
      ring
    constructor
    · intro h b hb s hs
      rw [hbyte b hb s hs]
      exact h b hb s hs
    · intro h b hb s hs
      rw [← hbyte b hb s hs]
      exact h b hb s hs
  · have hnone : ∀ (x : Bytes) (random : RandStream), x.length = secret.length →
        ¬ Gives x threshold nShares stack observed v random := by
      intro x random hx h
      obtain ⟨hsize, hcount, hobserved⟩ := h.accepted
      rw [hx] at hsize
      exact haccepted ⟨hsize, hcount, hobserved⟩
    refine Nat.card_congr (Equiv.subtypeEquivRight ?_)
    intro outcome
    exact iff_of_false (hnone secret' _ hlen) (hnone secret _ rfl)

/-- With one share fewer than the threshold, one outcome gives the values. -/
theorem outcomes_eq_one (hsize : 1 ≤ secret.length ∧ secret.length ≤ shamirMaxSecret)
    (hcount : 2 ≤ threshold ∧ threshold ≤ nShares ∧ nShares ≤ shamirMaxShares)
    (hobserved : ∀ s ∈ observed, s < nShares.toNat)
    (hall : (observed.card : Int) + 1 = threshold) :
    outcomes secret threshold nShares stack observed v = 1 := by
  have hcard : observed.card = threshold.toNat - 1 := by omega
  unfold outcomes
  rw [Nat.card_eq_one_iff_unique]
  refine ⟨⟨?_⟩, ?_⟩
  · rintro ⟨outcome, hgives⟩ ⟨outcome', hgives'⟩
    rw [gives_iff hsize hcount hobserved] at hgives hgives'
    refine Subtype.ext (funext ?_)
    rintro ⟨i, hi⟩
    -- byte `i` of an outcome is coefficient `i / len` of byte `i % len`
    have hb : i % secret.length < secret.length := Nat.mod_lt _ hsize.1
    have hk : i / secret.length < threshold.toNat - 1 := Nat.div_lt_of_lt_mul (by
      rw [Nat.mul_comm]
      exact hi)
    have hcoef := ofCoefs_eval_inj (pointOf_injOn hcount.2.2 hobserved)
      (Nat.le_of_eq hcard.symm) (fun s hs => by
        have heq := (hgives _ hb s hs).trans (hgives' _ hb s hs).symm
        exact mul_left_cancel₀ (pointOf_ne_zero hcount.2.2 (hobserved s hs))
          (add_left_cancel heq)) hk
    rw [randomCoefs_outcome _ hb hk, randomCoefs_outcome _ hb hk] at hcoef
    have hindex : i / secret.length * secret.length + i % secret.length = i :=
      Nat.div_add_mod' i secret.length
    simp only [hindex] at hcoef
    exact congrArg Gf256.byte hcoef
  · obtain ⟨coefs, hcoefs⟩ := exists_shift hcount.2.2 hobserved (Nat.le_of_eq hcard)
      (fun b s => (⟨v s b⟩ : Gf256) - ⟨secret.getD b 0⟩)
    refine ⟨outcomeOf threshold.toNat secret.length coefs,
      (gives_iff hsize hcount hobserved).mpr ?_⟩
    intro b hb s hs
    have hmap : (List.range (threshold.toNat - 1)).map (randomCoefs secret.length
        (outcomeStream (outcomeOf threshold.toNat secret.length coefs)) b) =
        (List.range (threshold.toNat - 1)).map (coefs b) := by
      refine List.map_congr_left ?_
      intro k hk
      exact randomCoefs_outcomeOf coefs hb (List.mem_range.mp hk)
    rw [hmap, hcoefs b s hs]
    ring

/-- **Secrecy of the shares**: whatever values the shares at fewer indices than the threshold
    have, two secrets of one length give them for as many outcomes of the random bytes; and at
    one index fewer than the threshold for one outcome. -/
theorem shamirSplit_secret (secret secret' : Bytes) (hlen : secret'.length = secret.length)
    (threshold nShares : Int) (stack : Nat → RandStream) (observed : Finset Nat)
    (hfew : (observed.card : Int) < threshold) (v : (s b : Nat) → UInt8) :
    outcomes secret' threshold nShares stack observed v =
        outcomes secret threshold nShares stack observed v ∧
      (1 ≤ secret.length ∧ secret.length ≤ shamirMaxSecret →
        2 ≤ threshold ∧ threshold ≤ nShares ∧ nShares ≤ shamirMaxShares →
        (∀ s ∈ observed, s < nShares.toNat) → (observed.card : Int) + 1 = threshold →
        outcomes secret threshold nShares stack observed v = 1) :=
  ⟨outcomes_eq hlen hfew, fun hsize hcount hobserved hall =>
    outcomes_eq_one hsize hcount hobserved hall⟩

/-- Two of five shares of a secret with threshold three. -/
theorem shamirSplit_secret_demo :
    outcomes [200, 100] 3 5 (fun _ _ => 0) {1, 4} (fun s b => UInt8.ofNat (s + b)) =
        outcomes [7, 9] 3 5 (fun _ _ => 0) {1, 4} (fun s b => UInt8.ofNat (s + b)) ∧
      outcomes [7, 9] 3 5 (fun _ _ => 0) {1, 4} (fun s b => UInt8.ofNat (s + b)) = 1 := by
  obtain ⟨hsame, hone⟩ := shamirSplit_secret [7, 9] [200, 100] rfl 3 5 (fun _ _ => 0) {1, 4}
    (by decide) (fun s b => UInt8.ofNat (s + b))
  exact ⟨hsame, hone (by decide) (by decide) (by decide) (by decide)⟩

end

end VeraCrypt
