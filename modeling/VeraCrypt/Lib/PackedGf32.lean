import Mathlib.Data.List.GetD
import Mathlib.Data.Nat.Bitwise

/-!
# Vectors over GF(32), packed in a number

A vector of six elements of GF(32), modulo `x ^ 5 + x ^ 3 + 1`, is a number below `2 ^ 30`:
element `p` stands in the bits from `5 * p` on. Sums are xors and multiples are `scale`. The laws
that are needed are additive for xor in each variable, so they are checked at the powers of two
(`XorHom.ext`).

A vector is normalized by making its last nonzero element 1, so two vectors are multiples of one
another when they have one normal form (`norm_scale`). With that, and by eliminating one vector
from the others, it is decided by a computation that few vectors of a list are never dependent
(`independentThree_spec`).
-/

set_option autoImplicit false

namespace VeraCrypt
namespace Lib

/-! ## Functions that are additive for xor -/

def XorHom (f : Nat → Nat) : Prop := ∀ a b, f (a ^^^ b) = f a ^^^ f b

namespace XorHom

variable {f g : Nat → Nat}

theorem map_zero (hf : XorHom f) : f 0 = 0 := by
  have h := hf 0 0
  rw [Nat.xor_self, Nat.xor_self] at h
  exact h

theorem comp (hg : XorHom g) (hf : XorHom f) : XorHom (fun a => g (f a)) := by
  intro a b
  simp only [hf a b, hg (f a) (f b)]

theorem shiftRight (k : Nat) : XorHom (fun x => x >>> k) := fun _ _ => Nat.shiftRight_xor_distrib

theorem mod (k : Nat) : XorHom (fun x => x % 2 ^ k) := fun _ _ => Nat.xor_mod_two_pow

/-- **Additive functions that agree at the powers of two agree.** -/
theorem ext (hf : XorHom f) (hg : XorHom g) {n : Nat} (h : ∀ i < n, f (2 ^ i) = g (2 ^ i))
    {x : Nat} (hx : x < 2 ^ n) : f x = g x := by
  induction n generalizing x with
  | zero =>
    have hz : x = 0 := by omega
    rw [hz, hf.map_zero, hg.map_zero]
  | succ n ih =>
    have hlow := ih (fun i hi => h i (by omega)) (Nat.mod_lt x (Nat.two_pow_pos n))
    by_cases htop : x < 2 ^ n
    · rwa [Nat.mod_eq_of_lt htop] at hlow
    · -- the top bit, and the rest
      have hsplit : x = x % 2 ^ n ^^^ 2 ^ n := by
        rw [pow_succ] at hx
        have hsub : x % 2 ^ n = x - 2 ^ n := by
          rw [Nat.mod_eq_sub_mod (by omega), Nat.mod_eq_of_lt (by omega)]
        apply Nat.eq_of_testBit_eq
        intro i
        rw [Nat.testBit_xor, Nat.testBit_mod_two_pow, Nat.testBit_two_pow]
        by_cases hi : i < n
        · rw [decide_eq_true hi, decide_eq_false (by omega : ¬ n = i), Bool.true_and,
            Bool.xor_false]
        · rw [decide_eq_false hi, Bool.false_and, Bool.false_xor]
          by_cases hn : n = i
          · subst hn
            rw [decide_eq_true rfl, Nat.testBit_eq_decide_div_mod_eq]
            have hdiv : x / 2 ^ n = 1 :=
              Nat.div_eq_of_lt_le (by omega) (by omega)
            rw [hdiv]
            rfl
          · rw [decide_eq_false hn]
            apply Nat.testBit_lt_two_pow
            have hle := Nat.pow_le_pow_right (n := 2) (by omega) (by omega : n + 1 ≤ i)
            rw [pow_succ] at hle
            omega
      rw [hsplit, hf, hg, hlow, h n (by omega)]

end XorHom

/-! ## Multiples -/

/-- The bits that are the lowest of an element, and all but the highest of each element. -/
def lowBits : Nat := 0x02108421
def innerBits : Nat := 0x1ef7bdef

/-- Twice a vector. -/
def double (x : Nat) : Nat :=
  let h := (x >>> 4) &&& lowBits
  ((x &&& innerBits) <<< 1) ^^^ (h ^^^ (h <<< 3))

/-- Bit `j` of `c`, times `x`. -/
def bitTimes (c j x : Nat) : Nat := (c >>> j % 2) * x

/-- The multiple of a vector by an element. -/
def scale (c x : Nat) : Nat :=
  let x1 := double x
  let x2 := double x1
  let x3 := double x2
  let x4 := double x3
  bitTimes c 0 x ^^^ bitTimes c 1 x1 ^^^ bitTimes c 2 x2 ^^^ bitTimes c 3 x3 ^^^ bitTimes c 4 x4

theorem double_xor : XorHom double := by
  intro a b
  unfold double
  simp only [Nat.shiftRight_xor_distrib, Nat.and_xor_distrib_right, Nat.shiftLeft_xor_distrib]
  ac_rfl

theorem bitTimes_xor_right (c j : Nat) : XorHom (bitTimes c j) := by
  intro a b
  unfold bitTimes
  rcases Nat.mod_two_eq_zero_or_one (c >>> j) with h | h
  · simp [h]
  · simp [h]

theorem bitTimes_xor_left (j x : Nat) : XorHom (fun c => bitTimes c j x) := by
  intro a b
  unfold bitTimes
  have hmod : (a ^^^ b) >>> j % 2 = (a >>> j % 2) ^^^ (b >>> j % 2) := by
    rw [Nat.shiftRight_xor_distrib]
    exact Nat.xor_mod_two_pow (n := 1)
  simp only [hmod]
  rcases Nat.mod_two_eq_zero_or_one (a >>> j) with ha | ha
  · simp [ha]
  · rcases Nat.mod_two_eq_zero_or_one (b >>> j) with hb | hb
    · simp [ha, hb]
    · simp [ha, hb]

theorem scale_xor_right (c : Nat) : XorHom (scale c) := by
  intro a b
  unfold scale
  simp only [double_xor _ _, bitTimes_xor_right _ _ _ _]
  ac_rfl

theorem scale_xor_left (x : Nat) : XorHom (fun c => scale c x) := by
  intro a b
  unfold scale
  have hbit : ∀ j y, bitTimes (a ^^^ b) j y = bitTimes a j y ^^^ bitTimes b j y :=
    fun j y => bitTimes_xor_left j y a b
  simp only [hbit]
  ac_rfl

@[simp] theorem scale_zero_left (x : Nat) : scale 0 x = 0 := (scale_xor_left x).map_zero

@[simp] theorem scale_zero_right (c : Nat) : scale c 0 = 0 := (scale_xor_right c).map_zero

@[simp] theorem scale_one (x : Nat) : scale 1 x = x := by
  simp [scale, bitTimes]

theorem double_lt (x : Nat) : double x < 2 ^ 30 := by
  have hlow : (x >>> 4) &&& lowBits < 2 ^ 26 := Nat.and_lt_two_pow _ (by decide)
  have hshift : ((x >>> 4) &&& lowBits) <<< 3 < 2 ^ 30 := by
    rw [Nat.shiftLeft_eq]
    omega
  have hinner : (x &&& innerBits) <<< 1 < 2 ^ 30 := by
    have hlt : x &&& innerBits < 2 ^ 29 := Nat.and_lt_two_pow _ (by decide)
    rw [Nat.shiftLeft_eq]
    omega
  unfold double
  exact Nat.xor_lt_two_pow hinner (Nat.xor_lt_two_pow (by omega) hshift)

theorem scale_lt (c : Nat) {x : Nat} (hx : x < 2 ^ 30) : scale c x < 2 ^ 30 := by
  have hbit : ∀ j y, y < 2 ^ 30 → bitTimes c j y < 2 ^ 30 := by
    intro j y hy
    unfold bitTimes
    rcases Nat.mod_two_eq_zero_or_one (c >>> j) with h | h
    · rw [h, Nat.zero_mul]
      exact Nat.two_pow_pos 30
    · rwa [h, Nat.one_mul]
  unfold scale
  exact Nat.xor_lt_two_pow (Nat.xor_lt_two_pow (Nat.xor_lt_two_pow (Nat.xor_lt_two_pow
    (hbit 0 _ hx) (hbit 1 _ (double_lt _))) (hbit 2 _ (double_lt _))) (hbit 3 _ (double_lt _)))
    (hbit 4 _ (double_lt _))

/-! ## The laws, from the powers of two -/

/-- Two functions of an element and a vector that are additive in both and agree at the powers
    of two. -/
theorem bilinear_ext {f g : Nat → Nat → Nat} (hf : ∀ x, XorHom (fun c => f c x))
    (hg : ∀ x, XorHom (fun c => g c x)) (hf' : ∀ c, XorHom (f c)) (hg' : ∀ c, XorHom (g c))
    (h : ∀ i < 5, ∀ k < 30, f (2 ^ i) (2 ^ k) = g (2 ^ i) (2 ^ k)) {c x : Nat} (hc : c < 32)
    (hx : x < 2 ^ 30) : f c x = g c x := by
  refine @XorHom.ext (fun c => f c x) (fun c => g c x) (hf x) (hg x) 5 ?_ c hc
  intro i hi
  exact (hf' (2 ^ i)).ext (hg' (2 ^ i)) (h i hi) hx

/-- The inverse of an element, from a table packed in a number. -/
def inverse (c : Nat) : Nat := 0x7ecedf3aa39c322bc656feb8649165eb10ac5020 >>> (5 * c) % 32

/-- The laws at the powers of two, and the table of inverses. -/
theorem scale_basis :
    (∀ i < 5, ∀ j < 5, ∀ k < 30,
      scale (2 ^ i) (scale (2 ^ j) (2 ^ k)) = scale (scale (2 ^ i) (2 ^ j)) (2 ^ k)) ∧
    (∀ q < 7, ∀ i < 5, ∀ k < 30,
      scale (2 ^ i) (2 ^ k >>> (5 * q)) = scale (2 ^ i) (2 ^ k) >>> (5 * q)) ∧
    (∀ i < 5, ∀ k < 30, scale (2 ^ i) (2 ^ k % 2 ^ 5) = scale (2 ^ i) (2 ^ k) % 2 ^ 5) ∧
    ∀ c < 32, scale c 1 = c ∧ (c ≠ 0 → scale (inverse c) c = 1) := by
  decide +kernel

/-- Products of elements: `scale` of the element alone. -/
theorem scale_scale {a b x : Nat} (ha : a < 32) (hb : b < 32) (hx : x < 2 ^ 30) :
    scale a (scale b x) = scale (scale a b) x := by
  have hbasis := scale_basis.1
  refine @XorHom.ext (fun a => scale a (scale b x)) (fun a => scale (scale a b) x)
    (scale_xor_left _) ((scale_xor_left x).comp (scale_xor_left b)) 5 ?_ a ha
  intro i hi
  refine @bilinear_ext (fun b x => scale (2 ^ i) (scale b x))
    (fun b x => scale (scale (2 ^ i) b) x) ?_ ?_ ?_ ?_ (hbasis i hi) b x hb hx
  · exact fun x => (scale_xor_right _).comp (scale_xor_left x)
  · exact fun x => (scale_xor_left x).comp (scale_xor_right _)
  · exact fun c => (scale_xor_right _).comp (scale_xor_right c)
  · exact fun c => scale_xor_right _

/-- Multiples element by element: the elements from `q` on. -/
theorem scale_shiftRight {c x q : Nat} (hc : c < 32) (hx : x < 2 ^ 30) (hq : q ≤ 6) :
    scale c (x >>> (5 * q)) = scale c x >>> (5 * q) := by
  have hbasis := scale_basis.2.1
  refine @bilinear_ext (fun c x => scale c (x >>> (5 * q))) (fun c x => scale c x >>> (5 * q))
    ?_ ?_ ?_ ?_ (hbasis q (by omega)) c x hc hx
  · exact fun x => scale_xor_left _
  · exact fun x => (XorHom.shiftRight _).comp (scale_xor_left x)
  · exact fun c => (scale_xor_right c).comp (XorHom.shiftRight _)
  · exact fun c => (XorHom.shiftRight _).comp (scale_xor_right c)

theorem scale_mod {c x : Nat} (hc : c < 32) (hx : x < 2 ^ 30) :
    scale c (x % 2 ^ 5) = scale c x % 2 ^ 5 := by
  have hbasis := scale_basis.2.2.1
  refine @bilinear_ext (fun c x => scale c (x % 2 ^ 5)) (fun c x => scale c x % 2 ^ 5)
    ?_ ?_ ?_ ?_ hbasis c x hc hx
  · exact fun x => scale_xor_left _
  · exact fun x => (XorHom.mod 5).comp (scale_xor_left x)
  · exact fun c => (scale_xor_right c).comp (XorHom.mod 5)
  · exact fun c => (XorHom.mod 5).comp (scale_xor_right c)

theorem scale_lt_32 {c s : Nat} (hc : c < 32) (hs : s < 32) : scale c s < 32 := by
  have hmod := scale_mod hc (by omega : s < 2 ^ 30)
  rw [Nat.mod_eq_of_lt (show s < 2 ^ 5 from hs)] at hmod
  rw [hmod]
  exact Nat.mod_lt _ (by decide)

/-! ## Inverses -/

theorem inverse_lt (c : Nat) : inverse c < 32 := Nat.mod_lt _ (by omega)

theorem scale_inverse {c : Nat} (hc : c < 32) (h0 : c ≠ 0) : scale (inverse c) c = 1 :=
  (scale_basis.2.2.2 c hc).2 h0

theorem scale_one_right {c : Nat} (hc : c < 32) : scale c 1 = c := (scale_basis.2.2.2 c hc).1

/-- No multiple of a vector vanishes but the trivial ones. -/
theorem scale_eq_zero {c x : Nat} (hc : c < 32) (hx : x < 2 ^ 30) (h : scale c x = 0) :
    c = 0 ∨ x = 0 := by
  by_cases h0 : c = 0
  · exact Or.inl h0
  · right
    have hundo := scale_scale (inverse_lt c) hc hx
    rw [scale_inverse hc h0, h, scale_zero_right, scale_one] at hundo
    exact hundo.symm

/-- Elements with one product by an element that is not zero are equal. -/
theorem scale_right_cancel {a b c : Nat} (ha : a < 32) (hb : b < 32) (hc : c < 32) (h0 : c ≠ 0)
    (h : scale a c = scale b c) : a = b := by
  have hsum : scale (a ^^^ b) c = 0 := by
    have hsplit : scale (a ^^^ b) c = scale a c ^^^ scale b c := scale_xor_left c a b
    rw [hsplit, h, Nat.xor_self]
  have hlt : a ^^^ b < 32 := @Nat.xor_lt_two_pow a b 5 ha hb
  rcases scale_eq_zero hlt (by omega) hsum with hzero | hzero
  · exact Nat.xor_eq_zero_iff.mp hzero
  · exact absurd hzero h0

theorem scale_inverse' {c : Nat} (hc : c < 32) (h0 : c ≠ 0) : scale c (inverse c) = 1 := by
  have hinv := inverse_lt c
  apply scale_right_cancel (scale_lt_32 hc hinv) (by decide) hc h0
  rw [← scale_scale hc hinv (by omega), scale_inverse hc h0, scale_one_right hc, scale_one]

theorem inverse_scale {d l : Nat} (hd : d < 32) (hl : l < 32) (hd0 : d ≠ 0) (hl0 : l ≠ 0) :
    scale (inverse (scale d l)) d = inverse l := by
  have hprod := scale_lt_32 hd hl
  have hprod0 : scale d l ≠ 0 := by
    intro hzero
    rcases scale_eq_zero hd (by omega) hzero with h | h
    · exact hd0 h
    · exact hl0 h
  apply scale_right_cancel (scale_lt_32 (inverse_lt _) hd) (inverse_lt _) hl hl0
  rw [← scale_scale (inverse_lt _) hd (by omega), scale_inverse hprod hprod0, scale_inverse hl hl0]

/-! ## Normal forms -/

/-- Element `p` of a vector, the place of its last nonzero element, and that element. -/
def element (x p : Nat) : Nat := x >>> (5 * p) % 32
def leadPlace (x : Nat) : Nat := x.log2 / 5
def lead (x : Nat) : Nat := element x (leadPlace x)

/-- The multiple whose last nonzero element is 1. -/
def norm (x : Nat) : Nat := scale (inverse (lead x)) x

/-- `y` less the multiple of `u` that agrees with it at the last nonzero element of `u`. -/
def elim (u y : Nat) : Nat := y ^^^ scale (element y (leadPlace u)) u

theorem element_lt (x p : Nat) : element x p < 32 := Nat.mod_lt _ (by omega)

theorem element_scale {c x p : Nat} (hc : c < 32) (hx : x < 2 ^ 30) (hp : p ≤ 6) :
    element (scale c x) p = scale c (element x p) := by
  have hlt : x >>> (5 * p) < 2 ^ 30 := (Nat.shiftRight_le x _).trans_lt hx
  have h32 : 32 = 2 ^ 5 := rfl
  unfold element
  rw [h32, scale_mod hc hlt, scale_shiftRight hc hx hp]

theorem leadPlace_lt {x : Nat} (hx : x < 2 ^ 30) : leadPlace x < 6 := by
  unfold leadPlace
  by_cases h0 : x = 0
  · rw [h0, Nat.log2_zero]
    omega
  · have hlog : x.log2 < 30 := (Nat.log2_lt h0).mpr hx
    omega

section
variable {x : Nat} (h0 : x ≠ 0)
include h0

/-- The last nonzero element stands in its place. -/
theorem leadPlace_bounds : 2 ^ (5 * leadPlace x) ≤ x ∧ x < 2 ^ (5 * (leadPlace x + 1)) := by
  unfold leadPlace
  constructor
  · exact (Nat.le_log2 h0).mp (by omega)
  · exact (Nat.log2_lt h0).mp (by omega)

theorem leadPlace_eq {p : Nat} (hlo : 2 ^ (5 * p) ≤ x) (hhi : x < 2 ^ (5 * (p + 1))) :
    leadPlace x = p := by
  have hle := (Nat.le_log2 h0).mpr hlo
  have hlt := (Nat.log2_lt h0).mpr hhi
  unfold leadPlace
  omega

theorem lead_eq : lead x = x >>> (5 * leadPlace x) := by
  obtain ⟨_, hhi⟩ := leadPlace_bounds h0
  unfold lead element
  apply Nat.mod_eq_of_lt
  rw [Nat.shiftRight_eq_div_pow]
  apply Nat.div_lt_of_lt_mul
  have hpow : 2 ^ (5 * (leadPlace x + 1)) = 2 ^ (5 * leadPlace x) * 32 := by
    rw [Nat.mul_succ, pow_add]
    exact congrArg _ (by decide : 2 ^ 5 = 32)
  omega

theorem lead_ne_zero : lead x ≠ 0 := by
  obtain ⟨hlo, _⟩ := leadPlace_bounds h0
  rw [lead_eq h0, Nat.shiftRight_eq_div_pow]
  exact (Nat.div_pos hlo (Nat.two_pow_pos _)).ne'

variable {d : Nat} (hx : x < 2 ^ 30) (hd : d < 32) (hd0 : d ≠ 0)
include hx hd hd0

theorem scale_ne_zero : scale d x ≠ 0 := by
  intro h
  rcases scale_eq_zero hd hx h with h | h
  · exact hd0 h
  · exact h0 h

theorem leadPlace_scale : leadPlace (scale d x) = leadPlace x := by
  obtain ⟨hlo, hhi⟩ := leadPlace_bounds h0
  have hplace := leadPlace_lt hx
  apply leadPlace_eq (scale_ne_zero h0 hx hd hd0)
  · by_contra hlt
    have hzero : scale d (x >>> (5 * leadPlace x)) = 0 := by
      rw [scale_shiftRight hd hx (by omega), Nat.shiftRight_eq_div_pow, Nat.div_eq_of_lt (by omega)]
    have hlead : x >>> (5 * leadPlace x) ≠ 0 := by
      rw [← lead_eq h0]
      exact lead_ne_zero h0
    rcases scale_eq_zero hd ((Nat.shiftRight_le x _).trans_lt hx) hzero with h | h
    · exact hd0 h
    · exact hlead h
  · have hzero : scale d x >>> (5 * (leadPlace x + 1)) = 0 := by
      rw [← scale_shiftRight hd hx (by omega), Nat.shiftRight_eq_div_pow, Nat.div_eq_of_lt hhi,
        scale_zero_right]
    rw [Nat.shiftRight_eq_div_pow] at hzero
    exact (Nat.div_eq_zero_iff.mp hzero).resolve_left (Nat.two_pow_pos _).ne'

theorem lead_scale : lead (scale d x) = scale d (lead x) := by
  have hplace := leadPlace_lt hx
  unfold lead
  rw [leadPlace_scale h0 hx hd hd0, element_scale hd hx (by omega)]

/-- **Multiples have one normal form.** -/
theorem norm_scale : norm (scale d x) = norm x := by
  have hl : lead x < 32 := element_lt _ _
  unfold norm
  rw [lead_scale h0 hx hd hd0, scale_scale (inverse_lt _) hd hx,
    inverse_scale hd hl hd0 (lead_ne_zero h0)]

end

theorem norm_zero : norm 0 = 0 := scale_zero_right _

theorem norm_lt {x : Nat} (hx : x < 2 ^ 30) : norm x < 2 ^ 30 := scale_lt _ hx

/-! ## Elimination -/

theorem elim_xor (u : Nat) : XorHom (elim u) := by
  intro a b
  have helem : element (a ^^^ b) (leadPlace u) =
      element a (leadPlace u) ^^^ element b (leadPlace u) := by
    unfold element
    rw [Nat.shiftRight_xor_distrib]
    exact Nat.xor_mod_two_pow (n := 5)
  have hleft := scale_xor_left u (element a (leadPlace u)) (element b (leadPlace u))
  unfold elim
  rw [helem]
  simp only [hleft]
  ac_rfl

theorem elim_lt {u y : Nat} (hu : u < 2 ^ 30) (hy : y < 2 ^ 30) : elim u y < 2 ^ 30 :=
  Nat.xor_lt_two_pow hy (scale_lt _ hu)

theorem elim_scale {u y a : Nat} (hu : u < 2 ^ 30) (hy : y < 2 ^ 30) (ha : a < 32) :
    elim u (scale a y) = scale a (elim u y) := by
  have hplace := leadPlace_lt hu
  unfold elim
  rw [element_scale ha hy (by omega), scale_xor_right a, scale_scale ha (element_lt _ _) hu]

/-- A vector's own multiples are eliminated. -/
theorem elim_norm_scale {v a : Nat} (hv : v < 2 ^ 30) (h0 : v ≠ 0) (ha : a < 32) :
    elim (norm v) (scale a v) = 0 := by
  have hl : lead v < 32 := element_lt _ _
  have hl0 := lead_ne_zero h0
  have hinv0 : inverse (lead v) ≠ 0 := by
    intro h
    have hone := scale_inverse hl hl0
    rw [h, scale_zero_left] at hone
    exact absurd hone (by decide)
  have hplace := leadPlace_lt hv
  have hu : norm v < 2 ^ 30 := norm_lt hv
  have hlead : element (norm v) (leadPlace (norm v)) = 1 := by
    unfold norm
    rw [leadPlace_scale h0 hv (inverse_lt _) hinv0, element_scale (inverse_lt _) hv (by omega)]
    exact scale_inverse hl hl0
  -- `v` is a multiple of its normal form
  have hback : v = scale (lead v) (norm v) := by
    unfold norm
    rw [scale_scale hl (inverse_lt _) hv, scale_inverse' hl hl0, scale_one]
  have hself : elim (norm v) (norm v) = 0 := by
    unfold elim
    rw [hlead, scale_one, Nat.xor_self]
  have hmul : scale a v = scale (scale a (lead v)) (norm v) := by
    rw [← scale_scale ha hl hu, ← hback]
  rw [hmul, elim_scale hu hu (scale_lt_32 ha hl), hself, scale_zero_right]

/-! ## Few vectors of a list are never dependent -/

/-- The sum of the multiples of some vectors. -/
def combination : List Nat → List Nat → Nat
  | c :: cs, v :: vs => scale c v ^^^ combination cs vs
  | _, _ => 0

/-- How many of some elements are not zero. -/
def weight (cs : List Nat) : Nat := cs.countP (· ≠ 0)

/-- The numbers are not zero and differ from one another: so do their residues modulo `m`, which
    are collected in `seen` bit by bit. -/
def distinctMod (m : Nat) : List Nat → Nat → Bool
  | [], _ => true
  | x :: xs, seen => !seen.testBit (x % m) && distinctMod m xs (seen ||| 1 <<< (x % m))

/-- No three of the vectors are dependent: each is eliminated from those after it, and what is
    left of those has normal forms that differ. The moduli are for telling them apart. -/
def independentThree : List Nat → List Nat → Bool
  | m :: ms, v :: vs =>
    v != 0 && distinctMod m (vs.map (fun y => norm (elim (norm v) y))) 1 && independentThree ms vs
  | _, [] => true
  | [], _ :: _ => false

theorem distinctMod_spec {m : Nat} {xs : List Nat} {seen : Nat}
    (h : distinctMod m xs seen = true) :
    (∀ x ∈ xs, seen.testBit (x % m) = false) ∧ xs.Nodup := by
  induction xs generalizing seen with
  | nil => exact ⟨by simp, List.nodup_nil⟩
  | cons x xs ih =>
    rw [distinctMod, Bool.and_eq_true, Bool.not_eq_true'] at h
    obtain ⟨hx, hrest⟩ := h
    obtain ⟨hnew, hnodup⟩ := ih hrest
    constructor
    · intro y hy
      rcases List.mem_cons.mp hy with rfl | hy
      · exact hx
      · have hor := hnew y hy
        rw [Nat.testBit_or, Bool.or_eq_false_iff] at hor
        exact hor.1
    · rw [List.nodup_cons]
      refine ⟨?_, hnodup⟩
      intro hmem
      have hor := hnew x hmem
      rw [Nat.testBit_or, Bool.or_eq_false_iff, Nat.one_shiftLeft, Nat.testBit_two_pow_self] at hor
      exact absurd hor.2 (by decide)

section
variable {cs vs : List Nat}

theorem weight_cons_zero (cs : List Nat) : weight (0 :: cs) = weight cs := by
  simp [weight]

theorem weight_cons {c : Nat} (hc : c ≠ 0) (cs : List Nat) :
    weight (c :: cs) = weight cs + 1 := by
  simp [weight, hc]

/-- Elements that weigh nothing are zero, and so is their combination. -/
theorem combination_of_weight_zero (h : weight cs = 0) :
    (∀ c ∈ cs, c = 0) ∧ combination cs vs = 0 := by
  induction cs generalizing vs with
  | nil => exact ⟨by simp, rfl⟩
  | cons c cs ih =>
    by_cases hc : c = 0
    · subst hc
      rw [weight_cons_zero] at h
      obtain ⟨hzero, _⟩ := @ih [] h
      refine ⟨?_, ?_⟩
      · intro d hd
        rcases List.mem_cons.mp hd with rfl | hd
        · rfl
        · exact hzero d hd
      · cases vs with
        | nil => rfl
        | cons v vs => rw [combination, scale_zero_left, (@ih vs h).2, Nat.xor_self]
    · rw [weight_cons hc] at h
      omega

/-- One element at most that is not zero: a multiple of one vector. -/
theorem combination_of_weight_one (hlen : cs.length ≤ vs.length) (hc : ∀ c ∈ cs, c < 32)
    (h : weight cs ≤ 1) :
    (∀ c ∈ cs, c = 0) ∨ ∃ d y, d < 32 ∧ d ≠ 0 ∧ y ∈ vs ∧ combination cs vs = scale d y := by
  induction cs generalizing vs with
  | nil => exact Or.inl (by simp)
  | cons c cs ih =>
    cases vs with
    | nil => simp at hlen
    | cons v vs =>
      have hlen' : cs.length ≤ vs.length := by simpa using hlen
      by_cases h0 : c = 0
      · subst h0
        rw [weight_cons_zero] at h
        rcases ih hlen' (fun d hd => hc d (by simp [hd])) h with hzero | ⟨d, y, hd, hd0, hy, heq⟩
        · left
          intro d hd
          rcases List.mem_cons.mp hd with rfl | hd
          · rfl
          · exact hzero d hd
        · right
          refine ⟨d, y, hd, hd0, by simp [hy], ?_⟩
          rw [combination, scale_zero_left, Nat.zero_xor, heq]
      · rw [weight_cons h0] at h
        right
        obtain ⟨_, hrest⟩ := @combination_of_weight_zero cs vs (by omega)
        exact ⟨c, v, hc c (by simp), h0, by simp, by rw [combination, hrest, Nat.xor_zero]⟩

/-- No two dependent: the normal forms differ and are not zero. -/
theorem combination_of_weight_two (hlen : cs.length ≤ vs.length) (hc : ∀ c ∈ cs, c < 32)
    (hv : ∀ v ∈ vs, v < 2 ^ 30) (hne : ∀ v ∈ vs, v ≠ 0) (hnorm : (vs.map norm).Nodup)
    (h : weight cs ≤ 2) (hzero : combination cs vs = 0) : ∀ c ∈ cs, c = 0 := by
  induction cs generalizing vs with
  | nil => simp
  | cons c cs ih =>
    cases vs with
    | nil => simp at hlen
    | cons v vs =>
      have hlen' : cs.length ≤ vs.length := by simpa using hlen
      have hc' : ∀ d ∈ cs, d < 32 := fun d hd => hc d (by simp [hd])
      rw [List.map_cons, List.nodup_cons] at hnorm
      rw [combination] at hzero
      by_cases h0 : c = 0
      · subst h0
        rw [weight_cons_zero] at h
        rw [scale_zero_left, Nat.zero_xor] at hzero
        have hrest := ih hlen' hc' (fun y hy => hv y (by simp [hy]))
          (fun y hy => hne y (by simp [hy])) hnorm.2 h hzero
        intro d hd
        rcases List.mem_cons.mp hd with rfl | hd
        · rfl
        · exact hrest d hd
      · rw [weight_cons h0] at h
        have hv0 := hv v (by simp)
        have hvne := hne v (by simp)
        have hc0 := hc c (by simp)
        have hsame : scale c v = combination cs vs := Nat.xor_eq_zero_iff.mp hzero
        rcases combination_of_weight_one hlen' hc' (by omega) with hall | ⟨d, y, hd, hd0, hy, heq⟩
        · have hw : weight cs = 0 := by
            unfold weight
            rw [List.countP_eq_zero]
            intro x hx
            simp [hall x hx]
          rw [(combination_of_weight_zero hw).2] at hsame
          exact absurd hsame (scale_ne_zero hvne hv0 hc0 h0)
        · have hforms : norm v = norm y := by
            rw [← norm_scale hvne hv0 hc0 h0, hsame, heq,
              norm_scale (hne y (by simp [hy])) (hv y (by simp [hy])) hd hd0]
          exact absurd (List.mem_map.mpr ⟨y, hy, hforms.symm⟩) hnorm.1

/-- Elimination in a whole combination. -/
theorem combination_elim {u : Nat} (hu : u < 2 ^ 30) (hc : ∀ c ∈ cs, c < 32)
    (hv : ∀ v ∈ vs, v < 2 ^ 30) :
    elim u (combination cs vs) = combination cs (vs.map (elim u)) := by
  induction cs generalizing vs with
  | nil => exact (elim_xor u).map_zero
  | cons c cs ih =>
    cases vs with
    | nil => exact (elim_xor u).map_zero
    | cons v vs =>
      rw [List.map_cons, combination, combination, elim_xor u,
        elim_scale hu (hv v (by simp)) (hc c (by simp)),
        ih (fun d hd => hc d (by simp [hd])) (fun y hy => hv y (by simp [hy]))]

/-- **What the computation decides**: no three of the vectors are dependent. -/
theorem independentThree_spec {ms : List Nat} (hcheck : independentThree ms vs = true)
    (hlen : cs.length ≤ vs.length) (hc : ∀ c ∈ cs, c < 32) (hv : ∀ v ∈ vs, v < 2 ^ 30)
    (h : weight cs ≤ 3) (hzero : combination cs vs = 0) : ∀ c ∈ cs, c = 0 := by
  induction cs generalizing vs ms with
  | nil => simp
  | cons c cs ih =>
    cases vs with
    | nil => simp at hlen
    | cons v vs =>
      cases ms with
      | nil => exact absurd hcheck (by simp [independentThree])
      | cons m ms =>
        have hlen' : cs.length ≤ vs.length := by simpa using hlen
        have hc' : ∀ d ∈ cs, d < 32 := fun d hd => hc d (by simp [hd])
        have hv' : ∀ y ∈ vs, y < 2 ^ 30 := fun y hy => hv y (by simp [hy])
        rw [independentThree, Bool.and_eq_true, Bool.and_eq_true, bne_iff_ne] at hcheck
        obtain ⟨⟨hvne, hdistinct⟩, hmore⟩ := hcheck
        rw [combination] at hzero
        by_cases h0 : c = 0
        · subst h0
          rw [weight_cons_zero] at h
          rw [scale_zero_left, Nat.zero_xor] at hzero
          have hrest := ih hmore hlen' hc' hv' h hzero
          intro d hd
          rcases List.mem_cons.mp hd with rfl | hd
          · rfl
          · exact hrest d hd
        · -- eliminate the first vector: two of the others remain
          rw [weight_cons h0] at h
          have hv0 := hv v (by simp)
          have hc0 := hc c (by simp)
          have hu : norm v < 2 ^ 30 := norm_lt hv0
          have helim := congrArg (elim (norm v)) hzero
          rw [elim_xor, elim_norm_scale hv0 hvne hc0, Nat.zero_xor, combination_elim hu hc' hv',
            (elim_xor _).map_zero] at helim
          obtain ⟨hseen, hnodup⟩ := distinctMod_spec hdistinct
          have hforms : (vs.map (elim (norm v))).map norm =
              vs.map (fun y => norm (elim (norm v) y)) := by rw [List.map_map]; rfl
          have hne : ∀ y ∈ vs.map (elim (norm v)), y ≠ 0 := by
            rintro y hy rfl
            have hmem : norm 0 ∈ (vs.map (elim (norm v))).map norm := List.mem_map_of_mem hy
            rw [hforms] at hmem
            have hbit := hseen _ hmem
            rw [norm_zero, Nat.zero_mod] at hbit
            exact absurd hbit (by decide)
          have hrest := combination_of_weight_two (by rwa [List.length_map]) hc' (by
            intro y hy
            obtain ⟨z, hz, rfl⟩ := List.mem_map.mp hy
            exact elim_lt hu (hv' z hz)) hne (by rwa [hforms]) (by omega) helim
          have hw : weight cs = 0 := by
            unfold weight
            rw [List.countP_eq_zero]
            intro x hx
            simp [hrest x hx]
          rw [(combination_of_weight_zero hw).2, Nat.xor_zero] at hzero
          exact absurd hzero (scale_ne_zero hvne hv0 hc0 h0)

end

end Lib
end VeraCrypt
