import VeraCrypt.Lib.Regroup
import Mathlib.Data.Nat.Bitwise

/-!
# A checksum register over symbols of five bits

A register of `w` symbols takes one symbol a step: it moves up by one symbol, and what leaves
at the top selects constants that are xored in. The step is additive for xor in the register
and the symbol together, and symbols taken into an empty register are simply written in it
until it is full. So the last `w` symbols of a message can bring the register to any wanted
value, and to each value in one way only (`polymod_append_symbols`, `symbols_unique`).
-/

set_option autoImplicit false

namespace VeraCrypt
namespace Lib

/-! ## The register -/

/-- The width of the register in symbols, and the constant each bit of the top symbol selects. -/
structure Bch where
  w : Nat
  gen : Nat → Nat
  w_pos : 0 < w
  gen_lt : ∀ j, gen j < 2 ^ (5 * w)

namespace Bch

variable (c : Bch)

/-- The constants selected by the bits of `b`. -/
def select (b : Nat) : Nat :=
  (List.range 5).foldl (fun acc j => acc ^^^ if b.testBit j then c.gen j else 0) 0

/-- The bit position of the top symbol. -/
def top : Nat := 5 * (c.w - 1)

/-- One symbol taken in. -/
def step (s v : Nat) : Nat := ((s % 2 ^ c.top) <<< 5) ^^^ v ^^^ c.select (s >>> c.top)

def polymod (s : Nat) (vs : List Nat) : Nat := vs.foldl c.step s

/-- The symbols of a register, the top one first. -/
def symbols (r : Nat) : List Nat := (List.range c.w).map (fun i => r >>> (5 * (c.w - 1 - i)) % 32)

/-! ## A step is additive -/

theorem foldl_xor (f : Nat → Nat) (l : List Nat) (a : Nat) :
    l.foldl (fun acc j => acc ^^^ f j) a = a ^^^ l.foldl (fun acc j => acc ^^^ f j) 0 := by
  induction l generalizing a with
  | nil => simp
  | cons x l ih => rw [List.foldl_cons, List.foldl_cons, ih, ih (0 ^^^ f x), Nat.zero_xor,
      Nat.xor_assoc]

theorem select_xor (a b : Nat) : c.select (a ^^^ b) = c.select a ^^^ c.select b := by
  have hterm : ∀ j, (if (a ^^^ b).testBit j then c.gen j else 0) =
      (if a.testBit j then c.gen j else 0) ^^^ if b.testBit j then c.gen j else 0 := by
    intro j
    rw [Nat.testBit_xor]
    cases a.testBit j with
    | false => cases b.testBit j <;> simp
    | true => cases b.testBit j <;> simp
  have hfold : ∀ l : List Nat,
      l.foldl (fun acc j => acc ^^^ if (a ^^^ b).testBit j then c.gen j else 0) 0 =
        l.foldl (fun acc j => acc ^^^ if a.testBit j then c.gen j else 0) 0 ^^^
          l.foldl (fun acc j => acc ^^^ if b.testBit j then c.gen j else 0) 0 := by
    intro l
    induction l with
    | nil => simp
    | cons j l ih =>
      rw [List.foldl_cons, List.foldl_cons, List.foldl_cons, foldl_xor, foldl_xor (fun j =>
        if a.testBit j then c.gen j else 0) l (0 ^^^ _), foldl_xor (fun j =>
        if b.testBit j then c.gen j else 0) l (0 ^^^ _), ih, hterm]
      simp only [Nat.zero_xor]
      ac_rfl
  exact hfold (List.range 5)

theorem select_zero : c.select 0 = 0 := by
  have h := c.select_xor 0 0
  rw [Nat.xor_self, Nat.xor_self] at h
  exact h

theorem select_lt (b : Nat) : c.select b < 2 ^ (5 * c.w) := by
  have hfold : ∀ (l : List Nat) (a : Nat), a < 2 ^ (5 * c.w) →
      l.foldl (fun acc j => acc ^^^ if b.testBit j then c.gen j else 0) a < 2 ^ (5 * c.w) := by
    intro l
    induction l with
    | nil => exact fun a ha => ha
    | cons j l ih =>
      intro a ha
      apply ih
      apply Nat.xor_lt_two_pow ha
      by_cases hb : b.testBit j
      · rw [if_pos hb]
        exact c.gen_lt j
      · rw [if_neg hb]
        exact Nat.two_pow_pos _
  exact hfold _ 0 (Nat.two_pow_pos _)

theorem step_xor (s t u v : Nat) : c.step (s ^^^ t) (u ^^^ v) = c.step s u ^^^ c.step t v := by
  unfold step
  rw [Nat.xor_mod_two_pow, Nat.shiftLeft_xor_distrib, Nat.shiftRight_xor_distrib, select_xor]
  ac_rfl

theorem polymod_xor {us vs : List Nat} (h : us.length = vs.length) (s t : Nat) :
    c.polymod (s ^^^ t) (List.zipWith (· ^^^ ·) us vs) = c.polymod s us ^^^ c.polymod t vs := by
  unfold polymod
  induction us generalizing vs s t with
  | nil =>
    cases vs with
    | nil => rfl
    | cons v vs => simp at h
  | cons u us ih =>
    cases vs with
    | nil => simp at h
    | cons v vs =>
      have hlen : us.length = vs.length := by simpa using h
      rw [List.zipWith_cons_cons, List.foldl_cons, List.foldl_cons, List.foldl_cons, step_xor,
        ih hlen]

theorem two_pow_top : 2 ^ (5 * c.w) = 2 ^ c.top * 32 := by
  have hw := c.w_pos
  have hsum : 5 * c.w = c.top + 5 := by
    unfold top
    omega
  rw [hsum, pow_add]
  norm_num

theorem step_lt (s : Nat) {v : Nat} (hv : v < 32) : c.step s v < 2 ^ (5 * c.w) := by
  have hw := c.w_pos
  have hlow : (s % 2 ^ c.top) <<< 5 < 2 ^ (5 * c.w) := by
    have hlt := Nat.mod_lt s (Nat.two_pow_pos c.top)
    rw [Nat.shiftLeft_eq, two_pow_top]
    exact Nat.mul_lt_mul_of_pos_right hlt (by omega)
  have h32 : 32 ≤ 2 ^ (5 * c.w) := by
    have hle := Nat.pow_le_pow_right (n := 2) (by omega) (by omega : 5 ≤ 5 * c.w)
    omega
  unfold step
  exact Nat.xor_lt_two_pow (Nat.xor_lt_two_pow hlow (by omega)) (c.select_lt _)

theorem polymod_lt {s : Nat} (hs : s < 2 ^ (5 * c.w)) {vs : List Nat} (hv : ∀ v ∈ vs, v < 32) :
    c.polymod s vs < 2 ^ (5 * c.w) := by
  unfold polymod
  induction vs generalizing s with
  | nil => exact hs
  | cons v vs ih =>
    rw [List.foldl_cons]
    exact ih (c.step_lt s (hv v (by simp))) (fun u hu => hv u (by simp [hu]))

theorem polymod_append (s : Nat) (us vs : List Nat) :
    c.polymod s (us ++ vs) = c.polymod (c.polymod s us) vs := List.foldl_append ..

/-! ## The last symbols of a message -/

/-- A symbol beside bits above it. -/
theorem shiftLeft_xor (s : Nat) {v : Nat} (hv : v < 32) : s <<< 5 ^^^ v = s * 32 + v := by
  have hsum : s * 32 + v = 2 ^ 5 * s + v := by ring
  rw [hsum]
  apply Nat.eq_of_testBit_eq
  intro i
  rw [Nat.testBit_xor, Nat.testBit_shiftLeft, Nat.testBit_two_pow_mul_add s (i := 5) hv]
  by_cases hi : i < 5
  · rw [if_pos hi, decide_eq_false (by omega : ¬ 5 ≤ i), Bool.false_and, Bool.false_xor]
  · have hzero : v.testBit i = false := by
      apply Nat.testBit_lt_two_pow
      have hle := Nat.pow_le_pow_right (n := 2) (by omega) (by omega : 5 ≤ i)
      omega
    rw [if_neg hi, decide_eq_true (by omega : 5 ≤ i), Bool.true_and, hzero, Bool.xor_false]

/-- A step of a register whose top symbol is clear. -/
theorem step_of_lt {s v : Nat} (hs : s < 2 ^ c.top) (hv : v < 32) : c.step s v = s * 32 + v := by
  unfold step
  rw [Nat.mod_eq_of_lt hs, Nat.shiftRight_eq_div_pow, Nat.div_eq_of_lt hs, select_zero,
    Nat.xor_zero, shiftLeft_xor s hv]

/-- The number that symbols make, the first one highest. -/
def value (vs : List Nat) : Nat := Nat.ofDigits 32 vs.reverse

theorem value_append_singleton (vs : List Nat) (v : Nat) :
    value (vs ++ [v]) = value vs * 32 + v := by
  unfold value
  rw [List.reverse_append, List.reverse_singleton, List.singleton_append, Nat.ofDigits_cons]
  ring

theorem value_lt {vs : List Nat} (hv : ∀ v ∈ vs, v < 32) : value vs < 32 ^ vs.length := by
  have hlt := @Nat.ofDigits_lt_base_pow_length 32 vs.reverse (by omega)
    (fun v hmem => hv v (List.mem_reverse.mp hmem))
  rwa [List.length_reverse] at hlt

theorem value_inj {us vs : List Nat} (hlen : us.length = vs.length) (hu : ∀ u ∈ us, u < 32)
    (hv : ∀ v ∈ vs, v < 32) (h : value us = value vs) : us = vs := by
  apply List.reverse_injective
  exact Nat.ofDigits_inj_of_len_eq (by omega) (by simp [hlen])
    (fun u hmem => hu u (List.mem_reverse.mp hmem))
    (fun v hmem => hv v (List.mem_reverse.mp hmem)) h

/-- Symbols taken into an empty register that has room for them stand in it as they came. -/
theorem polymod_zero {vs : List Nat} (hv : ∀ v ∈ vs, v < 32) (hlen : vs.length ≤ c.w) :
    c.polymod 0 vs = value vs := by
  induction vs using List.reverseRecOn with
  | nil => rfl
  | append_singleton vs v ih =>
    rw [List.length_append, List.length_singleton] at hlen
    have hinit : ∀ u ∈ vs, u < 32 := fun u hu => hv u (by simp [hu])
    have htop : value vs < 2 ^ c.top := by
      have hpow : 32 ^ vs.length = 2 ^ (5 * vs.length) := by
        rw [pow_mul]
        norm_num
      have hle : 2 ^ (5 * vs.length) ≤ 2 ^ c.top := by
        apply Nat.pow_le_pow_right (by omega)
        unfold top
        omega
      have hlt := value_lt hinit
      omega
    rw [polymod_append, ih hinit (by omega), value_append_singleton]
    exact c.step_of_lt htop (hv v (by simp))

@[simp] theorem length_symbols (r : Nat) : (c.symbols r).length = c.w := by
  simp [symbols]

theorem symbols_lt {r v : Nat} (h : v ∈ c.symbols r) : v < 32 := by
  unfold symbols at h
  obtain ⟨i, _, rfl⟩ := List.mem_map.mp h
  exact Nat.mod_lt _ (by omega)

/-- The first `n` symbols of a register. -/
theorem value_symbols_prefix (r : Nat) {n : Nat} (hn : n ≤ c.w) :
    value ((List.range n).map (fun i => r >>> (5 * (c.w - 1 - i)) % 32)) =
      r % 2 ^ (5 * c.w) / 2 ^ (5 * (c.w - n)) := by
  induction n with
  | zero =>
    rw [Nat.sub_zero, Nat.div_eq_of_lt (Nat.mod_lt _ (Nat.two_pow_pos _))]
    rfl
  | succ n ih =>
    have hsub : c.w - 1 - n = c.w - (n + 1) := by omega
    have hexp : 5 * (c.w - n) = 5 * (c.w - (n + 1)) + 5 := by omega
    have hwhole : 5 * c.w = 5 * (c.w - (n + 1)) + (5 * n + 5) := by omega
    set k := 5 * (c.w - (n + 1)) with hk
    have hdiv : r % 2 ^ (5 * c.w) / 2 ^ (5 * (c.w - n)) * 32 + r >>> k % 32 =
        r % 2 ^ (5 * c.w) / 2 ^ k := by
      have hmod : r % 2 ^ (5 * c.w) / 2 ^ k = r / 2 ^ k % 2 ^ (5 * n + 5) := by
        rw [hwhole, pow_add, Nat.mod_mul_right_div_self]
      have hlow : r / 2 ^ k % 2 ^ (5 * n + 5) % 32 = r / 2 ^ k % 32 := by
        apply Nat.mod_mod_of_dvd
        exact ⟨2 ^ (5 * n), by rw [pow_add]; norm_num; ring⟩
      have hsplit := Nat.div_add_mod' (r % 2 ^ (5 * c.w) / 2 ^ k) 32
      rw [hexp, pow_add, ← Nat.div_div_eq_div_mul, Nat.shiftRight_eq_div_pow]
      have h32 : 2 ^ 5 = 32 := by norm_num
      rw [h32]
      rw [hmod] at hsplit ⊢
      rw [hlow] at hsplit
      exact hsplit
    rw [List.range_succ, List.map_append, List.map_singleton, value_append_singleton,
      ih (by omega), hsub, ← hk, hdiv]

theorem value_symbols {r : Nat} (hr : r < 2 ^ (5 * c.w)) : value (c.symbols r) = r := by
  have h := c.value_symbols_prefix r (Nat.le_refl c.w)
  rw [Nat.sub_self, Nat.mul_zero, pow_zero, Nat.div_one, Nat.mod_eq_of_lt hr] at h
  exact h

/-- What the last symbols of a message add to the register. -/
theorem polymod_append_last (s : Nat) (us : List Nat) {vs : List Nat} (hv : ∀ v ∈ vs, v < 32)
    (hlen : vs.length = c.w) :
    c.polymod s (us ++ vs) = c.polymod s (us ++ List.replicate c.w 0) ^^^ value vs := by
  have hzip : List.zipWith (· ^^^ ·) (List.replicate c.w 0) vs = vs := by
    rw [← hlen]
    apply List.ext_getElem
    · simp
    · intro i h1 h2
      simp
  have hsum := @polymod_xor c (List.replicate c.w 0) vs
    (by rw [List.length_replicate, hlen]) (c.polymod s us) 0
  rw [hzip, Nat.xor_zero, c.polymod_zero hv (by omega)] at hsum
  rw [polymod_append, polymod_append, hsum]

/-- **Every value can be reached**: the symbols of what is missing. -/
theorem polymod_append_symbols {s k : Nat} (hs : s < 2 ^ (5 * c.w)) (hk : k < 2 ^ (5 * c.w))
    {us : List Nat} (hu : ∀ u ∈ us, u < 32) :
    c.polymod s (us ++ c.symbols (c.polymod s (us ++ List.replicate c.w 0) ^^^ k)) = k := by
  have hzero : ∀ u ∈ us ++ List.replicate c.w 0, u < 32 := by
    intro u hmem
    rcases List.mem_append.mp hmem with hmem | hmem
    · exact hu u hmem
    · rw [List.eq_of_mem_replicate hmem]
      omega
  have hlt := Nat.xor_lt_two_pow (c.polymod_lt hs hzero) hk
  rw [polymod_append_last c s us (fun v hv => c.symbols_lt hv) (c.length_symbols _),
    c.value_symbols hlt, ← Nat.xor_assoc, Nat.xor_self, Nat.zero_xor]

/-- **In one way only.** -/
theorem symbols_unique {s k : Nat} (hs : s < 2 ^ (5 * c.w)) (hk : k < 2 ^ (5 * c.w))
    {us vs : List Nat} (hu : ∀ u ∈ us, u < 32) (hv : ∀ v ∈ vs, v < 32) (hlen : vs.length = c.w)
    (h : c.polymod s (us ++ vs) = k) :
    vs = c.symbols (c.polymod s (us ++ List.replicate c.w 0) ^^^ k) := by
  have hreach := c.polymod_append_symbols hs hk hu
  rw [c.polymod_append_last s us hv hlen] at h
  rw [c.polymod_append_last s us (fun v hv => c.symbols_lt hv) (c.length_symbols _)] at hreach
  apply value_inj (by rw [hlen, length_symbols]) hv (fun v hv => c.symbols_lt hv)
  exact Nat.xor_right_injective (h.trans hreach.symm)

end Bch
end Lib
end VeraCrypt
