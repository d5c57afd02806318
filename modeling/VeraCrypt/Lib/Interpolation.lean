import Mathlib.LinearAlgebra.Lagrange

/-!
# Interpolation at zero

A polynomial over a field is determined at 0 by its values at as many distinct points as it
has coefficients (`eval_zero_eq_sum`). `lagrangeWeight` is the weight a point gets in that sum,
as the quotient of two products.

With the coefficients as the unknowns: `exists_ofCoefs_eval` finds coefficients for values at
no more points than there are coefficients, and `ofCoefs_eval_inj` says that at no fewer points
they are the only ones.
-/

set_option autoImplicit false

namespace VeraCrypt
namespace Lib

open Polynomial Finset

section
variable {F : Type _} [Field F]

/-- `∏ j ≠ i, v j / (v j - v i)` over the first `n` points. -/
def lagrangeWeight (n : ℕ) (v : ℕ → F) (i : ℕ) : F :=
  (∏ j ∈ (range n).erase i, v j) * (∏ j ∈ (range n).erase i, (v j - v i))⁻¹

theorem eval_zero_basis (n : ℕ) (v : ℕ → F) (i : ℕ) :
    (Lagrange.basis (range n) v i).eval 0 = lagrangeWeight n v i := by
  unfold Lagrange.basis lagrangeWeight
  rw [eval_prod, ← prod_inv_distrib, ← prod_mul_distrib]
  refine prod_congr rfl ?_
  intro j _
  rw [Lagrange.basisDivisor, eval_mul, eval_C, eval_sub, eval_X, eval_C, zero_sub,
    ← neg_sub (v j) (v i), inv_neg]
  ring

/-- **Interpolation at 0.** -/
theorem eval_zero_eq_sum {f : F[X]} {n : ℕ} {v : ℕ → F} (hv : Set.InjOn v (range n))
    (hdeg : f.degree < n) :
    f.eval 0 = ∑ i ∈ range n, f.eval (v i) * lagrangeWeight n v i := by
  have hinterp : f = Lagrange.interpolate (range n) v (fun i => f.eval (v i)) :=
    Lagrange.eq_interpolate_of_eval_eq _ hv (by rwa [card_range]) (fun _ _ => rfl)
  have heval := congrArg (Polynomial.eval 0) hinterp
  rw [Lagrange.interpolate_apply, eval_finsetSum] at heval
  rw [heval]
  refine sum_congr rfl ?_
  intro i _
  rw [eval_mul, eval_C, eval_zero_basis]

/-- The polynomial with the given coefficients, the constant one in front. -/
noncomputable def ofCoefs : List F → F[X]
  | [] => 0
  | c :: cs => C c + X * ofCoefs cs

example (c : F) : ofCoefs [c] = C c := by simp [ofCoefs]

@[simp] theorem eval_ofCoefs_cons (c : F) (cs : List F) (x : F) :
    (ofCoefs (c :: cs)).eval x = c + x * (ofCoefs cs).eval x := by
  rw [ofCoefs, eval_add, eval_C, eval_mul, eval_X]

theorem degree_ofCoefs_lt (cs : List F) : (ofCoefs cs).degree < cs.length := by
  induction cs with
  | nil =>
    rw [ofCoefs, degree_zero]
    exact WithBot.bot_lt_coe 0
  | cons c cs ih =>
    rw [List.length_cons, ofCoefs]
    refine lt_of_le_of_lt (degree_add_le _ _) (max_lt ?_ ?_)
    · exact lt_of_le_of_lt degree_C_le (by exact_mod_cast Nat.succ_pos _)
    · refine (Polynomial.degree_lt_iff_coeff_zero _ _).mpr ?_
      intro m hm
      cases m with
      | zero => exact absurd hm (by omega)
      | succ m =>
        rw [coeff_X_mul]
        exact (Polynomial.degree_lt_iff_coeff_zero _ _).mp ih m (by omega)

theorem coeff_ofCoefs (cs : List F) (k : ℕ) : (ofCoefs cs).coeff k = cs.getD k 0 := by
  induction cs generalizing k with
  | nil => rw [ofCoefs, coeff_zero, List.getD_nil]
  | cons c cs ih =>
    rw [ofCoefs, coeff_add]
    cases k with
    | zero => rw [coeff_C_zero, coeff_X_mul_zero, add_zero, List.getD_cons_zero]
    | succ k => rw [coeff_C_succ, coeff_X_mul, ih, zero_add, List.getD_cons_succ]

/-- The polynomial of the first `n` coefficients. -/
theorem coeff_ofCoefs_range (c : ℕ → F) (n k : ℕ) :
    (ofCoefs ((List.range n).map c)).coeff k = if k < n then c k else 0 := by
  rw [coeff_ofCoefs, List.getD_eq_getElem?_getD, List.getElem?_map]
  by_cases hk : k < n
  · rw [if_pos hk, List.getElem?_range hk]
    rfl
  · rw [if_neg hk, List.getElem?_eq_none (by rw [List.length_range]; omega)]
    rfl

theorem ofCoefs_range_add (c d : ℕ → F) (n : ℕ) :
    ofCoefs ((List.range n).map (fun k => c k + d k)) =
      ofCoefs ((List.range n).map c) + ofCoefs ((List.range n).map d) := by
  ext k
  rw [coeff_add, coeff_ofCoefs_range, coeff_ofCoefs_range, coeff_ofCoefs_range]
  by_cases hk : k < n
  · rw [if_pos hk, if_pos hk, if_pos hk]
  · rw [if_neg hk, if_neg hk, if_neg hk, add_zero]

variable {ι : Type _} {s : Finset ι} {v : ι → F} {n : ℕ}

/-- Some coefficients give any values at as many points. -/
theorem exists_ofCoefs_eval [DecidableEq ι] (hv : Set.InjOn v s) (hn : s.card ≤ n) (r : ι → F) :
    ∃ c : ℕ → F, ∀ i ∈ s, (ofCoefs ((List.range n).map c)).eval (v i) = r i := by
  have hdeg := Lagrange.degree_interpolate_lt r hv
  refine ⟨(Lagrange.interpolate s v r).coeff, ?_⟩
  intro i hi
  have hsame : ofCoefs ((List.range n).map (Lagrange.interpolate s v r).coeff) =
      Lagrange.interpolate s v r := by
    ext k
    rw [coeff_ofCoefs_range]
    by_cases hk : k < n
    · rw [if_pos hk]
    · rw [if_neg hk, (Polynomial.degree_lt_iff_coeff_zero _ _).mp hdeg k (by omega)]
  rw [hsame, Lagrange.eval_interpolate_at_node r hv hi]

/-- Values at no fewer points than there are coefficients determine them. -/
theorem ofCoefs_eval_inj (hv : Set.InjOn v s) (hn : n ≤ s.card) {c d : ℕ → F}
    (h : ∀ i ∈ s, (ofCoefs ((List.range n).map c)).eval (v i) =
      (ofCoefs ((List.range n).map d)).eval (v i)) {k : ℕ} (hk : k < n) : c k = d k := by
  have hdeg : ∀ e : ℕ → F, (ofCoefs ((List.range n).map e)).degree < s.card := by
    intro e
    refine lt_of_lt_of_le (degree_ofCoefs_lt _) ?_
    rw [List.length_map, List.length_range]
    exact_mod_cast hn
  have hsame := Polynomial.eq_of_degrees_lt_of_eval_index_eq s hv (hdeg c) (hdeg d) h
  have hcoeff := congrArg (fun f => Polynomial.coeff f k) hsame
  simp only [coeff_ofCoefs_range, if_pos hk] at hcoeff
  exact hcoeff

end

end Lib
end VeraCrypt
