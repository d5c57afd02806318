import Mathlib.Data.List.Basic
import Mathlib.Data.List.Range
import Mathlib.Data.List.Perm.Basic

/-!
# Independent jobs, and ranges cut into pieces

The facts every parallel loop rests on.

* **Independent jobs commute with observation** (`foldl_job_observe`): if job `i` decides
  what is observed at `i` and no other job disturbs it, then after any list of jobs the
  observation at `i` is job `i`'s, whatever the order they ran in.
* **Cutting a range loses nothing**: a range is the concatenation of consecutive pieces of a
  fixed width (`range_eq_chunks`), and of a prefix handed out in pieces and the tail that is
  left (`range_eq_append_range'`).
-/

set_option autoImplicit false

namespace VeraCrypt
namespace Lib

/-! ## Jobs that write disjoint places -/

section Jobs

variable {σ ι β : Type _} [DecidableEq ι]

/-- After running the jobs of a list in its order, the place of a job that ran holds that
    job's value and every other place is as it was. `Ok` is whatever the state must satisfy
    for a job to land (a buffer long enough, say); a job must keep it. -/
theorem foldl_job_observe (job : σ → ι → σ) (observe : σ → ι → β) (value : ι → β)
    (Ok : σ → Prop) (Valid : ι → Prop)
    (hok : ∀ s j, Ok s → Valid j → Ok (job s j))
    (hself : ∀ s i, Ok s → Valid i → observe (job s i) i = value i)
    (hother : ∀ s i j, Ok s → Valid i → Valid j → i ≠ j →
      observe (job s j) i = observe s i)
    (order : List ι) (hvalid : ∀ j ∈ order, Valid j) (s : σ) (hs : Ok s) (i : ι)
    (hi : Valid i) :
    observe (order.foldl job s) i = if i ∈ order then value i else observe s i := by
  induction order generalizing s with
  | nil => simp
  | cons j rest ih =>
    have hj : Valid j := hvalid j (by simp)
    have hrest := ih (fun k hk => hvalid k (by simp [hk])) (job s j) (hok s j hs hj)
    rw [List.foldl_cons, hrest]
    by_cases hir : i ∈ rest
    · rw [if_pos hir, if_pos (by simp [hir])]
    · rw [if_neg hir]
      by_cases hij : i = j
      · subst hij
        rw [hself s i hs hi, if_pos (by simp)]
      · rw [hother s i j hs hi hj hij, if_neg (by simp [hij, hir])]

end Jobs

/-- Two loops over one list agree where their bodies agree on the states the first one keeps
    to. -/
theorem foldl_eq_of_inv {σ ι : Type _} {f g : σ → ι → σ} (Inv : σ → Prop) (l : List ι)
    (heq : ∀ s i, Inv s → i ∈ l → f s i = g s i) (hinv : ∀ s i, Inv s → i ∈ l → Inv (f s i))
    {s : σ} (hs : Inv s) : l.foldl f s = l.foldl g s ∧ Inv (l.foldl f s) := by
  induction l generalizing s with
  | nil => exact ⟨rfl, hs⟩
  | cons i l ih =>
    rw [List.foldl_cons, List.foldl_cons, ← heq s i hs (by simp)]
    exact ih (fun s j h hj => heq s j h (by simp [hj]))
      (fun s j h hj => hinv s j h (by simp [hj])) (hinv s i hs (by simp))

/-! ## Cutting a range -/

theorem range_append_range' (m k : Nat) :
    List.range (m + k) = List.range m ++ List.range' m k := by
  have hsplit := @List.range'_append_1 0 m k
  rw [Nat.zero_add] at hsplit
  rw [List.range_eq_range', List.range_eq_range', hsplit]

/-- Consecutive pieces of width `w` cover a prefix of the range, in order. -/
theorem chunks_eq_range_min (w n q : Nat) :
    (List.range q).flatMap (fun k => List.range' (w * k) (min w (n - w * k))) =
      List.range (min n (w * q)) := by
  induction q with
  | zero => simp
  | succ q ih =>
    rw [List.range_succ, List.flatMap_append, ih, List.flatMap_singleton]
    rcases Nat.le_total n (w * q) with h | h
    · have h1 : min n (w * q) = n := by omega
      have h2 : n - w * q = 0 := by omega
      have h3 : min n (w * (q + 1)) = n := by rw [Nat.mul_succ]; omega
      rw [h1, h2, h3]
      simp
    · have h1 : min n (w * q) = w * q := by omega
      have h3 : min n (w * (q + 1)) = w * q + min w (n - w * q) := by
        rw [Nat.mul_succ]; omega
      rw [h1, h3]
      exact (range_append_range' _ _).symm

/-- **A range is the concatenation of its pieces of width `w`**, the last one shorter. -/
theorem range_eq_chunks {w : Nat} (hw : 0 < w) (n : Nat) :
    (List.range ((n + w - 1) / w)).flatMap
      (fun k => List.range' (w * k) (min w (n - w * k))) = List.range n := by
  rw [chunks_eq_range_min]
  congr 1
  have hdiv := Nat.div_add_mod (n + w - 1) w
  have hmod := Nat.mod_lt (n + w - 1) hw
  omega

/-- A prefix of a range and the tail that is left. -/
theorem range_eq_append_range' {m n : Nat} (h : m ≤ n) :
    List.range n = List.range m ++ List.range' m (n - m) := by
  have hcut := range_append_range' m (n - m)
  rwa [Nat.add_sub_cancel' h] at hcut

end Lib
end VeraCrypt
