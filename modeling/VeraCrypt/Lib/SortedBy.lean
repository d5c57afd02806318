import Mathlib.Data.List.Pairwise

/-!
# Lists in the order of two keys

A list can be arranged so that two keys both ascend if and only if one never falls where the other
rises (`exists_sorted_iff`). The values of the first key then stand as any list of them that is
sorted (`exists_sorted_map_iff`).
-/

set_option autoImplicit false

namespace VeraCrypt
namespace Lib

section
variable {α κ π : Type _} [LE κ] [LT κ] [Std.IsLinearOrder κ] [Std.LawfulOrderLT κ]
  [LE π] [LT π] [Std.IsLinearOrder π] [Std.LawfulOrderLT π]
  {l : List α} {k : α → κ} {p : α → π}

/-- In the order of both keys one follows the other, for any two elements. -/
theorem le_of_sorted_both {order : List α} (hk : order.Pairwise (fun a b => k a ≤ k b))
    (hp : order.Pairwise (fun a b => p a ≤ p b)) {a b : α} (ha : a ∈ order) (hb : b ∈ order)
    (hlt : k a < k b) : p a ≤ p b := by
  let follows : α → α → Prop := fun a b => (k a < k b → p a ≤ p b) ∧ (k b < k a → p b ≤ p a)
  have hsymm : Std.Symm follows := ⟨fun a b h => ⟨h.2, h.1⟩⟩
  have hrefl : ∀ a ∈ order, follows a a :=
    fun a _ => ⟨fun h => absurd h Std.lt_irrefl, fun h => absurd h Std.lt_irrefl⟩
  have hpair : order.Pairwise follows :=
    (hk.and hp).imp (fun h => ⟨fun _ => h.2, fun hlt => absurd h.1 (Std.not_le.mpr hlt)⟩)
  exact (hpair.forall_of_forall hrefl ha hb).1 hlt

variable [DecidableLE κ] [DecidableLE π]

/-- By the first key, and by the second where the first is the same. -/
def byBoth (k : α → κ) (p : α → π) (a b : α) : Bool :=
  decide (k a ≤ k b) && (!decide (k b ≤ k a) || decide (p a ≤ p b))

theorem byBoth_iff {a b : α} : byBoth k p a b ↔ k a ≤ k b ∧ (k b ≤ k a → p a ≤ p b) := by
  simp only [byBoth, Bool.and_eq_true, Bool.or_eq_true, Bool.not_eq_true', decide_eq_true_eq,
    decide_eq_false_iff_not, imp_iff_not_or]

theorem pairwise_mergeSort_byBoth (l : List α) :
    (l.mergeSort (byBoth k p)).Pairwise (fun a b => byBoth k p a b) := by
  apply List.pairwise_mergeSort
  · intro a b c hab hbc
    rw [byBoth_iff] at hab hbc ⊢
    refine ⟨Std.le_trans hab.1 hbc.1, fun hca => ?_⟩
    exact Std.le_trans (hab.2 (Std.le_trans hbc.1 hca)) (hbc.2 (Std.le_trans hca hab.1))
  · intro a b
    rw [Bool.or_eq_true, byBoth_iff, byBoth_iff]
    rcases Std.le_total (a := k a) (b := k b) with hab | hba
    · by_cases hba : k b ≤ k a
      · rcases Std.le_total (a := p a) (b := p b) with hp | hp
        · exact .inl ⟨hab, fun _ => hp⟩
        · exact .inr ⟨hba, fun _ => hp⟩
      · exact .inl ⟨hab, fun h => absurd h hba⟩
    · by_cases hab : k a ≤ k b
      · rcases Std.le_total (a := p a) (b := p b) with hp | hp
        · exact .inl ⟨hab, fun _ => hp⟩
        · exact .inr ⟨hba, fun _ => hp⟩
      · exact .inr ⟨hba, fun h => absurd h hab⟩

theorem exists_sorted_iff :
    (∃ order : List α, order.Perm l ∧ order.Pairwise (fun a b => k a ≤ k b) ∧
      order.Pairwise (fun a b => p a ≤ p b)) ↔
    ∀ a ∈ l, ∀ b ∈ l, k a < k b → p a ≤ p b := by
  constructor
  · rintro ⟨order, hperm, hk, hp⟩ a ha b hb hlt
    exact le_of_sorted_both hk hp (hperm.mem_iff.mpr ha) (hperm.mem_iff.mpr hb) hlt
  · intro h
    have hsorted := pairwise_mergeSort_byBoth (k := k) (p := p) l
    refine ⟨l.mergeSort (byBoth k p), List.mergeSort_perm _ _,
      hsorted.imp (fun hab => (byBoth_iff.mp hab).1), hsorted.imp_of_mem (fun ha hb hab => ?_)⟩
    obtain ⟨hle, hsame⟩ := byBoth_iff.mp hab
    rename_i a b
    by_cases hba : k b ≤ k a
    · exact hsame hba
    · exact h a (List.mem_mergeSort.mp ha) b (List.mem_mergeSort.mp hb) (Std.not_le.mp hba)

/-- The arrangement shows as any sorted list of the values of the first key. -/
theorem exists_sorted_map_iff {out : List κ} (hperm : out.Perm (l.map k))
    (hsorted : out.Pairwise (· ≤ ·)) :
    (∃ order : List α, order.Perm l ∧ order.map k = out ∧
      order.Pairwise (fun a b => p a ≤ p b)) ↔
    ∀ a ∈ l, ∀ b ∈ l, k a < k b → p a ≤ p b := by
  rw [← exists_sorted_iff]
  constructor
  · rintro ⟨order, horder, hmap, hp⟩
    rw [← hmap, List.pairwise_map] at hsorted
    exact ⟨order, horder, hsorted, hp⟩
  · rintro ⟨order, horder, hk, hp⟩
    refine ⟨order, horder, ?_, hp⟩
    refine List.Perm.eq_of_pairwise (fun a b _ _ => Std.le_antisymm) (List.pairwise_map.mpr hk)
      hsorted ?_
    exact (horder.map k).trans hperm.symm

end

end Lib
end VeraCrypt
