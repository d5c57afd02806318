import VeraCrypt.Lib.Region

/-!
# Hashing block by block

A state that takes the whole blocks of a message in order (`absorb`). What is left of a message
beyond its last whole block has no part in it, so a message may come in pieces, each a number of
whole blocks but the last (`absorb_append`).
-/

set_option autoImplicit false

namespace VeraCrypt
namespace Lib

variable {σ α : Type}

/-- The state after the whole blocks of `n` elements of a message. -/
def absorb (f : σ → List α → σ) (n : Nat) (s : σ) (m : List α) : σ :=
  (List.range (m.length / n)).foldl (fun s i => f s (slice m (n * i) n)) s

theorem absorb_short (f : σ → List α → σ) {n : Nat} (s : σ) {m : List α} (h : m.length < n) :
    absorb f n s m = s := by
  rw [absorb, Nat.div_eq_of_lt h]
  rfl

theorem absorb_block (f : σ → List α → σ) {n : Nat} (hn : 0 < n) (s : σ) {m : List α}
    (h : m.length = n) : absorb f n s m = f s m := by
  have hone : m.length / n = 1 := by rw [h, Nat.div_self hn]
  rw [absorb, hone]
  simp [slice_all (Nat.le_of_eq h)]

/-- A message in two pieces, the first of whole blocks. -/
theorem absorb_append (f : σ → List α → σ) {n : Nat} (hn : 0 < n) (s : σ) {a : List α}
    (h : a.length % n = 0) (b : List α) :
    absorb f n s (a ++ b) = absorb f n (absorb f n s a) b := by
  obtain ⟨k, hk⟩ := Nat.dvd_of_mod_eq_zero h
  have hcount : (a ++ b).length / n = k + b.length / n := by
    rw [List.length_append, hk, Nat.mul_add_div hn]
  have hfirst : a.length / n = k := by rw [hk, Nat.mul_div_cancel_left _ hn]
  have hlow : ∀ i < k, slice (a ++ b) (n * i) n = slice a (n * i) n := by
    intro i hi
    have hle : n * (i + 1) ≤ n * k := Nat.mul_le_mul_left n hi
    rw [slice_append_left (by rw [hk]; rw [Nat.mul_succ] at hle; exact hle)]
  have hhigh : ∀ i, slice (a ++ b) (n * (k + i)) n = slice b (n * i) n := by
    intro i
    rw [slice_append_right (by rw [hk]; exact Nat.mul_le_mul_left n (Nat.le_add_right k i)), hk,
      Nat.mul_add, Nat.add_sub_cancel_left]
  unfold absorb
  rw [hcount, hfirst, List.range_add, List.foldl_append, List.foldl_map]
  simp only [hhigh]
  congr 1
  apply List.foldl_ext
  intro s' i hi
  rw [hlow i (List.mem_range.mp hi)]

end Lib
end VeraCrypt
