import VeraCrypt.Lib.Region

/-!
# A file written at offsets

The contents of a file are a list. Writing at an offset overwrites what is there and, past the
end, extends the file; the gap between the old end and the offset is filled. What a client
needs to know of it is which of the elements that were there before are touched: those under
the written range and no others (`getElem?_pwrite`, `pwrite_frame`).
-/

set_option autoImplicit false

namespace VeraCrypt
namespace Lib

variable {α : Type _}

/-- `xs` after writing `ys` at offset `off`. Writing nothing does not extend the file. -/
def pwrite (fill : α) (xs : List α) (off : Nat) (ys : List α) : List α :=
  if ys = [] then xs else patch (xs ++ List.replicate (off - xs.length) fill) off ys

theorem pwrite_nil (fill : α) (xs : List α) (off : Nat) : pwrite fill xs off [] = xs := by
  simp [pwrite]

theorem getElem?_pwrite (fill : α) {xs ys : List α} {off i : Nat} (hi : i < xs.length) :
    (pwrite fill xs off ys)[i]? =
      if off ≤ i ∧ i < off + ys.length then ys[i - off]? else xs[i]? := by
  unfold pwrite
  split
  · rename_i hnil
    subst hnil
    rw [if_neg (by simp only [List.length_nil]; omega)]
  · rw [getElem?_patch (by simp only [List.length_append, List.length_replicate]; omega),
      List.getElem?_append_left hi]

/-- An element that the written range does not cover keeps its value. -/
theorem pwrite_frame (fill : α) {xs ys : List α} {off i : Nat} (hi : i < xs.length)
    (hout : i < off ∨ off + ys.length ≤ i) : (pwrite fill xs off ys)[i]? = xs[i]? := by
  rw [getElem?_pwrite fill hi, if_neg (by omega)]

/-- A write inside the file is a patch of it. -/
theorem pwrite_eq_patch (fill : α) {xs ys : List α} {off : Nat}
    (h : off + ys.length ≤ xs.length) : pwrite fill xs off ys = patch xs off ys := by
  unfold pwrite
  split
  · rename_i hnil
    subst hnil
    simp [patch]
  · rw [Nat.sub_eq_zero_of_le (by omega), List.replicate_zero, List.append_nil]

theorem length_pwrite (fill : α) (xs : List α) (off : Nat) {ys : List α} (hne : ys ≠ []) :
    (pwrite fill xs off ys).length = max xs.length (off + ys.length) := by
  unfold pwrite
  rw [if_neg hne]
  simp only [patch, List.length_append, List.length_take, List.length_drop,
    List.length_replicate]
  omega

/-- What was written is there. -/
theorem slice_pwrite_self (fill : α) (xs : List α) (off : Nat) (ys : List α) :
    slice (pwrite fill xs off ys) off ys.length = ys := by
  unfold pwrite
  split
  · rename_i hnil
    rw [hnil]
    rfl
  · exact slice_patch_self (by simp only [List.length_append, List.length_replicate]; omega) rfl

theorem slice_pwrite_before (fill : α) {xs ys : List α} {off off' n : Nat}
    (hin : off' + n ≤ xs.length) (hle : off' + n ≤ off) :
    slice (pwrite fill xs off ys) off' n = slice xs off' n := by
  apply List.ext_getElem?
  intro i
  rw [getElem?_slice, getElem?_slice]
  by_cases hi : i < n
  · rw [if_pos hi, if_pos hi, pwrite_frame fill (by omega) (Or.inl (by omega))]
  · rw [if_neg hi, if_neg hi]

theorem length_le_length_pwrite (fill : α) (xs ys : List α) (off : Nat) :
    xs.length ≤ (pwrite fill xs off ys).length := by
  unfold pwrite
  split
  · exact Nat.le_refl _
  · simp only [patch, List.length_append, List.length_take, List.length_drop,
      List.length_replicate]
    omega

end Lib
end VeraCrypt
