import Mathlib.Data.List.Basic
import Mathlib.Algebra.Ring.Nat

/-!
# Regions of a buffer

A buffer is a list, and a program that works on one through offsets does two things to it:
it reads `n` elements from an offset (`slice`) and it overwrites a run of elements from an
offset (`patch`). This file is the algebra of the two: reading back what was just written,
reading beside it, and reading a part of it. Every frame condition of a development that
keeps its data in flat buffers is one of these lemmas with the offsets filled in.

Nothing here knows what the elements are.
-/

set_option autoImplicit false

namespace VeraCrypt
namespace Lib

variable {α : Type _}

/-- The `n` elements of `xs` from offset `off` (fewer where `xs` ends first). -/
def slice (xs : List α) (off n : Nat) : List α := (xs.drop off).take n

/-- `xs` with the elements from offset `off` on overwritten by `ys`. -/
def patch (xs : List α) (off : Nat) (ys : List α) : List α :=
  xs.take off ++ ys ++ xs.drop (off + ys.length)

/-! ## Lengths and single elements -/

theorem length_slice {xs : List α} {off n : Nat} (h : off + n ≤ xs.length) :
    (slice xs off n).length = n := by
  simp only [slice, List.length_take, List.length_drop]
  omega

theorem length_slice_le (xs : List α) (off n : Nat) : (slice xs off n).length ≤ n := by
  simp only [slice, List.length_take]
  omega

theorem length_patch {xs ys : List α} {off : Nat} (h : off + ys.length ≤ xs.length) :
    (patch xs off ys).length = xs.length := by
  simp only [patch, List.length_append, List.length_take, List.length_drop]
  omega

theorem getElem?_slice (xs : List α) (off n i : Nat) :
    (slice xs off n)[i]? = if i < n then xs[off + i]? else none := by
  simp only [slice, List.getElem?_take, List.getElem?_drop]

/-- The one fact the rest of the file is read off: an element of a patched buffer is the
    patch's inside the patched range and the old one outside it. -/
theorem getElem?_patch {xs ys : List α} {off : Nat} (h : off ≤ xs.length) (i : Nat) :
    (patch xs off ys)[i]? =
      if off ≤ i ∧ i < off + ys.length then ys[i - off]? else xs[i]? := by
  have hlen : (xs.take off).length = off := by simp [h]
  unfold patch
  rw [List.append_assoc]
  by_cases hlo : i < off
  · rw [List.getElem?_append_left (by omega), List.getElem?_take, if_pos hlo, if_neg (by omega)]
  · rw [List.getElem?_append_right (by omega), hlen]
    by_cases hhi : i < off + ys.length
    · rw [List.getElem?_append_left (by omega), if_pos (by omega)]
    · rw [List.getElem?_append_right (by omega), List.getElem?_drop, if_neg (by omega)]
      congr 1
      omega

/-! ## Reading after writing -/

/-- What is read inside a freshly written range is a part of what was written. -/
theorem slice_patch_within {xs ys : List α} {off k n : Nat} (h : off ≤ xs.length)
    (hk : k + n ≤ ys.length) : slice (patch xs off ys) (off + k) n = slice ys k n := by
  apply List.ext_getElem?
  intro i
  rw [getElem?_slice, getElem?_slice, getElem?_patch h]
  by_cases hi : i < n
  · rw [if_pos hi, if_pos hi, if_pos (by omega)]
    congr 1
    omega
  · rw [if_neg hi, if_neg hi]

theorem slice_all {ys : List α} {n : Nat} (h : ys.length ≤ n) : slice ys 0 n = ys := by
  rw [slice, List.drop_zero, List.take_of_length_le h]

theorem slice_replicate {x : α} {m off n : Nat} (h : off + n ≤ m) :
    slice (List.replicate m x) off n = List.replicate n x := by
  rw [slice, List.drop_replicate, List.take_replicate, Nat.min_eq_left (by omega)]

/-- Reading back exactly the range that was written. -/
theorem slice_patch_self {xs ys : List α} {off n : Nat} (h : off ≤ xs.length)
    (hn : n = ys.length) : slice (patch xs off ys) off n = ys := by
  subst hn
  have hw : slice (patch xs off ys) (off + 0) ys.length = slice ys 0 ys.length :=
    slice_patch_within h (by omega)
  rwa [slice_all (Nat.le_refl _)] at hw

/-- A read that does not meet the written range is unaffected by the write. -/
theorem slice_patch_disjoint {xs ys : List α} {off off' n : Nat} (h : off ≤ xs.length)
    (hd : off' + n ≤ off ∨ off + ys.length ≤ off') :
    slice (patch xs off ys) off' n = slice xs off' n := by
  apply List.ext_getElem?
  intro i
  rw [getElem?_slice, getElem?_slice, getElem?_patch h]
  by_cases hi : i < n
  · rw [if_pos hi, if_pos hi, if_neg (by omega)]
  · rw [if_neg hi, if_neg hi]

theorem slice_slice {xs : List α} {off n k m : Nat} (h : k + m ≤ n) :
    slice (slice xs off n) k m = slice xs (off + k) m := by
  apply List.ext_getElem?
  intro i
  rw [getElem?_slice, getElem?_slice, getElem?_slice]
  by_cases hi : i < m
  · rw [if_pos hi, if_pos hi, if_pos (by omega)]
    congr 1
    omega
  · rw [if_neg hi, if_neg hi]

/-- A range read from the left part of a concatenation. -/
theorem slice_append_left {xs ys : List α} {off n : Nat} (h : off + n ≤ xs.length) :
    slice (xs ++ ys) off n = slice xs off n := by
  apply List.ext_getElem?
  intro i
  rw [getElem?_slice, getElem?_slice]
  by_cases hi : i < n
  · rw [if_pos hi, if_pos hi, List.getElem?_append_left (by omega)]
  · rw [if_neg hi, if_neg hi]

/-- A range read from the right part of a concatenation. -/
theorem slice_append_right {xs ys : List α} {off n : Nat} (h : xs.length ≤ off) :
    slice (xs ++ ys) off n = slice ys (off - xs.length) n := by
  apply List.ext_getElem?
  intro i
  rw [getElem?_slice, getElem?_slice]
  by_cases hi : i < n
  · rw [if_pos hi, if_pos hi, List.getElem?_append_right (by omega)]
    congr 1
    omega
  · rw [if_neg hi, if_neg hi]

/-- A part in the middle of a concatenation, read at the length of what stands before it. -/
theorem slice_of_eq_append {xs p x q : List α} {off n : Nat} (h : xs = p ++ (x ++ q))
    (hoff : off = p.length) (hn : n = x.length) : slice xs off n = x := by
  subst h hoff hn
  rw [slice_append_right (Nat.le_refl _), Nat.sub_self, slice_append_left (by omega),
    slice_all (Nat.le_refl _)]

/-- Overwriting a range by what it already holds changes nothing. -/
theorem patch_slice_self {xs : List α} {off n : Nat} (h : off + n ≤ xs.length) :
    patch xs off (slice xs off n) = xs := by
  apply List.ext_getElem?
  intro i
  rw [getElem?_patch (by omega), length_slice h]
  split
  · rw [getElem?_slice, if_pos (by omega)]
    congr 1
    omega
  · rfl

/-- Two writes that meet end to end are one write. -/
theorem patch_patch_adjacent {xs a b : List α} {off off' : Nat} (h : off + a.length ≤ xs.length)
    (hoff : off' = off + a.length) : patch (patch xs off a) off' b = patch xs off (a ++ b) := by
  subst hoff
  have hlen := length_patch h
  apply List.ext_getElem?
  intro i
  rw [getElem?_patch (by omega), getElem?_patch (by omega), getElem?_patch (by omega),
    List.length_append]
  by_cases hlo : off + a.length ≤ i
  · by_cases hhi : i < off + a.length + b.length
    · rw [if_pos ⟨hlo, hhi⟩, if_pos (by omega), List.getElem?_append_right (by omega)]
      congr 1
      omega
    · rw [if_neg (by omega), if_neg (by omega), if_neg (by omega)]
  · rw [if_neg (by omega)]
    by_cases hoff : off ≤ i
    · rw [if_pos (by omega), if_pos (by omega), List.getElem?_append_left (by omega)]
    · rw [if_neg (by omega), if_neg (by omega)]

/-- A range written again keeps what was written last. -/
theorem patch_patch_same {xs a b : List α} {off : Nat} (h : off + a.length ≤ xs.length)
    (hlen : b.length = a.length) : patch (patch xs off a) off b = patch xs off b := by
  have hpatch := length_patch h
  apply List.ext_getElem?
  intro i
  rw [getElem?_patch (by omega), getElem?_patch (by omega), getElem?_patch (by omega), hlen]
  by_cases hin : off ≤ i ∧ i < off + a.length
  · rw [if_pos hin, if_pos hin]
  · rw [if_neg hin, if_neg hin, if_neg hin]

/-- The same with the later part written first. -/
theorem patch_patch_before {xs a b : List α} {off off' : Nat} (hoff : off' = off + a.length)
    (h : off' + b.length ≤ xs.length) :
    patch (patch xs off' b) off a = patch xs off (a ++ b) := by
  subst hoff
  have hlen := length_patch h
  apply List.ext_getElem?
  intro i
  rw [getElem?_patch (by omega), getElem?_patch (by omega), getElem?_patch (by omega),
    List.length_append]
  by_cases hin : off ≤ i ∧ i < off + a.length
  · rw [if_pos hin, if_pos (by omega), List.getElem?_append_left (by omega)]
  · rw [if_neg hin]
    by_cases hhi : off + a.length ≤ i ∧ i < off + a.length + b.length
    · rw [if_pos hhi, if_pos (by omega), List.getElem?_append_right (by omega)]
      congr 1
      omega
    · rw [if_neg hhi, if_neg (by omega)]

/-! ## Access with the bounds checked -/

/-- A load from a buffer and a store to it: `none` is an access outside. -/
def load (xs : List α) (off n : Nat) : Option (List α) :=
  if off + n ≤ xs.length then some (slice xs off n) else none

def store (xs : List α) (off : Nat) (ys : List α) : Option (List α) :=
  if off + ys.length ≤ xs.length then some (patch xs off ys) else none

theorem load_eq_some {xs : List α} {off n : Nat} (h : off + n ≤ xs.length) :
    load xs off n = some (slice xs off n) := if_pos h

theorem store_eq_some {xs ys : List α} {off : Nat} (h : off + ys.length ≤ xs.length) :
    ∃ xs', store xs off ys = some xs' ∧ xs'.length = xs.length :=
  ⟨_, if_pos h, length_patch h⟩

/-! ## Buffers made of parts of one width -/

theorem length_flatMap_const {β : Type _} {l : List β} {f : β → List α} {k : Nat}
    (h : ∀ i ∈ l, (f i).length = k) : (l.flatMap f).length = l.length * k := by
  induction l with
  | nil => simp
  | cons a l ih =>
    have ha := h a (by simp)
    have htl := ih (fun i hi => h i (by simp [hi]))
    rw [List.flatMap_cons, List.length_append, ha, htl, List.length_cons, Nat.succ_mul]
    omega

theorem length_flatten_const {n : Nat} {parts : List (List α)}
    (h : ∀ p ∈ parts, p.length = n) : parts.flatten.length = parts.length * n := by
  have hfm := length_flatMap_const (l := parts) (f := id) h
  rwa [List.flatMap_id] at hfm

/-- Part `i` of a concatenation of parts of one width. -/
theorem slice_flatten {n : Nat} {parts : List (List α)} (h : ∀ p ∈ parts, p.length = n)
    (tail : List α) {i : Nat} (hi : i < parts.length) :
    slice (parts.flatten ++ tail) (i * n) n = parts[i] := by
  induction parts generalizing i with
  | nil => simp at hi
  | cons p rest ih =>
    have hp : p.length = n := h p (by simp)
    have hrest : ∀ q ∈ rest, q.length = n := fun q hq => h q (by simp [hq])
    rw [List.flatten_cons, List.append_assoc]
    cases i with
    | zero =>
      rw [Nat.zero_mul, slice_append_left (by omega), List.getElem_cons_zero,
        slice_all (by omega)]
    | succ i =>
      have hi' : i < rest.length := by simpa using hi
      rw [slice_append_right (by rw [hp, Nat.succ_mul]; omega), hp, Nat.succ_mul,
        Nat.add_sub_cancel, ih hrest hi', List.getElem_cons_succ]

/-- Two buffers of whole parts are equal when they agree part by part. -/
theorem eq_of_slices_eq {n : Nat} (hn : 0 < n) {xs ys : List α} (hlen : xs.length = ys.length)
    (hwhole : xs.length % n = 0)
    (h : ∀ i, i < xs.length / n → slice xs (i * n) n = slice ys (i * n) n) : xs = ys := by
  apply List.ext_getElem?
  intro k
  by_cases hk : k < xs.length
  · have hdiv : k / n < xs.length / n := by
      rw [Nat.div_lt_iff_lt_mul hn, Nat.div_mul_cancel (Nat.dvd_of_mod_eq_zero hwhole)]
      exact hk
    have hmod : k % n < n := Nat.mod_lt k hn
    have hpart := congrArg (fun part => part[k % n]?) (h (k / n) hdiv)
    simp only [getElem?_slice, if_pos hmod, Nat.div_add_mod'] at hpart
    exact hpart
  · rw [List.getElem?_eq_none (by omega), List.getElem?_eq_none (by omega)]

/-- Part `i` of a concatenation of parts of any widths. -/
theorem slice_flatten_part {parts : List (List α)} {part : List α} {i off n : Nat}
    (hpart : parts[i]? = some part) (tail : List α)
    (hoff : off = ((parts.take i).map List.length).sum) (hn : n = part.length) :
    slice (parts.flatten ++ tail) off n = part := by
  obtain ⟨hi, rfl⟩ := List.getElem?_eq_some_iff.mp hpart
  have hsplit : parts.flatten =
      (parts.take i).flatten ++ (parts[i] ++ (parts.drop (i + 1)).flatten) := by
    rw [← List.flatten_cons, ← List.flatten_append, List.getElem_cons_drop,
      List.take_append_drop]
  apply slice_of_eq_append (p := (parts.take i).flatten)
    (q := (parts.drop (i + 1)).flatten ++ tail) ?_ (by rw [hoff, List.length_flatten]) hn
  rw [hsplit]
  simp only [List.append_assoc]

end Lib
end VeraCrypt
