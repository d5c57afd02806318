import Mathlib.Data.List.Basic
import Mathlib.Data.List.Nodup
import Mathlib.Data.List.Perm.Basic

/-!
# Compact tables

A table of elements that carry a key, without gaps: an element is found by a search from the front,
added at the end, changed in its place, and removed by moving the last one over it. While the keys
are distinct such a table is a finite map, whatever the order of its elements has become: the
operations are described by what `findKey` finds behind them.
-/

set_option autoImplicit false

namespace VeraCrypt
namespace Lib

variable {α κ : Type _} [DecidableEq κ] {key : α → κ}

/-- The keys of a table are distinct. -/
def Distinct (key : α → κ) (xs : List α) : Prop := (xs.map key).Nodup

/-- The element with key `k`. -/
def findKey (key : α → κ) (xs : List α) (k : κ) : Option α :=
  xs.find? (fun x => decide (key x = k))

/-- Its place. -/
def placeOf (key : α → κ) (xs : List α) (k : κ) : Option Nat :=
  xs.findIdx? (fun x => decide (key x = k))

/-- The last element moved over the one at `i`. -/
def swapRemove (xs : List α) (i : Nat) : List α :=
  match xs.getLast? with
  | none => xs
  | some last => (xs.set i last).dropLast

section

variable {xs : List α} {k q : κ} {i : Nat} {x : α}

/-! ## Finding -/

theorem findKey_eq_some_iff (h : Distinct key xs) :
    findKey key xs k = some x ↔ x ∈ xs ∧ key x = k := by
  constructor
  · intro hfind
    exact ⟨List.mem_of_find?_eq_some hfind,
      of_decide_eq_true (List.find?_some (p := fun x => decide (key x = k)) hfind)⟩
  · rintro ⟨hmem, hkey⟩
    rcases hfind : findKey key xs k with _ | y
    · have hnone := List.find?_eq_none.mp hfind x hmem
      exact absurd (decide_eq_true hkey) hnone
    · have hy : y ∈ xs := List.mem_of_find?_eq_some hfind
      have hykey : key y = k :=
        of_decide_eq_true (List.find?_some (p := fun x => decide (key x = k)) hfind)
      exact congrArg some (List.inj_on_of_nodup_map h hy hmem (hykey.trans hkey.symm))

theorem findKey_eq_none_iff : findKey key xs k = none ↔ ∀ x ∈ xs, key x ≠ k := by
  rw [findKey, List.find?_eq_none]
  simp only [decide_eq_true_eq, ne_eq]

theorem placeOf_eq_none_iff : placeOf key xs k = none ↔ findKey key xs k = none := by
  rw [findKey_eq_none_iff, placeOf, List.findIdx?_eq_none_iff]
  simp only [decide_eq_false_iff_not, ne_eq]

/-- What a place says. -/
theorem placeOf_eq_some (h : placeOf key xs k = some i) :
    ∃ hi : i < xs.length, key xs[i] = k := by
  rcases List.findIdx?_eq_some_iff_getElem.mp h with ⟨hi, hkey, -⟩
  exact ⟨hi, of_decide_eq_true hkey⟩

theorem findKey_of_placeOf (hd : Distinct key xs) (h : placeOf key xs k = some i) :
    findKey key xs k = xs[i]? := by
  rcases placeOf_eq_some h with ⟨hi, hkey⟩
  rw [List.getElem?_eq_getElem hi]
  exact (findKey_eq_some_iff hd).mpr ⟨List.getElem_mem hi, hkey⟩

/-- Two tables with the same elements find the same. -/
theorem findKey_congr {ys : List α} (hx : Distinct key xs) (hy : Distinct key ys)
    (h : ∀ x, key x = q → (x ∈ xs ↔ x ∈ ys)) : findKey key xs q = findKey key ys q := by
  apply Option.ext
  intro x
  rw [findKey_eq_some_iff hx, findKey_eq_some_iff hy]
  exact ⟨fun ⟨hm, hk⟩ => ⟨(h x hk).mp hm, hk⟩, fun ⟨hm, hk⟩ => ⟨(h x hk).mpr hm, hk⟩⟩

/-! ## Adding -/

theorem Distinct.append (h : Distinct key xs) (hx : findKey key xs (key x) = none) :
    Distinct key (xs ++ [x]) := by
  unfold Distinct at h ⊢
  rw [List.map_append, List.map_cons, List.map_nil, List.nodup_append]
  refine ⟨h, List.nodup_singleton _, ?_⟩
  intro a ha b hb hab
  rcases List.mem_map.mp ha with ⟨y, hy, rfl⟩
  rw [List.mem_singleton.mp hb] at hab
  exact findKey_eq_none_iff.mp hx y hy hab

theorem findKey_append (hx : findKey key xs (key x) = none) :
    findKey key (xs ++ [x]) q = if q = key x then some x else findKey key xs q := by
  unfold findKey at hx ⊢
  rw [List.find?_append]
  by_cases hq : q = key x
  · rw [if_pos hq, hq, hx]
    simp
  · rw [if_neg hq]
    have hne : decide (key x = q) = false := decide_eq_false (fun he => hq he.symm)
    simp [hne]

/-! ## Changing -/

omit [DecidableEq κ] in
theorem map_key_modify {f : α → α} (hf : ∀ x, key (f x) = key x) (xs : List α) (i : Nat) :
    (xs.modify i f).map key = xs.map key := by
  apply List.ext_getElem
  · rw [List.length_map, List.length_map, List.length_modify]
  · intro j h1 h2
    rw [List.getElem_map, List.getElem_map, List.getElem_modify]
    split
    · exact hf _
    · rfl

omit [DecidableEq κ] in
theorem Distinct.modify {f : α → α} (hf : ∀ x, key (f x) = key x) (h : Distinct key xs) :
    Distinct key (xs.modify i f) := by
  unfold Distinct at h ⊢
  rwa [map_key_modify hf]

theorem findKey_modify {f : α → α} (hf : ∀ x, key (f x) = key x) (h : Distinct key xs)
    (hi : placeOf key xs k = some i) :
    findKey key (xs.modify i f) q = if q = k then (findKey key xs k).map f else findKey key xs q := by
  rcases placeOf_eq_some hi with ⟨hlt, hkey⟩
  have hlen : i < (xs.modify i f).length := by
    rw [List.length_modify]
    exact hlt
  by_cases hq : q = k
  · rw [if_pos hq, findKey_of_placeOf h hi, List.getElem?_eq_getElem hlt, Option.map_some, hq,
      findKey_eq_some_iff (h.modify hf)]
    refine ⟨?_, (hf _).trans hkey⟩
    have hmem := List.getElem_mem hlen
    rwa [List.getElem_modify_eq] at hmem
  · rw [if_neg hq]
    apply findKey_congr (h.modify hf) h
    intro x hx
    constructor
    · intro hmem
      rcases List.mem_iff_getElem.mp hmem with ⟨j, hj, rfl⟩
      rw [List.getElem_modify] at hx ⊢
      by_cases hij : i = j
      · subst hij
        rw [if_pos rfl, hf, hkey] at hx
        exact absurd hx.symm hq
      · rw [if_neg hij]
        exact List.getElem_mem _
    · intro hmem
      rcases List.mem_iff_getElem.mp hmem with ⟨j, hj, rfl⟩
      have hij : i ≠ j := by
        rintro rfl
        exact hq (hx.symm.trans hkey)
      have hj' : j < (xs.modify i f).length := by
        rw [List.length_modify]
        exact hj
      have hin := List.getElem_mem hj'
      rwa [List.getElem_modify_ne _ _ hij] at hin

/-! ## Removing -/

/-- Moving the last element over another removes that one, but for the order. -/
theorem swapRemove_perm (hi : i < xs.length) : (swapRemove xs i).Perm (xs.eraseIdx i) := by
  rcases List.eq_nil_or_concat xs with rfl | ⟨init, last, rfl⟩
  · exact absurd hi (Nat.not_lt_zero i)
  rw [List.concat_eq_append] at hi ⊢
  rw [swapRemove, List.getLast?_concat]
  dsimp only
  rw [List.length_append, List.length_singleton] at hi
  by_cases hlast : i < init.length
  · rw [List.set_append_left _ _ hlast, List.dropLast_concat,
      List.eraseIdx_append_of_lt_length hlast]
    exact (List.set_perm_cons_eraseIdx hlast last).trans (List.perm_append_singleton _ _).symm
  · have hend : i = init.length := by omega
    subst hend
    rw [List.set_append_right _ _ (Nat.le_refl _), List.eraseIdx_append_of_length_le (Nat.le_refl _),
      Nat.sub_self, List.set_cons_zero, List.dropLast_concat, List.eraseIdx_cons_zero,
      List.append_nil]

theorem length_swapRemove (hi : i < xs.length) : (swapRemove xs i).length = xs.length - 1 := by
  rw [(swapRemove_perm hi).length_eq, List.length_eraseIdx, if_pos hi]

omit [DecidableEq κ] in
theorem Distinct.swapRemove (h : Distinct key xs) (hi : i < xs.length) :
    Distinct key (swapRemove xs i) := by
  unfold Distinct at h ⊢
  rw [((swapRemove_perm hi).map key).nodup_iff]
  exact h.sublist ((List.eraseIdx_sublist xs i).map key)

omit [DecidableEq κ] in
theorem mem_swapRemove (h : Distinct key xs) (hi : i < xs.length) :
    x ∈ Lib.swapRemove xs i ↔ x ∈ xs ∧ key x ≠ key xs[i] := by
  rw [(swapRemove_perm hi).mem_iff, List.mem_eraseIdx_iff_getElem]
  constructor
  · rintro ⟨j, hj, hne, rfl⟩
    refine ⟨List.getElem_mem hj, ?_⟩
    intro hkey
    apply hne
    have hj' : j < (xs.map key).length := by
      rw [List.length_map]
      exact hj
    have hi' : i < (xs.map key).length := by
      rw [List.length_map]
      exact hi
    have hsame : (xs.map key)[j] = (xs.map key)[i] := by
      rw [List.getElem_map, List.getElem_map]
      exact hkey
    exact (List.Nodup.getElem_inj_iff h).mp hsame
  · rintro ⟨hmem, hkey⟩
    rcases List.mem_iff_getElem.mp hmem with ⟨j, hj, rfl⟩
    exact ⟨j, hj, fun hij => hkey (by subst hij; rfl), rfl⟩

theorem findKey_swapRemove (h : Distinct key xs) (hi : placeOf key xs k = some i) :
    findKey key (Lib.swapRemove xs i) q = if q = k then none else findKey key xs q := by
  rcases placeOf_eq_some hi with ⟨hlt, hkey⟩
  by_cases hq : q = k
  · rw [if_pos hq, findKey_eq_none_iff]
    intro x hx hxq
    exact ((mem_swapRemove h hlt).mp hx).2 (hxq.trans (hq.trans hkey.symm))
  · rw [if_neg hq]
    apply findKey_congr (h.swapRemove hlt) h
    intro x hx
    rw [mem_swapRemove h hlt]
    refine ⟨And.left, fun hmem => ⟨hmem, ?_⟩⟩
    rw [hx, hkey]
    exact hq

end

end Lib
end VeraCrypt
