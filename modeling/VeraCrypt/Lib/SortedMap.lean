import Mathlib.Data.List.Lex
import Mathlib.Data.List.Pairwise
import Mathlib.Order.Lattice

/-!
# Maps in the order of their keys

A map with ordered keys is the list of its entries in the order of the keys. Setting a key that is
behind all others adds an entry at the end (`set_of_last`).
-/

set_option autoImplicit false

namespace VeraCrypt
namespace Lib

/-- The entries of a map, in the order of the keys. -/
structure SortedMap (κ ν : Type*) [LinearOrder κ] where
  entries : List (κ × ν)
  sorted : entries.Pairwise (fun e e' => e.1 < e'.1)

namespace SortedMap

variable {κ ν : Type*} [LinearOrder κ]

theorem ext {m m' : SortedMap κ ν} (h : m.entries = m'.entries) : m = m' := by
  cases m
  cases m'
  cases h
  rfl

def empty : SortedMap κ ν := ⟨[], List.Pairwise.nil⟩

/-- An entry in its place, instead of the one with its key. -/
def setEntry (k : κ) (v : ν) : List (κ × ν) → List (κ × ν)
  | [] => [(k, v)]
  | e :: entries =>
      if k < e.1 then (k, v) :: e :: entries
      else if k = e.1 then (k, v) :: entries
      else e :: setEntry k v entries

theorem mem_setEntry {k : κ} {v : ν} {entries : List (κ × ν)}
    (hsorted : entries.Pairwise (fun e e' => e.1 < e'.1)) {e : κ × ν}
    (he : e ∈ setEntry k v entries) : e = (k, v) ∨ (e ∈ entries ∧ e.1 ≠ k) := by
  induction entries with
  | nil => exact .inl (List.mem_singleton.mp he)
  | cons e' entries ih =>
    rw [List.pairwise_cons] at hsorted
    rw [setEntry] at he
    split at he
    · rename_i hlt
      rw [List.mem_cons] at he
      refine he.imp_right (fun hmem => ⟨hmem, ?_⟩)
      rw [List.mem_cons] at hmem
      cases hmem with
      | inl heq => exact heq ▸ hlt.ne'
      | inr hin => exact (hlt.trans (hsorted.1 e hin)).ne'
    · split at he
      · rename_i heq
        rw [List.mem_cons] at he
        refine he.imp_right (fun hmem => ⟨List.mem_cons_of_mem _ hmem, ?_⟩)
        exact heq ▸ (hsorted.1 e hmem).ne'
      · rename_i hne
        rw [List.mem_cons] at he
        cases he with
        | inl heq => exact .inr ⟨heq ▸ List.mem_cons_self, heq ▸ Ne.symm hne⟩
        | inr hin => exact (ih hsorted.2 hin).imp_right (fun h => ⟨List.mem_cons_of_mem _ h.1, h.2⟩)

theorem setEntry_sorted (k : κ) (v : ν) {entries : List (κ × ν)}
    (hsorted : entries.Pairwise (fun e e' => e.1 < e'.1)) :
    (setEntry k v entries).Pairwise (fun e e' => e.1 < e'.1) := by
  induction entries with
  | nil => exact List.pairwise_singleton _ _
  | cons e entries ih =>
    have htail := List.pairwise_cons.mp hsorted
    rw [setEntry]
    split
    · rename_i hlt
      refine List.pairwise_cons.mpr ⟨fun e' he' => ?_, hsorted⟩
      rw [List.mem_cons] at he'
      cases he' with
      | inl heq => exact heq ▸ hlt
      | inr hin => exact hlt.trans (htail.1 e' hin)
    · split
      · rename_i heq
        exact List.pairwise_cons.mpr ⟨fun e' he' => heq ▸ htail.1 e' he', htail.2⟩
      · rename_i hle hne
        refine List.pairwise_cons.mpr ⟨fun e' he' => ?_, ih htail.2⟩
        cases mem_setEntry htail.2 he' with
        | inl heq => exact heq ▸ lt_of_le_of_ne (not_lt.mp hle) (Ne.symm hne)
        | inr hin => exact htail.1 e' hin.1

/-- `map[key] = value` -/
def set (m : SortedMap κ ν) (k : κ) (v : ν) : SortedMap κ ν :=
  ⟨setEntry k v m.entries, setEntry_sorted k v m.sorted⟩

theorem mem_set {m : SortedMap κ ν} {k : κ} {v : ν} {e : κ × ν} (he : e ∈ (m.set k v).entries) :
    e = (k, v) ∨ (e ∈ m.entries ∧ e.1 ≠ k) :=
  mem_setEntry m.sorted he

theorem set_of_last {m : SortedMap κ ν} {k : κ} (h : ∀ e ∈ m.entries, e.1 < k) (v : ν) :
    (m.set k v).entries = m.entries ++ [(k, v)] := by
  have hlist : ∀ entries : List (κ × ν), (∀ e ∈ entries, e.1 < k) →
      setEntry k v entries = entries ++ [(k, v)] := by
    intro entries hall
    induction entries with
    | nil => rfl
    | cons e entries ih =>
      have hlt := hall e List.mem_cons_self
      rw [setEntry, if_neg hlt.not_gt, if_neg hlt.ne',
        ih (fun e' he' => hall e' (List.mem_cons_of_mem _ he')), List.cons_append]
  exact hlist m.entries h

end SortedMap

end Lib
end VeraCrypt
