import Mathlib.Data.List.Basic
import Mathlib.Logic.Function.Basic

/-!
# Tables of slots

A table of `n` numbered slots, each empty or holding an entry: the abstract content of every
store that keeps its records in an array. Entries go into the lowest free slot, are erased by
index, and are looked up by a property, the lowest slot that has it winning. The lookups are
characterised by index (`lookupFirst_eq_some_iff`, `lowestFree_eq_some_iff`), which is the
form a refinement proof meets them in.
-/

set_option autoImplicit false

namespace VeraCrypt
namespace Lib

variable {α β : Type _} {n : Nat}

/-! ## The first index of a range that offers something -/

theorem findSome?_range_eq_none_iff {f : Nat → Option β} :
    (List.range n).findSome? f = none ↔ ∀ i, i < n → f i = none := by
  rw [List.findSome?_eq_none_iff]
  exact ⟨fun h i hi => h i (List.mem_range.mpr hi), fun h i hi => h i (List.mem_range.mp hi)⟩

theorem findSome?_single (f : Nat → Option β) (i : Nat) : [i].findSome? f = f i := by
  cases h : f i with
  | none => simp [h]
  | some b => simp [h]

theorem findSome?_range_eq_some_iff {f : Nat → Option β} {b : β} :
    (List.range n).findSome? f = some b ↔
      ∃ i, i < n ∧ f i = some b ∧ ∀ j, j < i → f j = none := by
  induction n with
  | zero => simp
  | succ n ih =>
    rw [List.range_succ, List.findSome?_append]
    constructor
    · intro h
      cases hn : (List.range n).findSome? f with
      | some c =>
        rw [hn, Option.some_or, Option.some.injEq] at h
        subst h
        obtain ⟨i, hi, hfi, hpre⟩ := ih.mp hn
        exact ⟨i, by omega, hfi, hpre⟩
      | none =>
        rw [hn, Option.none_or] at h
        rw [findSome?_single] at h
        exact ⟨n, by omega, h, findSome?_range_eq_none_iff.mp hn⟩
    · rintro ⟨i, hi, hfi, hpre⟩
      rcases Nat.lt_succ_iff_lt_or_eq.mp hi with hlt | rfl
      · rw [ih.mpr ⟨i, hlt, hfi, hpre⟩, Option.some_or]
      · rw [findSome?_range_eq_none_iff.mpr hpre, Option.none_or, findSome?_single, hfi]

theorem findSome?_range_congr {f g : Nat → Option β} (h : ∀ i, i < n → f i = g i) :
    (List.range n).findSome? f = (List.range n).findSome? g := by
  induction n with
  | zero => rfl
  | succ n ih =>
    rw [List.range_succ, List.findSome?_append, List.findSome?_append,
      ih (fun i hi => h i (by omega))]
    simp [h n (by omega)]

/-! ## The table -/

abbrev SlotTable (α : Type _) := Nat → Option α

/-- The lowest empty slot among the first `n`. -/
def lowestFree (n : Nat) (t : SlotTable α) : Option Nat :=
  (List.range n).find? fun i => (t i).isNone

/-- The entry with the property `p` in the lowest slot, among the first `n`. -/
def lookupFirst (n : Nat) (t : SlotTable α) (p : α → Bool) : Option α :=
  (List.range n).findSome? fun i => (t i).filter p

theorem lowestFree_eq_some_iff {t : SlotTable α} {i : Nat} :
    lowestFree n t = some i ↔ i < n ∧ t i = none ∧ ∀ j, j < i → (t j).isSome := by
  unfold lowestFree
  rw [List.find?_range_eq_some]
  simp only [List.mem_range, Option.isNone_iff_eq_none, Bool.not_eq_true', Option.isNone_eq_false_iff]
  exact ⟨fun ⟨h1, h2, h3⟩ => ⟨h2, h1, h3⟩, fun ⟨h1, h2, h3⟩ => ⟨h2, h1, h3⟩⟩

theorem lookupFirst_isSome_iff {t : SlotTable α} {p : α → Bool} :
    (lookupFirst n t p).isSome ↔ ∃ i e, i < n ∧ t i = some e ∧ p e := by
  unfold lookupFirst
  rw [List.findSome?_isSome_iff]
  constructor
  · rintro ⟨i, hi, hsome⟩
    obtain ⟨e, he⟩ := Option.isSome_iff_exists.mp hsome
    obtain ⟨hti, hp⟩ := Option.filter_eq_some_iff.mp he
    exact ⟨i, e, List.mem_range.mp hi, hti, hp⟩
  · rintro ⟨i, e, hi, hti, hp⟩
    exact ⟨i, List.mem_range.mpr hi, by simp [hti, hp]⟩

theorem lookupFirst_eq_some_iff {t : SlotTable α} {p : α → Bool} {e : α} :
    lookupFirst n t p = some e ↔
      ∃ i, i < n ∧ t i = some e ∧ p e ∧ ∀ j e', j < i → t j = some e' → p e' = false := by
  unfold lookupFirst
  rw [findSome?_range_eq_some_iff]
  constructor
  · rintro ⟨i, hi, he, hpre⟩
    obtain ⟨hti, hp⟩ := Option.filter_eq_some_iff.mp he
    refine ⟨i, hi, hti, hp, fun j e' hj hte' => ?_⟩
    have hnone := hpre j hj
    rw [hte', Option.filter_eq_none_iff] at hnone
    simpa using hnone e' rfl
  · rintro ⟨i, hi, hti, hp, hpre⟩
    refine ⟨i, hi, Option.filter_eq_some_iff.mpr ⟨hti, hp⟩, fun j hj => ?_⟩
    rw [Option.filter_eq_none_iff]
    intro e' hte'
    simp [hpre j e' hj hte']

end Lib
end VeraCrypt
